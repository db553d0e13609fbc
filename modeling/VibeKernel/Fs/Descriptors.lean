import VibeKernel.Fs.File
import VibeKernel.Fs.StreamUse

/-!
# The descriptor table

`FsInv B s` says how the structures of the file system hang together: a mounted disk has a mount
whose boot sector satisfies `B` and whose stream is one of that disk, and an entry of the descriptor
table points at a descriptor with the number of its slot, whose disk is mounted and whose file
structure is its own.

What the calls do to the table is seen through `openFile s slot`: the disk and the
`fat_file_descriptor` of an open slot. The changes of the state that the calls are made of are
gone through one by one: each keeps `FsInv`, and either leaves `openFile` alone or changes it at one
slot.
-/

namespace VibeKernel

open Verif

variable {H D : Type}

/-- The same structure, except for the position of a stream. -/
def Obj.Alike : Obj → Obj → Prop
  | .stream x, .stream y => x.diskId = y.diskId
  | o, o' => o = o'

theorem Obj.Alike.refl (o : Obj) : o.Alike o := by
  cases o <;> rfl

theorem Obj.Alike.eq_or (o o' : Obj) (h : o.Alike o') :
    o = o' ∨ ∃ x y, o = .stream x ∧ o' = .stream y ∧ x.diskId = y.diskId := by
  cases o with
  | stream x =>
    cases o' with
    | stream y => exact Or.inr ⟨x, y, rfl, rfl, h⟩
    | _ => cases h
  | _ => exact Or.inl h

/-- A structure that a mounted disk has, or has had. -/
def Obj.IsMount : Obj → Prop
  | .mount _ => True
  | .stream _ => True
  | _ => False

theorem Obj.Alike.isMount {o o' : Obj} (h : o.Alike o') (ho : o.IsMount) : o'.IsMount := by
  rcases Obj.Alike.eq_or o o' h with rfl | ⟨x, y, rfl, rfl, -⟩
  · exact ho
  · trivial

theorem Obj.IsMount.kind {o : Obj} (ho : o.IsMount) : o.kind = .fs := by
  cases o with
  | mount => rfl
  | stream => rfl
  | _ => cases ho

/-- The blocks of mounts are still such blocks. -/
def MountsKept (s t : Kernel H D) : Prop :=
  ∀ p o, s.store p = some o → o.IsMount → ∃ o', t.store p = some o' ∧ o'.IsMount

theorem MountsKept.refl (s : Kernel H D) : MountsKept s s := fun _ o hp ho => ⟨o, hp, ho⟩

theorem MountsKept.trans {s t u : Kernel H D} (h : MountsKept s t) (h' : MountsKept t u) :
    MountsKept s u := by
  intro p o hp ho
  obtain ⟨o₁, hp₁, ho₁⟩ := h p o hp ho
  exact h' p o₁ hp₁ ho₁

/-- The structures of the file system are alike and its static variables are the same. -/
structure KeepsFs (s t : Kernel H D) : Prop where
  fs : t.fs = s.fs
  objs : ∀ p o, s.store p = some o → o.kind = .fs → ∃ o', t.store p = some o' ∧ o.Alike o'

theorem KeepsFs.refl (s : Kernel H D) : KeepsFs s s where
  fs := rfl
  objs _ o h _ := ⟨o, h, Obj.Alike.refl o⟩

theorem KeepsFs.trans {s t u : Kernel H D} (h : KeepsFs s t) (h' : KeepsFs t u) : KeepsFs s u where
  fs := h'.fs.trans h.fs
  objs p o hp hk := by
    obtain ⟨o₁, hp₁, h₁⟩ := h.objs p o hp hk
    rcases Obj.Alike.eq_or o o₁ h₁ with rfl | ⟨x, y, rfl, rfl, hxy⟩
    · exact h'.objs p o hp₁ hk
    · obtain ⟨o₂, hp₂, h₂⟩ := h'.objs p _ hp₁ rfl
      rcases Obj.Alike.eq_or _ _ h₂ with rfl | ⟨y', z, hy, rfl, hyz⟩
      · exact ⟨_, hp₂, hxy⟩
      · cases hy
        exact ⟨_, hp₂, hxy.trans hyz⟩

/-- A step that frames the file system keeps it. -/
theorem Frame.keepsFs {M : Machine H D} {K : Kind → Prop} {s t : Kernel H D} (hF : Frame K s t)
    (hA : ArenaInv M s) (hK : ¬ K .fs) : KeepsFs s t where
  fs := (hF.fs hK).1
  objs _ o hp hk := ⟨o, hF.store_eq hA hp (hk ▸ hK), Obj.Alike.refl o⟩

/-- A store that only has new structures. -/
theorem KeepsFs.of_store {s t : Kernel H D} (hfs : t.fs = s.fs)
    (hstore : ∀ p o, s.store p = some o → t.store p = some o) : KeepsFs s t where
  fs := hfs
  objs p o hp _ := ⟨o, hstore p o hp, Obj.Alike.refl o⟩

/-! ### The invariant -/

/-- The mount of the disk `i` at `p`. -/
structure MountAt (B : ℕ → FatBootSector → Prop) (s : Kernel H D) (i p : ℕ) (m : FatPrivate)
    (x : DiskStream) : Prop where
  mount : s.store p = some (.mount m)
  boot : B i m.bpb
  stream : s.store m.stream = some (.stream x)
  diskId : x.diskId = i

/-- The descriptor of an open slot at `p`. -/
structure OpenAt (s : Kernel H D) (slot p : ℕ) (fd : FileDescriptor) (f : FatFileDescriptor) :
    Prop where
  slot_lt : slot < maxFileDescriptors
  descriptor : s.store p = some (.descriptor fd)
  index : fd.index = slot + 1
  file : s.store fd.priv = some (.file f)

/-- The structures of the file system. -/
structure FsInv (B : ℕ → FatBootSector → Prop) (s : Kernel H D) : Prop where
  registered : s.fs.filesystems = some .fat16 :: List.replicate 11 none
  mounted : ∀ i, s.fs.fsPrivate i ≠ 0 → ∃ m x, MountAt B s i (s.fs.fsPrivate i) m x
  opened : ∀ slot, s.fs.fileDescriptors slot ≠ 0 →
    ∃ fd f, OpenAt s slot (s.fs.fileDescriptors slot) fd f ∧ s.fs.fsPrivate fd.disk ≠ 0
  /-- No two slots share a file structure. -/
  own : ∀ slot slot' fd fd', s.fs.fileDescriptors slot ≠ 0 → s.fs.fileDescriptors slot' ≠ 0 →
    s.store (s.fs.fileDescriptors slot) = some (.descriptor fd) →
    s.store (s.fs.fileDescriptors slot') = some (.descriptor fd') → fd.priv = fd'.priv →
    slot = slot'

/-- The disk and the file of an open slot. -/
def Kernel.openFile (s : Kernel H D) (slot : ℕ) : Option (ℕ × FatFileDescriptor) :=
  if s.fs.fileDescriptors slot = 0 then none
  else ((s.store (s.fs.fileDescriptors slot)).bind Obj.asDescriptor).bind fun fd =>
    ((s.store fd.priv).bind Obj.asFile).map fun f => (fd.disk, f)

section Invariant

variable {B : ℕ → FatBootSector → Prop} {s t : Kernel H D}

theorem FsInv.boot (h : H) (d : D) : FsInv B (Kernel.boot h d) where
  registered := rfl
  mounted _ hi := absurd rfl hi
  opened _ hslot := absurd rfl hslot
  own _ _ _ _ hslot := absurd rfl hslot

theorem OpenAt.openFile_eq {slot : ℕ} {fd : FileDescriptor} {f : FatFileDescriptor}
    (h : OpenAt s slot (s.fs.fileDescriptors slot) fd f) (h0 : s.fs.fileDescriptors slot ≠ 0) :
    s.openFile slot = some (fd.disk, f) := by
  unfold Kernel.openFile
  rw [if_neg h0, h.descriptor]
  change ((s.store fd.priv).bind Obj.asFile).map _ = _
  rw [h.file]
  rfl

/-- A slot is open exactly if its entry of the table is set. -/
theorem FsInv.openFile_none_iff (hI : FsInv B s) {slot : ℕ} :
    s.openFile slot = none ↔ s.fs.fileDescriptors slot = 0 := by
  constructor
  · intro h
    by_contra h0
    obtain ⟨fd, f, hopen, -⟩ := hI.opened slot h0
    rw [hopen.openFile_eq h0] at h
    cases h
  · intro h0
    unfold Kernel.openFile
    rw [if_pos h0]

/-- The descriptor behind an open slot. -/
theorem FsInv.openAt (hI : FsInv B s) {slot i : ℕ} {f : FatFileDescriptor}
    (h : s.openFile slot = some (i, f)) :
    s.fs.fileDescriptors slot ≠ 0 ∧ s.fs.fsPrivate i ≠ 0 ∧
      ∃ fd, fd.disk = i ∧ OpenAt s slot (s.fs.fileDescriptors slot) fd f := by
  have h0 : s.fs.fileDescriptors slot ≠ 0 := by
    intro h0
    rw [hI.openFile_none_iff.mpr h0] at h
    cases h
  obtain ⟨fd, f', hopen, hmount⟩ := hI.opened slot h0
  rw [hopen.openFile_eq h0] at h
  cases h
  exact ⟨h0, hmount, fd, rfl, hopen⟩

/-! ### Changes that keep the structures alike -/

theorem OpenAt.keep (hK : KeepsFs s t) {slot p : ℕ} {fd : FileDescriptor} {f : FatFileDescriptor}
    (h : OpenAt s slot p fd f) : OpenAt t slot p fd f := by
  obtain ⟨o, ho, hd⟩ := hK.objs _ _ h.descriptor rfl
  obtain ⟨o', ho', hf⟩ := hK.objs _ _ h.file rfl
  cases o <;> cases hd
  cases o' <;> cases hf
  exact ⟨h.slot_lt, ho, h.index, ho'⟩

theorem MountAt.keep (hK : KeepsFs s t) {i p : ℕ} {m : FatPrivate} {x : DiskStream}
    (h : MountAt B s i p m x) : ∃ x', MountAt B t i p m x' := by
  obtain ⟨o, ho, hm⟩ := hK.objs _ _ h.mount rfl
  obtain ⟨o', ho', hx⟩ := hK.objs _ _ h.stream rfl
  cases o <;> cases hm
  cases o' with
  | stream y => exact ⟨y, ho, h.boot, ho', (Eq.symm hx).trans h.diskId⟩
  | _ => cases hx

/-- **What keeps the structures alike keeps the invariant and the open files.** -/
theorem KeepsFs.inv (hK : KeepsFs s t) (hI : FsInv B s) :
    FsInv B t ∧ t.openFile = s.openFile := by
  -- the descriptor of an open slot is the one it was
  have hback : ∀ slot fd, s.fs.fileDescriptors slot ≠ 0 →
      t.store (s.fs.fileDescriptors slot) = some (.descriptor fd) →
      s.store (s.fs.fileDescriptors slot) = some (.descriptor fd) := by
    intro slot fd h0 hfd
    obtain ⟨fd', f', hopen', -⟩ := hI.opened slot h0
    rw [(hopen'.keep hK).descriptor] at hfd
    rw [hopen'.descriptor]
    exact hfd
  constructor
  · exact
      { registered := by
          rw [hK.fs]
          exact hI.registered
        mounted := by
          intro i hi
          rw [hK.fs] at hi ⊢
          obtain ⟨m, x, hmount⟩ := hI.mounted i hi
          obtain ⟨x', hmount'⟩ := hmount.keep hK
          exact ⟨m, x', hmount'⟩
        opened := by
          intro slot h0
          rw [hK.fs] at h0 ⊢
          obtain ⟨fd, f, hopen, hm⟩ := hI.opened slot h0
          exact ⟨fd, f, hopen.keep hK, hm⟩
        own := by
          intro slot slot' fd fd' h0 h0' hfd hfd' hpriv
          rw [hK.fs] at h0 h0' hfd hfd'
          exact hI.own slot slot' fd fd' h0 h0' (hback slot fd h0 hfd) (hback slot' fd' h0' hfd')
            hpriv }
  · funext slot
    by_cases h0 : s.fs.fileDescriptors slot = 0
    · unfold Kernel.openFile
      rw [hK.fs, if_pos h0, if_pos h0]
    · obtain ⟨fd, f, hopen, -⟩ := hI.opened slot h0
      rw [hopen.openFile_eq h0]
      have hkept : OpenAt t slot (t.fs.fileDescriptors slot) fd f := by
        rw [hK.fs]
        exact hopen.keep hK
      exact hkept.openFile_eq (by rw [hK.fs]; exact h0)

/-- A stream moves. -/
theorem KeepsFs.putStream {p : ℕ} {x x' : DiskStream} (h : s.store p = some (.stream x))
    (hx : x'.diskId = x.diskId) : KeepsFs s (s.put p (.stream x')) where
  fs := rfl
  objs q o hq hk := by
    by_cases hqp : q = p
    · rw [hqp] at hq ⊢
      rw [h] at hq
      cases hq
      exact ⟨_, Kernel.put_store_self, hx.symm⟩
    · rw [Kernel.put_store_ne hqp]
      exact ⟨o, hq, Obj.Alike.refl o⟩

/-- A structure is written where there was none. -/
theorem KeepsFs.putNew {p : ℕ} {o : Obj} (h : s.store p = none) : KeepsFs s (s.put p o) := by
  refine KeepsFs.of_store rfl fun q o' hq => ?_
  rw [Kernel.put_store_ne]
  · exact hq
  · rintro rfl
    rw [h] at hq
    cases hq

/-! ### Changes of one slot -/

/-- **One slot of the table changes.** The mounts and the other open slots stay, and the slot is
empty or open with a file structure that no other slot has. -/
theorem FsInv.changeSlot (hI : FsInv B s) {slot v : ℕ} {r : Option (ℕ × FatFileDescriptor)}
    (hfs : t.fs = { s.fs with fileDescriptors := Function.update s.fs.fileDescriptors slot v })
    (hmounts : ∀ i p m x, MountAt B s i p m x → ∃ x', MountAt B t i p m x')
    (hothers : ∀ slot' fd f, slot' ≠ slot → s.fs.fileDescriptors slot' ≠ 0 →
      OpenAt s slot' (s.fs.fileDescriptors slot') fd f →
      OpenAt t slot' (s.fs.fileDescriptors slot') fd f)
    (hslot : (v = 0 ∧ r = none) ∨ (v ≠ 0 ∧ ∃ fd f, OpenAt t slot v fd f ∧
      s.fs.fsPrivate fd.disk ≠ 0 ∧ r = some (fd.disk, f) ∧
      ∀ slot' fd' f', slot' ≠ slot → s.fs.fileDescriptors slot' ≠ 0 →
        OpenAt s slot' (s.fs.fileDescriptors slot') fd' f' → fd'.priv ≠ fd.priv)) :
    FsInv B t ∧ t.openFile = Function.update s.openFile slot r := by
  have hpriv : t.fs.fsPrivate = s.fs.fsPrivate := by rw [hfs]
  have hself : t.fs.fileDescriptors slot = v := by
    rw [hfs]
    exact Function.update_self _ _ _
  have hne : ∀ slot', slot' ≠ slot →
      t.fs.fileDescriptors slot' = s.fs.fileDescriptors slot' := by
    intro slot' h
    rw [hfs]
    exact Function.update_of_ne h _ _
  -- the other open slots, with their descriptors
  have hother : ∀ slot', slot' ≠ slot → s.fs.fileDescriptors slot' ≠ 0 →
      ∃ fd f, OpenAt s slot' (s.fs.fileDescriptors slot') fd f ∧
        OpenAt t slot' (s.fs.fileDescriptors slot') fd f ∧ s.fs.fsPrivate fd.disk ≠ 0 := by
    intro slot' h h0
    obtain ⟨fd, f, hopen, hm⟩ := hI.opened slot' h0
    exact ⟨fd, f, hopen, hothers slot' fd f h h0 hopen, hm⟩
  constructor
  · exact
      { registered := by
          rw [hfs]
          exact hI.registered
        mounted := by
          intro i hi
          rw [hpriv] at hi ⊢
          obtain ⟨m, x, hmount⟩ := hI.mounted i hi
          exact ⟨m, hmounts i _ m x hmount⟩
        opened := by
          intro slot' h0
          rw [hpriv]
          by_cases h : slot' = slot
          · rw [h, hself] at h0 ⊢
            rcases hslot with ⟨hv, -⟩ | ⟨-, fd, f, hopen, hm, -, -⟩
            · exact absurd hv h0
            · exact ⟨fd, f, hopen, hm⟩
          · rw [hne slot' h] at h0 ⊢
            obtain ⟨fd, f, -, hopen, hm⟩ := hother slot' h h0
            exact ⟨fd, f, hopen, hm⟩
        own := by
          intro a b fd fd' ha hb hfd hfd' hp
          by_cases haslot : a = slot
          · by_cases hbslot : b = slot
            · exact haslot.trans hbslot.symm
            · -- the slot that changed against another one
              rw [haslot, hself] at ha hfd
              rw [hne b hbslot] at hb hfd'
              rcases hslot with ⟨hv, -⟩ | ⟨-, fd₁, f₁, hopen, -, -, hfresh⟩
              · exact absurd hv ha
              · obtain ⟨fd₂, f₂, hold, hnew, -⟩ := hother b hbslot hb
                have h₁ := hopen.descriptor.symm.trans hfd
                have h₂ := hnew.descriptor.symm.trans hfd'
                cases h₁
                cases h₂
                exact absurd hp.symm (hfresh b _ f₂ hbslot hb hold)
          · rw [hne a haslot] at ha hfd
            obtain ⟨fd₁, f₁, hold, hnew, -⟩ := hother a haslot ha
            have h₁ := hnew.descriptor.symm.trans hfd
            cases h₁
            by_cases hbslot : b = slot
            · rw [hbslot, hself] at hb hfd'
              rcases hslot with ⟨hv, -⟩ | ⟨-, fd₂, f₂, hopen, -, -, hfresh⟩
              · exact absurd hv hb
              · have h₂ := hopen.descriptor.symm.trans hfd'
                cases h₂
                exact absurd hp (hfresh a _ f₁ haslot ha hold)
            · rw [hne b hbslot] at hb hfd'
              obtain ⟨fd₂, f₂, hold', hnew', -⟩ := hother b hbslot hb
              have h₂ := hnew'.descriptor.symm.trans hfd'
              cases h₂
              exact hI.own a b _ _ ha hb hold.descriptor hold'.descriptor hp }
  · funext slot'
    by_cases h : slot' = slot
    · rw [h, Function.update_self]
      rcases hslot with ⟨rfl, rfl⟩ | ⟨hv, fd, f, hopen, -, rfl, -⟩
      · unfold Kernel.openFile
        rw [if_pos hself]
      · exact OpenAt.openFile_eq (hself.symm ▸ hopen) (hself.symm ▸ hv)
    · rw [Function.update_of_ne h]
      by_cases h0 : s.fs.fileDescriptors slot' = 0
      · unfold Kernel.openFile
        rw [hne slot' h, if_pos h0, if_pos h0]
      · obtain ⟨fd, f, hold, hnew, -⟩ := hother slot' h h0
        rw [hold.openFile_eq h0]
        have hnew' : OpenAt t slot' (t.fs.fileDescriptors slot') fd f := by
          rw [hne slot' h]
          exact hnew
        exact hnew'.openFile_eq (by rw [hne slot' h]; exact h0)

/-- A structure at another address than those of a mount or of an open slot. -/
theorem MountAt.of_store (hM : ∀ q o, s.store q = some o → (∀ f, o ≠ .file f) →
    (∀ d, o ≠ .descriptor d) → t.store q = some o) {i p : ℕ} {m : FatPrivate} {x : DiskStream}
    (h : MountAt B s i p m x) : MountAt B t i p m x :=
  ⟨hM _ _ h.mount (by simp) (by simp), h.boot, hM _ _ h.stream (by simp) (by simp), h.diskId⟩

/-- The file structure of an open slot is overwritten. -/
theorem FsInv.putFile (hI : FsInv B s) {slot : ℕ} {fd : FileDescriptor}
    {f : FatFileDescriptor} (h0 : s.fs.fileDescriptors slot ≠ 0)
    (hopen : OpenAt s slot (s.fs.fileDescriptors slot) fd f) (f' : FatFileDescriptor) :
    FsInv B (s.put fd.priv (.file f')) ∧
      (s.put fd.priv (.file f')).openFile =
        Function.update s.openFile slot (some (fd.disk, f')) := by
  have hkind : ∀ q o, s.store q = some o → (∀ g, o ≠ .file g) →
      (s.put fd.priv (.file f')).store q = some o := by
    intro q o hq hne
    rw [Kernel.put_store_ne]
    · exact hq
    · rintro rfl
      rw [hopen.file] at hq
      cases hq
      exact hne f rfl
  obtain ⟨fd₁, f₁, hopen₁, hm⟩ := hI.opened slot h0
  have hfd := hopen₁.descriptor.symm.trans hopen.descriptor
  cases hfd
  refine hI.changeSlot (v := s.fs.fileDescriptors slot) ?_ ?_ ?_
    (Or.inr ⟨h0, fd, f', ?_, hm, rfl, ?_⟩)
  · rw [Function.update_eq_self]
    rfl
  · exact fun i p m x h => ⟨x, h.of_store fun q o hq hf _ => hkind q o hq hf⟩
  · intro slot' fd' g hne h0' h
    refine ⟨h.slot_lt, hkind _ _ h.descriptor (by simp), h.index, ?_⟩
    rw [Kernel.put_store_ne]
    · exact h.file
    · exact fun hp => hne (hI.own slot' slot fd' fd h0' h0 h.descriptor hopen.descriptor hp)
  · exact ⟨hopen.slot_lt, hkind _ _ hopen.descriptor (by simp), hopen.index, Kernel.put_store_self⟩
  · exact fun slot' fd' _ hne h0' h hp =>
      hne (hI.own slot' slot fd' fd h0' h0 h.descriptor hopen.descriptor hp)

/-- A free slot is filled with a new descriptor of a new file. -/
theorem FsInv.fillSlot (hI : FsInv B s) {slot p : ℕ} {fd : FileDescriptor}
    {f : FatFileDescriptor} (hp : p ≠ 0) (hopen : OpenAt s slot p fd f)
    (hm : s.fs.fsPrivate fd.disk ≠ 0)
    (hnew : ∀ slot' fd' f', s.fs.fileDescriptors slot' ≠ 0 →
      OpenAt s slot' (s.fs.fileDescriptors slot') fd' f' → fd'.priv ≠ fd.priv) :
    let t := { s with
      fs := { s.fs with fileDescriptors := Function.update s.fs.fileDescriptors slot p } }
    FsInv B t ∧ t.openFile = Function.update s.openFile slot (some (fd.disk, f)) := by
  intro t
  have hkeep : ∀ {sl q : ℕ} {d : FileDescriptor} {g : FatFileDescriptor}, OpenAt s sl q d g →
      OpenAt t sl q d g := fun h => ⟨h.slot_lt, h.descriptor, h.index, h.file⟩
  refine hI.changeSlot (v := p) rfl ?_ (fun _ _ _ _ _ h => hkeep h)
    (Or.inr ⟨hp, fd, f, hkeep hopen, hm, rfl, fun slot' fd' f' _ h0 h => hnew slot' fd' f' h0 h⟩)
  exact fun i q m x h => ⟨x, h.mount, h.boot, h.stream, h.diskId⟩

/-- An open slot is emptied and its structures are gone. -/
theorem FsInv.clearSlot (hI : FsInv B s) {slot : ℕ} {fd : FileDescriptor}
    {f : FatFileDescriptor} (h0 : s.fs.fileDescriptors slot ≠ 0)
    (hopen : OpenAt s slot (s.fs.fileDescriptors slot) fd f)
    (hfs : t.fs = { s.fs with fileDescriptors := Function.update s.fs.fileDescriptors slot 0 })
    (hstore : ∀ q, q ≠ s.fs.fileDescriptors slot → q ≠ fd.priv → t.store q = s.store q) :
    FsInv B t ∧ t.openFile = Function.update s.openFile slot none := by
  refine hI.changeSlot (v := 0) hfs ?_ ?_ (Or.inl ⟨rfl, rfl⟩)
  · intro i p m x h
    refine ⟨x, h.of_store fun q o hq hf hd => ?_⟩
    rw [hstore q]
    · exact hq
    · rintro rfl
      exact hd fd (Option.some.inj (hq.symm.trans hopen.descriptor))
    · rintro rfl
      exact hf f (Option.some.inj (hq.symm.trans hopen.file))
  · intro slot' fd' g hne h0' h
    have hfiles : fd'.priv ≠ fd.priv := fun hp =>
      hne (hI.own slot' slot fd' fd h0' h0 h.descriptor hopen.descriptor hp)
    have hslots : s.fs.fileDescriptors slot' ≠ s.fs.fileDescriptors slot := by
      intro heq
      have hd := h.descriptor
      rw [heq, hopen.descriptor] at hd
      cases hd
      have := h.index.symm.trans hopen.index
      omega
    refine ⟨h.slot_lt, ?_, h.index, ?_⟩
    · rw [hstore _ hslots]
      · exact h.descriptor
      · intro hp
        have hd := h.descriptor
        rw [hp, hopen.file] at hd
        cases hd
    · rw [hstore _ ?_ hfiles]
      · exact h.file
      · intro hp
        have hf := h.file
        rw [hp, hopen.descriptor] at hf
        cases hf

/-- A mount replaces that of its disk. -/
theorem FsInv.setMount (hI : FsInv B s) {i p : ℕ} {m : FatPrivate} {x : DiskStream} (hp : p ≠ 0)
    (hmount : MountAt B s i p m x) :
    let t := { s with fs := { s.fs with fsPrivate := Function.update s.fs.fsPrivate i p } }
    FsInv B t ∧ t.openFile = s.openFile := by
  intro t
  refine ⟨?_, rfl⟩
  exact
    { registered := hI.registered
      mounted := by
        intro j hj
        by_cases hji : j = i
        · subst hji
          refine ⟨m, x, ?_⟩
          change MountAt B t j (Function.update s.fs.fsPrivate j p j) m x
          rw [Function.update_self]
          exact ⟨hmount.mount, hmount.boot, hmount.stream, hmount.diskId⟩
        · change Function.update s.fs.fsPrivate i p j ≠ 0 at hj
          change ∃ m x, MountAt B t j (Function.update s.fs.fsPrivate i p j) m x
          rw [Function.update_of_ne hji] at hj ⊢
          obtain ⟨m', x', h⟩ := hI.mounted j hj
          exact ⟨m', x', h.mount, h.boot, h.stream, h.diskId⟩
      opened := by
        intro slot h0
        obtain ⟨fd, f, hopen, hm⟩ := hI.opened slot h0
        refine ⟨fd, f, ⟨hopen.slot_lt, hopen.descriptor, hopen.index, hopen.file⟩, ?_⟩
        change Function.update s.fs.fsPrivate i p fd.disk ≠ 0
        by_cases hd : fd.disk = i
        · rw [hd, Function.update_self]
          exact hp
        · rw [Function.update_of_ne hd]
          exact hm
      own := hI.own }

end Invariant

end VibeKernel
