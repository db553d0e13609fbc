import VibeKernel.Fs.Open

/-!
# Operations on open files

`fread`, `fseek`, `ftell`, `fstat` and `fclose` look a descriptor up in the table. If it names an
open file, they work on that file and on nothing else (`FileMoved`, `FileClosed`); otherwise they
answer `-1`. `fs_list` mounts a disk and leaves the table alone.
-/

namespace VibeKernel

open Verif

variable {H D : Type}

/-- The slot of the table that a file descriptor names. -/
def fdSlot (fd : ℤ) : Option ℕ :=
  if fd ≤ 0 ∨ fd > maxFileDescriptors then none else some (fd - 1).toNat

/-- The disk and the file that a file descriptor names. -/
def Kernel.entry (s : Kernel H D) (fd : ℤ) : Option (ℕ × FatFileDescriptor) :=
  (fdSlot fd).bind s.openFile

/-- The disk that `fs_list` mounts. -/
def fsListMounts (M : Machine H D) (path : CString) (d : D) : Option ℕ :=
  match pathParserGetDriveNo path with
  | none => none
  | some (i, _) => mountsDrive M i d

/-- The file in a slot, which lies on the disk `i`, is now `f`; the other files are as they were. -/
structure FileMoved (M : Machine H D) (B : ℕ → FatBootSector → Prop) (s t : Kernel H D)
    (slot i : ℕ) (f : FatFileDescriptor) : Prop where
  arena : ArenaInv M t
  inv : FsInv B t
  files : t.openFile = Function.update s.openFile slot (some (i, f))
  fs : t.fs = s.fs
  live : t.live = s.live
  frame : Frame FsKind s t
  others : ∀ p o, s.store p = some o → o.kind = .fs → (∀ g, o ≠ .file g) →
    ∃ o', t.store p = some o' ∧ o.Alike o'
  drives : M.ata.Fixed → t.drives = s.drives

/-- The slot is empty and its two blocks are free. -/
structure FileClosed (M : Machine H D) (B : ℕ → FatBootSector → Prop) (s t : Kernel H D)
    (slot : ℕ) : Prop where
  arena : ArenaInv M t
  inv : FsInv B t
  files : t.openFile = Function.update s.openFile slot none
  fs : t.fs = { s.fs with fileDescriptors := Function.update s.fs.fileDescriptors slot 0 }
  blocks : ∃ desc f, OpenAt s slot (s.fs.fileDescriptors slot) desc f ∧
    t.live = s.live.filter fun a => a.ptr ∉ [desc.priv, s.fs.fileDescriptors slot]
  frame : Frame FsKind s t
  mounts : MountsKept s t
  drives : t.drives = s.drives

theorem fdSlot_of_slot {slot : ℕ} (h : slot < maxFileDescriptors) :
    fdSlot ((slot : ℤ) + 1) = some slot := by
  unfold fdSlot
  rw [if_neg (by unfold maxFileDescriptors at *; omega)]
  simp

theorem fdSlot_eq_some {fd : ℤ} {slot : ℕ} :
    fdSlot fd = some slot ↔ fd = slot + 1 ∧ slot < maxFileDescriptors := by
  constructor
  · intro h
    unfold fdSlot at h
    split at h
    · cases h
    · cases h
      unfold maxFileDescriptors at *
      omega
  · rintro ⟨rfl, hlt⟩
    exact fdSlot_of_slot hlt

section Specs

variable {M : Machine H D} {E : Stop → Prop} {s t : Kernel H D} {B : ℕ → FatBootSector → Prop}
  {fd : ℤ}

theorem Kernel.entry_of_slot {slot : ℕ} (h : fdSlot fd = some slot) :
    s.entry fd = s.openFile slot := by
  unfold Kernel.entry
  rw [h]
  rfl

/-- **`fs_get_descriptor`** finds the descriptor of an open file. -/
theorem fsGetDescriptor_wp (hI : FsInv B s) {Q : Option (ℕ × FileDescriptor) → Kernel H D → Prop}
    (hclosed : s.entry fd = none → Q none s)
    (hopen : ∀ slot desc f, fdSlot fd = some slot → s.fs.fileDescriptors slot ≠ 0 →
      OpenAt s slot (s.fs.fileDescriptors slot) desc f → s.fs.fsPrivate desc.disk ≠ 0 →
      Q (some (s.fs.fileDescriptors slot, desc)) s) :
    wp E (fsGetDescriptor fd) Q s := by
  unfold fsGetDescriptor
  rw [wp_bind, wp_gets]
  dsimp only [id]
  by_cases hfd : fd ≤ 0 ∨ fd > maxFileDescriptors
  · rw [if_pos hfd]
    refine hclosed ?_
    unfold Kernel.entry fdSlot
    rw [if_pos hfd]
    rfl
  have hslot : fdSlot fd = some (fd - 1).toNat := by
    unfold fdSlot
    rw [if_neg hfd]
  rw [if_neg hfd]
  generalize (fd - 1).toNat = slot at hslot ⊢
  by_cases h0 : s.fs.fileDescriptors slot = 0
  · rw [if_pos h0]
    refine hclosed ?_
    rw [Kernel.entry_of_slot hslot]
    exact hI.openFile_none_iff.mpr h0
  · rw [if_neg h0, wp_bind]
    obtain ⟨desc, f, hat, hm⟩ := hI.opened slot h0
    exact readObj_wp hat.descriptor rfl (hopen slot desc f hslot h0 hat hm)

/-- Overwriting the file structure of an open slot, after moving the stream. -/
theorem FsQuiet.putFile (h : FsQuiet M s t) (hI : FsInv B s) {slot : ℕ} {desc : FileDescriptor}
    {f f' : FatFileDescriptor} (h0 : s.fs.fileDescriptors slot ≠ 0)
    (hopen : OpenAt s slot (s.fs.fileDescriptors slot) desc f) :
    FileMoved M B s (t.put desc.priv (.file f')) slot desc.disk f' := by
  obtain ⟨hIt, hfiles⟩ := h.inv hI
  have hopen' := hopen.keep (h.grows.keepsFs h.fs)
  rw [← h.fs] at h0 hopen'
  obtain ⟨hput, hfiles'⟩ := hIt.putFile h0 hopen' f'
  exact
    { arena := h.grows.arena.overwrite hopen'.file rfl
      inv := hput
      files := by rw [hfiles', hfiles]
      fs := h.fs
      live := h.grows.live
      frame := h.grows.frame.trans ((Frame.refl _ t).put (MayChange.of_store hopen'.file rfl))
      others := fun q o hq hk hno => by
        obtain ⟨o', hq', halike⟩ := h.grows.objs q o hq hk
        refine ⟨o', (Kernel.put_store_ne ?_).trans hq', halike⟩
        -- a structure that is like a file structure is one
        rintro rfl
        rw [hopen'.file] at hq'
        cases hq'
        rcases Obj.Alike.eq_or o _ halike with rfl | ⟨_, _, -, hstream, -⟩
        · exact hno _ rfl
        · cases hstream
      drives := h.grows.drives }

/-- The blocks of mounts and the descriptors stay what they are. -/
theorem FileMoved.mountsKept {slot i : ℕ} {f : FatFileDescriptor} (h : FileMoved M B s t slot i f) :
    MountsKept s t := by
  intro p o hp ho
  obtain ⟨o', hp', halike⟩ := h.others p o hp ho.kind (by rintro g rfl; cases ho)
  exact ⟨o', hp', halike.isMount ho⟩

theorem FileMoved.descriptor {slot i p : ℕ} {f : FatFileDescriptor} (h : FileMoved M B s t slot i f)
    {desc : FileDescriptor} (hp : s.store p = some (.descriptor desc)) :
    t.store p = some (.descriptor desc) := by
  obtain ⟨o', hp', halike⟩ := h.others p _ hp rfl (fun g hg => by cases hg)
  rcases Obj.Alike.eq_or _ o' halike with rfl | ⟨_, _, hstream, -, -⟩
  · exact hp'
  · cases hstream

/-- **`fread`** on a descriptor. -/
theorem fread_wp (hA : ArenaInv M s) (hI : FsInv B s) {size nmemb : ℕ}
    {Q : ℤ × List UInt8 → Kernel H D → Prop} (hclosed : s.entry fd = none → Q (-1, []) s)
    (hopen : ∀ slot i f bpb, fdSlot fd = some slot → s.openFile slot = some (i, f) → B i bpb →
      (∀ e, fat16Read M.ata bpb size nmemb f ⟨0, i⟩ s.drives = .error e → E e) ∧
      ∀ res f' x, fat16Read M.ata bpb size nmemb f ⟨0, i⟩ s.drives = .ok (res, f', x) →
        ∀ t, FileMoved M B s t slot i f' → Q res t) :
    wp E (fread M size nmemb fd) Q s := by
  unfold fread
  rw [wp_bind]
  refine fsGetDescriptor_wp hI hclosed fun slot desc f hslot h0 hat hm => ?_
  obtain ⟨m, x, hmount⟩ := hI.mounted desc.disk hm
  obtain ⟨herr, hok⟩ := hopen slot desc.disk f m.bpb hslot (hat.openFile_eq h0) hmount.boot
  have hsame := @fat16Read_same _ M.ata desc.disk m.bpb x ⟨0, desc.disk⟩ hmount.diskId rfl size
    nmemb f s.drives
  dsimp only
  unfold fat16ReadAt
  rw [wp_bind]
  refine diskMount_wp hmount ?_
  rw [wp_bind]
  refine readObj_wp hat.file rfl ?_
  rw [wp_bind]
  refine withStream_wp hA hmount.stream (fun e he => ?_) fun r x' d' hread => ?_
  · -- wherever the stream is, the read fails in the same way
    generalize fat16Read M.ata m.bpb size nmemb f ⟨0, desc.disk⟩ s.drives = y at hsame herr
    cases hx : fat16Read M.ata m.bpb size nmemb f x s.drives with
    | ok r => rw [hx] at he; cases he
    | error e' =>
      rw [hx] at he hsame
      cases he
      cases y with
      | ok y => exact hsame.elim
      | error e'' => exact herr _ (by rw [hsame.1])
  · generalize fat16Read M.ata m.bpb size nmemb f ⟨0, desc.disk⟩ s.drives = y at hsame hok
    cases hx : fat16Read M.ata m.bpb size nmemb f x s.drives with
    | error e => rw [hx] at hread; cases hread
    | ok z =>
      obtain ⟨res, f', x'', d''⟩ := z
      rw [hx] at hread hsame
      cases hread
      cases y with
      | error e => exact hsame.elim
      | ok y =>
        obtain ⟨res₁, f₁, x₁, d₁⟩ := y
        obtain ⟨hres, hf, -, hkeeps, -⟩ := hsame
        cases hres
        cases hf
        have hquiet : FsQuiet M s ({ s with drives := d' }.put m.stream (.stream x')) :=
          ⟨FsGrows.streamed hA hmount.stream hmount.diskId hkeeps, rfl⟩
        have hfile := (hat.keep (hquiet.grows.keepsFs rfl)).file
        rw [wp_bind]
        refine overwrite_wp hquiet.grows.arena hfile rfl ?_
        exact hok _ _ _ rfl _ (hquiet.putFile hI h0 hat)

/-- **`fseek`** on a descriptor. -/
theorem fseek_wp (hA : ArenaInv M s) (hI : FsInv B s) {offset : ℤ} {whence : FileSeekMode}
    {Q : ℤ → Kernel H D → Prop} (hclosed : s.entry fd = none → Q (-1) s)
    (hopen : ∀ slot i f, fdSlot fd = some slot → s.openFile slot = some (i, f) →
      ∀ t, FileMoved M B s t slot i (fat16Seek f offset whence).2 →
        Q (fat16Seek f offset whence).1 t) :
    wp E (fseek fd offset whence) Q s := by
  unfold fseek
  rw [wp_bind]
  refine fsGetDescriptor_wp hI hclosed fun slot desc f hslot h0 hat hm => ?_
  dsimp only
  unfold fat16SeekAt
  rw [wp_bind]
  refine readObj_wp hat.file rfl ?_
  rw [wp_bind]
  refine overwrite_wp hA hat.file rfl ?_
  rw [wp_pure]
  exact hopen slot _ f hslot (hat.openFile_eq h0) _ ((FsQuiet.refl hA).putFile hI h0 hat)

/-- **`ftell`** on a descriptor. -/
theorem ftell_wp (hI : FsInv B s) {Q : ℤ → Kernel H D → Prop}
    (hclosed : s.entry fd = none → Q (-1) s)
    (hopen : ∀ slot i f, fdSlot fd = some slot → s.openFile slot = some (i, f) →
      Q (fat16Tell f) s) :
    wp E (ftell fd : KM H D ℤ) Q s := by
  unfold ftell
  rw [wp_bind]
  refine fsGetDescriptor_wp hI hclosed fun slot desc f hslot h0 hat hm => ?_
  dsimp only
  rw [wp_bind]
  refine readObj_wp hat.file rfl ?_
  exact hopen slot _ f hslot (hat.openFile_eq h0)

/-- **`fstat`** on a descriptor. -/
theorem fstat_wp (hI : FsInv B s) {Q : ℤ × Option FileStat → Kernel H D → Prop}
    (hclosed : s.entry fd = none → Q (-1, none) s)
    (hopen : ∀ slot i f, fdSlot fd = some slot → s.openFile slot = some (i, f) →
      Q (0, some (fat16Stat f)) s) :
    wp E (fstat fd : KM H D (ℤ × Option FileStat)) Q s := by
  unfold fstat
  rw [wp_bind]
  refine fsGetDescriptor_wp hI hclosed fun slot desc f hslot h0 hat hm => ?_
  dsimp only
  rw [wp_bind]
  refine readObj_wp hat.file rfl ?_
  exact hopen slot _ f hslot (hat.openFile_eq h0)

/-- Freeing the two blocks of an open slot and clearing it. -/
theorem FileClosed.of_freed (hA : ArenaInv M s) (hI : FsInv B s) {slot : ℕ} {desc : FileDescriptor}
    {f : FatFileDescriptor} (h0 : s.fs.fileDescriptors slot ≠ 0)
    (hat : OpenAt s slot (s.fs.fileDescriptors slot) desc f) :
    FileClosed M B s (Kernel.freed M { s.freed M desc.priv with
      fs := { s.fs with fileDescriptors := Function.update s.fs.fileDescriptors slot 0 } }
      (s.fs.fileDescriptors slot)) slot := by
  set p := s.fs.fileDescriptors slot with hp
  set fs := { s.fs with fileDescriptors := Function.update s.fs.fileDescriptors slot 0 } with hfs
  set u := { s.freed M desc.priv with fs := fs } with hu
  -- the two blocks hold different structures
  have hne : p ≠ desc.priv := by
    intro h
    have hfile := hat.file
    rw [← h, hat.descriptor] at hfile
    cases hfile
  have hAu : ArenaInv M u := by
    have h := hA.freed (p := desc.priv)
    exact ⟨h.low, h.high, h.apart, h.stored⟩
  have hup : u.store p = some (.descriptor desc) :=
    (Kernel.freed_store_ne (M := M) hne).trans hat.descriptor
  -- all other structures stay
  have hstore : ∀ q, q ≠ p → q ≠ desc.priv → (u.freed M p).store q = s.store q := fun q hqp hqf =>
    (Kernel.freed_store_ne hqp).trans (Kernel.freed_store_ne (M := M) hqf)
  obtain ⟨hinv, hfiles⟩ := hI.clearSlot (t := u.freed M p) h0 hat rfl hstore
  have hframe : Frame FsKind s (s.freed M desc.priv) :=
    (Frame.refl _ s).freed (MayChange.of_store hat.file rfl)
  have hframe' : Frame FsKind s u :=
    ⟨hframe.blocks, fun h => absurd rfl h, hframe.proc, hframe.tasks⟩
  exact
    { arena := hAu.freed
      inv := hinv
      files := hfiles
      fs := rfl
      blocks := by
        refine ⟨desc, f, hat, ?_⟩
        change (s.live.filter fun a => a.ptr ≠ desc.priv).filter (fun a => a.ptr ≠ p) = _
        rw [List.filter_filter]
        refine List.filter_congr fun a _ => ?_
        simp only [List.mem_cons, List.not_mem_nil, or_false, not_or, Bool.decide_and]
        exact Bool.and_comm _ _
      frame := hframe'.trans ((Frame.refl _ u).freed (MayChange.of_store hup rfl))
      mounts := fun q o hq ho => by
        refine ⟨o, (hstore q ?_ ?_).trans hq, ho⟩
        · rintro rfl
          rw [hat.descriptor] at hq
          cases hq
          cases ho
        · rintro rfl
          rw [hat.file] at hq
          cases hq
          cases ho
      drives := rfl }

/-- **`fclose`** on a descriptor. -/
theorem fclose_wp (hA : ArenaInv M s) (hI : FsInv B s) {Q : ℤ → Kernel H D → Prop}
    (hclosed : s.entry fd = none → Q (-1) s)
    (hopen : ∀ slot i f, fdSlot fd = some slot → s.openFile slot = some (i, f) →
      ∀ t, FileClosed M B s t slot → Q 0 t) :
    wp E (fclose M fd) Q s := by
  unfold fclose
  rw [wp_bind]
  refine fsGetDescriptor_wp hI hclosed fun slot desc f hslot h0 hat hm => ?_
  dsimp only
  have hpriv : desc.priv ≠ 0 := hA.ne_zero hat.file
  rw [wp_bind]
  refine kfree_wp (fun h => absurd h hpriv) fun _ => ?_
  rw [wp_bind, wp_modify, wp_bind]
  refine kfree_wp (fun h => absurd h h0) fun _ => ?_
  rw [wp_pure, hat.index, Nat.add_sub_cancel]
  exact hopen slot _ f hslot (hat.openFile_eq h0) _ (FileClosed.of_freed hA hI h0 hat)

/-! ### Listing a directory -/

/-- `fs_list` on a parsed path mounts the disk and changes no file. -/
theorem fsListParsed_wp (hE : ∀ e, e.AllocFails → E e) (hA : ArenaInv M s) (hI : FsInv B s)
    {root : PathRoot}
    (hB : ∀ bpb, bootSector M root.driveNo s.drives = .inr bpb → B root.driveNo bpb)
    {Q : ℤ × CString → Kernel H D → Prop}
    (hQ : ∀ res text t, FopenPost M B s (.ok (.inl res))
      (mountsDrive M root.driveNo s.drives) res t → Q (res, text) t) :
    wp E (fsListParsed M root) Q s := by
  unfold fsListParsed
  unfold mountsDrive at hQ
  by_cases hi : root.driveNo > 1
  · rw [if_pos hi] at hQ ⊢
    exact hQ _ _ _ (FopenPost.of_quiet (FsQuiet.refl hA) hI)
  rw [if_neg hi] at hQ ⊢
  rw [wp_bind]
  refine fsResolve_wp hE hA hI (fun code t hboot hquiet => ?_) fun bpb t new hboot hM => ?_
  · rw [hboot] at hQ
    exact hQ _ _ _ (FopenPost.of_quiet hquiet hI)
  rw [hboot] at hQ
  dsimp only at hQ ⊢
  have hBi := hB bpb hboot
  obtain ⟨m, hpriv, hbpb, hmount⟩ := hM.mountAt hBi
  unfold fat16ListAt
  rw [wp_bind]
  refine diskMount_wp hmount ?_
  have hkeeps := fat16List_keeps (A := M.ata) (b := m.bpb) M.fuel (root.parts.map PathPart.part) 0
    t.drives hmount.diskId
  refine withStream_wp hM.grows.arena hmount.stream (fun e he => ?_) fun r x' d' hlist => ?_
  · rw [he] at hkeeps
    exact hE e (Or.inl hkeeps)
  · rw [hlist] at hkeeps
    obtain ⟨res, text⟩ := r
    exact hQ _ _ _ (FopenPost.of_mounted hM hBi hI
      ⟨FsGrows.streamed hM.grows.arena hmount.stream hmount.diskId hkeeps, rfl⟩)

/-- **`fs_list`.** -/
theorem fsList_wp (hE : ∀ e, e.AllocFails → E e) (hA : ArenaInv M s) (hI : FsInv B s)
    (hB : ∀ i bpb, bootSector M i s.drives = .inr bpb → B i bpb) (path : CString)
    (hover : PathTooLong path → E .overrun) {Q : ℤ × CString → Kernel H D → Prop}
    (hQ : ∀ res text t, FopenPost M B s (.ok (.inl res)) (fsListMounts M path s.drives) res t →
      Q (res, text) t) :
    wp E (fsList M path) Q s := by
  unfold fsList
  rw [wp_bind]
  unfold fsListMounts at hQ
  refine pathParserParse_wp hE hA hover (fun hdrive => ?_)
    fun i rest hdrive root h hno hparts hptrs hA₁ => ?_
  · rw [hdrive] at hQ
    exact hQ _ _ _ (FopenPost.of_quiet (FsQuiet.refl hA) hI)
  · rw [hdrive] at hQ
    dsimp only at hQ ⊢
    have hkeep₁ : KeepsFs s (s.alloc h root.blocks) := KeepsFs.of_store rfl fun _ _ ho => ho
    have hI₁ : FsInv B (s.alloc h root.blocks) := (hkeep₁.inv hI).1
    rw [wp_bind]
    subst hno
    refine fsListParsed_wp hE hA₁ hI₁ (fun bpb hb => hB _ bpb hb) fun res text t hpost => ?_
    rw [wp_bind]
    refine pathParserFree_wp hptrs ?_
    rw [wp_pure]
    exact hQ _ _ _ (hpost.freePath hA hA₁)

end Specs

end VibeKernel
