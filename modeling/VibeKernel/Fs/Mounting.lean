import VibeKernel.Fs.Descriptors

/-!
# Mounting a disk and looking up a path

`FsGrows M s t new` is what every step of the file system does to the rest of the state: it
allocates the blocks `new` on top of the live ones, leaves every block without a structure of the
file system alone, and its own structures stay alike. `FsGrows.free` takes out again what was
allocated for the time of a call.

`fopenLookup` says in one expression what `fopen` finds under a path: an error code, or the disk and
the directory item. It depends on the drives only.
-/

namespace VibeKernel

open Verif

variable {H D α : Type}

/-- The part of the kernel that belongs to the file system. -/
abbrev FsKind (k : Kind) : Prop := k = .fs

/-- From `s` to `t` the file system has allocated `new`. -/
structure FsGrows (M : Machine H D) (s t : Kernel H D) (new : List Allocation) : Prop where
  arena : ArenaInv M t
  frame : Frame FsKind s t
  live : t.live = new ++ s.live
  objs : ∀ p o, s.store p = some o → o.kind = .fs → ∃ o', t.store p = some o' ∧ o.Alike o'
  drives : M.ata.Fixed → t.drives = s.drives

section Grows

variable {M : Machine H D} {s t u : Kernel H D} {new new' : List Allocation}

theorem FsGrows.refl (hA : ArenaInv M s) : FsGrows M s s [] where
  arena := hA
  frame := Frame.refl _ s
  live := rfl
  objs _ o h _ := ⟨o, h, Obj.Alike.refl o⟩
  drives _ := rfl

/-- The structures stay alike, whatever happens to the static variables. -/
theorem FsGrows.keepsFs (h : FsGrows M s t new) (hfs : t.fs = s.fs) : KeepsFs s t := ⟨hfs, h.objs⟩

theorem FsGrows.mountsKept (h : FsGrows M s t new) : MountsKept s t := by
  intro p o hp ho
  obtain ⟨o', hp', halike⟩ := h.objs p o hp ho.kind
  exact ⟨o', hp', halike.isMount ho⟩

theorem FsGrows.trans (h : FsGrows M s t new) (h' : FsGrows M t u new') :
    FsGrows M s u (new' ++ new) where
  arena := h'.arena
  frame := h.frame.trans h'.frame
  live := by rw [h'.live, h.live, List.append_assoc]
  objs p o hp hk := by
    have hs : KeepsFs s { t with fs := s.fs } := ⟨rfl, h.objs⟩
    have ht : KeepsFs { t with fs := s.fs } { u with fs := s.fs } := ⟨rfl, h'.objs⟩
    exact (hs.trans ht).objs p o hp hk
  drives hA := (h'.drives hA).trans (h.drives hA)

/-- Allocating blocks. -/
theorem FsGrows.alloc {h : H} (hA : ArenaInv M (s.alloc h new)) :
    FsGrows M s (s.alloc h new) new where
  arena := hA
  frame := Frame.alloc _ s h new
  live := rfl
  objs _ o h _ := ⟨o, h, Obj.Alike.refl o⟩
  drives _ := rfl

/-- A new structure. -/
theorem FsGrows.newObj {h : H} {p : ℕ} {o : Obj} {align : Bool} (hA : ArenaInv M s)
    (hU : Usable M s o.size align p) (htop : p + o.size ≤ identityTop) :
    FsGrows M s ((s.withBlock h p o.size).put p o) [⟨p, o.size⟩] where
  arena := (newObj_state hA h hU htop FsKind).1
  frame := (newObj_state hA h hU htop FsKind).2
  live := rfl
  objs q o' hq _ := by
    refine ⟨o', ?_, Obj.Alike.refl o'⟩
    rw [Kernel.put_store_ne]
    · exact hq
    · rintro rfl
      rw [hA.usable_store hU] at hq
      cases hq
  drives _ := rfl

/-- Setting the static variables of the file system. -/
theorem FsGrows.setFs (h : FsGrows M s t new) (fs : FsStatics) :
    FsGrows M s { t with fs := fs } new where
  arena := ⟨h.arena.low, h.arena.high, h.arena.apart, h.arena.stored⟩
  frame := ⟨h.frame.blocks, fun hk => absurd rfl hk, h.frame.proc, h.frame.tasks⟩
  live := h.live
  objs := h.objs
  drives := h.drives

/-- Overwriting a structure of the file system with one like it. -/
theorem FsGrows.put {p : ℕ} {o o' : Obj} (hA : ArenaInv M s) (h : s.store p = some o)
    (hk : o.kind = .fs) (hsize : o'.size = o.size) (ho : o.Alike o') :
    FsGrows M s (s.put p o') [] where
  arena := hA.overwrite h hsize
  frame := (Frame.refl _ s).put (MayChange.of_store h hk)
  live := rfl
  objs q w hq _ := by
    by_cases hqp : q = p
    · rw [hqp] at hq ⊢
      rw [h] at hq
      cases hq
      exact ⟨o', Kernel.put_store_self, ho⟩
    · exact ⟨w, (Kernel.put_store_ne hqp).trans hq, Obj.Alike.refl w⟩
  drives _ := rfl

/-- **Freeing** what was allocated first: of the blocks `new' ++ new` those of `new`. -/
theorem FsGrows.free (hA : ArenaInv M s) (h : FsGrows M s t (new' ++ new)) {ps : List ℕ}
    (hps : ∀ p, p ∈ ps ↔ p ∈ new.map Allocation.ptr) :
    FsGrows M s (t.freedAll M ps) new' ∧ (∀ a ∈ new', a.ptr ∉ ps) ∧ (∀ a ∈ s.live, a.ptr ∉ ps) ∧
      ∀ q, q ∉ ps → (t.freedAll M ps).store q = t.store q := by
  have hnodup := h.arena.nodup
  rw [h.live, List.append_assoc, List.map_append, List.map_append] at hnodup
  -- no other live block has the address of a freed one
  have hold : ∀ p ∈ ps, ∀ a ∈ s.live, a.ptr ≠ p := by
    intro p hp a ha hap
    have hdisj := List.disjoint_of_nodup_append (List.Nodup.of_append_right hnodup)
    exact hdisj ((hps p).mp hp) (hap ▸ List.mem_map_of_mem ha)
  have hnew : ∀ p ∈ ps, ∀ a ∈ new', a.ptr ≠ p := by
    intro p hp a ha hap
    have hdisj := List.disjoint_of_nodup_append hnodup
    exact hdisj (hap ▸ List.mem_map_of_mem ha) (List.mem_append_left _ ((hps p).mp hp))
  have hstore : ∀ q, q ∉ ps → (t.freedAll M ps).store q = t.store q := by
    intro q hq
    rw [Kernel.freedAll_store, if_neg hq]
  refine ⟨?_, fun a ha hp => hnew _ hp a ha rfl, fun a ha hp => hold _ hp a ha rfl, hstore⟩
  exact
    { arena := h.arena.freedAll
      frame := h.frame.freedAll hold
      live := by
        have hkeep : ∀ l : List Allocation, (∀ p ∈ ps, ∀ a ∈ l, a.ptr ≠ p) →
            (l.filter fun a => a.ptr ∉ ps) = l := fun l hl =>
          List.filter_eq_self.mpr fun a ha =>
            decide_eq_true fun hp => hl a.ptr hp a ha rfl
        have hgone : (new.filter fun a => a.ptr ∉ ps) = [] :=
          List.filter_eq_nil_iff.mpr fun a ha => by
            simpa using (hps a.ptr).mpr (List.mem_map_of_mem ha)
        rw [Kernel.freedAll_live, h.live, List.filter_append, List.filter_append,
          hkeep new' hnew, hkeep s.live hold, hgone, List.append_nil]
      objs := by
        intro p o hp hk
        obtain ⟨o', ho', halike⟩ := h.objs p o hp hk
        refine ⟨o', ?_, halike⟩
        rw [hstore p]
        · exact ho'
        · intro hmem
          obtain ⟨a, ha, hap, -⟩ := hA.stored p o hp
          exact hold p hmem a ha hap
      drives := by
        intro hF
        rw [(Kernel.freedAll_statics ps t).2.1]
        exact h.drives hF }

end Grows

/-! ### Running a function on a stream -/

section Streams

variable {M : Machine H D} {E : Stop → Prop} {s : Kernel H D}

theorem diskMount_wp {B : ℕ → FatBootSector → Prop} {i : ℕ} {m : FatPrivate} {x : DiskStream}
    (h : MountAt B s i (s.fs.fsPrivate i) m x) {Q : FatPrivate → Kernel H D → Prop} (hQ : Q m s) :
    wp E (diskMount i) Q s := by
  unfold diskMount
  rw [wp_bind, wp_gets]
  exact readObj_wp h.mount rfl hQ

/-- A function of the drives on the stream at `p` moves the stream. -/
theorem withStream_wp (hA : ArenaInv M s) {p : ℕ} {x : DiskStream}
    (h : s.store p = some (.stream x))
    {f : DiskStream → D → Except Stop (α × DiskStream × D)} {Q : α → Kernel H D → Prop}
    (herr : ∀ e, f x s.drives = .error e → E e)
    (hok : ∀ a x' d', f x s.drives = .ok (a, x', d') →
      Q a ({ s with drives := d' }.put p (.stream x'))) :
    wp E (withStream p f) Q s := by
  unfold withStream
  rw [wp_bind]
  refine readObj_wp h rfl ?_
  rw [wp_bind, wp_gets]
  dsimp only [id]
  cases hf : f x s.drives with
  | error e => exact herr e hf
  | ok r =>
    obtain ⟨a, x', d'⟩ := r
    dsimp only
    rw [wp_bind, wp_modify, wp_bind]
    have hA' : ArenaInv M { s with drives := d' } := ⟨hA.low, hA.high, hA.apart, hA.stored⟩
    exact overwrite_wp hA' h rfl (hok a x' d' hf)

/-- Moving a stream keeps everything else. -/
theorem FsGrows.streamed (hA : ArenaInv M s) {p i : ℕ} {x x' : DiskStream} {d' : D}
    (h : s.store p = some (.stream x)) (hi : x.diskId = i)
    (hk : Keeps M.ata i s.drives (x', d')) :
    FsGrows M s ({ s with drives := d' }.put p (.stream x')) [] where
  arena := ArenaInv.overwrite (s := { s with drives := d' })
    ⟨hA.low, hA.high, hA.apart, hA.stored⟩ h rfl
  frame := ((Frame.refl FsKind s).put (p := p) (o := .stream x') (MayChange.of_store h rfl)).trans
    ⟨fun _ ha _ => ⟨ha, rfl⟩, fun hn => absurd rfl hn, fun _ => rfl, fun _ => rfl⟩
  live := rfl
  objs := (KeepsFs.putStream h (hk.diskId.trans hi.symm)).objs
  drives := hk.drives

end Streams

/-! ### Mounting -/

/-- The boot sector that mounting a disk finds, or the code of the check that fails. -/
def bootSector (M : Machine H D) (disk : ℕ) (d : D) : ℤ ⊕ FatBootSector :=
  match (diskstreamRead M.ata ⟨0, disk⟩ 512 d).1 with
  | (res, bytes) =>
    if res ≠ 0 then .inl (-2)
    else
      match (FatBootSector.decode bytes).check with
      | some code => .inl code
      | none => .inr (FatBootSector.decode bytes)

/-- Where reading the boot sector leaves the stream and the drives. -/
def afterBoot (M : Machine H D) (disk : ℕ) (d : D) : DiskStream × D :=
  (diskstreamRead M.ata ⟨0, disk⟩ 512 d).2

/-- The disk `i` is mounted anew, by the two blocks `new`. -/
structure Mounted (M : Machine H D) (s t : Kernel H D) (i : ℕ) (bpb : FatBootSector)
    (new : List Allocation) : Prop where
  grows : FsGrows M s t new
  drives_eq : t.drives = (afterBoot M i s.drives).2
  mount : ∃ p m, new = [⟨m, 516⟩, ⟨p, 8⟩] ∧ m ≠ 0 ∧ s.store m = none ∧ s.store p = none ∧
    t.fs = { s.fs with fsPrivate := Function.update s.fs.fsPrivate i m } ∧
    t.store m = some (.mount ⟨bpb, p⟩) ∧
    t.store p = some (.stream (afterBoot M i s.drives).1)

/-- Nothing but the allocator, the drives and streams has changed. -/
structure FsQuiet (M : Machine H D) (s t : Kernel H D) : Prop where
  grows : FsGrows M s t []
  fs : t.fs = s.fs

section Mount

variable {M : Machine H D} {E : Stop → Prop} {s t u : Kernel H D} {B : ℕ → FatBootSector → Prop}

theorem FsQuiet.refl (hA : ArenaInv M s) : FsQuiet M s s := ⟨FsGrows.refl hA, rfl⟩

theorem FsQuiet.trans (h : FsQuiet M s t) (h' : FsQuiet M t u) : FsQuiet M s u :=
  ⟨h.grows.trans h'.grows, h'.fs.trans h.fs⟩

theorem FsQuiet.inv (h : FsQuiet M s t) (hI : FsInv B s) : FsInv B t ∧ t.openFile = s.openFile :=
  (h.grows.keepsFs h.fs).inv hI

theorem check_ne_zero {bpb : FatBootSector} {code : ℤ} (h : bpb.check = some code) : code ≠ 0 := by
  unfold FatBootSector.check at h
  rintro rfl
  split at h
  · cases h
  · split at h
    · cases h
    · split at h <;> cases h

/-- **`fat16_resolve`** mounts the disk, or gives the code of a check and leaves no block. -/
theorem fat16Resolve_wp (hE : ∀ e, e.AllocFails → E e) (hA : ArenaInv M s) {i : ℕ}
    {Q : ℤ → Kernel H D → Prop}
    (hbad : ∀ code t, bootSector M i s.drives = .inl code → code ≠ 0 → FsQuiet M s t → Q code t)
    (hok : ∀ bpb t new, bootSector M i s.drives = .inr bpb → Mounted M s t i bpb new → Q 0 t) :
    wp E (fat16Resolve M i) Q s := by
  unfold fat16Resolve diskstreamNew
  rw [wp_bind]
  refine newObj_wp hE fun p h hp hU htop => ?_
  have hgrow := FsGrows.newObj (h := h) hA hU htop
  set s₁ := (s.withBlock h p (Obj.stream ⟨0, i⟩).size).put p (.stream ⟨0, i⟩) with hs₁
  have hstream : s₁.store p = some (.stream ⟨0, i⟩) := Kernel.put_store_self
  have hsp : s.store p = none := hA.usable_store hU
  rw [wp_bind]
  refine withStream_wp hgrow.arena hstream (fun e he => by cases he) fun r x' d' hread => ?_
  have hdrives₁ : s₁.drives = s.drives := rfl
  obtain ⟨res, bytes⟩ := r
  have hread' : diskstreamRead M.ata ⟨0, i⟩ 512 s.drives = ((res, bytes), x', d') :=
    Except.ok.inj hread
  have hkeeps : Keeps M.ata i s₁.drives (x', d') := by
    have hk := diskstreamRead_keeps (A := M.ata) ⟨0, i⟩ 512 s.drives
    rw [hread'] at hk
    exact hk
  have hmove := FsGrows.streamed hgrow.arena hstream rfl hkeeps
  set s₂ := { s₁ with drives := d' }.put p (.stream x') with hs₂
  have hgrow₂ : FsGrows M s s₂ [⟨p, 8⟩] := hgrow.trans hmove
  -- giving the stream back leaves nothing behind
  have hgiven : FsQuiet M s (s₂.freed M p) :=
    ⟨(@FsGrows.free _ _ _ _ _ [⟨p, 8⟩] [] hA hgrow₂ [p] (by simp)).1, rfl⟩
  have hboot : bootSector M i s.drives =
      if res ≠ 0 then .inl (-2)
      else match (FatBootSector.decode bytes).check with
        | some code => .inl code
        | none => .inr (FatBootSector.decode bytes) := by
    unfold bootSector
    rw [hread']
  dsimp only
  by_cases hres : res ≠ 0
  · rw [if_pos hres] at hboot ⊢
    rw [wp_bind]
    refine kfree_wp (fun h0 => absurd h0 hp) fun _ => ?_
    exact hbad _ _ hboot (by decide) hgiven
  rw [if_neg hres] at hboot ⊢
  cases hcheck : (FatBootSector.decode bytes).check with
  | some code =>
    rw [hcheck] at hboot
    dsimp only at hboot ⊢
    rw [wp_bind]
    refine kfree_wp (fun h0 => absurd h0 hp) fun _ => ?_
    exact hbad _ _ hboot (check_ne_zero hcheck) hgiven
  | none =>
    rw [hcheck] at hboot
    dsimp only at hboot ⊢
    unfold fat16Mount
    rw [wp_bind]
    refine newObj_wp hE fun m h' hm hU' htop' => ?_
    have hgrow₃ := hgrow₂.trans (FsGrows.newObj (h := h') hgrow₂.arena hU' htop')
    have hsm : s₂.store m = none := hgrow₂.arena.usable_store hU'
    have hstream₂ : s₂.store p = some (.stream x') := Kernel.put_store_self
    have hpm : p ≠ m := by
      rintro rfl
      rw [hstream₂] at hsm
      cases hsm
    rw [wp_bind, wp_modify, wp_pure]
    refine hok _ _ [⟨m, 516⟩, ⟨p, 8⟩] hboot ⟨hgrow₃.setFs _, ?_, p, m, rfl, hm, ?_,
      hsp, rfl, ?_, ?_⟩
    · unfold afterBoot
      rw [hread']
      rfl
    · -- the block of the mount held nothing before the stream was made either
      rw [hs₂, Kernel.put_store_ne hpm.symm] at hsm
      change s₁.store m = none at hsm
      rw [hs₁, Kernel.put_store_ne hpm.symm] at hsm
      exact hsm
    · exact Kernel.put_store_self
    · unfold afterBoot
      rw [hread']
      exact (Kernel.put_store_ne hpm).trans hstream₂

/-- The loop over the empty rest of the table of file systems. -/
theorem fsResolveIn_none (i n : ℕ) : fsResolveIn M i (List.replicate n none) = pure none := by
  induction n with
  | zero => rfl
  | succ n ih =>
    rw [List.replicate_succ, fsResolveIn]
    exact ih

/-- **`fs_resolve`** finds the file system of a disk by mounting it. -/
theorem fsResolve_wp (hE : ∀ e, e.AllocFails → E e) (hA : ArenaInv M s) (hI : FsInv B s) {i : ℕ}
    {Q : Option Filesystem → Kernel H D → Prop}
    (hbad : ∀ code t, bootSector M i s.drives = .inl code → FsQuiet M s t → Q none t)
    (hok : ∀ bpb t new, bootSector M i s.drives = .inr bpb → Mounted M s t i bpb new →
      Q (some .fat16) t) :
    wp E (fsResolve M i) Q s := by
  unfold fsResolve
  rw [wp_bind, wp_gets]
  dsimp only [id]
  rw [hI.registered, fsResolveIn, wp_bind]
  refine fat16Resolve_wp hE hA (fun code t hcode hne hquiet => ?_) fun bpb t new hboot hM => ?_
  · rw [if_neg hne, fsResolveIn_none]
    exact hbad code t hcode hquiet
  · rw [if_pos rfl]
    exact hok bpb t new hboot hM

/-- The mount of a disk that has just been mounted. -/
theorem Mounted.mountAt {i : ℕ} {bpb : FatBootSector} {new : List Allocation}
    (h : Mounted M s t i bpb new) (hB : B i bpb) :
    ∃ m, t.fs.fsPrivate i ≠ 0 ∧ m.bpb = bpb ∧
      MountAt B t i (t.fs.fsPrivate i) m (afterBoot M i s.drives).1 := by
  obtain ⟨p, m, -, hm, -, -, hfs, hmount, hstream⟩ := h.mount
  have hpriv : t.fs.fsPrivate i = m := by
    rw [hfs]
    exact Function.update_self _ _ _
  have hdisk : (afterBoot M i s.drives).1.diskId = i :=
    (diskstreamRead_keeps (A := M.ata) ⟨0, i⟩ 512 s.drives).diskId
  exact ⟨⟨bpb, p⟩, by rw [hpriv]; exact hm, rfl, by rw [hpriv]; exact hmount, hB, hstream, hdisk⟩

/-- Mounting a disk anew keeps the invariant and the open files. -/
theorem Mounted.inv {i : ℕ} {bpb : FatBootSector} {new : List Allocation}
    (h : Mounted M s t i bpb new) (hB : B i bpb) (hI : FsInv B s) :
    FsInv B t ∧ t.openFile = s.openFile := by
  obtain ⟨m, h0, -, hmount⟩ := h.mountAt hB
  obtain ⟨p, q, -, -, -, -, hfs, -, -⟩ := h.mount
  have hpriv : t.fs.fsPrivate i = q := by
    rw [hfs]
    exact Function.update_self _ _ _
  -- with the old static variables it is a quiet step, and then the mount is set
  have hkeep : KeepsFs s { t with fs := s.fs } := ⟨rfl, h.grows.objs⟩
  obtain ⟨hI', hopen⟩ := hkeep.inv hI
  rw [hpriv] at h0 hmount
  obtain ⟨hI'', hopen'⟩ := hI'.setMount (i := i) h0
    (⟨hmount.mount, hmount.boot, hmount.stream, hmount.diskId⟩ :
      MountAt B { t with fs := s.fs } i q m _)
  have ht : t = { t with
      fs := { s.fs with fsPrivate := Function.update s.fs.fsPrivate i q } } := by
    rw [← hfs]
  rw [ht]
  exact ⟨hI'', hopen'.trans hopen⟩

end Mount

end VibeKernel
