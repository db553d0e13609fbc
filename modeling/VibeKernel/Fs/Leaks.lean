import Mathlib.Data.Finset.Card
import Mathlib.Data.Finset.Range
import VibeKernel.Fs.Isolation

/-!
# The blocks of the file system

An open file takes two blocks and a mounted disk two. `fclose` gives the blocks of its file back,
and no call but `fopen` and `fs_list` takes any. These mount their disk every time, and what
`fat16_resolve` replaces is not freed: only a run that mounts no disk twice has two blocks for each
open file and each mounted disk.
-/

namespace VibeKernel

open Verif

variable {H D : Type}

/-- How many of the first `n` entries are set. -/
def setCount (n : ℕ) (f : ℕ → ℕ) : ℕ := ((Finset.range n).filter fun i => f i ≠ 0).card

/-- The number of open files. -/
def openCount (s : Kernel H D) : ℕ := setCount maxFileDescriptors s.fs.fileDescriptors

/-- The number of mounted disks. -/
def mountedCount (s : Kernel H D) : ℕ := setCount 2 s.fs.fsPrivate

/-- The disk that a call mounts. -/
def callMounts (M : Machine H D) (c : FsCall) (d : D) : Option ℕ :=
  match c with
  | .fopen path _ => fopenMounts M path d
  | .fsList path => fsListMounts M path d
  | _ => none

/-- The call mounts no disk that is mounted already. -/
def MountsFresh (M : Machine H D) (s : Kernel H D) (c : FsCall) : Prop :=
  ∀ i, callMounts M c s.drives = some i → s.fs.fsPrivate i = 0

instance (M : Machine H D) (s : Kernel H D) (c : FsCall) : Decidable (MountsFresh M s c) :=
  inferInstanceAs (Decidable (∀ i ∈ callMounts M c s.drives, s.fs.fsPrivate i = 0))

section Count

variable {n i v : ℕ} {f : ℕ → ℕ}

theorem setCount_fill (hi : i < n) (h0 : f i = 0) (hv : v ≠ 0) :
    setCount n (Function.update f i v) = setCount n f + 1 := by
  unfold setCount
  have hset : ((Finset.range n).filter fun j => Function.update f i v j ≠ 0) =
      insert i ((Finset.range n).filter fun j => f j ≠ 0) := by
    ext j
    rw [Finset.mem_insert, Finset.mem_filter, Finset.mem_filter, Finset.mem_range]
    by_cases hj : j = i
    · subst hj
      simp [hi, hv]
    · rw [Function.update_of_ne hj]
      simp [hj]
  rw [hset, Finset.card_insert_of_notMem]
  simp [h0]

theorem setCount_clear (hi : i < n) (h0 : f i ≠ 0) :
    setCount n (Function.update f i 0) + 1 = setCount n f := by
  have h := setCount_fill (f := Function.update f i 0) hi (Function.update_self _ _ _) h0
  rw [Function.update_idem, Function.update_eq_self] at h
  exact h.symm

theorem setCount_replace (h0 : f i ≠ 0) (hv : v ≠ 0) :
    setCount n (Function.update f i v) = setCount n f := by
  unfold setCount
  congr 1
  refine Finset.filter_congr fun j _ => ?_
  by_cases hj : j = i
  · subst hj
    rw [Function.update_self]
    exact iff_of_true hv h0
  · rw [Function.update_of_ne hj]

theorem exists_unset (h : setCount n f < n) : ∃ i < n, f i = 0 := by
  by_contra hall
  push Not at hall
  have hset : ((Finset.range n).filter fun i => f i ≠ 0) = Finset.range n :=
    Finset.filter_true_of_mem fun i hi => hall i (Finset.mem_range.mp hi)
  unfold setCount at h
  rw [hset, Finset.card_range] at h
  exact lt_irrefl _ h

end Count

/-! ### One call -/

/-- Of the blocks that belong to no open file and no mounted disk there are `k` more in `t` than in
`s`. -/
def BlocksGrow (s t : Kernel H D) (k : ℕ) : Prop :=
  t.live.length + 2 * openCount s + 2 * mountedCount s =
    s.live.length + 2 * openCount t + 2 * mountedCount t + k

/-- The structures of the file system, on drives that may change. -/
structure FsSound (M : Machine H D) (B : ℕ → FatBootSector → Prop) (s : Kernel H D) : Prop where
  arena : ArenaInv M s
  inv : FsInv B s

section Steps

variable {M : Machine H D} {s t : Kernel H D} {B : ℕ → FatBootSector → Prop}

theorem freeSlot_of_zero (h : ∃ slot < 512, s.fs.fileDescriptors slot = 0) :
    ∃ slot, freeSlot s.fs = some slot := by
  obtain ⟨i, hi, h0⟩ := h
  unfold freeSlot
  cases hfind : (List.range maxFileDescriptors).find? fun i => s.fs.fileDescriptors i = 0 with
  | some slot => exact ⟨slot, rfl⟩
  | none =>
    have hall := List.find?_eq_none.mp hfind i (List.mem_range.mpr hi)
    exact absurd (decide_eq_true h0) hall

theorem freeSlot_of_openCount (h : openCount s < 512) : ∃ slot, freeSlot s.fs = some slot :=
  freeSlot_of_zero (exists_unset h)

/-- A successful mount is one of the two disks. -/
theorem mountsDrive_lt {i j : ℕ} {d : D} (h : mountsDrive M i d = some j) : j < 2 := by
  unfold mountsDrive at h
  split_ifs at h with hi
  split at h
  · cases h
  · cases h
    omega

theorem callMounts_lt {c : FsCall} {i : ℕ} {d : D} (h : callMounts M c d = some i) : i < 2 := by
  unfold callMounts at h
  split at h
  · unfold fopenMounts at h
    split at h
    · cases h
    · split_ifs at h
      exact mountsDrive_lt h
  · unfold fsListMounts at h
    split at h
    · cases h
    · exact mountsDrive_lt h
  · cases h

/-- A mount takes two blocks, which are lost unless the disk was not mounted before. -/
theorem Remounted.count {mounts : Option ℕ} {new : List Allocation} (h : Remounted s t mounts new)
    (hlt : ∀ i, mounts = some i → i < 2) :
    ∃ k, 2 * mountedCount t + k = 2 * mountedCount s + new.length ∧
      (k = 0 ↔ ∀ i, mounts = some i → s.fs.fsPrivate i = 0) := by
  cases mounts with
  | none =>
    obtain ⟨rfl, hpriv⟩ := h
    refine ⟨0, ?_, iff_of_true rfl fun _ h => by cases h⟩
    unfold mountedCount
    rw [hpriv, List.length_nil]
  | some i =>
    obtain ⟨m, p, bpb, x, rfl, hm, hpriv, -, -⟩ := h
    unfold mountedCount
    rw [hpriv]
    by_cases h0 : s.fs.fsPrivate i = 0
    · refine ⟨0, ?_, iff_of_true rfl ?_⟩
      · rw [setCount_fill (hlt i rfl) h0 hm, Nat.mul_add]
        simp only [List.length_cons, List.length_nil]
      · rintro _ ⟨⟩
        exact h0
    · refine ⟨2, ?_, iff_of_false (by norm_num) fun h => h0 (h i rfl)⟩
      rw [setCount_replace h0 hm]
      simp only [List.length_cons, List.length_nil]

/-- **Opening** takes two blocks for the file, if there is a free slot. -/
theorem FopenPost.blocksGrow {lookup : Except Stop (ℤ ⊕ ℕ × FatDirectoryItem)}
    {mounts : Option ℕ} {res : ℤ}
    (h : FopenPost M B s lookup mounts res t)
    (hfree : ∀ x, lookup = .ok (.inr x) → openCount s < maxFileDescriptors)
    (hlt : ∀ i, mounts = some i → i < 2) :
    ∃ k, BlocksGrow s t k ∧ (k = 0 ↔ ∀ i, mounts = some i → s.fs.fsPrivate i = 0) := by
  obtain ⟨-, own, new, hgrow, hrem, hout⟩ := h
  obtain ⟨k, hmount, hk⟩ := hrem.count hlt
  have hlive : t.live.length = own.length + new.length + s.live.length := by
    rw [hgrow.live, List.length_append, List.length_append]
  have hopen : 2 * openCount t = 2 * openCount s + own.length := by
    unfold OpenOutcome at hout
    rcases lookup with e | code | ⟨i, item⟩
    · exact hout.elim
    · obtain ⟨-, rfl, hsame⟩ := hout
      unfold openCount
      rw [hsame.slots, List.length_nil, Nat.add_zero]
    · dsimp only at hout
      obtain ⟨slot, hslot⟩ := freeSlot_of_openCount (hfree _ rfl)
      rw [hslot] at hout
      obtain ⟨-, ⟨p, q, rfl, hp, hslots, -⟩, -⟩ := hout
      obtain ⟨hlt, hzero⟩ := freeSlot_spec hslot
      unfold openCount
      rw [hslots, setCount_fill hlt hzero hp, Nat.mul_add]
      simp only [List.length_cons, List.length_nil]
  refine ⟨k, ?_, hk⟩
  unfold BlocksGrow
  omega

/-- **Closing** gives the two blocks of a file back. -/
theorem FileClosed.blocksGrow {slot : ℕ} (hA : ArenaInv M s)
    (h0 : s.fs.fileDescriptors slot ≠ 0) (h : FileClosed M B s t slot) : BlocksGrow s t 0 := by
  obtain ⟨desc, f, hopen, hlive⟩ := h.blocks
  have hne : desc.priv ≠ s.fs.fileDescriptors slot := by
    intro heq
    have hfile := hopen.file
    rw [heq, hopen.descriptor] at hfile
    cases hfile
  -- exactly two of the live blocks are freed
  have hgone : (s.live.filter fun a => a.ptr ∈
      [desc.priv, s.fs.fileDescriptors slot]).length = 2 := by
    have hnodup : ((s.live.filter fun a =>
        a.ptr ∈ [desc.priv, s.fs.fileDescriptors slot]).map Allocation.ptr).Nodup :=
      hA.nodup.sublist ((List.filter_sublist).map _)
    have hperm := (@List.perm_ext_iff_of_nodup _ _ [desc.priv, s.fs.fileDescriptors slot]
      hnodup (by simp [hne])).mpr fun p => ?_
    · have hlen := hperm.length_eq
      rw [List.length_map] at hlen
      exact hlen
    · constructor
      · intro hp
        obtain ⟨a, ha, rfl⟩ := List.mem_map.mp hp
        exact of_decide_eq_true (List.mem_filter.mp ha).2
      · intro hp
        have hstored : ∃ o, s.store p = some o := by
          rcases List.mem_cons.mp hp with rfl | hp
          · exact ⟨_, hopen.file⟩
          · rw [List.mem_singleton.mp hp]
            exact ⟨_, hopen.descriptor⟩
        obtain ⟨o, ho⟩ := hstored
        obtain ⟨a, ha, rfl, -⟩ := hA.stored p o ho
        exact List.mem_map.mpr ⟨a, List.mem_filter.mpr ⟨ha, decide_eq_true hp⟩, rfl⟩
  have hsplit := List.length_eq_length_filter_add (l := s.live)
    (fun a => decide (a.ptr ∉ [desc.priv, s.fs.fileDescriptors slot]))
  simp only [decide_not, Bool.not_not] at hsplit
  have hopen' : openCount t + 1 = openCount s := by
    unfold openCount
    rw [h.fs]
    exact setCount_clear hopen.slot_lt h0
  have hmounted : mountedCount t = mountedCount s := by
    unfold mountedCount
    rw [h.fs]
  have hlen : t.live.length + 2 = s.live.length := by
    rw [hlive, hsplit]
    simp only [decide_not]
    rw [hgone]
  unfold BlocksGrow
  omega

theorem BlocksGrow.of_same (hlive : t.live = s.live) (hfs : t.fs = s.fs) : BlocksGrow s t 0 := by
  unfold BlocksGrow openCount mountedCount
  rw [hlive, hfs, Nat.add_zero]

theorem BlocksGrow.trans {u : Kernel H D} {k l : ℕ} (h : BlocksGrow s t k) (h' : BlocksGrow t u l) :
    BlocksGrow s u (k + l) := by
  unfold BlocksGrow at *
  omega

/-- **One call**, with a free slot in the table, loses blocks exactly if it mounts a disk that is
mounted already. -/
theorem fsStep_blocks_wp (hB : ∀ d i bpb, bootSector M i d = .inr bpb → B i bpb)
    (hS : FsSound M B s) (c : FsCall) :
    wp (FsStop c) (fun s => fsStep M s c) (fun _ t => FsSound M B t ∧
      (openCount s < maxFileDescriptors → ∃ k, BlocksGrow s t k ∧ (k = 0 ↔ MountsFresh M s c)))
      s := by
  have hE : ∀ e : Stop, e.AllocFails → FsStop c e := fun _ he => .inl he
  have hBs : ∀ i bpb, bootSector M i s.drives = .inr bpb → B i bpb := hB s.drives
  -- a call that mounts nothing
  have hnone : ∀ {t}, FsSound M B t → BlocksGrow s t 0 → callMounts M c s.drives = none →
      FsSound M B t ∧ (openCount s < maxFileDescriptors →
        ∃ k, BlocksGrow s t k ∧ (k = 0 ↔ MountsFresh M s c)) := by
    refine fun ht hgrow hc => ⟨ht, fun _ => ⟨0, hgrow, iff_of_true rfl fun i hi => ?_⟩⟩
    rw [hc] at hi
    cases hi
  have hmoved : ∀ {slot i f t}, FileMoved M B s t slot i f →
      FsSound M B t ∧ BlocksGrow s t 0 := fun h =>
    ⟨⟨h.arena, h.inv⟩, BlocksGrow.of_same h.live h.fs⟩
  have hsame : BlocksGrow s s 0 := BlocksGrow.of_same rfl rfl
  have hlt : ∀ i, callMounts M c s.drives = some i → i < 2 := fun i h => callMounts_lt h
  cases c with
  | fopen path modeStr =>
    change wp _ (_ <$> fopen M path modeStr) _ s
    rw [wp_map]
    refine fopen_wp hE hS.arena hS.inv hBs path modeStr (fun hlong => .inr (.inl ⟨rfl, hlong⟩))
      fun res t hpost => ?_
    obtain ⟨_, _, hgrow, -, -⟩ := hpost.outcome
    exact ⟨⟨hgrow.arena, hpost.inv⟩, fun hfree => hpost.blocksGrow (fun _ _ => hfree) hlt⟩
  | fsList path =>
    change wp _ (_ <$> fsList M path) _ s
    rw [wp_map]
    refine fsList_wp hE hS.arena hS.inv hBs path (fun hlong => .inr (.inl ⟨rfl, hlong⟩))
      fun res text t hpost => ?_
    obtain ⟨_, _, hgrow, -, -⟩ := hpost.outcome
    exact ⟨⟨hgrow.arena, hpost.inv⟩, fun _ => hpost.blocksGrow (fun _ h => by cases h) hlt⟩
  | fread size nmemb fd =>
    change wp _ (_ <$> fread M size.toNat nmemb.toNat fd.toInt) _ s
    rw [wp_map]
    exact fread_wp hS.arena hS.inv (fun _ => hnone hS hsame rfl) fun slot i f bpb _ _ _ =>
      ⟨fun e he => .inr (.inr ⟨(fat16Read_error he).1, UInt32.toNat_inj.mp (fat16Read_error he).2⟩),
        fun res f' x _ t hmv => hnone (hmoved hmv).1 (hmoved hmv).2 rfl⟩
  | fseek fd offset whence =>
    change wp _ (_ <$> fseek fd.toInt offset.toInt whence) _ s
    rw [wp_map]
    exact fseek_wp hS.arena hS.inv (fun _ => hnone hS hsame rfl) fun slot i f _ _ t hmv =>
      hnone (hmoved hmv).1 (hmoved hmv).2 rfl
  | ftell fd =>
    change wp _ (_ <$> ftell fd.toInt) _ s
    rw [wp_map]
    exact ftell_wp hS.inv (fun _ => hnone hS hsame rfl) fun _ _ _ _ _ => hnone hS hsame rfl
  | fstat fd =>
    change wp _ (_ <$> fstat fd.toInt) _ s
    rw [wp_map]
    exact fstat_wp hS.inv (fun _ => hnone hS hsame rfl) fun _ _ _ _ _ => hnone hS hsame rfl
  | fclose fd =>
    change wp _ (_ <$> fclose M fd.toInt) _ s
    rw [wp_map]
    refine fclose_wp hS.arena hS.inv (fun _ => hnone hS hsame rfl) fun slot i f _ hfile t hcl => ?_
    exact hnone ⟨hcl.arena, hcl.inv⟩ (hcl.blocksGrow hS.arena (hS.inv.openAt hfile).1) rfl

end Steps

/-! ### Runs -/

section Runs

variable {M : Machine H D} {B : ℕ → FatBootSector → Prop}

theorem FsSound.boot (M : Machine H D) (h : H) (d : D) : FsSound M B (Kernel.boot h d) :=
  ⟨ArenaInv.boot h d, FsInv.boot h d⟩

theorem runList_sound (hB : ∀ d i bpb, bootSector M i d = .inr bpb → B i bpb) {s t : Kernel H D}
    (hS : FsSound M B s) {calls : List FsCall}
    {outs : List FsOut} (hr : runList (fsStep M) s calls = .ok (outs, t)) : FsSound M B t :=
  @runList_invariant _ _ _ _ (fsStep M) _ (FsSound M B)
    (fun _ c _ _ hS _ hstep => ((fsStep_blocks_wp hB hS c).ok hstep).1) _ _ _ _ hS
    (meets_true _ calls) hr

/-- **Why a run stops.** Whatever the drives answer, a run from a sound state stops because an
allocation fails, or at a call whose path has a part of 256 characters or more, or at a read of
items of size zero. -/
theorem fsRun_stops (hB : ∀ d i bpb, bootSector M i d = .inr bpb → B i bpb) {s : Kernel H D}
    (hS : FsSound M B s) {calls : List FsCall} {e : Stop}
    (hr : runList (fsStep M) s calls = .error e) : ∃ c ∈ calls, FsStop c e := by
  refine runList_stops (fun s c hS => ?_) hS hr
  have hstep := fsStep_blocks_wp hB hS c
  unfold wp at hstep
  dsimp only at hstep
  cases hrun : fsStep M s c with
  | error e =>
    rw [hrun] at hstep
    exact .inl ⟨e, rfl, hstep⟩
  | ok r =>
    rw [hrun] at hstep
    exact .inr ⟨r.1, r.2, rfl, hstep.1⟩

/-- No run whose path parts have at most 255 characters writes behind a buffer. -/
theorem fsRun_no_overrun (hB : ∀ d i bpb, bootSector M i d = .inr bpb → B i bpb) {s : Kernel H D}
    (hS : FsSound M B s) {calls : List FsCall} (hshort : ∀ c ∈ calls, ¬ c.LongPart) :
    runList (fsStep M) s calls ≠ .error .overrun := by
  intro hr
  obtain ⟨c, hc, hfails | ⟨-, hlong⟩ | ⟨h, -⟩⟩ := fsRun_stops hB hS hr
  · exact unforced_overrun hfails
  · exact hshort c hc hlong
  · cases h

/-- A run that always finds a free slot loses blocks exactly if it mounts a mounted disk. -/
theorem runList_blocks (hB : ∀ d i bpb, bootSector M i d = .inr bpb → B i bpb) :
    ∀ {s t : Kernel H D} {calls : List FsCall} {outs : List FsOut},
    FsSound M B s → runList (fsStep M) s calls = .ok (outs, t) →
    Meets (fsStep M) (fun s _ => openCount s < maxFileDescriptors) s calls →
    ∃ k, BlocksGrow s t k ∧ (k = 0 ↔ Meets (fsStep M) (MountsFresh M) s calls) := by
  intro s t calls
  induction calls generalizing s with
  | nil =>
    intro outs _ hr _
    cases hr
    exact ⟨0, BlocksGrow.of_same rfl rfl, iff_of_true rfl trivial⟩
  | cons c calls ih =>
    intro outs hS hr hfree
    obtain ⟨out, u, outs', hstep, hrest, rfl⟩ := runList_cons_ok.mp hr
    obtain ⟨hSu, hgrow⟩ := (fsStep_blocks_wp hB hS c).ok hstep
    obtain ⟨k, hk, hfresh⟩ := hgrow hfree.1
    obtain ⟨l, hl, hfresh'⟩ := ih hSu hrest (hfree.2 out u hstep)
    refine ⟨k + l, hk.trans hl, ?_⟩
    rw [Nat.add_eq_zero_iff, hfresh, hfresh']
    -- the rest of the run starts in `u`
    refine and_congr_right fun _ => ⟨fun h out' u' hs => ?_, fun h => h out u hstep⟩
    rw [hstep] at hs
    cases hs
    exact h

/-- **No block is lost** as long as no disk is mounted twice. Between a state `s₀` reached by any
calls and a later one there are at most two more blocks for each open file and each mounted disk, if
no call in between mounts a disk that is mounted already; in a run from the start, only then. -/
theorem fs_no_leak (h : H) (d : D) (before : List FsCall) (outs₀ : List FsOut) (s₀ : Kernel H D)
    (hr₀ : runList (fsStep M) (Kernel.boot h d) before = .ok (outs₀, s₀)) (calls : List FsCall)
    (outs : List FsOut) (s : Kernel H D) (hr : runList (fsStep M) s₀ calls = .ok (outs, s))
    (hfree : Meets (fsStep M) (fun s _ => openCount s < 512) s₀ calls) :
    (Meets (fsStep M) (MountsFresh M) s₀ calls →
      s.live.length ≤ s₀.live.length + 2 * openCount s + 2 * mountedCount s) ∧
    (before = [] → s.live.length ≤ s₀.live.length + 2 * openCount s + 2 * mountedCount s →
      Meets (fsStep M) (MountsFresh M) s₀ calls) := by
  have hB : ∀ d i bpb, bootSector M i d = .inr bpb → True := fun _ _ _ _ => trivial
  have hS₀ := runList_sound hB (FsSound.boot M h d) hr₀
  obtain ⟨k, hk, hfresh⟩ := runList_blocks hB hS₀ hr hfree
  unfold BlocksGrow at hk
  refine ⟨fun hm => ?_, ?_⟩
  · have hk0 := hfresh.mpr hm
    omega
  · rintro rfl hle
    cases hr₀
    have hopen : openCount (Kernel.boot h d) = 0 := by
      unfold openCount setCount
      rw [Finset.card_eq_zero, Finset.filter_eq_empty_iff]
      exact fun _ _ hne => hne rfl
    have hmounted : mountedCount (Kernel.boot h d) = 0 := rfl
    exact hfresh.mp (by omega)

end Runs

/-- Opening and closing a file once mounts its disk once. -/
theorem fs_no_leak_once :
    let M := singleFileMachine [0x42]
    ∃ outs s, runList (fsStep M) (Kernel.boot (KHeap.init 0x10000) ())
        [.fopen [0x30, 0x3A, 0x2F, 0x41] [0x72], .fclose 1] = .ok (outs, s) ∧
      s.live.length ≤ 0 + 2 * openCount s + 2 * mountedCount s := by
  intro M
  have hok : (runList (fsStep M) (Kernel.boot (KHeap.init 0x10000) ())
      [.fopen [0x30, 0x3A, 0x2F, 0x41] [0x72], .fclose 1]).isOk = true := by decide +kernel
  cases hr : runList (fsStep M) (Kernel.boot (KHeap.init 0x10000) ())
      [.fopen [0x30, 0x3A, 0x2F, 0x41] [0x72], .fclose 1] with
  | error e =>
    rw [hr] at hok
    cases hok
  | ok r =>
    refine ⟨r.1, r.2, rfl, (fs_no_leak (KHeap.init 0x10000) () [] [] _ rfl _ r.1 r.2 hr ?_).1 ?_⟩
    · exact meets_of_checkRun (fun s _ => decide (openCount s < 512))
        (fun _ _ h => of_decide_eq_true h) (by decide +kernel)
    · exact meets_of_checkRun (fun s c => decide (MountsFresh M s c))
        (fun _ _ h => of_decide_eq_true h) (by decide +kernel)

/-- **Two blocks are lost** when the same file is opened and closed twice: four blocks are live,
although no file is open and one disk is mounted. -/
theorem fs_leaks :
    let M := singleFileMachine [0x42]
    ((runList (fsStep M) (Kernel.boot (KHeap.init 0x10000) ())
        [.fopen [0x30, 0x3A, 0x2F, 0x41] [0x72], .fclose 1,
          .fopen [0x30, 0x3A, 0x2F, 0x41] [0x72], .fclose 1]).toOption.map fun r =>
      (r.2.live.length, openCount r.2, mountedCount r.2)) = some (4, 0, 1) := by
  decide +kernel

end VibeKernel
