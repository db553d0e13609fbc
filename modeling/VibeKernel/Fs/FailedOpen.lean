import VibeKernel.Fs.Leaks

/-!
# What a failed `fopen` leaves behind

All failures of `fopen` leave through one exit, which frees the parsed path. That is all there is to
free, except when the table of descriptors is full: the structure that `fat16_open` has made for the
file is then dropped with the code `-7`. `fopen_failed_iff` shows that this is the only leak.
-/

namespace VibeKernel

open Verif

variable {H D : Type}

/-- A block of a mount stored in `fs_private`: the structure itself or its stream. -/
def IsMountBlock (s : Kernel H D) (a : Allocation) : Prop :=
  ∃ i bpb p x, s.store (s.fs.fsPrivate i) = some (.mount ⟨bpb, p⟩) ∧ s.store p = some (.stream x) ∧
    (a.ptr = s.fs.fsPrivate i ∨ a.ptr = p)

/-- The table is unchanged, and of the blocks allocated in between only those of mounts are left. -/
structure Released (s t : Kernel H D) : Prop where
  table : SameTable s t
  blocks : ∃ new, t.live = new ++ s.live ∧ ∀ a ∈ new, IsMountBlock t a

section FailedOpen

variable {M : Machine H D} {B : ℕ → FatBootSector → Prop} {s t : Kernel H D}

/-- The blocks of a new mount are blocks of a mount. -/
theorem Remounted.isMountBlock {mounts : Option ℕ} {new : List Allocation}
    (h : Remounted s t mounts new) : ∀ a ∈ new, IsMountBlock t a := by
  intro a ha
  cases mounts with
  | none =>
    rw [h.1] at ha
    cases ha
  | some i =>
    obtain ⟨m, p, bpb, x, rfl, -, hpriv, hmount, hstream⟩ := h
    have hm : t.fs.fsPrivate i = m := by
      rw [hpriv]
      exact Function.update_self _ _ _
    refine ⟨i, bpb, p, x, by rw [hm]; exact hmount, hstream, ?_⟩
    rw [hm]
    rcases List.mem_cons.mp ha with rfl | ha
    · exact .inl rfl
    · rw [List.mem_singleton.mp ha]
      exact .inr rfl

/-- A file structure is no block of a mount. -/
theorem not_isMountBlock_of_file {a : Allocation} {f : FatFileDescriptor}
    (hf : t.store a.ptr = some (.file f)) : ¬ IsMountBlock t a := by
  rintro ⟨i, bpb, p, x, hmount, hstream, h | h⟩
  · rw [h, hmount] at hf
    cases hf
  · rw [h, hstream] at hf
    cases hf

/-- The two ways in which `fopen` fails: nothing was found, or there is no slot for what was. -/
theorem fopen_failed_cases (hS : FsSound M (fun _ _ => True) s) {path modeStr : CString} {res : ℤ}
    (hopen : fopen M path modeStr s = .ok (res, t)) (hneg : res < 0) :
    ((∀ r, fopenLookup M path modeStr s.drives ≠ .ok (.inr r)) ∧ Released s t) ∨
      (freeSlot s.fs = none ∧ (∃ r, fopenLookup M path modeStr s.drives = .ok (.inr r)) ∧
        ¬ Released s t) := by
  have hpost := (fopen_wp (E := fun _ => True) (fun _ _ => trivial) hS.arena hS.inv
    (fun _ _ _ => trivial) path modeStr (fun _ => trivial) (fun _ _ h => h)).ok hopen
  obtain ⟨-, own, new, hgrow, hrem, hout⟩ := hpost
  have hlive := hgrow.live
  unfold OpenOutcome at hout
  cases hlookup : fopenLookup M path modeStr s.drives with
  | error e =>
    rw [hlookup] at hout
    exact hout.elim
  | ok found =>
    rw [hlookup] at hout
    rcases found with code | ⟨i, item⟩
    · -- nothing was found, so nothing was made for a file
      obtain ⟨-, rfl, hsame⟩ := hout
      exact .inl ⟨fun r h => (nomatch h), hsame, new, hlive, hrem.isMountBlock⟩
    · dsimp only at hout
      cases hslot : freeSlot s.fs with
      | none =>
        -- the file structure is still there
        rw [hslot] at hout
        obtain ⟨-, ⟨q, rfl, f, hf⟩, -⟩ := hout
        refine .inr ⟨rfl, ⟨_, rfl⟩, fun hrel => ?_⟩
        obtain ⟨new', hlive', hmounts⟩ := hrel.blocks
        have hnew : new' = [⟨q, 44⟩] ++ new :=
          List.append_cancel_right (hlive'.symm.trans hlive)
        exact not_isMountBlock_of_file hf (hmounts ⟨q, 44⟩ (by simp [hnew]))
      | some slot =>
        -- the file would have been opened
        rw [hslot] at hout
        obtain ⟨rfl, -⟩ := hout
        omega

/-- **A failed `fopen` gives back what it took iff it did not find a file while the table was
full.** For every path, mode and content of the disks. -/
theorem fopen_failed_iff (hS : FsSound M (fun _ _ => True) s) (path modeStr : CString) {res : ℤ}
    (hopen : fopen M path modeStr s = .ok (res, t)) (hneg : res < 0) :
    Released s t ↔
      ¬ (freeSlot s.fs = none ∧ ∃ r, fopenLookup M path modeStr s.drives = .ok (.inr r)) := by
  rcases fopen_failed_cases hS hopen hneg with ⟨hnone, hrel⟩ | ⟨hslot, hfound, hrel⟩
  · refine iff_of_true hrel ?_
    rintro ⟨-, r, h⟩
    exact hnone r h
  · exact iff_of_false hrel (not_not_intro ⟨hslot, hfound⟩)

end FailedOpen

/-- Opening a missing file on a disk that is mounted for it. -/
theorem fopen_failed_iff_missing :
    let M := singleFileMachine [0x42]
    ∃ t, fopen M [0x30, 0x3A, 0x2F, 0x42] [0x72] (Kernel.boot (KHeap.init 0x10000) ()) =
        .ok (-6, t) ∧ Released (Kernel.boot (KHeap.init 0x10000) ()) t := by
  intro M
  have hres : ((fopen M [0x30, 0x3A, 0x2F, 0x42] [0x72]
      (Kernel.boot (KHeap.init 0x10000) ())).toOption.map Prod.fst) = some (-6) := by
    decide +kernel
  cases hr : fopen M [0x30, 0x3A, 0x2F, 0x42] [0x72] (Kernel.boot (KHeap.init 0x10000) ()) with
  | error e =>
    rw [hr] at hres
    cases hres
  | ok r =>
    obtain ⟨res, t⟩ := r
    rw [hr] at hres
    cases hres
    refine ⟨t, rfl, (fopen_failed_iff (FsSound.boot M _ _) _ _ hr (by decide)).mpr ?_⟩
    rintro ⟨h, -⟩
    revert h
    decide +kernel

/-! ### A full table -/

/-- The address of the `k`-th block of the kernel with a full table. -/
def fullBlock (k : ℕ) : ℕ := 0x100000 + 1024 * k

/-- The structure in the `k`-th block: 512 descriptors, their files, a mount and its stream. -/
def fullObj (k : ℕ) : Option Obj :=
  if k < 512 then some (.descriptor ⟨k + 1, .fat16, fullBlock (512 + k), 0⟩)
  else if k < 1024 then some (.file (FatFileDescriptor.fresh (singleFileItem 1)))
  else if k = 1024 then some (.mount ⟨singleFileBpb, fullBlock 1025⟩)
  else if k = 1025 then some (.stream ⟨0, 0⟩)
  else none

/-- The blocks of the kernel with a full table. -/
@[irreducible] def fullLive : List Allocation := (List.range 1026).map fun k => ⟨fullBlock k, 516⟩

/-- A kernel with 512 open files. -/
def fullKernel : Kernel KHeap Unit where
  heap := KHeap.init 0x10000
  live := fullLive
  store p := if 0x100000 ≤ p ∧ (p - 0x100000) % 1024 = 0 then fullObj
    ((p - 0x100000) / 1024) else none
  drives := ()
  fs := ⟨some .fat16 :: List.replicate 11 none,
    fun slot => if slot < 512 then fullBlock slot else 0,
    fun i => if i = 0 then fullBlock 1024 else 0⟩
  proc := ⟨0, 0, 0, 0⟩
  tasks := ⟨0, 0, 0⟩

theorem fullKernel_store (k : ℕ) : fullKernel.store (fullBlock k) = fullObj k := by
  unfold fullKernel fullBlock
  dsimp only
  rw [if_pos (by omega), show 0x100000 + 1024 * k - 0x100000 = 1024 * k by omega,
    Nat.mul_div_cancel_left _ (by norm_num)]

theorem fullBlock_inj {j k : ℕ} (h : fullBlock j = fullBlock k) : j = k := by
  unfold fullBlock at h
  omega

theorem fullKernel_slot {slot : ℕ} (h : fullKernel.fs.fileDescriptors slot ≠ 0) :
    slot < 512 ∧ fullKernel.fs.fileDescriptors slot = fullBlock slot ∧
      fullKernel.store (fullBlock slot) =
        some (.descriptor ⟨slot + 1, .fat16, fullBlock (512 + slot), 0⟩) := by
  have hslot : slot < 512 := by
    by_contra hle
    exact h (if_neg hle)
  refine ⟨hslot, if_pos hslot, ?_⟩
  rw [fullKernel_store]
  unfold fullObj
  rw [if_pos hslot]

theorem fullObj_size {k : ℕ} {o : Obj} (h : fullObj k = some o) : k < 1026 ∧ o.size ≤ 516 := by
  unfold fullObj at h
  split_ifs at h with h₁ h₂ h₃ h₄
  all_goals
    cases h
    refine ⟨by omega, ?_⟩
    norm_num [Obj.size]

theorem mem_fullLive {a : Allocation} : a ∈ fullLive ↔ ∃ k < 1026, ⟨fullBlock k, 516⟩ = a := by
  unfold fullLive
  simp only [List.mem_map, List.mem_range]

theorem fullLive_apart : fullLive.Pairwise fun a b => a.span.Apart b.span := by
  unfold fullLive
  refine List.pairwise_map.mpr (List.pairwise_lt_range.imp fun {j k} hjk => ?_)
  unfold Span.Apart Allocation.span Span.stop fullBlock
  dsimp only
  omega

theorem fullKernel_arena : ArenaInv (singleFileMachine [0x42]) fullKernel where
  low := by
    intro a ha
    obtain ⟨k, -, rfl⟩ := mem_fullLive.mp ha
    unfold fullBlock singleFileMachine
    dsimp only
    omega
  high := by
    intro a ha
    obtain ⟨k, hk, rfl⟩ := mem_fullLive.mp ha
    unfold fullBlock identityTop
    dsimp only
    omega
  apart := fullLive_apart
  stored := by
    intro p o hp
    unfold fullKernel at hp
    dsimp only at hp
    split_ifs at hp with haddr
    obtain ⟨hk, hsize⟩ := fullObj_size hp
    refine ⟨⟨fullBlock ((p - 0x100000) / 1024), 516⟩, mem_fullLive.mpr ⟨_, hk, rfl⟩, ?_, hsize⟩
    unfold fullBlock
    dsimp only
    omega

theorem fullKernel_inv : FsInv (fun _ _ => True) fullKernel where
  registered := rfl
  mounted := by
    intro i hi
    obtain rfl : i = 0 := by
      by_contra hne
      exact hi (if_neg hne)
    exact ⟨⟨singleFileBpb, fullBlock 1025⟩, ⟨0, 0⟩, fullKernel_store 1024, trivial,
      fullKernel_store 1025, rfl⟩
  opened := by
    intro slot h
    obtain ⟨hslot, haddr, hdesc⟩ := fullKernel_slot h
    refine ⟨⟨slot + 1, .fat16, fullBlock (512 + slot), 0⟩,
      FatFileDescriptor.fresh (singleFileItem 1), ⟨hslot, haddr ▸ hdesc, rfl, ?_⟩, ?_⟩
    · rw [fullKernel_store]
      unfold fullObj
      rw [if_neg (by omega), if_pos (by omega)]
    · unfold fullKernel fullBlock
      dsimp only
      rw [if_pos rfl]
      omega
  own := by
    intro slot slot' fd fd' h h' hfd hfd' hpriv
    obtain ⟨-, haddr, hdesc⟩ := fullKernel_slot h
    obtain ⟨-, haddr', hdesc'⟩ := fullKernel_slot h'
    rw [haddr, hdesc] at hfd
    rw [haddr', hdesc'] at hfd'
    cases hfd
    cases hfd'
    exact Nat.add_left_cancel (fullBlock_inj hpriv)

theorem fullKernel_sound : FsSound (singleFileMachine [0x42]) (fun _ _ => True) fullKernel :=
  ⟨fullKernel_arena, fullKernel_inv⟩

/-- **A file structure is lost** when the table is full: `fopen` answers `-7`, and a block is left
that belongs to no mount. -/
theorem fopen_leaks_file :
    let M := singleFileMachine [0x42]
    ∃ t, fopen M [0x30, 0x3A, 0x2F, 0x41] [0x72] fullKernel = .ok (-7, t) ∧
      FsSound M (fun _ _ => True) fullKernel ∧ ¬ Released fullKernel t := by
  intro M
  have hres : ((fopen M [0x30, 0x3A, 0x2F, 0x41] [0x72] fullKernel).toOption.map Prod.fst) =
      some (-7) := by
    decide +kernel
  have hfound : ((fopenLookup M [0x30, 0x3A, 0x2F, 0x41] [0x72] ()).toOption.map Sum.isRight) =
      some true := by
    decide +kernel
  cases hr : fopen M [0x30, 0x3A, 0x2F, 0x41] [0x72] fullKernel with
  | error e =>
    rw [hr] at hres
    cases hres
  | ok r =>
    obtain ⟨res, t⟩ := r
    rw [hr] at hres
    cases hres
    refine ⟨t, rfl, fullKernel_sound, ?_⟩
    rcases fopen_failed_cases fullKernel_sound hr (by decide) with ⟨hnone, -⟩ | ⟨-, -, hrel⟩
    · -- the file is found
      cases hl : fopenLookup M [0x30, 0x3A, 0x2F, 0x41] [0x72] () with
      | error e =>
        rw [hl] at hfound
        cases hfound
      | ok found =>
        cases found with
        | inl code =>
          rw [hl] at hfound
          cases hfound
        | inr r => exact absurd hl (hnone r)
    · exact hrel

end VibeKernel
