import VibeKernel.Loader.ElfFile

/-!
# Where the bytes of a segment are stored

`elf_load` allocates `p_memsz` bytes for a segment and reads `p_filesz` bytes into them, two fields
that it does not compare. What is stored stays inside the block exactly if the read delivers no more
bytes than the block has, for each header that the loop comes to (`segment_writes_inside_iff`). A
segment without memory has no block at all, and `NULL` is read into.
-/

namespace VibeKernel

open Verif

variable {H D : Type}

/-- Wherever `elf_load` gets to its loop, all that the loop stores for the segments stays inside the
blocks that were allocated for them. -/
def SegmentWritesInside (M : Machine H D) (filename : CString) (s : Kernel H D) : Prop :=
  ∀ fd header proc t, elfLoadFront M filename s = .ok (.inr (fd, header, proc), t) →
    elfSegments M fd proc header.phnum t ≠ .error .overrun

namespace StoredFile

/-- The bytes read for a segment fit into its block, for each header up to the first one that does
not load. -/
def SegmentsFit {M : Machine H D} (x : StoredFile M) : Prop :=
  ∀ i < x.ehdr.phnum, (∀ j < i, x.Loads (x.tablePos + elfPhdrSize * j)) →
    ¬ x.Overruns (x.tablePos + elfPhdrSize * i)

section Fit

variable {M : Machine H D} {x : StoredFile M}

/-- Headers that fit do not overrun. -/
theorem SegmentsFit.not_overruns (hfit : x.SegmentsFit) :
    ¬ x.LoopOutcome x.ehdr.phnum x.tablePos none := by
  rintro ⟨i, hi, hover, hbefore⟩
  exact hfit i hi hbefore hover

/-- A loop that ends has gone past no header that overruns. -/
theorem LoopOutcome.segmentsFit {r : ℤ × List ReadHeader}
    (hout : x.LoopOutcome x.ehdr.phnum x.tablePos (some r)) : x.SegmentsFit := by
  obtain ⟨res, out⟩ := r
  intro i hi hbefore
  rcases hout with ⟨-, hall, -⟩ | ⟨-, k, -, hnot, hover, hall⟩
  · exact not_overruns_of_loads (hall i hi)
  · rcases lt_trichotomy i k with hik | rfl | hki
    · exact not_overruns_of_loads (hall i hik)
    · exact hover
    · exact absurd (hbefore k hki) hnot

end Fit

section Inside

variable {M : Machine LowHeap D} {x : StoredFile M} {s t : Kernel LowHeap D} {filename : CString}
  {fd : ℤ} {header : ElfEhdr} {proc : ℕ}

/-- The loop as `elf_load` gets to it: it ends with what its reader says, or it stops. -/
theorem Found.loop (hheap : M.heap = lowKheap) (h : x.Found filename s)
    (hfront : elfLoadFront M filename s = .ok (.inr (fd, header, proc), t)) :
    wp (fun e => e.AllocFails ∨ e = .overrun ∧ x.LoopOutcome x.ehdr.phnum x.tablePos none)
      (elfSegments M fd proc header.phnum)
      (fun r _ => ∃ out, x.LoopOutcome x.ehdr.phnum x.tablePos (some (r.1, out))) t := by
  have hE : ∀ e : Stop, e.AllocFails →
      e.AllocFails ∨ e = .overrun ∧ x.LoopOutcome x.ehdr.phnum x.tablePos none := fun _ => Or.inl
  have hnull : NullStops M fun e =>
      e.AllocFails ∨ e = .overrun ∧ x.LoopOutcome x.ehdr.phnum x.tablePos none := by
    intro n h h' hn hans
    rw [hheap] at hans
    exact absurd (lowKheap_null hans) hn
  refine (h.elfLoadFront_wp (E := fun _ => True) (Q := fun r t => r = .inr (fd, header, proc) →
    wp _ (elfSegments M fd proc header.phnum) _ t) (fun _ _ => trivial) (.inr trivial)
    (fun _ => trivial) (fun _ _ hr => by cases hr) (fun _ _ _ hr => by cases hr)
    fun slot proc' u _ hfd hat _ hS _ _ hr => ?_).ok hfront rfl
  cases hr
  obtain ⟨dir, W, hS⟩ := hS
  exact elfSegments_wp (R := x.reader hfd _) hE hnull _ _ u W processMap _ hat hS
    (fun hloop => Or.inr ⟨rfl, reader_loop hloop⟩)
    fun res segments out v hloop _ _ _ => ⟨out, reader_loop hloop⟩

/-- **Segment writes stay inside their blocks** if the bytes that are read fit; and where the loop
is reached and no allocation fails in it, only then. -/
theorem segment_writes_inside_iff (hheap : M.heap = lowKheap) (h : x.Found filename s) :
    (x.SegmentsFit → SegmentWritesInside M filename s) ∧
      ∀ fd header proc t, elfLoadFront M filename s = .ok (.inr (fd, header, proc), t) →
        (∀ e, elfSegments M fd proc header.phnum t = .error e → ¬ e.AllocFails) →
        (SegmentWritesInside M filename s ↔ x.SegmentsFit) := by
  have hinside : x.SegmentsFit → SegmentWritesInside M filename s := by
    intro hfit fd header proc t hfront hrun
    rcases (h.loop hheap hfront).error hrun with hfails | ⟨-, hover⟩
    · rcases hfails with h | h | h <;> cases h
    · exact hfit.not_overruns hover
  refine ⟨hinside, fun fd header proc t hfront hmem => ⟨fun hall => ?_, hinside⟩⟩
  have hloop := h.loop hheap hfront
  cases hrun : elfSegments M fd proc header.phnum t with
  | ok r =>
    obtain ⟨out, hout⟩ := hloop.ok hrun
    exact hout.segmentsFit
  | error e =>
    rcases hloop.error hrun with hfails | ⟨rfl, -⟩
    · exact absurd hfails (hmem e hrun)
    · exact absurd hrun (hall fd header proc t hfront)

end Inside

end StoredFile

/-! ### Two files -/

/-- A file whose segment of four bytes fills its block. -/
def fittingFile : List UInt8 :=
  ehdrBytes 52 1 ++ phdrBytes ⟨ptLoad, 84, 0x400000, 4, 4⟩ ++ [1, 2, 3, 4]

/-- A file with four bytes for a segment without memory. -/
def memorylessFile : List UInt8 :=
  ehdrBytes 52 1 ++ phdrBytes ⟨ptLoad, 84, 0x400000, 4, 0⟩ ++ [1, 2, 3, 4]

/-- What the loop of `elf_load` comes to, where the function gets to it. -/
def loopStop (file : List UInt8) : Option (Option Stop) :=
  match elfLoadFront (elfMachine file) elfPath elfBoot with
  | .ok (.inr (fd, header, proc), t) =>
    match elfSegments (elfMachine file) fd proc header.phnum t with
    | .ok _ => some none
    | .error e => some (some e)
  | _ => none

/-- A segment that fills its block stays inside. -/
theorem segment_writes_inside_iff_full :
    SegmentWritesInside (elfMachine fittingFile) elfPath elfBoot := by
  have hfound := @elfFile_found fittingFile (by decide +kernel) (by decide +kernel)
  refine (StoredFile.segment_writes_inside_iff rfl hfound).1 ?_
  have hehdr : (elfFile fittingFile (by decide +kernel)).ehdr.phnum = 1 := by
    unfold StoredFile.ehdr
    rw [elfFile_bytes]
    decide +kernel
  intro i hi _
  obtain rfl : i = 0 := by omega
  rintro ⟨-, -, hover⟩
  have hle := StoredFile.out_length_le (elfFile fittingFile (by decide +kernel))
    ((elfFile fittingFile (by decide +kernel)).segmentPos
      ((elfFile fittingFile (by decide +kernel)).tablePos + elfPhdrSize * 0))
    ((elfFile fittingFile (by decide +kernel)).phdrAt
      ((elfFile fittingFile (by decide +kernel)).tablePos + elfPhdrSize * 0)).filesz
  have hsizes : ((elfFile fittingFile (by decide +kernel)).phdrAt
      ((elfFile fittingFile (by decide +kernel)).tablePos + elfPhdrSize * 0)).filesz ≤
      ((elfFile fittingFile (by decide +kernel)).phdrAt
      ((elfFile fittingFile (by decide +kernel)).tablePos + elfPhdrSize * 0)).memsz := by
    unfold StoredFile.phdrAt StoredFile.tablePos StoredFile.seekTo StoredFile.ehdr
    rw [elfFile_bytes]
    decide +kernel
  exact absurd (hle.trans hsizes) (Nat.not_le.mpr hover)

/-- **A segment without memory.** Its four bytes are stored through `NULL`. -/
theorem segment_writes_outside :
    ¬ SegmentWritesInside (elfMachine memorylessFile) elfPath elfBoot := by
  have hstop : loopStop memorylessFile = some (some .overrun) := by decide +kernel
  intro hall
  unfold loopStop at hstop
  split at hstop
  · rename_i fd header proc t hfront
    split at hstop
    · cases hstop
    · rename_i e hrun
      cases hstop
      exact hall fd header proc t hfront hrun
  · cases hstop

end VibeKernel
