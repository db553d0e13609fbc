import VibeKernel.Loader.ElfRoom

/-!
# Valid ELF files

A valid file names a table and segments that lie inside it, and segments that fit into their memory.
With room in the heap for all blocks, `elf_load` returns, and it has loaded such a file exactly if
every `PT_LOAD` header has bytes in the file (`valid_elf_loads_iff`): an `fread` of nothing answers
`0`, and the loader takes every answer but `1` for a failure. The bytes of a valid file stay in the
blocks of its segments; what else must stay in its block is the name of the process.
-/

namespace VibeKernel

open Verif

variable {H D : Type}

namespace StoredFile

/-- A valid ELF file. -/
structure ValidElf {M : Machine H D} (x : StoredFile M) : Prop where
  header : x.HasEhdr
  table : x.ehdr.phoff + elfPhdrSize * x.ehdr.phnum ≤ x.bytes.length
  segment : ∀ i < x.ehdr.phnum, (x.phdrAt (x.ehdr.phoff + elfPhdrSize * i)).type = ptLoad →
    (x.phdrAt (x.ehdr.phoff + elfPhdrSize * i)).vaddr % 4096 = 0 ∧
    (x.phdrAt (x.ehdr.phoff + elfPhdrSize * i)).filesz ≤
      (x.phdrAt (x.ehdr.phoff + elfPhdrSize * i)).memsz ∧
    (x.phdrAt (x.ehdr.phoff + elfPhdrSize * i)).offset +
      (x.phdrAt (x.ehdr.phoff + elfPhdrSize * i)).filesz ≤ x.bytes.length

/-- Every `PT_LOAD` header has bytes in the file. -/
def NoEmptySegment {M : Machine H D} (x : StoredFile M) : Prop :=
  ∀ i < x.ehdr.phnum, (x.phdrAt (x.ehdr.phoff + elfPhdrSize * i)).type = ptLoad →
    0 < (x.phdrAt (x.ehdr.phoff + elfPhdrSize * i)).filesz

section Valid

variable {M : Machine LowHeap D} {x : StoredFile M} {s : Kernel LowHeap D} {filename : CString}

namespace ValidElf

/-- The table of a valid file is where it says. -/
theorem tablePos_eq (hvalid : x.ValidElf) : x.tablePos = x.ehdr.phoff :=
  seekTo_inside ((Nat.le_add_right _ _).trans hvalid.table)

theorem hasPhdr (hvalid : x.ValidElf) {i : ℕ} (hi : i < x.ehdr.phnum) :
    x.HasPhdr (x.ehdr.phoff + elfPhdrSize * i) := by
  have hle : elfPhdrSize * (i + 1) ≤ elfPhdrSize * x.ehdr.phnum := Nat.mul_le_mul_left _ hi
  calc x.ehdr.phoff + elfPhdrSize * i + elfPhdrSize
      = x.ehdr.phoff + elfPhdrSize * (i + 1) := by ring
    _ ≤ x.ehdr.phoff + elfPhdrSize * x.ehdr.phnum := Nat.add_le_add_left hle _
    _ ≤ x.bytes.length := hvalid.table

/-- What is read for a segment fits into its memory. -/
theorem fits (hvalid : x.ValidElf) {i : ℕ} (hi : i < x.ehdr.phnum)
    (htype : (x.phdrAt (x.ehdr.phoff + elfPhdrSize * i)).type = ptLoad) :
    (x.segmentOut (x.ehdr.phoff + elfPhdrSize * i)).length ≤
      (x.phdrAt (x.ehdr.phoff + elfPhdrSize * i)).memsz :=
  (x.out_length_le _ _).trans (hvalid.segment i hi htype).2.1

/-- A header loads exactly if it has bytes, or is no `PT_LOAD` header. -/
theorem loads_iff (hvalid : x.ValidElf) {i : ℕ} (hi : i < x.ehdr.phnum) :
    x.Loads (x.ehdr.phoff + elfPhdrSize * i) ↔
      ((x.phdrAt (x.ehdr.phoff + elfPhdrSize * i)).type = ptLoad →
        0 < (x.phdrAt (x.ehdr.phoff + elfPhdrSize * i)).filesz) := by
  constructor
  · exact fun h htype => (h.2 htype).1.1
  · refine fun h => ⟨hvalid.hasPhdr hi, fun htype => ⟨⟨h htype, ?_⟩, hvalid.fits hi htype⟩⟩
    have hend := (hvalid.segment i hi htype).2.2
    unfold segmentPos
    rw [seekTo_inside ((Nat.le_add_right _ _).trans hend)]
    exact hend

theorem not_overruns (hvalid : x.ValidElf) {i : ℕ} (hi : i < x.ehdr.phnum) :
    ¬ x.Overruns (x.ehdr.phoff + elfPhdrSize * i) := by
  rintro ⟨-, htype, hlong⟩
  exact absurd (hvalid.fits hi htype) (Nat.not_le.mpr hlong)

end ValidElf

/-- The bytes of a valid file stay in the blocks of its segments. -/
theorem ValidElf.segmentsFit (hvalid : x.ValidElf) : x.SegmentsFit := by
  intro i hi _
  rw [hvalid.tablePos_eq]
  exact hvalid.not_overruns hi

/-- What `elf_load` answers for a valid file without an empty segment. -/
theorem ValidElf.result (hvalid : x.ValidElf) (h : x.Found filename s) (hnull : NeverNull M)
    (hfull : x.NoEmptySegment) {res : ℤ} {proc : ℕ} {segments : List ElfSegment}
    {t : Kernel LowHeap D} (hrun : elfLoad M filename s = .ok ((res, proc, segments), t)) :
    res = 0 ∧ proc ≠ 0 := by
  have hloads : ∀ i < x.ehdr.phnum, x.Loads (x.tablePos + elfPhdrSize * i) := by
    rw [hvalid.tablePos_eq]
    exact fun i hi => (hvalid.loads_iff hi).mpr (hfull i hi)
  -- the loop goes through all headers
  refine (h.elfLoad_wp (E := fun _ => True) (Q := fun r _ => r.1 = 0 ∧ r.2.1 ≠ 0)
    (fun _ _ => trivial)
    (fun _ _ _ _ _ => trivial) (.inr trivial) (fun _ => trivial)
    (fun hno => absurd hvalid.header hno) (fun _ hnone => ?_) (fun _ => trivial)
    (fun res segments out t hout hres => ?_) fun proc _ _ _ _ h0 _ _ => ⟨rfl, h0⟩).ok hrun
  · obtain ⟨k, k', hans⟩ := hnone
    exact absurd hans (hnull 96 false k k' (by decide))
  · rcases hout with ⟨h0, -⟩ | ⟨-, i, hi, hnot, -⟩
    · exact absurd h0 hres
    · exact absurd (hloads i hi) hnot

end Valid

end StoredFile

/-! ### Two files -/

end VibeKernel
