import VibeKernel.Drivers.StreamSlices

/-!
# Drives that fail from time to time

A drive whose sectors hold the bytes of an image and whose reads fail by a pattern: the state of the
drive says of every read to come whether it fails. A pattern is arbitrary, so it stands for any
subset of the calls of `ata_read_sector`; failures have stopped once it is `Quiet`.

Every access then has two outcomes. Either the reads it needs are all in order, and it answers from
the image with the pattern moved on by the number of these reads, or one of them fails.
-/

namespace VibeKernel

open Verif

/-- A drive with the bytes of `img` on which the `n`-th read from now on fails if `fails n`. -/
def flakyAta (img : ℕ → UInt8) : Ata (ℕ → Bool) where
  readSector fails _ lba :=
    (if fails 0 then none else some fun i => img (512 * lba + i), fun n => fails (n + 1))

/-- The pattern behind the next `n` reads. -/
def behind (fails : ℕ → Bool) (n : ℕ) : ℕ → Bool := fun i => fails (n + i)

/-- No read fails any more. -/
def Quiet (fails : ℕ → Bool) : Prop := ∀ n, fails n = false

/-- The `n`-th read from now on is the first to fail. -/
def FirstFails (fails : ℕ → Bool) (n : ℕ) : Prop := fails n = true ∧ ∀ i < n, fails i = false

instance (fails : ℕ → Bool) (n : ℕ) : Decidable (FirstFails fails n) :=
  inferInstanceAs (Decidable (_ ∧ _))

theorem behind_behind (fails : ℕ → Bool) (m n : ℕ) :
    behind (behind fails m) n = behind fails (m + n) := by
  funext i
  unfold behind
  rw [Nat.add_assoc]

theorem Quiet.behind {fails : ℕ → Bool} (h : Quiet fails) (n : ℕ) : Quiet (behind fails n) :=
  fun i => h (n + i)

/-- What fails first behind reads that are in order fails first of all. -/
theorem FirstFails.of_behind {fails : ℕ → Bool} {m n : ℕ} (hfront : ∀ i < m, fails i = false)
    (h : FirstFails (behind fails m) n) : FirstFails fails (m + n) := by
  refine ⟨h.1, fun i hi => ?_⟩
  rcases Nat.lt_or_ge i m with hlt | hge
  · exact hfront i hlt
  · have := h.2 (i - m) (by omega)
    unfold VibeKernel.behind at this
    rwa [Nat.add_sub_cancel' hge] at this

section Flaky

variable {img : ℕ → UInt8} {drive : ℕ}

theorem flakyAta_read {lba : ℕ} (hlba : lba < 268435456) (fails : ℕ → Bool) :
    ataReadSector (flakyAta img) drive lba fails =
      (if fails 0 then none else some fun i => img (512 * lba + i), behind fails 1) := by
  unfold ataReadSector flakyAta behind
  rw [Nat.mod_eq_of_lt hlba]
  simp only [Nat.add_comm 1]

theorem flakyAta_holds : (flakyAta img).Holds drive img := by
  intro fails lba buffer fails' hlba hread i _
  rw [flakyAta_read hlba] at hread
  by_cases hfail : fails 0
  · rw [if_pos hfail] at hread
    cases congrArg Prod.fst hread
  · rw [if_neg hfail] at hread
    cases hread
    rfl

/-- Reading some sectors one after the other. -/
theorem ataReadSectors_flaky :
    ∀ (n sector : ℕ) (fails : ℕ → Bool), sector + n ≤ 268435456 →
      ((∀ i < n, fails i = false) ∧
        ataReadSectors (flakyAta img) drive sector n fails = (true, behind fails n)) ∨
      ((∃ i < n, fails i = true) ∧
        ∃ fails', ataReadSectors (flakyAta img) drive sector n fails = (false, fails')) := by
  intro n
  induction n with
  | zero =>
    intro sector fails _
    refine .inl ⟨fun i hi => absurd hi (Nat.not_lt_zero i), ?_⟩
    rw [ataReadSectors]
    unfold behind
    simp only [Nat.zero_add]
  | succ n ih =>
    intro sector fails hend
    rw [ataReadSectors, flakyAta_read (by omega)]
    cases hfst : fails 0 with
    | true => exact .inr ⟨⟨0, Nat.succ_pos n, hfst⟩, _, rfl⟩
    | false =>
      rw [if_neg (by decide)]
      dsimp only
      rcases ih (sector + 1) (behind fails 1) (by omega) with ⟨hall, hread⟩ |
        ⟨⟨i, hi, hfail⟩, hread⟩
      · refine .inl ⟨fun i hi => ?_, ?_⟩
        · cases i with
          | zero => exact hfst
          | succ i =>
            have := hall i (by omega)
            unfold behind at this
            rwa [Nat.add_comm] at this
        · rw [hread, behind_behind, Nat.add_comm 1 n]
      · exact .inr ⟨⟨1 + i, by omega, hfail⟩, hread⟩

/-- A read either finds all its sectors in order or fails. -/
theorem diskstreamRead_flaky {pos total : ℕ} (hend : pos + total ≤ 512 * 268435456)
    (fails : ℕ → Bool) :
    ((∀ i < sectorsTouched pos total, fails i = false) ∧
      diskstreamRead (flakyAta img) ⟨pos, drive⟩ total fails =
        ((0, slice img pos total), ⟨u32 (pos + total), drive⟩,
          behind fails (sectorsTouched pos total))) ∨
    ((∃ i < sectorsTouched pos total, fails i = true) ∧
      ∃ out fails', diskstreamRead (flakyAta img) ⟨pos, drive⟩ total fails =
        ((-1, out), ⟨pos, drive⟩, fails')) := by
  have hsectors : pos / 512 + sectorsTouched pos total ≤ 268435456 := by
    unfold sectorsTouched
    split <;> omega
  rcases @ataReadSectors_flaky img drive _ _ fails hsectors with ⟨hall, hread⟩ |
    ⟨hsome, fails', hread⟩
  · exact .inl ⟨hall, @diskstreamRead_all _ _ drive img flakyAta_holds ⟨pos, drive⟩ rfl total hend
      fails _ hread⟩
  · obtain ⟨out, hfailed⟩ := @diskstreamRead_failed _ _ drive img flakyAta_holds ⟨pos, drive⟩ rfl
      total hend fails fails' hread
    exact .inr ⟨hsome, out, fails', hfailed⟩

end Flaky

end VibeKernel
