import VibeKernel.Fs.Fat16

/-!
# Where a seek goes

`fat16_seek` adds a signed offset to an unsigned base and compares the 32-bit sum with `filesize`.
`exactSeek` is what the comparison is meant to decide: the target in exact integers lies in
`[0, filesize]`. The two agree unless the sum wraps around and lands inside the file, and
`SeekFits` says for which arguments that happens. It never does in a file below 2 GiB.
-/

namespace VibeKernel

open Verif

/-- The exact target of a seek. -/
def seekTarget (pos filesize : ℕ) (offset : ℤ) : FileSeekMode → ℤ
  | .set => offset
  | .cur => pos + offset
  | .fromEnd => filesize + offset

/-- A seek that decides in exact integers. -/
def exactSeek (desc : FatFileDescriptor) (offset : ℤ) (whence : FileSeekMode) :
    ℤ × FatFileDescriptor :=
  let t := seekTarget desc.pos desc.item.filesize offset whence
  if 0 ≤ t ∧ t ≤ desc.item.filesize then (0, { desc with pos := t.toNat }) else (-1, desc)

/-- The target of a seek does not wrap around to a position inside the file. -/
def SeekFits (pos filesize : ℕ) (offset : ℤ) : FileSeekMode → Prop
  | .set => 0 ≤ offset ∨ (filesize : ℤ) < 4294967296 + offset
  | .cur => (pos : ℤ) + offset < 4294967296 ∧
      (0 ≤ (pos : ℤ) + offset ∨ (filesize : ℤ) < 4294967296 + (pos + offset))
  | .fromEnd => (filesize : ℤ) + offset < 4294967296

/-- The position a seek checks is the exact target up to the wrap-around. -/
theorem fat16Seek_eq (desc : FatFileDescriptor) (offset : ℤ) (whence : FileSeekMode) :
    fat16Seek desc offset whence =
      let newPos := ofInt32 (seekTarget desc.pos desc.item.filesize offset whence)
      if newPos > desc.item.filesize then (-1, desc) else (0, { desc with pos := newPos }) := by
  have hsum : ∀ base : ℕ, u32 (base + ofInt32 offset) = ofInt32 (base + offset) := by
    intro base
    unfold ofInt32
    rw [u32_eq]
    omega
  unfold fat16Seek seekTarget
  cases whence with
  | set => rfl
  | cur =>
    dsimp only
    rw [hsum]
  | fromEnd =>
    dsimp only
    rw [hsum]

/-- `SeekFits` in terms of the target: it is a word, or it wraps to a word behind the file. -/
theorem seekFits_iff {pos filesize : ℕ} (hpos : pos ≤ filesize) (hsize : filesize < 4294967296)
    (offset : Int32) (whence : FileSeekMode) :
    SeekFits pos filesize offset.toInt whence ↔
      let t := seekTarget pos filesize offset.toInt whence
      (0 ≤ t ∧ t < 4294967296) ∨ filesize < ofInt32 t := by
  have hlow := offset.le_toInt
  have hhigh := offset.toInt_lt
  cases whence with
  | set =>
    unfold SeekFits seekTarget ofInt32
    dsimp only
    omega
  | cur =>
    unfold SeekFits seekTarget ofInt32
    dsimp only
    omega
  | fromEnd =>
    -- a target in front of the file wraps to one behind it
    unfold SeekFits seekTarget ofInt32
    dsimp only
    omega

/-- In a file below 2 GiB no target wraps into the file. -/
theorem seekFits_of_small {pos filesize : ℕ} (hpos : pos ≤ filesize) (hsize : filesize < 2147483648)
    (offset : Int32) (whence : FileSeekMode) : SeekFits pos filesize offset.toInt whence := by
  have hlow := offset.le_toInt
  have hhigh := offset.toInt_lt
  cases whence with
  | set =>
    unfold SeekFits
    omega
  | cur =>
    unfold SeekFits
    omega
  | fromEnd =>
    unfold SeekFits
    omega

/-- A seek whose target does not wrap into the file is exact. -/
theorem fat16Seek_eq_exact {desc : FatFileDescriptor} (hpos : desc.pos ≤ desc.item.filesize)
    (hsize : desc.item.filesize < 4294967296) {offset : Int32} {whence : FileSeekMode}
    (hfits : SeekFits desc.pos desc.item.filesize offset.toInt whence) :
    fat16Seek desc offset.toInt whence = exactSeek desc offset.toInt whence := by
  have hword := (seekFits_iff hpos hsize offset whence).mp hfits
  rw [fat16Seek_eq]
  unfold exactSeek
  generalize seekTarget desc.pos desc.item.filesize offset.toInt whence = t at hword
  dsimp only at hword ⊢
  have hin : 0 ≤ t → t < 4294967296 → ofInt32 t = t.toNat := by
    intro h0 ht
    unfold ofInt32
    omega
  by_cases ht : 0 ≤ t ∧ t ≤ desc.item.filesize
  · rw [if_pos ht, hin ht.1 (by omega), if_neg (by omega)]
  · rw [if_neg ht, if_pos ?_]
    rcases hword with ⟨h0, hlt⟩ | hbehind
    · rw [hin h0 hlt]
      omega
    · exact hbehind

/-- **A seek is exact iff its target does not wrap into the file.** From every position of every
file, for every offset and every mode. -/
theorem fat16Seek_exact_iff {desc : FatFileDescriptor} (hpos : desc.pos ≤ desc.item.filesize)
    (hsize : desc.item.filesize < 4294967296) (offset : Int32) (whence : FileSeekMode) :
    fat16Seek desc offset.toInt whence = exactSeek desc offset.toInt whence ↔
      SeekFits desc.pos desc.item.filesize offset.toInt whence := by
  refine ⟨fun h => ?_, fat16Seek_eq_exact hpos hsize⟩
  rw [seekFits_iff hpos hsize]
  rw [fat16Seek_eq] at h
  unfold exactSeek at h
  generalize seekTarget desc.pos desc.item.filesize offset.toInt whence = t at h
  dsimp only at h ⊢
  by_cases hbehind : ofInt32 t > desc.item.filesize
  · exact .inr hbehind
  · -- the seek is accepted, so the target must lie in the file
    rw [if_neg hbehind] at h
    have ht : 0 ≤ t ∧ t ≤ desc.item.filesize := by
      by_contra hout
      rw [if_neg hout] at h
      cases congrArg Prod.fst h
    exact .inl ⟨ht.1, by omega⟩

/-- A step back from the middle of a file. -/
theorem fat16Seek_exact_iff_back :
    let desc := { FatFileDescriptor.fresh ⟨[], [], 0, 2, 600⟩ with pos := 100 }
    fat16Seek desc (-50 : Int32).toInt .cur = exactSeek desc (-50 : Int32).toInt .cur ↔
      SeekFits 100 600 (-50 : Int32).toInt .cur :=
  @fat16Seek_exact_iff { FatFileDescriptor.fresh ⟨[], [], 0, 2, 600⟩ with pos := 100 }
    (by decide) (by decide) (-50) .cur

/-- **A wrapped target is accepted.** In a file of `2 ^ 32 - 1` bytes a seek to `-1` from the start
of the file succeeds and moves to its end. -/
theorem fat16Seek_wrapped :
    let desc := FatFileDescriptor.fresh ⟨[], [], 0, 2, 4294967295⟩
    fat16Seek desc (-1 : Int32).toInt .set = (0, { desc with pos := 4294967295 }) ∧
      exactSeek desc (-1 : Int32).toInt .set = (-1, desc) := by
  decide

end VibeKernel
