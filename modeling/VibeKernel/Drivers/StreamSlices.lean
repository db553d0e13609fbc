import VibeKernel.Drivers.DiskStream

/-!
# Stream reads are exact slices

What `diskstream_read` does on drives whose sectors may fail from one read to the next. `Ata.Holds`
only asks that a sector which is read has the bytes of the disk. The reads a stretch of bytes needs
are those of the sectors it touches, one after the other (`ataReadSectors`). If they all succeed the
stretch itself is stored and the stream moves behind it; otherwise the read fails and the stream
stays where it is.
-/

namespace VibeKernel

open Verif

variable {D : Type}

/-- A sector of a drive, whenever it can be read, holds its bytes of `img`. -/
def Ata.Holds (A : Ata D) (drive : ℕ) (img : ℕ → UInt8) : Prop :=
  ∀ d lba buffer d', lba < 268435456 → ataReadSector A drive lba d = (some buffer, d') →
    ∀ i < 512, buffer i = img (512 * lba + i)

/-- Reading `n` sectors from `sector` on, up to the first one that fails. -/
def ataReadSectors (A : Ata D) (drive : ℕ) : ℕ → ℕ → D → Bool × D
  | _, 0, d => (true, d)
  | sector, n + 1, d =>
    match ataReadSector A drive sector d with
    | (none, d) => (false, d)
    | (some _, d) => ataReadSectors A drive (sector + 1) n d

/-- How many sectors the `total` bytes from `pos` on touch. -/
def sectorsTouched (pos total : ℕ) : ℕ :=
  if total = 0 then 0 else (pos + total - 1) / 512 - pos / 512 + 1

@[simp] theorem sectorsTouched_zero (pos : ℕ) : sectorsTouched pos 0 = 0 := rfl

/-- The reads that the `total` bytes from `pos` on need. -/
def readSectorsFor (A : Ata D) (drive pos total : ℕ) (d : D) : Bool × D :=
  ataReadSectors A drive (pos / 512) (sectorsTouched pos total) d

/-- A stretch that ends in its first sector touches that one. -/
theorem sectorsTouched_one {pos total : ℕ} (htotal : 0 < total) (hin : pos % 512 + total ≤ 512) :
    sectorsTouched pos total = 1 := by
  unfold sectorsTouched
  rw [if_neg (by omega)]
  omega

/-- A stretch that leaves its first sector touches one sector more than its rest does. -/
theorem sectorsTouched_succ {pos total : ℕ} (hout : 512 < pos % 512 + total) :
    sectorsTouched pos total =
      sectorsTouched (512 * (pos / 512 + 1)) (total - (512 - pos % 512)) + 1 := by
  unfold sectorsTouched
  rw [if_neg (by omega), if_neg (by omega)]
  omega

section Slices

variable {A : Ata D} {drive : ℕ} {img : ℕ → UInt8}

/-- **The loop invariant.** The loop makes the reads its stretch needs, and has stored the stretch
when they all succeed. -/
theorem diskstreamReadLoop_exact (hA : A.Holds drive img) :
    ∀ (fuel pos total : ℕ) (d : D), total ≤ fuel → pos + total ≤ 512 * 268435456 →
      ∃ out, diskstreamReadLoop A drive fuel (pos / 512) (pos % 512) total d =
          (((readSectorsFor A drive pos total d).1, out), (readSectorsFor A drive pos total d).2) ∧
        ((readSectorsFor A drive pos total d).1 = true → out = slice img pos total) := by
  intro fuel
  induction fuel with
  | zero =>
    intro pos total d hfuel _
    obtain rfl : total = 0 := Nat.le_zero.mp hfuel
    exact ⟨[], rfl, fun _ => rfl⟩
  | succ fuel ih =>
    intro pos total d hfuel hend
    have hsplit : 512 * (pos / 512) + pos % 512 = pos := Nat.div_add_mod _ _
    have hmod : pos % 512 < 512 := Nat.mod_lt _ (by norm_num)
    rcases Nat.eq_zero_or_pos total with rfl | htotal
    · exact ⟨[], rfl, fun _ => rfl⟩
    rw [diskstreamReadLoop, if_neg htotal.ne']
    unfold readSectorsFor
    set n := if 512 - pos % 512 > total then total else 512 - pos % 512 with hn
    cases hread : ataReadSector A drive (pos / 512) d with
    | mk buffer d₁ =>
    cases buffer with
    | none =>
      -- the first sector fails
      obtain ⟨k, hk⟩ : ∃ k, sectorsTouched pos total = k + 1 := by
        unfold sectorsTouched
        rw [if_neg htotal.ne']
        exact ⟨_, rfl⟩
      rw [hk, ataReadSectors, hread]
      exact ⟨[], rfl, fun h => by cases h⟩
    | some buffer =>
      have hbuf := hA d (pos / 512) buffer d₁ (by omega) hread
      have hfst : slice buffer (pos % 512) n = slice img pos n := by
        refine slice_congr fun i hi => ?_
        have hin : pos % 512 + i < 512 := by
          rw [hn] at hi
          split at hi <;> omega
        rw [hbuf _ hin, ← Nat.add_assoc, hsplit]
      dsimp only
      by_cases hout : 512 < pos % 512 + total
      · -- the rest starts at the next sector
        have hfull : n = 512 - pos % 512 := by
          rw [hn]
          split <;> omega
        have hnext : pos + n = 512 * (pos / 512 + 1) := by omega
        obtain ⟨out, hloop, hout'⟩ := ih (pos + n) (total - n) d₁ (by omega) (by omega)
        rw [sectorsTouched_succ hout, ← hfull, ← hnext, ataReadSectors, hread]
        dsimp only
        unfold readSectorsFor at hloop hout'
        have hdiv : (pos + n) / 512 = pos / 512 + 1 := by omega
        have hrem : (pos + n) % 512 = 0 := by omega
        rw [hdiv, hrem] at hloop
        rw [hdiv] at hout'
        rw [u32_of_lt (by omega), hloop]
        refine ⟨slice buffer (pos % 512) n ++ out, rfl, fun hok => ?_⟩
        rw [hfst, hout' hok, ← slice_add]
        congr 1
        omega
      · -- the stretch ends in this sector
        have hall : n = total := by
          rw [hn]
          split <;> omega
        rw [sectorsTouched_one htotal (by omega), ataReadSectors, hread, hfst, hall, Nat.sub_self]
        refine ⟨slice img pos total, ?_, fun _ => rfl⟩
        have hrest : diskstreamReadLoop A drive fuel (u32 (pos / 512 + 1)) 0 0 d₁ =
            ((true, []), d₁) := by
          cases fuel <;> rfl
        rw [hrest, List.append_nil]
        rfl

/-- `diskstream_read` when every sector it needs is read. -/
theorem diskstreamRead_all (hA : A.Holds drive img) {stream : DiskStream}
    (hs : stream.diskId = drive) {total : ℕ}
    (hend : stream.pos + total ≤ 512 * 268435456) {d d' : D}
    (hread : readSectorsFor A drive stream.pos total d = (true, d')) :
    diskstreamRead A stream total d =
      ((0, slice img stream.pos total), { stream with pos := u32 (stream.pos + total) }, d') := by
  obtain ⟨out, hloop, hout⟩ :=
    diskstreamReadLoop_exact hA total stream.pos total d le_rfl hend
  rw [hread] at hloop hout
  unfold diskstreamRead
  rw [hs, hloop, hout rfl]
  rfl

/-- `diskstream_read` when a sector it needs fails. -/
theorem diskstreamRead_failed (hA : A.Holds drive img) {stream : DiskStream}
    (hs : stream.diskId = drive) {total : ℕ}
    (hend : stream.pos + total ≤ 512 * 268435456) {d d' : D}
    (hread : readSectorsFor A drive stream.pos total d = (false, d')) :
    ∃ out, diskstreamRead A stream total d = ((-1, out), stream, d') := by
  obtain ⟨out, hloop, -⟩ :=
    diskstreamReadLoop_exact hA total stream.pos total d le_rfl hend
  rw [hread] at hloop
  unfold diskstreamRead
  rw [hs, hloop]
  exact ⟨out, rfl⟩

/-- A read either stores its stretch and moves behind it, or fails and stays. -/
theorem diskstreamRead_holds (hA : A.Holds drive img) {pos total : ℕ}
    (hend : pos + total ≤ 512 * 268435456) (d : D) :
    (∃ d', diskstreamRead A ⟨pos, drive⟩ total d =
        ((0, slice img pos total), ⟨u32 (pos + total), drive⟩, d')) ∨
      ∃ out d', diskstreamRead A ⟨pos, drive⟩ total d = ((-1, out), ⟨pos, drive⟩, d') := by
  cases hread : readSectorsFor A drive pos total d with
  | mk ok d' =>
    cases ok with
    | true =>
      exact .inl ⟨d', @diskstreamRead_all _ A drive img hA ⟨pos, drive⟩ rfl total hend d d' hread⟩
    | false =>
      obtain ⟨out, h⟩ :=
        @diskstreamRead_failed _ A drive img hA ⟨pos, drive⟩ rfl total hend d d' hread
      exact .inr ⟨out, d', h⟩

/-- **Stream reads are exact slices.** From every position and for every length that ends in the
address range: when the sectors of the stretch are read, the read stores exactly the stretch and
moves behind it, so two reads in a row store what one read of both lengths stores and leave the
stream at the same place; when one of them fails, the read returns `-1` and the stream stays. -/
theorem diskstreamRead_exact (hA : A.Holds drive img) (stream : DiskStream)
    (hs : stream.diskId = drive) (total : ℕ) (hend : stream.pos + total < 4294967296) :
    (∀ d d', readSectorsFor A drive stream.pos total d = (true, d') →
      diskstreamRead A stream total d =
        ((0, slice img stream.pos total), { stream with pos := stream.pos + total }, d')) ∧
    (∀ d d', readSectorsFor A drive stream.pos total d = (false, d') →
      ∃ out, diskstreamRead A stream total d = ((-1, out), stream, d')) ∧
    ∀ a b d d₁ d₂, a + b = total → readSectorsFor A drive stream.pos a d = (true, d₁) →
      readSectorsFor A drive (stream.pos + a) b d₁ = (true, d₂) →
      ∃ out₁ stream₁ out₂, diskstreamRead A stream a d = ((0, out₁), stream₁, d₁) ∧
        diskstreamRead A stream₁ b d₁ =
          ((0, out₂), { stream with pos := stream.pos + total }, d₂) ∧
        out₁ ++ out₂ = slice img stream.pos total := by
  have hword : stream.pos + total ≤ 512 * 268435456 := by omega
  refine ⟨fun d d' hread => ?_, fun d d' => diskstreamRead_failed hA hs hword, ?_⟩
  · rw [diskstreamRead_all hA hs hword hread, u32_of_lt hend]
  rintro a b d d₁ d₂ rfl hfst hsnd
  have hread₁ := diskstreamRead_all hA hs (by omega) hfst
  rw [u32_of_lt (by omega)] at hread₁
  have hread₂ := @diskstreamRead_all _ A drive img hA { stream with pos := stream.pos + a } hs b
    (by dsimp only; omega) d₁ d₂ hsnd
  refine ⟨_, _, _, hread₁, ?_, (slice_add img stream.pos a b).symm⟩
  rw [hread₂]
  dsimp only
  rw [Nat.add_assoc, u32_of_lt hend]

end Slices

/-- A disk with some unreadable sectors. -/
def badSectorAta (bad : List ℕ) (img : ℕ → UInt8) : Ata Unit where
  readSector _ _ lba := (if lba ∈ bad then none else some fun i => img (512 * lba + i), ())

theorem badSectorAta_holds (bad : List ℕ) (img : ℕ → UInt8) (drive : ℕ) :
    (badSectorAta bad img).Holds drive img := by
  intro d lba buffer d' hlba hread i _
  unfold ataReadSector badSectorAta at hread
  dsimp only at hread
  rw [Nat.mod_eq_of_lt hlba] at hread
  by_cases hbad : lba ∈ bad
  · rw [if_pos hbad] at hread
    cases congrArg Prod.fst hread
  · rw [if_neg hbad] at hread
    cases hread
    rfl

/-- A stretch from the end of one sector over a whole one into a third, on a disk whose fourth
sector cannot be read. -/
theorem diskstreamRead_exact_three_sectors :
    diskstreamRead (badSectorAta [3] UInt8.ofNat) ⟨500, 0⟩ 600 () =
        ((0, slice UInt8.ofNat 500 600), ⟨1100, 0⟩, ()) ∧
      ∃ out, diskstreamRead (badSectorAta [3] UInt8.ofNat) ⟨1100, 0⟩ 600 () =
        ((-1, out), ⟨1100, 0⟩, ()) :=
  ⟨(diskstreamRead_exact (badSectorAta_holds [3] UInt8.ofNat 0) ⟨500, 0⟩ rfl 600
      (by norm_num)).1 () () (by decide),
    (diskstreamRead_exact (badSectorAta_holds [3] UInt8.ofNat 0) ⟨1100, 0⟩ rfl 600
      (by norm_num)).2.1 () () (by decide)⟩

end VibeKernel
