import VibeKernel.Lib.Words
import VibeKernel.Lib.Slice

/-!
# Reading the disks

`src/drivers/ata.c` and `src/drivers/disk_stream.c`. The drives themselves are a parameter: an
`Ata` answers the read command for a drive bit and a 28-bit sector number with the 512 bytes of the
sector, or not at all when it stays busy or reports an error, and it may change its state `D` in
doing so.

A stream is a byte position on one disk. `diskstream_read` walks over the sectors from there; what
it has stored before a sector fails stays stored, but the position only moves when all of it
succeeds.
-/

namespace VibeKernel

open Verif

/-- The 512 bytes of a sector. -/
abbrev Sector := ℕ → UInt8

/-- Two drives on the primary channel: the sector for a drive bit and a 28-bit number. -/
structure Ata (D : Type) where
  readSector : D → ℕ → ℕ → Option Sector × D

variable {D : Type}

/-- `ata_read_sector`: every drive number but `0` selects the second drive, and the upper four bits
of the sector number are not transferred. -/
def ataReadSector (A : Ata D) (drive lba : ℕ) (d : D) : Option Sector × D :=
  A.readSector d (if drive = 0 then 0 else 1) (lba % 268435456)

/-- `struct disk_stream`. -/
structure DiskStream where
  pos : ℕ
  diskId : ℕ
  deriving DecidableEq, Repr

/-- `diskstream_seek`. -/
def diskstreamSeek (stream : DiskStream) (pos : ℕ) : DiskStream := { stream with pos := pos }

/-- The loop of `diskstream_read`: the bytes stored, and whether all of `total` were. Each round
stores at least one byte, so `total` bounds the rounds. -/
def diskstreamReadLoop (A : Ata D) (diskId : ℕ) :
    ℕ → ℕ → ℕ → ℕ → D → (Bool × List UInt8) × D
  | 0, _, _, _, d => ((true, []), d)
  | fuel + 1, sector, offset, total, d =>
    if total = 0 then ((true, []), d)
    else
      match ataReadSector A diskId sector d with
      | (none, d) => ((false, []), d)
      | (some buffer, d) =>
        let n := if 512 - offset > total then total else 512 - offset
        let ((ok, rest), d) :=
          diskstreamReadLoop A diskId fuel (u32 (sector + 1)) 0 (total - n) d
        ((ok, slice buffer offset n ++ rest), d)

/-- `diskstream_read`: the result, the bytes stored at `out`, and the stream. -/
def diskstreamRead (A : Ata D) (stream : DiskStream) (total : ℕ) (d : D) :
    (ℤ × List UInt8) × DiskStream × D :=
  let ((ok, bytes), d) :=
    diskstreamReadLoop A stream.diskId total (stream.pos / 512) (stream.pos % 512) total d
  if ok then ((0, bytes), { stream with pos := u32 (stream.pos + total) }, d)
  else ((-1, bytes), stream, d)

/-- A read that succeeds moves the stream behind what it has read. -/
theorem diskstreamRead_moved (A : Ata D) (stream : DiskStream) (total : ℕ) (d : D)
    (h : (diskstreamRead A stream total d).1.1 = 0) :
    (diskstreamRead A stream total d).2.1 = { stream with pos := u32 (stream.pos + total) } := by
  unfold diskstreamRead at h ⊢
  generalize diskstreamReadLoop A stream.diskId total (stream.pos / 512) (stream.pos % 512) total d
    = r at h ⊢
  obtain ⟨⟨ok, bytes⟩, d'⟩ := r
  cases ok with
  | true => rfl
  | false =>
    change (-1 : ℤ) = 0 at h
    cases h

/-! ### Reading an image -/

/-- Reading one of the first `sectors` sectors never fails and gives the bytes of `img`. -/
def SectorsHold (A : Ata D) (drive sectors : ℕ) (img : ℕ → UInt8) : Prop :=
  ∀ d lba, lba < sectors → ∃ buffer d', ataReadSector A drive lba d = (some buffer, d') ∧
    ∀ i < 512, buffer i = img (512 * lba + i)

/-- The first `sectors` sectors of a drive can always be read and hold the bytes of `img`. -/
structure Readable (A : Ata D) (drive sectors : ℕ) (img : ℕ → UInt8) : Prop where
  /-- No sector number is cut off. -/
  small : sectors ≤ 8388608
  read : ∀ d lba, lba < sectors → ∃ buffer d',
    ataReadSector A drive lba d = (some buffer, d') ∧
      ∀ i < 512, buffer i = img (512 * lba + i)

section Reading

variable {A : Ata D} {drive sectors : ℕ} {img : ℕ → UInt8}

/-- The loop stores the bytes of the image from its position on. -/
theorem diskstreamReadLoop_spec (hS : SectorsHold A drive sectors img)
    (hword : sectors < 4294967296) :
    ∀ (fuel sector offset total : ℕ) (d : D), total ≤ fuel → offset < 512 →
      512 * sector + offset + total ≤ 512 * sectors →
      ∃ d', diskstreamReadLoop A drive fuel sector offset total d =
        ((true, slice img (512 * sector + offset) total), d') := by
  intro fuel
  induction fuel with
  | zero =>
    intro sector offset total d hfuel _ _
    obtain rfl : total = 0 := by omega
    exact ⟨d, rfl⟩
  | succ fuel ih =>
    intro sector offset total d hfuel hoff hend
    rcases Nat.eq_zero_or_pos total with rfl | htotal
    · exact ⟨d, rfl⟩
    · -- this sector holds the first `n` bytes
      obtain ⟨buffer, d₁, hread, hbuf⟩ := hS d sector (by omega)
      set n := if 512 - offset > total then total else 512 - offset with hn
      have hle : n ≤ total ∧ n ≤ 512 - offset ∧ 0 < n := by
        rw [hn]
        split <;> omega
      have hfst : slice buffer offset n = slice img (512 * sector + offset) n := by
        refine slice_congr fun i hi => ?_
        rw [hbuf _ (by omega), Nat.add_assoc]
      -- the rest starts at the next sector, unless nothing is left
      have hrest : ∃ d', diskstreamReadLoop A drive fuel (u32 (sector + 1)) 0 (total - n) d₁ =
          ((true, slice img (512 * sector + offset + n) (total - n)), d') := by
        rcases Nat.eq_zero_or_pos (total - n) with h0 | hpos
        · rw [h0]
          exact ⟨d₁, by cases fuel <;> rfl⟩
        · have hfull : n = 512 - offset := by
            rw [hn] at hpos ⊢
            split at hpos <;> split <;> omega
          rw [u32_of_lt (by omega : sector + 1 < 4294967296)]
          obtain ⟨d', h'⟩ := ih (sector + 1) 0 (total - n) d₁ (by omega) (by norm_num) (by omega)
          refine ⟨d', ?_⟩
          rw [h']
          have hpos' : 512 * (sector + 1) + 0 = 512 * sector + offset + n := by omega
          rw [hpos']
      obtain ⟨d', hrest⟩ := hrest
      refine ⟨d', ?_⟩
      rw [diskstreamReadLoop, if_neg (by omega), hread]
      dsimp only
      rw [← hn, hrest, hfst]
      dsimp only
      rw [← slice_add]
      congr 4
      omega

/-- `diskstream_read` on a stretch of sectors that can be read stores that stretch of the image. -/
theorem diskstreamRead_sectors (hS : SectorsHold A drive sectors img)
    (hword : sectors < 4294967296) (stream : DiskStream) {total : ℕ}
    (hdrive : stream.diskId = drive) (hend : stream.pos + total ≤ 512 * sectors) (d : D) :
    ∃ stream' d', diskstreamRead A stream total d =
      ((0, slice img stream.pos total), stream', d') ∧ stream'.diskId = drive := by
  have hsplit : 512 * (stream.pos / 512) + stream.pos % 512 = stream.pos := Nat.div_add_mod _ _
  obtain ⟨d', h⟩ := diskstreamReadLoop_spec hS hword total (stream.pos / 512) (stream.pos % 512)
    total d le_rfl (Nat.mod_lt _ (by norm_num)) (by omega)
  refine ⟨{ stream with pos := u32 (stream.pos + total) }, d', ?_, hdrive⟩
  unfold diskstreamRead
  rw [hdrive, h, hsplit]
  rfl

/-- Seeking and reading. -/
theorem diskstreamRead_seek (hS : SectorsHold A drive sectors img) (hword : sectors < 4294967296)
    (stream : DiskStream) (pos total : ℕ) (hdrive : stream.diskId = drive)
    (hend : pos + total ≤ 512 * sectors) (d : D) :
    ∃ stream' d', diskstreamRead A (diskstreamSeek stream pos) total d =
      ((0, slice img pos total), stream', d') ∧ stream'.diskId = drive :=
  diskstreamRead_sectors hS hword (diskstreamSeek stream pos) hdrive hend d

/-- `diskstream_read` on a readable volume. -/
theorem diskstreamRead_spec (hR : Readable A drive sectors img) (stream : DiskStream) {total : ℕ}
    (hdrive : stream.diskId = drive) (hend : stream.pos + total ≤ 512 * sectors) (d : D) :
    ∃ stream' d', diskstreamRead A stream total d =
      ((0, slice img stream.pos total), stream', d') ∧ stream'.diskId = drive :=
  diskstreamRead_sectors hR.read (lt_of_le_of_lt hR.small (by norm_num)) stream hdrive hend d

end Reading

end VibeKernel
