import VibeKernel.Fs.Fat16

/-!
# Volumes and the content of a file

A volume is an image on a drive whose boot sector `fat16_resolve` accepts. A file on it is a
directory item together with the clusters its table entries link to; when they are long enough, the
content of the file is the clusters one after the other, cut at `filesize`.

An address computed by the code on such a volume does not wrap around: it is the position of the
cluster or of the table entry in the image, and that position lies inside the volume.
-/

namespace VibeKernel

open Verif

variable {D : Type}

namespace FatBootSector

/-- The number of sectors of the volume. -/
def sectors (bpb : FatBootSector) : ℕ :=
  if bpb.totalSectors ≠ 0 then bpb.totalSectors else bpb.sectorsBig

/-- The cluster is numbered in the usual range and lies in the data area. -/
def HasCluster (bpb : FatBootSector) (c : ℕ) : Prop :=
  2 ≤ c ∧ c ≤ 0xFFEF ∧
    bpb.firstDataSector + (c - 2) * bpb.sectorsPerCluster + bpb.sectorsPerCluster ≤ bpb.sectors

/-- The byte position of a cluster. -/
def clusterPos (bpb : FatBootSector) (c : ℕ) : ℕ :=
  512 * (bpb.firstDataSector + (c - 2) * bpb.sectorsPerCluster)

/-- The entry of a cluster in the first allocation table of an image. -/
def fatEntry (bpb : FatBootSector) (img : ℕ → UInt8) (c : ℕ) : ℕ :=
  le16 (slice img (512 * bpb.reservedSectors + 2 * c) 2) 0

end FatBootSector

/-- The drive holds a volume that `fat16_resolve` accepts, ends below 4 GiB and can be read. -/
structure Volume (A : Ata D) (drive : ℕ) (img : ℕ → UInt8) (bpb : FatBootSector) : Prop where
  boot : FatBootSector.decode (slice img 0 512) = bpb
  accepted : bpb.check = none
  readable : Readable A drive bpb.sectors img

/-- The cluster number `k` of the chain from a cluster on. -/
def FatBootSector.chainCluster (bpb : FatBootSector) (img : ℕ → UInt8) (first k : ℕ) : ℕ :=
  (bpb.fatEntry img)^[k] first

/-- The clusters of a file with a size below a bound: they start at the first cluster of its
directory item, each is the table entry of the one before, and together they are long enough. -/
structure BoundedChain (bound : ℕ) (bpb : FatBootSector) (img : ℕ → UInt8) (item : FatDirectoryItem)
    (chain : List ℕ) : Prop where
  size : item.filesize < bound
  first : ∀ c ∈ chain.head?, c = item.low16BitsFirstCluster
  linked : ∀ i c c', chain[i]? = some c → chain[i + 1]? = some c' → bpb.fatEntry img c = c'
  inside : ∀ c ∈ chain, bpb.HasCluster c
  long : item.filesize ≤ chain.length * bpb.clusterSize

/-- A chain for a file whose positions are not negative as `int`. -/
abbrev FileChain (bpb : FatBootSector) (img : ℕ → UInt8) (item : FatDirectoryItem)
    (chain : List ℕ) : Prop := BoundedChain 2147483648 bpb img item chain

/-- A chain for a file of any size. -/
abbrev LongChain (bpb : FatBootSector) (img : ℕ → UInt8) (item : FatDirectoryItem)
    (chain : List ℕ) : Prop := BoundedChain 4294967296 bpb img item chain

theorem FileChain.longChain {bpb : FatBootSector} {img : ℕ → UInt8} {item : FatDirectoryItem}
    {chain : List ℕ} (hC : FileChain bpb img item chain) : LongChain bpb img item chain :=
  { hC with size := lt_trans hC.size (by norm_num) }

/-- The clusters of the chain one after the other, cut at `filesize`. -/
def fileContent (bpb : FatBootSector) (img : ℕ → UInt8) (item : FatDirectoryItem)
    (chain : List ℕ) : List UInt8 :=
  (blocks img bpb.clusterSize (chain.map bpb.clusterPos)).take item.filesize

/-- The byte at position `i` of a chain. -/
def fileCell (bpb : FatBootSector) (img : ℕ → UInt8) (chain : List ℕ) (i : ℕ) : UInt8 :=
  img ((chain.map bpb.clusterPos).getD (i / bpb.clusterSize) 0 + i % bpb.clusterSize)

section File

variable {A : Ata D} {drive : ℕ} {img : ℕ → UInt8} {bpb : FatBootSector}
  {item : FatDirectoryItem} {chain : List ℕ}

/-! ### Geometry of an accepted volume -/

theorem FatBootSector.accepted_iff : bpb.check = none ↔
    bpb.bootSignature = 0xAA55 ∧ (bpb.signature = 0x29 ∨ bpb.signature = 0x28) ∧
      bpb.bytesPerSector = 512 ∧ 0 < bpb.sectorsPerCluster := by
  unfold FatBootSector.check
  split
  · simp [*]
  · split
    · simp only [reduceCtorEq, false_iff]
      omega
    · split
      · simp only [reduceCtorEq, false_iff]
        omega
      · simp only [true_iff]
        omega

theorem Volume.bytes (hV : Volume A drive img bpb) : bpb.bytesPerSector = 512 :=
  (FatBootSector.accepted_iff.mp hV.accepted).2.2.1

theorem Volume.clusterSize_eq (hV : Volume A drive img bpb) :
    bpb.clusterSize = bpb.sectorsPerCluster * 512 := by
  unfold FatBootSector.clusterSize
  rw [hV.bytes]

theorem Volume.clusterSize_pos (hV : Volume A drive img bpb) : 0 < bpb.clusterSize := by
  have := (FatBootSector.accepted_iff.mp hV.accepted).2.2.2
  rw [hV.clusterSize_eq]
  omega

/-- The position of a cluster is where the code reads it, and the cluster ends in the volume. -/
theorem Volume.clusterToSector_eq (hV : Volume A drive img bpb) {c : ℕ} (hc : bpb.HasCluster c) :
    u32 (bpb.clusterToSector c * bpb.bytesPerSector) = bpb.clusterPos c ∧
      bpb.clusterPos c + bpb.clusterSize ≤ 512 * bpb.sectors := by
  have hsmall := hV.readable.small
  obtain ⟨h2, hmax, hend⟩ := hc
  have hpos := (FatBootSector.accepted_iff.mp hV.accepted).2.2.2
  have hsub : u32Sub c 2 = c - 2 := u32Sub_of_le h2 (by omega)
  unfold FatBootSector.clusterToSector FatBootSector.clusterPos
  rw [hsub, hV.bytes, hV.clusterSize_eq, u32_of_lt (by omega : (c - 2) * _ < 4294967296),
    u32_of_lt (by omega : bpb.firstDataSector + _ < 4294967296), u32_of_lt (by omega)]
  omega

/-- The table entry of a cluster lies in front of the cluster, so it lies in the volume. -/
theorem Volume.fatEntry_inside (hV : Volume A drive img bpb) {c : ℕ} (hc : bpb.HasCluster c) :
    512 * bpb.reservedSectors + 2 * c + 2 ≤ 512 * bpb.sectors := by
  obtain ⟨h2, -, hend⟩ := hc
  have hpos := (FatBootSector.accepted_iff.mp hV.accepted).2.2.2
  have hmul : c - 2 ≤ (c - 2) * bpb.sectorsPerCluster := Nat.le_mul_of_pos_right _ hpos
  have hres : bpb.reservedSectors ≤ bpb.firstDataSector := by
    unfold FatBootSector.firstDataSector
    exact (Nat.le_add_right _ _).trans (Nat.le_add_right _ _)
  omega

/-- The position of the table entry is where the code reads it. -/
theorem Volume.fatEntryPos_eq (hV : Volume A drive img bpb) {c : ℕ} (hc : bpb.HasCluster c) :
    u32 (u32 (bpb.reservedSectors * bpb.bytesPerSector) + u32 (c * 2)) =
      512 * bpb.reservedSectors + 2 * c := by
  have hin := hV.fatEntry_inside hc
  have hsmall := hV.readable.small
  rw [hV.bytes, u32_of_lt (by omega : bpb.reservedSectors * 512 < 4294967296),
    u32_of_lt (by omega : c * 2 < 4294967296), u32_of_lt (by omega)]
  ring

theorem fat16GetFatEntry_spec (hV : Volume A drive img bpb) {c : ℕ} (hc : bpb.HasCluster c)
    {stream : DiskStream} (hs : stream.diskId = drive) (d : D) :
    ∃ stream' d', fat16GetFatEntry A bpb c stream d = (bpb.fatEntry img c, stream', d') ∧
      stream'.diskId = drive := by
  obtain ⟨stream', d', hread, hs'⟩ := diskstreamRead_spec hV.readable
    (diskstreamSeek stream (512 * bpb.reservedSectors + 2 * c)) hs (hV.fatEntry_inside hc) d
  refine ⟨stream', d', ?_, hs'⟩
  unfold fat16GetFatEntry
  rw [hV.fatEntryPos_eq hc]
  dsimp only
  rw [hread]
  rfl

/-! ### Content -/

/-- A stretch of one cluster is that stretch of the file. -/
theorem slice_cluster {k c off n : ℕ} (hk : chain[k]? = some c)
    (hn : off + n ≤ bpb.clusterSize) :
    slice img (bpb.clusterPos c + off) n =
      slice (fileCell bpb img chain) (k * bpb.clusterSize + off) n := by
  refine slice_congr fun i hi => ?_
  unfold fileCell
  have hbetween := div_mod_between (p := k * bpb.clusterSize + off + i) (k := k)
    (m := bpb.clusterSize) (by omega) (by omega)
  have hbase : (chain.map bpb.clusterPos).getD k 0 = bpb.clusterPos c := by
    rw [List.getD_eq_getElem?_getD, List.getElem?_map, hk]
    rfl
  rw [hbetween.1, hbetween.2, hbase]
  congr 1
  omega

/-- The content of a file, read off the cells of its chain. -/
theorem BoundedChain.content_eq {bound : ℕ} (hV : Volume A drive img bpb)
    (hC : BoundedChain bound bpb img item chain) :
    fileContent bpb img item chain = slice (fileCell bpb img chain) 0 item.filesize := by
  have hlong : item.filesize ≤ (chain.map bpb.clusterPos).length * bpb.clusterSize := by
    rw [List.length_map]
    exact hC.long
  unfold fileContent
  rw [blocks_eq_slice img hV.clusterSize_pos, slice_take _ _ hlong]
  rfl

theorem fileContent_length {bound : ℕ} (hV : Volume A drive img bpb)
    (hC : BoundedChain bound bpb img item chain) :
    (fileContent bpb img item chain).length = item.filesize := by
  rw [hC.content_eq hV, slice_length]

end File

end VibeKernel
