import VibeKernel.Tools.InjectedImage
import VibeKernel.Fs.AnyImage
import VibeKernel.Fs.SingleFile

/-!
# Where the clusters are

`inject_file.py` and `fat16_cluster_to_sector` both compute the position of a cluster from the
fields of the boot sector: the script in bytes and without bounds, the kernel in sectors and in
words of 32 bits.

On both sides the clusters are a row of ranges of one size behind the root directory, so neither
lets them meet each other, the directory or the tables. On a volume that ends below 4 GiB the words
of the kernel do not wrap around. But the kernel lets the data begin at a whole sector, and the
script directly behind the last entry: `clusterOffset_add_padding` says how far its clusters are in
front of those that the kernel reads.
-/

namespace VibeKernel

open Verif

/-- `cluster_offset`. -/
def InjectGeometry.clusterOffset (g : InjectGeometry) (c : ℕ) : ℕ :=
  g.dataStart + (c - 2) * g.sectorsPerCluster * g.bytesPerSector

namespace FatBootSector

variable (bpb : FatBootSector)

/-- The volume has a cluster of this number. -/
def InVolume (c : ℕ) : Prop :=
  2 ≤ c ∧ bpb.firstDataSector + (c - 2) * bpb.sectorsPerCluster +
    bpb.sectorsPerCluster ≤ bpb.sectors

/-- All copies of the allocation table. -/
def fatRange : Span :=
  ⟨bpb.reservedSectors * bpb.bytesPerSector, bpb.fatCopies * bpb.fatSectors * bpb.bytesPerSector⟩

def rootRange : Span := ⟨bpb.rootDirectorySector * bpb.bytesPerSector, bpb.rootDirEntries * 32⟩

/-- What is left of the last sector of the root directory. -/
def rootPadding : ℕ := (512 - bpb.rootDirEntries * 32 % 512) % 512

end FatBootSector

/-- The cluster as the script writes it. -/
def writeRange (img : ℕ → UInt8) (c : ℕ) : Span :=
  ⟨(InjectGeometry.read img).clusterOffset c, (InjectGeometry.read img).clusterSize⟩

/-- The cluster as the kernel reads it. -/
def readRange (bpb : FatBootSector) (c : ℕ) : Span := ⟨bpb.clusterBase c, bpb.clusterSize⟩

/-- The ranges of the clusters are apart from the tables, from the root directory and from each
other. -/
structure ClustersApart (bpb : FatBootSector) (range : ℕ → Span) (c : ℕ) : Prop where
  tables : bpb.fatRange.Apart (range c)
  root : bpb.rootRange.Apart (range c)
  clusters : ∀ c', bpb.InVolume c' → c' ≠ c → (range c).Apart (range c')

/-- The script writes the cluster where the kernel reads it, and nothing else is there. -/
structure PlacedAlike (bpb : FatBootSector) (img : ℕ → UInt8) (c : ℕ) : Prop where
  position : (InjectGeometry.read img).clusterOffset c = bpb.clusterBase c
  written : ClustersApart bpb (writeRange img) c
  read : ClustersApart bpb (readRange bpb) c

section Positions

variable {bpb : FatBootSector} {img : ℕ → UInt8} {c : ℕ}

/-- The script writes the clusters at these offsets. -/
theorem dataWrites_pos {g : InjectGeometry} {clusters : List ℕ} {needed : ℕ} {data : List UInt8}
    {w : Write UInt8} (h : w ∈ g.dataWrites clusters needed data) :
    ∃ i < needed, w.pos = g.clusterOffset (clusters.getD i 0) := by
  obtain ⟨i, hi, rfl⟩ := List.mem_map.mp h
  exact ⟨i, List.mem_range.mp hi, rfl⟩

/-- The kernel computes the position without wrapping around. -/
theorem clusterBase_inVolume (hacc : bpb.check = none) (hsmall : 512 * bpb.sectors ≤ 4294967296)
    (hc : bpb.InVolume c) : bpb.clusterBase c = bpb.clusterPos c := by
  obtain ⟨-, -, hbytes, hspc⟩ := FatBootSector.accepted_iff.mp hacc
  obtain ⟨h2, hend⟩ := hc
  have hmul : c - 2 ≤ (c - 2) * bpb.sectorsPerCluster := Nat.le_mul_of_pos_right _ hspc
  unfold FatBootSector.clusterBase FatBootSector.clusterToSector FatBootSector.clusterPos
  rw [u32Sub_of_le h2 (by omega), hbytes, u32_of_lt (by omega : (c - 2) * _ < 4294967296),
    u32_of_lt (by omega : bpb.firstDataSector + _ < 4294967296), u32_of_lt (by omega), Nat.mul_comm]

/-- **How far the script is in front.** -/
theorem clusterOffset_add_padding (hacc : bpb.check = none) (c : ℕ) :
    (geometry bpb).clusterOffset c + bpb.rootPadding = bpb.clusterPos c := by
  have hbytes : bpb.bytesPerSector = 512 := (FatBootSector.accepted_iff.mp hacc).2.2.1
  have hdata : (geometry bpb).dataStart + bpb.rootPadding = 512 * bpb.firstDataSector := by
    unfold InjectGeometry.dataStart
    rw [(starts_of hacc).2]
    unfold FatBootSector.firstDataSector FatBootSector.rootDirectorySector
      FatBootSector.rootPadding geometry
    rw [hbytes]
    dsimp only
    omega
  calc (geometry bpb).clusterOffset c + bpb.rootPadding
      = (geometry bpb).dataStart + bpb.rootPadding +
        (c - 2) * bpb.sectorsPerCluster * bpb.bytesPerSector :=
        Nat.add_right_comm _ _ _
    _ = 512 * bpb.firstDataSector + (c - 2) * bpb.sectorsPerCluster * 512 := by rw [hdata, hbytes]
    _ = bpb.clusterPos c := by
        unfold FatBootSector.clusterPos
        ring

theorem rootPadding_eq_zero : bpb.rootPadding = 0 ↔ 512 ∣ bpb.rootDirEntries * 32 := by
  unfold FatBootSector.rootPadding
  omega

/-- A row of ranges behind the root directory is apart from what is in front of it. -/
theorem clustersApart_slot {base : ℕ} (hbytes : bpb.bytesPerSector = 512)
    (hbase : 512 * bpb.rootDirectorySector + bpb.rootDirEntries * 32 ≤ base) (hc : bpb.InVolume c) :
    ClustersApart bpb (fun c => Span.slot base bpb.clusterSize (c - 2)) c := by
  refine ⟨Span.apart_slot ?_ _, Span.apart_slot ?_ _, fun c' hc' hne => Span.slot_apart ?_⟩
  · unfold FatBootSector.fatRange Span.stop
    unfold FatBootSector.rootDirectorySector at hbase
    dsimp only
    rw [hbytes, ← Nat.add_mul, Nat.mul_comm]
    exact (Nat.le_add_right _ _).trans hbase
  · unfold FatBootSector.rootRange Span.stop
    dsimp only
    rw [hbytes, Nat.mul_comm _ 512]
    exact hbase
  · have h2 := hc.1
    have h2' := hc'.1
    omega

theorem ClustersApart.congr {f g : ℕ → Span} (h : ClustersApart bpb f c) (hc : bpb.InVolume c)
    (heq : ∀ c', bpb.InVolume c' → g c' = f c') : ClustersApart bpb g c := by
  refine ⟨?_, ?_, fun c' hc' hne => ?_⟩
  · rw [heq c hc]
    exact h.tables
  · rw [heq c hc]
    exact h.root
  · rw [heq c hc, heq c' hc']
    exact h.clusters c' hc' hne

/-- The script keeps the clusters apart, wherever it lets them begin. -/
theorem writeRange_apart (hboot : FatBootSector.decode (slice img 0 512) = bpb)
    (hacc : bpb.check = none) (hc : bpb.InVolume c) : ClustersApart bpb (writeRange img) c := by
  have hread : InjectGeometry.read img = geometry bpb := geometry_read hboot
  have hbase : 512 * bpb.rootDirectorySector + bpb.rootDirEntries * 32 ≤
      (geometry bpb).dataStart := by
    unfold InjectGeometry.dataStart
    rw [(starts_of hacc).2]
    exact le_refl _
  refine (clustersApart_slot (FatBootSector.accepted_iff.mp hacc).2.2.1 hbase hc).congr hc
    fun c' _ => ?_
  unfold writeRange InjectGeometry.clusterOffset Span.slot
  rw [hread, Nat.mul_assoc]
  rfl

/-- The kernel keeps the clusters apart. -/
theorem readRange_apart (hacc : bpb.check = none) (hsmall : 512 * bpb.sectors ≤ 4294967296)
    (hc : bpb.InVolume c) : ClustersApart bpb (readRange bpb) c := by
  have hbytes : bpb.bytesPerSector = 512 := (FatBootSector.accepted_iff.mp hacc).2.2.1
  have hbase : 512 * bpb.rootDirectorySector + bpb.rootDirEntries * 32 ≤
      512 * bpb.firstDataSector := by
    unfold FatBootSector.firstDataSector FatBootSector.rootDirectorySector
    rw [hbytes]
    omega
  refine (clustersApart_slot hbytes hbase hc).congr hc fun c' hc' => ?_
  unfold readRange Span.slot
  rw [clusterBase_inVolume hacc hsmall hc']
  unfold FatBootSector.clusterPos FatBootSector.clusterSize
  rw [hbytes, Nat.mul_add, Nat.mul_comm 512 (_ * _), Nat.mul_assoc]

/-- **When script and kernel agree.** For every cluster of a volume below 4 GiB, the script writes
the cluster where the kernel reads it, apart from everything else, exactly if the root directory
fills whole sectors. -/
theorem placedAlike_iff (hboot : FatBootSector.decode (slice img 0 512) = bpb)
    (hacc : bpb.check = none) (hsmall : 512 * bpb.sectors ≤ 4294967296) (hc : bpb.InVolume c) :
    PlacedAlike bpb img c ↔ 512 ∣ bpb.rootDirEntries * 32 := by
  have hpos := clusterOffset_add_padding hacc c
  have hread : InjectGeometry.read img = geometry bpb := geometry_read hboot
  have hbase := clusterBase_inVolume hacc hsmall hc
  rw [← rootPadding_eq_zero]
  constructor
  · intro h
    have hposition := h.position
    rw [hread, hbase] at hposition
    omega
  · intro h
    refine ⟨?_, writeRange_apart hboot hacc hc, readRange_apart hacc hsmall hc⟩
    rw [hread, hbase, ← hpos, h, Nat.add_zero]

/-- The boot sector of `singleFileBoot`, with 16 entries in the root directory. -/
theorem placedAlike_whole_sector : PlacedAlike singleFileBpb singleFileBoot 198 := by
  have hboot : FatBootSector.decode (slice singleFileBoot 0 512) = singleFileBpb := by
    decide +kernel
  exact (placedAlike_iff hboot rfl (by decide)
    (by unfold FatBootSector.InVolume; decide)).mpr (by decide)

/-- With 8 entries, half a sector, the script writes the first cluster 256 bytes in front of where
the kernel reads it. -/
theorem placed_in_front :
    FatBootSector.decode (slice (fun a => if a = 17 then 8 else singleFileBoot a) 0 512) =
        { singleFileBpb with rootDirEntries := 8 } ∧
      FatBootSector.check { singleFileBpb with rootDirEntries := 8 } = none ∧
      FatBootSector.InVolume { singleFileBpb with rootDirEntries := 8 } 2 ∧
      (InjectGeometry.read fun a => if a = 17 then 8 else singleFileBoot a).clusterOffset 2 = 1280 ∧
      FatBootSector.clusterBase { singleFileBpb with rootDirEntries := 8 } 2 = 1536 := by
  refine ⟨by decide +kernel, rfl, ?_, by decide +kernel, by decide +kernel⟩
  unfold FatBootSector.InVolume
  decide

end Positions

end VibeKernel
