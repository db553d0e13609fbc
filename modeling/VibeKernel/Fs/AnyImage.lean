import VibeKernel.Fs.FileCursor

/-!
# The content of a file on any image

Nothing in `fat16_resolve` checks the allocation table, so a file may link to any clusters. Whether
its reads still deliver one byte string depends on two things. A walk goes on through the entries
`0xFFF0` to `0xFFF7`, which the loop of `fat16_read` takes for the end, and the loop stores the end
mark it found in the cluster cache, from which a later walk starts: neither may lead back to a
usable cluster (`EndsForGood`). And a cluster that straddles the address `2 ^ 32` is continued
behind it by a read that comes from below, and at the start of the disk by one that seeks there:
what it holds must be the same (`WrapsAlike`).

With both, the content is that of the clusters in front of the first unusable one
(`fat16_one_content`). Each condition fails on some image; `fat16_end_forgotten` shows it for the
first one.
-/

namespace VibeKernel

open Verif

variable {D : Type}

/-! ### The clusters a file links to -/

/-- The `k`-th cluster of a file, by the table entries alone. -/
def linkedCluster (bpb : FatBootSector) (img : ℕ → UInt8) (item : FatDirectoryItem) : ℕ → ℕ
  | 0 => item.low16BitsFirstCluster
  | k + 1 => bpb.fatEntry img (linkedCluster bpb img item k)

/-- How many clusters `filesize` asks for. -/
def clusterCount (bpb : FatBootSector) (item : FatDirectoryItem) : ℕ :=
  (item.filesize + bpb.clusterSize - 1) / bpb.clusterSize

/-- How many of them come before the first one that `fat16_read` takes for the end. -/
def usableClusters (bpb : FatBootSector) (img : ℕ → UInt8) (item : FatDirectoryItem) : ℕ :=
  (List.range (clusterCount bpb item)).findIdx fun k =>
    linkedCluster bpb img item k ≥ fat16ClusterReservedMin

/-- The walk of `fat16_get_cluster_for_offset` on the table of an image. -/
def tableWalk (bpb : FatBootSector) (img : ℕ → UInt8) : ℕ → ℕ → ℕ
  | 0, cluster => cluster
  | n + 1, cluster =>
    if bpb.fatEntry img cluster ≥ fat16ClusterLastMin then 0xFFFF
    else tableWalk bpb img n (bpb.fatEntry img cluster)

/-- Where the code reads a cluster. -/
def FatBootSector.clusterBase (bpb : FatBootSector) (cluster : ℕ) : ℕ :=
  u32 (bpb.clusterToSector cluster * bpb.bytesPerSector)

/-- A walk from the first unusable cluster to a position of the file does not end at a usable
one. -/
def EndsForGood (bpb : FatBootSector) (img : ℕ → UInt8) (item : FatDirectoryItem) : Prop :=
  ∀ j, usableClusters bpb img item ≤ j → j * bpb.clusterSize < item.filesize →
    tableWalk bpb img (j - usableClusters bpb img item)
      (linkedCluster bpb img item (usableClusters bpb img item)) ≥ fat16ClusterReservedMin

/-- The bytes of a usable cluster that lie behind the address `2 ^ 32` are repeated at the start of
the disk, as far as they belong to the file. -/
def WrapsAlike (bpb : FatBootSector) (img : ℕ → UInt8) (item : FatDirectoryItem) : Prop :=
  ∀ k < usableClusters bpb img item, ∀ i < bpb.clusterSize, k * bpb.clusterSize + i <
    item.filesize → img (bpb.clusterBase (linkedCluster bpb img item k) + i) =
      img (u32 (bpb.clusterBase (linkedCluster bpb img item k) + i))

/-- The byte at position `i` of a file, by the clusters it links to. -/
def linkedCell (bpb : FatBootSector) (img : ℕ → UInt8) (item : FatDirectoryItem) (i : ℕ) : UInt8 :=
  img (bpb.clusterBase (linkedCluster bpb img item (i / bpb.clusterSize)) + i % bpb.clusterSize)

section Image

variable {A : Ata D} {drive : ℕ} {bpb : FatBootSector} {img : ℕ → UInt8} {item : FatDirectoryItem}

theorem decode_bounds (b : List UInt8) : (FatBootSector.decode b).reservedSectors < 65536 ∧
    (FatBootSector.decode b).sectorsPerCluster < 256 :=
  ⟨le16_lt b 14, byteAt_lt b 13⟩

theorem clusterBase_eq (cluster : ℕ) :
    u32 (bpb.clusterToSector cluster * bpb.bytesPerSector) = bpb.clusterBase cluster := rfl

theorem fatEntry_lt (cluster : ℕ) : bpb.fatEntry img cluster < 65536 := le16_lt _ _

theorem linkedCluster_lt (hfirst : item.low16BitsFirstCluster < 65536) (k : ℕ) :
    linkedCluster bpb img item k < 65536 := by
  cases k with
  | zero => exact hfirst
  | succ k => exact fatEntry_lt _

/-- The usable clusters are in front of the first one that is not. -/
theorem linkedCluster_usable {k : ℕ} (hk : k < usableClusters bpb img item) :
    linkedCluster bpb img item k < fat16ClusterReservedMin := by
  have hnot := List.not_of_lt_findIdx hk
  rw [List.getElem_range] at hnot
  exact Nat.not_le.mp (of_decide_eq_false hnot)

/-- The loop's own reads on a drive that holds the image: a table entry. -/
theorem fat16GetFatEntry_image (hS : SectorsHold A drive 268435456 img)
    (hbytes : bpb.bytesPerSector = 512) (hres : bpb.reservedSectors < 65536) {cluster : ℕ}
    (hc : cluster < 65536) (stream : DiskStream) (hs : stream.diskId = drive) (d : D) :
    ∃ stream' d', fat16GetFatEntry A bpb cluster stream d =
        (bpb.fatEntry img cluster, stream', d') ∧ stream'.diskId = drive := by
  have hpos : u32 (u32 (bpb.reservedSectors * bpb.bytesPerSector) + u32 (cluster * 2)) =
      512 * bpb.reservedSectors + 2 * cluster := by
    rw [hbytes, u32_of_lt (by omega : bpb.reservedSectors * 512 < 4294967296),
      u32_of_lt (by omega : cluster * 2 < 4294967296), u32_of_lt (by omega)]
    ring
  obtain ⟨stream', d', hread, hs'⟩ := diskstreamRead_seek hS (by norm_num) stream
    (512 * bpb.reservedSectors + 2 * cluster) 2 hs (by omega) d
  refine ⟨stream', d', ?_, hs'⟩
  unfold fat16GetFatEntry
  rw [hpos]
  dsimp only
  rw [hread]
  rfl

/-- A walk on the drive is the walk on the table. -/
theorem fat16SkipClusters_image (hS : SectorsHold A drive 268435456 img)
    (hbytes : bpb.bytesPerSector = 512) (hres : bpb.reservedSectors < 65536) :
    ∀ (n : ℕ) {cluster : ℕ} (stream : DiskStream) (d : D), cluster < 65536 →
      stream.diskId = drive →
      ∃ stream' d', fat16SkipClusters A bpb n cluster stream d =
        (tableWalk bpb img n cluster, stream', d') ∧ stream'.diskId = drive := by
  intro n
  induction n with
  | zero => exact fun stream d _ hs => ⟨stream, d, rfl, hs⟩
  | succ n ih =>
    intro cluster stream d hc hs
    obtain ⟨stream₁, d₁, hentry, hs₁⟩ := fat16GetFatEntry_image hS hbytes hres hc stream hs d
    rw [fat16SkipClusters, hentry, tableWalk]
    dsimp only
    by_cases hlast : bpb.fatEntry img cluster ≥ fat16ClusterLastMin
    · rw [if_pos hlast, if_pos hlast]
      exact ⟨stream₁, d₁, rfl, hs₁⟩
    · rw [if_neg hlast, if_neg hlast]
      exact ih stream₁ d₁ (fatEntry_lt _) hs₁

/-- A piece of a cluster, read where the code seeks to. -/
theorem linkedCell_piece (hsize : bpb.clusterSize < 4294967296) (hW : WrapsAlike bpb img item)
    {k off n : ℕ} (hk : k < usableClusters bpb img item) (hoff : off + n ≤ bpb.clusterSize)
    (hend : k * bpb.clusterSize + off + n ≤ item.filesize) :
    slice img (u32 (bpb.clusterBase (linkedCluster bpb img item k) + off)) n =
      slice (linkedCell bpb img item) (k * bpb.clusterSize + off) n := by
  refine slice_congr fun i hi => ?_
  have hbetween := div_mod_between (p := k * bpb.clusterSize + off + i) (k := k)
    (m := bpb.clusterSize) (by omega) (by omega)
  have hmod : k * bpb.clusterSize + off + i - k * bpb.clusterSize = off + i := by omega
  have hwrap := hW k hk (off + i) (by omega) (by omega)
  unfold linkedCell
  rw [hbetween.1, hbetween.2, hmod]
  have hbase : bpb.clusterBase (linkedCluster bpb img item k) < 4294967296 := u32_lt _
  rw [u32_eq] at hwrap ⊢
  generalize bpb.clusterBase (linkedCluster bpb img item k) = base at hwrap hbase ⊢
  rcases Nat.lt_or_ge (base + off) 4294967296 with hlow | hhigh
  · rw [Nat.mod_eq_of_lt hlow, Nat.add_assoc]
  · -- behind the wrap-around the read started at the front of the disk
    have hfront : (base + off) % 4294967296 + i = (base + (off + i)) % 4294967296 := by omega
    rw [hfront, ← hwrap]

/-- **Any image is a layout** of a file on it, if walks end for good and straddling clusters wrap
alike. -/
theorem image_layout (hS : SectorsHold A drive 268435456 img) (hacc : bpb.check = none)
    (hboot : bpb = FatBootSector.decode (slice img 0 512)) {entry : List UInt8}
    (hitem : item = FatDirectoryItem.decode entry) (hE : EndsForGood bpb img item)
    (hW : WrapsAlike bpb img item) :
    FileLayout A drive bpb item (linkedCluster bpb img item) (usableClusters bpb img item)
      (linkedCell bpb img item) := by
  obtain ⟨-, -, hbytes, hspc⟩ := FatBootSector.accepted_iff.mp hacc
  have hfirst : item.low16BitsFirstCluster < 65536 := by
    rw [hitem]
    exact le16_lt _ _
  obtain ⟨hres, hspc'⟩ : bpb.reservedSectors < 65536 ∧ bpb.sectorsPerCluster < 256 := by
    rw [hboot]
    exact decode_bounds _
  have hcs : bpb.clusterSize = bpb.sectorsPerCluster * 512 := by
    unfold FatBootSector.clusterSize
    rw [hbytes]
  exact
    { size := by
        rw [hitem]
        exact le32_lt _ _
      clusterSize_pos := by omega
      first := rfl
      usable := fun k hk => linkedCluster_usable hk
      entry := fun k _ _ stream d hs =>
        fat16GetFatEntry_image hS hbytes hres (linkedCluster_lt hfirst k) stream hs d
      piece := by
        intro k hk off n _ hoff hend stream d hs
        rw [clusterBase_eq, ← linkedCell_piece (by omega) hW hk hoff hend]
        have hword := u32_lt (bpb.clusterBase (linkedCluster bpb img item k) + off)
        exact diskstreamRead_seek hS (by norm_num) stream _ n hs (by omega) d
      stop := by
        intro j hj hsize stream d hs
        obtain ⟨stream', d', hwalk, hs'⟩ := fat16SkipClusters_image hS hbytes hres
          (j - usableClusters bpb img item) stream d
          (linkedCluster_lt hfirst (usableClusters bpb img item)) hs
        exact ⟨_, stream', d', hwalk, hE j hj hsize, hs'⟩ }

/-- A read of the step `s` delivers the bytes of `content` at its position. -/
def DeliversFrom (content : List UInt8) (s : FatFileDescriptor × DiskStream × D) (op : FileOp)
    (out : FileOut) : Prop :=
  ∀ size nmemb, op = .read size nmemb →
    out.bytes = Cursor.readBytes content s.1.pos size.toNat nmemb.toNat

/-- An operation on a descriptor of the file answers from its bytes and keeps it one. -/
theorem fatFileStep_layout {c : ℕ → ℕ} {K : ℕ} {cell : ℕ → UInt8}
    (hL : FileLayout A drive bpb item c K cell) {s : FatFileDescriptor × DiskStream × D}
    (hs : (∃ pos, AtPos bpb item c K s.1 pos) ∧ s.2.1.diskId = drive) {op : FileOp}
    (hop : ReadInRange s.1.pos op) :
    ∃ out t, fatFileStep A bpb s op = .ok (out, t) ∧
      DeliversFrom (fileBytes bpb item K cell) s op out ∧
      (∃ pos, AtPos bpb item c K t.1 pos) ∧ t.2.1.diskId = drive := by
  obtain ⟨desc, stream, d⟩ := s
  obtain ⟨⟨pos, hat⟩, hdisk⟩ := hs
  cases op with
  | read size nmemb =>
    have hrange : pos + size.toNat * nmemb.toNat < 4294967296 := hat.pos_eq ▸ hop size nmemb rfl
    obtain ⟨desc', stream', d', hread, hat', hdisk'⟩ := fat16Read_layout hL hat hrange hdisk d
    set bytes := Cursor.readBytes (fileBytes bpb item K cell) pos size.toNat nmemb.toNat
    refine ⟨⟨asInt32 (bytes.length / size.toNat), bytes⟩, (desc', stream', d'), ?_, ?_,
      ⟨_, hat'⟩, hdisk'⟩
    · unfold fatFileStep
      dsimp only at hread ⊢
      rw [hread]
    · intro size' nmemb' hop'
      cases hop'
      rw [hat.pos_eq]
  | seek offset whence =>
    obtain ⟨res, desc', pos', hseek, hat'⟩ := fat16Seek_layout hat offset.toInt whence
    refine ⟨⟨res, []⟩, (desc', stream, d), ?_, fun _ _ h => (by cases h), ⟨pos', hat'⟩, hdisk⟩
    unfold fatFileStep
    dsimp only
    rw [hseek]
  | tell => exact ⟨_, (desc, stream, d), rfl, fun _ _ h => (by cases h), ⟨pos, hat⟩, hdisk⟩

/-- **One content for each file on any image.** On a drive whose sectors can all be read and hold an
image with an accepted boot sector, a file whose walks end for good and whose straddling clusters
wrap alike has a content, at most `filesize` bytes long: in every run of in-range reads, of seeks
and of tells, every read delivers the content at its position. -/
theorem fat16_one_content (hS : SectorsHold A drive 268435456 img) (hacc : bpb.check = none)
    (hboot : bpb = FatBootSector.decode (slice img 0 512)) {entry : List UInt8}
    (hitem : item = FatDirectoryItem.decode entry) (hE : EndsForGood bpb img item)
    (hW : WrapsAlike bpb img item) :
    ∃ content : List UInt8, content.length ≤ item.filesize ∧
      ∀ (stream : DiskStream) (d : D) (ops : List FileOp), stream.diskId = drive →
        Meets (fatFileStep A bpb) (fun s op => ReadInRange s.1.pos op)
          (FatFileDescriptor.fresh item, stream, d) ops →
        Meets (fatFileStep A bpb)
          (fun s op => ∃ out t, fatFileStep A bpb s op = .ok (out, t) ∧
            DeliversFrom content s op out)
          (FatFileDescriptor.fresh item, stream, d) ops := by
  have hL := image_layout hS hacc hboot hitem hE hW
  refine ⟨fileBytes bpb item (usableClusters bpb img item) (linkedCell bpb img item), ?_, ?_⟩
  · rw [fileBytes_length]
    exact min_le_left _ _
  · intro stream d ops hs hops
    exact @meets_of_progress _ _ _ _ _ _
      (fun s => (∃ pos, AtPos bpb item _ _ s.1 pos) ∧ s.2.1.diskId = drive)
      (fun s op out _ => DeliversFrom _ s op out)
      (fun s op hI hop => fatFileStep_layout hL hI hop) _ _ ⟨⟨0, AtPos.fresh hL⟩, hs⟩ hops

end Image

/-- A file whose chain is one cluster shorter than its size. -/
theorem fat16_one_content_short_chain :
    ∃ content : List UInt8, content.length ≤ (singleFileItem 1000).filesize ∧
      ∀ (stream : DiskStream) (d : Unit) (ops : List FileOp), stream.diskId = 0 →
        Meets (fatFileStep (imageAta (singleFileImage (slice UInt8.ofNat 0 512))) singleFileBpb)
          (fun s op => ReadInRange s.1.pos op)
          (FatFileDescriptor.fresh (singleFileItem 1000), stream, d) ops →
        Meets (fatFileStep (imageAta (singleFileImage (slice UInt8.ofNat 0 512))) singleFileBpb)
          (fun s op => ∃ out t,
            fatFileStep (imageAta (singleFileImage (slice UInt8.ofNat 0 512))) singleFileBpb s op =
              .ok (out, t) ∧ DeliversFrom content s op out)
          (FatFileDescriptor.fresh (singleFileItem 1000), stream, d) ops := by
  have husable : usableClusters singleFileBpb (singleFileImage (slice UInt8.ofNat 0 512))
      (singleFileItem 1000) = 1 := by decide +kernel
  refine fat16_one_content (imageAta_holds _ 0) (by decide) singleFile_boot.symm
    (singleFile_entry (by norm_num)).symm ?_ ?_
  · intro j hj hsize
    change j * 512 < 1000 at hsize
    rw [husable] at hj ⊢
    obtain rfl : j = 1 := by omega
    decide +kernel
  · intro k hk i hi _
    rw [husable] at hk
    obtain rfl : k = 0 := by omega
    have hbase : singleFileBpb.clusterBase (linkedCluster singleFileBpb
        (singleFileImage (slice UInt8.ofNat 0 512)) (singleFileItem 1000) 0) = 1536 := by
      decide +kernel
    change i < 512 at hi
    rw [hbase, u32_of_lt (by omega)]

/-- **A forgotten end.** A file of one cluster whose directory item says three: read from the start,
it ends after `512` bytes, and a fresh descriptor that seeks to `1024` reads nothing. But a
descriptor that has read over the end has the end mark in its cache; at `1024` it takes the table
entry of the end mark for a cluster and delivers a byte. -/
theorem fat16_end_forgotten :
    let img := Function.update (singleFileImage (slice UInt8.ofNat 0 512)) 1053 6
    let step := fatFileStep (imageAta img) singleFileBpb
    let s := (FatFileDescriptor.fresh (singleFileItem 1536), (⟨0, 0⟩ : DiskStream), ())
    let lengths := fun ops => (runList step s ops).toOption.map fun r =>
      r.1.map fun out => out.bytes.length
    FatBootSector.decode (slice img 0 512) = singleFileBpb ∧
      FatDirectoryItem.decode (slice img 1024 32) = singleFileItem 1536 ∧
      lengths [.seek 1024 .set, .read 1 1] = some [0, 0] ∧
      lengths [.read 1 1024, .seek 1024 .set, .read 1 1] = some [512, 0, 1] := by
  decide +kernel

end VibeKernel
