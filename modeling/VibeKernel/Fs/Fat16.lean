import VibeKernel.Drivers.DiskStream
import VibeKernel.Lib.Cursor
import VibeKernel.Heap.Kheap
import VibeKernel.String.CString

/-!
# The FAT16 file system

`src/fs/fat16.c` on the records it works with: the boot sector `bpb` of a mount, the stream of the
mount, and the descriptor of an open file. The functions thread the stream and the state of the
drives; where they are found in memory is the business of the layer above.

Arithmetic on `uint32_t` wraps around; the products and sums of 8- and 16-bit fields, which C
computes in `int`, cannot. Only the fields some function reads are decoded from a record.
-/

namespace VibeKernel

open Verif

variable {D : Type}

/-! ### Records -/

/-- `struct fat_boot_sector`. -/
structure FatBootSector where
  bytesPerSector : ℕ
  sectorsPerCluster : ℕ
  reservedSectors : ℕ
  fatCopies : ℕ
  rootDirEntries : ℕ
  totalSectors : ℕ
  fatSectors : ℕ
  sectorsBig : ℕ
  signature : ℕ
  bootSignature : ℕ
  deriving DecidableEq, Repr

/-- The packed layout of `struct fat_boot_sector`. -/
def FatBootSector.decode (b : List UInt8) : FatBootSector where
  bytesPerSector := le16 b 11
  sectorsPerCluster := byteAt b 13
  reservedSectors := le16 b 14
  fatCopies := byteAt b 16
  rootDirEntries := le16 b 17
  totalSectors := le16 b 19
  fatSectors := le16 b 22
  sectorsBig := le32 b 32
  signature := byteAt b 38
  bootSignature := le16 b 510

/-- `struct fat_directory_item`. -/
structure FatDirectoryItem where
  filename : List UInt8
  ext : List UInt8
  attrib : ℕ
  low16BitsFirstCluster : ℕ
  filesize : ℕ
  deriving DecidableEq, Repr

/-- The packed layout of `struct fat_directory_item`. -/
def FatDirectoryItem.decode (b : List UInt8) : FatDirectoryItem where
  filename := b.take 8
  ext := (b.drop 8).take 3
  attrib := byteAt b 11
  low16BitsFirstCluster := le16 b 26
  filesize := le32 b 28

/-- `struct fat_file_descriptor`. -/
structure FatFileDescriptor where
  item : FatDirectoryItem
  pos : ℕ
  lastCluster : ℕ
  lastClusterPos : ℕ
  deriving DecidableEq, Repr

/-- `FAT_FILE_SUBDIRECTORY`. -/
def fatFileSubdirectory : ℕ := 0x10

/-- `FAT16_CLUSTER_RESERVED_MIN`. -/
def fat16ClusterReservedMin : ℕ := 0xFFF0

/-- `FAT16_CLUSTER_LAST_MIN`. -/
def fat16ClusterLastMin : ℕ := 0xFFF8

/-- `item->attribute & FAT_FILE_SUBDIRECTORY`. -/
def FatDirectoryItem.IsSubdirectory (item : FatDirectoryItem) : Prop :=
  item.attrib &&& fatFileSubdirectory ≠ 0

instance (item : FatDirectoryItem) : Decidable item.IsSubdirectory :=
  inferInstanceAs (Decidable (_ ≠ _))

/-! ### Names -/

/-- `fat16_to_proper_string`: the bytes before the first `NUL` or space. -/
def fat16ToProperString (field : List UInt8) : List UInt8 :=
  field.takeWhile fun c => decide (c ≠ 0x00 ∧ c ≠ 0x20)

/-- `fat16_get_full_relative_filename`. -/
def fat16GetFullRelativeFilename (item : FatDirectoryItem) : CString :=
  fat16ToProperString item.filename ++
    if item.ext.headD 0 ≠ 0x00 ∧ item.ext.headD 0 ≠ 0x20 then 0x2E :: fat16ToProperString item.ext
    else []

/-! ### Geometry -/

namespace FatBootSector

/-- `cluster_size`. -/
def clusterSize (bpb : FatBootSector) : ℕ := bpb.sectorsPerCluster * bpb.bytesPerSector

/-- `fat16_get_root_directory_sector`. -/
def rootDirectorySector (bpb : FatBootSector) : ℕ :=
  bpb.reservedSectors + bpb.fatCopies * bpb.fatSectors

/-- `first_data_sector`. -/
def firstDataSector (bpb : FatBootSector) : ℕ :=
  bpb.reservedSectors + bpb.fatCopies * bpb.fatSectors +
    (bpb.rootDirEntries * 32 + (bpb.bytesPerSector - 1)) / bpb.bytesPerSector

/-- `fat16_cluster_to_sector`. -/
def clusterToSector (bpb : FatBootSector) (cluster : ℕ) : ℕ :=
  u32 (bpb.firstDataSector + u32 (u32Sub cluster 2 * bpb.sectorsPerCluster))

/-- The checks of `fat16_resolve`, with the codes of those that fail. -/
def check (bpb : FatBootSector) : Option ℤ :=
  if bpb.bootSignature ≠ 0xAA55 then some (-3)
  else if bpb.signature ≠ 0x29 ∧ bpb.signature ≠ 0x28 then some (-4)
  else if bpb.bytesPerSector ≠ 512 ∨ bpb.sectorsPerCluster = 0 then some (-5)
  else none

end FatBootSector

/-! ### The allocation table -/

/-- `fat16_get_fat_entry`; an unreadable entry counts as the end of the chain. -/
def fat16GetFatEntry (A : Ata D) (bpb : FatBootSector) (cluster : ℕ) (stream : DiskStream) (d : D) :
    ℕ × DiskStream × D :=
  let absPos := u32 (u32 (bpb.reservedSectors * bpb.bytesPerSector) + u32 (cluster * 2))
  match diskstreamRead A (diskstreamSeek stream absPos) 2 d with
  | ((res, bytes), stream, d) => (if res ≠ 0 then 0xFFFF else le16 bytes 0, stream, d)

/-- The loop of `fat16_get_cluster_for_offset`. -/
def fat16SkipClusters (A : Ata D) (bpb : FatBootSector) :
    ℕ → ℕ → DiskStream → D → ℕ × DiskStream × D
  | 0, cluster, stream, d => (cluster, stream, d)
  | n + 1, cluster, stream, d =>
    match fat16GetFatEntry A bpb cluster stream d with
    | (entry, stream, d) =>
      if entry ≥ fat16ClusterLastMin then (0xFFFF, stream, d)
      else fat16SkipClusters A bpb n entry stream d

/-- `fat16_get_cluster_for_offset`. -/
def fat16GetClusterForOffset (A : Ata D) (bpb : FatBootSector) (startCluster offset : ℕ)
    (stream : DiskStream) (d : D) : ℕ × DiskStream × D :=
  fat16SkipClusters A bpb (offset / bpb.clusterSize) startCluster stream d

/-! ### Directories -/

/-- How the scan of a run of directory entries ends. -/
inductive Scan
  | found (item : FatDirectoryItem)
  | unreadable
  | endMark
  | exhausted
  deriving DecidableEq, Repr

/-- The loop over `n` directory entries from the position of the stream on. -/
def fat16ScanItems (A : Ata D) (name : CString) : ℕ → DiskStream → D → Scan × DiskStream × D
  | 0, stream, d => (.exhausted, stream, d)
  | n + 1, stream, d =>
    match diskstreamRead A stream 32 d with
    | ((res, bytes), stream, d) =>
      let item := FatDirectoryItem.decode bytes
      if res ≠ 0 then (.unreadable, stream, d)
      else if byteAt bytes 0 = 0x00 then (.endMark, stream, d)
      else if byteAt bytes 0 = 0xE5 then fat16ScanItems A name n stream d
      else if strncasecmp 13 (fat16GetFullRelativeFilename item) name = 0 then
        (.found item, stream, d)
      else fat16ScanItems A name n stream d

/-- The loop over the clusters of a subdirectory, cut off after `fuel` clusters. -/
def fat16ScanClusters (A : Ata D) (bpb : FatBootSector) (name : CString) :
    ℕ → ℕ → DiskStream → D → Except Stop ((ℤ ⊕ FatDirectoryItem) × DiskStream × D)
  | 0, _, _, _ => .error .diverges
  | fuel + 1, cluster, stream, d =>
    if cluster < fat16ClusterReservedMin then
      let absPos := u32 (bpb.clusterToSector cluster * bpb.bytesPerSector)
      match fat16ScanItems A name (bpb.clusterSize / 32) (diskstreamSeek stream absPos) d with
      | (.found item, stream, d) => .ok (.inr item, stream, d)
      | (.unreadable, stream, d) => .ok (.inl (-2), stream, d)
      | (.endMark, stream, d) => .ok (.inl (-3), stream, d)
      | (.exhausted, stream, d) =>
        match fat16GetFatEntry A bpb cluster stream d with
        | (entry, stream, d) => fat16ScanClusters A bpb name fuel entry stream d
    else .ok (.inl (-4), stream, d)

/-- `fat16_get_directory_entry`: an error code or the item. Cluster `0` is the root directory. -/
def fat16GetDirectoryEntry (A : Ata D) (bpb : FatBootSector) (fuel cluster : ℕ) (name : CString)
    (stream : DiskStream) (d : D) : Except Stop ((ℤ ⊕ FatDirectoryItem) × DiskStream × D) :=
  if cluster = 0 then
    let absPos := u32 (bpb.rootDirectorySector * bpb.bytesPerSector)
    match fat16ScanItems A name bpb.rootDirEntries (diskstreamSeek stream absPos) d with
    | (.found item, stream, d) => .ok (.inr item, stream, d)
    | (.unreadable, stream, d) => .ok (.inl (-1), stream, d)
    | (_, stream, d) => .ok (.inl (-4), stream, d)
  else fat16ScanClusters A bpb name fuel cluster stream d

/-- The loop of `fat16_open` over the parts of a path, from the directory `cluster` on: the item of
the last part, unless a part is missing or is followed by another one without being a directory. -/
def fat16Find (A : Ata D) (bpb : FatBootSector) (fuel : ℕ) :
    ℕ → CString → List CString → DiskStream → D →
      Except Stop (Option FatDirectoryItem × DiskStream × D)
  | cluster, part, [], stream, d =>
    match fat16GetDirectoryEntry A bpb fuel cluster part stream d with
    | .error e => .error e
    | .ok (.inl _, stream, d) => .ok (none, stream, d)
    | .ok (.inr item, stream, d) => .ok (some item, stream, d)
  | cluster, part, next :: rest, stream, d =>
    match fat16GetDirectoryEntry A bpb fuel cluster part stream d with
    | .error e => .error e
    | .ok (.inl _, stream, d) => .ok (none, stream, d)
    | .ok (.inr item, stream, d) =>
      if item.IsSubdirectory then
        fat16Find A bpb fuel item.low16BitsFirstCluster next rest stream d
      else .ok (none, stream, d)

/-! ### Listing a directory -/

/-- What `fat16_list` prints for an item. -/
def listLine (item : FatDirectoryItem) : CString :=
  fat16GetFullRelativeFilename item ++ (if item.IsSubdirectory then [0x2F] else []) ++ [0x0A]

/-- The loop of `fat16_list` over `n` directory entries, with the text it prints. -/
def fat16ListItems (A : Ata D) : ℕ → DiskStream → D → CString × DiskStream × D
  | 0, stream, d => ([], stream, d)
  | n + 1, stream, d =>
    match diskstreamRead A stream 32 d with
    | ((res, bytes), stream, d) =>
      if res ≠ 0 then ([], stream, d)
      else if byteAt bytes 0 = 0x00 then ([], stream, d)
      else
        match fat16ListItems A n stream d with
        | (text, rest) =>
          if byteAt bytes 0 = 0xE5 then (text, rest)
          else (listLine (FatDirectoryItem.decode bytes) ++ text, rest)

/-- The loop of `fat16_list` over the clusters of a subdirectory, cut off after `fuel` clusters. An
end mark or an unreadable sector ends the listing of its cluster only. -/
def fat16ListClusters (A : Ata D) (bpb : FatBootSector) :
    ℕ → ℕ → DiskStream → D → Except Stop (CString × DiskStream × D)
  | 0, _, _, _ => .error .diverges
  | fuel + 1, cluster, stream, d =>
    if cluster < fat16ClusterReservedMin then
      let absPos := u32 (bpb.clusterToSector cluster * bpb.bytesPerSector)
      match fat16ListItems A (bpb.clusterSize / 32) (diskstreamSeek stream absPos) d with
      | (text, stream, d) =>
        match fat16GetFatEntry A bpb cluster stream d with
        | (entry, stream, d) =>
          match fat16ListClusters A bpb fuel entry stream d with
          | .error e => .error e
          | .ok (text', rest) => .ok (text ++ text', rest)
    else .ok ([], stream, d)

/-- `fat16_list` from the directory `cluster` on: its result and the text it prints. -/
def fat16List (A : Ata D) (bpb : FatBootSector) (fuel : ℕ) :
    ℕ → List CString → DiskStream → D → Except Stop ((ℤ × CString) × DiskStream × D)
  | cluster, [], stream, d =>
    if cluster = 0 then
      let absPos := u32 (bpb.rootDirectorySector * bpb.bytesPerSector)
      match fat16ListItems A bpb.rootDirEntries (diskstreamSeek stream absPos) d with
      | (text, rest) => .ok ((0, text), rest)
    else
      match fat16ListClusters A bpb fuel cluster stream d with
      | .error e => .error e
      | .ok (text, rest) => .ok ((0, text), rest)
  | cluster, part :: rest, stream, d =>
    match fat16GetDirectoryEntry A bpb fuel cluster part stream d with
    | .error e => .error e
    | .ok (.inl _, stream, d) => .ok ((-1, []), stream, d)
    | .ok (.inr item, stream, d) =>
      if item.IsSubdirectory then
        fat16List A bpb fuel item.low16BitsFirstCluster rest stream d
      else .ok ((-1, []), stream, d)

/-! ### Open files -/

/-- The descriptor `fat16_open` creates for an item. -/
def FatFileDescriptor.fresh (item : FatDirectoryItem) : FatFileDescriptor where
  item := item
  pos := 0
  lastCluster := item.low16BitsFirstCluster
  lastClusterPos := 0

/-- The start of a round of the loop of `fat16_read`: at a cluster boundary behind the first piece
the walk moves on to the next cluster and takes the cache along. -/
def fat16AdvanceCluster (A : Ata D) (bpb : FatBootSector) (totalRead cluster : ℕ)
    (desc : FatFileDescriptor) (stream : DiskStream) (d : D) :
    ℕ × FatFileDescriptor × DiskStream × D :=
  let offsetInFile := u32 (desc.pos + totalRead)
  if totalRead > 0 ∧ offsetInFile % bpb.clusterSize = 0 then
    match fat16GetFatEntry A bpb cluster stream d with
    | (entry, stream, d) =>
      (entry, { desc with lastCluster := entry, lastClusterPos := offsetInFile }, stream, d)
  else (cluster, desc, stream, d)

/-- The loop of `fat16_read`: the bytes stored at `out` before and in the loop, how many of them
count, and the cluster cache. A sector that fails in the middle of a piece leaves the bytes in front
of it stored. Each round counts at least one byte, so `total` bounds the rounds. -/
def fat16ReadLoop (A : Ata D) (bpb : FatBootSector) (total : ℕ) :
    ℕ → ℕ → ℕ → List UInt8 → FatFileDescriptor → DiskStream → D →
      (ℕ × List UInt8) × FatFileDescriptor × DiskStream × D
  | 0, totalRead, _, out, desc, stream, d => ((totalRead, out), desc, stream, d)
  | fuel + 1, totalRead, cluster, out, desc, stream, d =>
    if totalRead < total then
      match fat16AdvanceCluster A bpb totalRead cluster desc stream d with
      | (cluster, desc, stream, d) =>
        if cluster ≥ fat16ClusterReservedMin then ((totalRead, out), desc, stream, d)
        else
          let offsetInCluster := u32 (desc.pos + totalRead) % bpb.clusterSize
          let absPos :=
            u32 (u32 (bpb.clusterToSector cluster * bpb.bytesPerSector) + offsetInCluster)
          let n := if bpb.clusterSize - offsetInCluster > total - totalRead then total - totalRead
            else bpb.clusterSize - offsetInCluster
          match diskstreamRead A (diskstreamSeek stream absPos) n d with
          | ((res, bytes), stream, d) =>
            if res ≠ 0 then ((totalRead, out ++ bytes), desc, stream, d)
            else fat16ReadLoop A bpb total fuel (totalRead + n) cluster (out ++ bytes) desc stream d
    else ((totalRead, out), desc, stream, d)

/-- `total_to_read` of `fat16_read`. -/
def FatFileDescriptor.totalToRead (desc : FatFileDescriptor) (size nmemb : ℕ) : ℕ :=
  if u32 (desc.pos + u32 (size * nmemb)) > desc.item.filesize then
    u32Sub desc.item.filesize desc.pos
  else u32 (size * nmemb)

/-- The cluster `fat16_read` starts its walk at, with the file position of that cluster. -/
def FatFileDescriptor.start (desc : FatFileDescriptor) : ℕ × ℕ :=
  if desc.pos ≥ desc.lastClusterPos then (desc.lastCluster, desc.lastClusterPos)
  else (desc.item.low16BitsFirstCluster, 0)

/-- `fat16_read`: the result and the bytes stored at `out`. -/
def fat16Read (A : Ata D) (bpb : FatBootSector) (size nmemb : ℕ) (desc : FatFileDescriptor)
    (stream : DiskStream) (d : D) :
    Except Stop ((ℤ × List UInt8) × FatFileDescriptor × DiskStream × D) :=
  let total := desc.totalToRead size nmemb
  if total = 0 then .ok ((0, []), desc, stream, d)
  else
    match fat16GetClusterForOffset A bpb desc.start.1 (u32Sub desc.pos desc.start.2) stream d with
    | (cluster, stream, d) =>
      if cluster ≥ fat16ClusterReservedMin then .ok ((0, []), desc, stream, d)
      else
        let desc := { desc with
          lastCluster := cluster
          lastClusterPos := desc.pos / bpb.clusterSize * bpb.clusterSize }
        match fat16ReadLoop A bpb total total 0 cluster [] desc stream d with
        | ((totalRead, out), desc, stream, d) =>
          if size = 0 then .error .divideError
          else
            .ok ((asInt32 (totalRead / size), out),
              { desc with pos := u32 (desc.pos + totalRead) }, stream, d)

/-- `FILE_SEEK_MODE`. -/
abbrev FileSeekMode := Whence

/-- `fat16_seek`. -/
def fat16Seek (desc : FatFileDescriptor) (offset : ℤ) (whence : FileSeekMode) :
    ℤ × FatFileDescriptor :=
  let newPos :=
    match whence with
    | .set => ofInt32 offset
    | .cur => u32 (desc.pos + ofInt32 offset)
    | .fromEnd => u32 (desc.item.filesize + ofInt32 offset)
  if newPos > desc.item.filesize then (-1, desc) else (0, { desc with pos := newPos })

/-- `fat16_tell`. -/
def fat16Tell (desc : FatFileDescriptor) : ℤ := asInt32 desc.pos

/-- `struct file_stat`. -/
structure FileStat where
  flags : ℕ
  filesize : ℕ
  deriving DecidableEq, Repr

/-- `fat16_stat`. The `FILE_STAT_*` flags have the values of the `FAT_FILE_*` attributes. -/
def fat16Stat (desc : FatFileDescriptor) : FileStat where
  flags := [0x01, 0x02, 0x04, 0x08, 0x10, 0x20].foldl
    (fun flags bit => if desc.item.attrib &&& bit ≠ 0 then flags ||| bit else flags) 0
  filesize := desc.item.filesize

end VibeKernel
