import VibeKernel.Drivers.StreamSlices
import VibeKernel.Fs.FileOps

/-!
# What the file system reads of a disk, and what for

The functions of `fat16.c` read the disk for three purposes: an entry of the allocation table, a
piece of a cluster, or an entry of the root directory. The functions of this file list the reads of
a call in their order, with the cluster they are made for; the reads themselves thread the stream
and the drives.

The lists are complete: drives that agree on the sectors of the listed reads give the same answers
(`fat16Find_congr`, `fat16List_congr`, `fat16Read_congr`).
-/

namespace VibeKernel

open Verif

variable {H D : Type}

/-- A stretch of the disk that one call of `diskstream_read` asks for, with what it is read for: the
boot sector, an entry of the root directory, the table entry of a cluster, or a piece of a
cluster. -/
inductive Access
  | boot
  | root (pos : ℕ)
  | table (cluster pos : ℕ)
  | data (cluster pos len : ℕ)
  deriving DecidableEq, Repr

namespace Access

def pos : Access → ℕ
  | boot => 0
  | root pos => pos
  | table _ pos => pos
  | data _ pos _ => pos

def len : Access → ℕ
  | boot => 512
  | root _ => 32
  | table _ _ => 2
  | data _ _ len => len

/-- Two drives have the same sectors there. -/
def SameOn (A A' : Ata D) (drive : ℕ) (a : Access) : Prop :=
  ∀ lba, a.pos / 512 ≤ lba → lba < a.pos / 512 + sectorsTouched a.pos a.len →
    ∀ d, ataReadSector A drive lba d = ataReadSector A' drive lba d

end Access

/-! ### The reads of the functions -/

/-- The read of `fat16_get_fat_entry`. -/
def tableAccess (bpb : FatBootSector) (cluster : ℕ) : Access :=
  .table cluster (u32 (u32 (bpb.reservedSectors * bpb.bytesPerSector) + u32 (cluster * 2)))

/-- The reads of the loop of `fat16_get_cluster_for_offset`. -/
def skipAccesses (A : Ata D) (bpb : FatBootSector) : ℕ → ℕ → DiskStream → D → List Access
  | 0, _, _, _ => []
  | n + 1, cluster, stream, d =>
    tableAccess bpb cluster ::
      match fat16GetFatEntry A bpb cluster stream d with
      | (entry, stream, d) =>
        if entry ≥ fat16ClusterLastMin then [] else skipAccesses A bpb n entry stream d

/-- The reads of the loop over directory entries that searches a name. -/
def scanAccesses (A : Ata D) (use : ℕ → Access) (name : CString) : ℕ → DiskStream → D → List Access
  | 0, _, _ => []
  | n + 1, stream, d =>
    use stream.pos ::
      match diskstreamRead A stream 32 d with
      | ((res, bytes), stream, d) =>
        if res ≠ 0 then []
        else if byteAt bytes 0 = 0x00 then []
        else if byteAt bytes 0 = 0xE5 then scanAccesses A use name n stream d
        else if strncasecmp 13
          (fat16GetFullRelativeFilename (FatDirectoryItem.decode bytes)) name = 0
          then []
        else scanAccesses A use name n stream d

/-- The reads of the search through the clusters of a subdirectory. -/
def scanClustersAccesses (A : Ata D) (bpb : FatBootSector) (name : CString) :
    ℕ → ℕ → DiskStream → D → List Access
  | 0, _, _, _ => []
  | fuel + 1, cluster, stream, d =>
    if cluster < fat16ClusterReservedMin then
      let absPos := u32 (bpb.clusterToSector cluster * bpb.bytesPerSector)
      scanAccesses A (.data cluster · 32) name (bpb.clusterSize / 32)
        (diskstreamSeek stream absPos) d ++
        match fat16ScanItems A name (bpb.clusterSize / 32) (diskstreamSeek stream absPos) d with
        | (.exhausted, stream, d) =>
          tableAccess bpb cluster ::
            match fat16GetFatEntry A bpb cluster stream d with
            | (entry, stream, d) => scanClustersAccesses A bpb name fuel entry stream d
        | _ => []
    else []

/-- The reads of `fat16_get_directory_entry`. -/
def directoryAccesses (A : Ata D) (bpb : FatBootSector) (fuel cluster : ℕ) (name : CString)
    (stream : DiskStream) (d : D) : List Access :=
  if cluster = 0 then
    scanAccesses A .root name bpb.rootDirEntries
      (diskstreamSeek stream (u32 (bpb.rootDirectorySector * bpb.bytesPerSector))) d
  else scanClustersAccesses A bpb name fuel cluster stream d

/-- The reads of the loop of `fat16_open`. -/
def findAccesses (A : Ata D) (bpb : FatBootSector) (fuel : ℕ) :
    ℕ → CString → List CString → DiskStream → D → List Access
  | cluster, part, [], stream, d => directoryAccesses A bpb fuel cluster part stream d
  | cluster, part, next :: rest, stream, d =>
    directoryAccesses A bpb fuel cluster part stream d ++
      match fat16GetDirectoryEntry A bpb fuel cluster part stream d with
      | .ok (.inr item, stream, d) =>
        if item.IsSubdirectory then
          findAccesses A bpb fuel item.low16BitsFirstCluster next rest stream d
        else []
      | _ => []

/-- The reads of the loop over directory entries that prints them. -/
def listItemsAccesses (A : Ata D) (use : ℕ → Access) : ℕ → DiskStream → D → List Access
  | 0, _, _ => []
  | n + 1, stream, d =>
    use stream.pos ::
      match diskstreamRead A stream 32 d with
      | ((res, bytes), stream, d) =>
        if res ≠ 0 then []
        else if byteAt bytes 0 = 0x00 then []
        else listItemsAccesses A use n stream d

/-- The reads of the listing of the clusters of a subdirectory. -/
def listClustersAccesses (A : Ata D) (bpb : FatBootSector) : ℕ → ℕ → DiskStream → D → List Access
  | 0, _, _, _ => []
  | fuel + 1, cluster, stream, d =>
    if cluster < fat16ClusterReservedMin then
      let absPos := u32 (bpb.clusterToSector cluster * bpb.bytesPerSector)
      listItemsAccesses A (.data cluster · 32) (bpb.clusterSize / 32)
        (diskstreamSeek stream absPos) d ++
        match fat16ListItems A (bpb.clusterSize / 32) (diskstreamSeek stream absPos) d with
        | (_, stream, d) =>
          tableAccess bpb cluster ::
            match fat16GetFatEntry A bpb cluster stream d with
            | (entry, stream, d) => listClustersAccesses A bpb fuel entry stream d
    else []

/-- The reads of `fat16_list`. -/
def listAccesses (A : Ata D) (bpb : FatBootSector) (fuel : ℕ) :
    ℕ → List CString → DiskStream → D → List Access
  | cluster, [], stream, d =>
    if cluster = 0 then
      listItemsAccesses A .root bpb.rootDirEntries
        (diskstreamSeek stream (u32 (bpb.rootDirectorySector * bpb.bytesPerSector))) d
    else listClustersAccesses A bpb fuel cluster stream d
  | cluster, part :: rest, stream, d =>
    directoryAccesses A bpb fuel cluster part stream d ++
      match fat16GetDirectoryEntry A bpb fuel cluster part stream d with
      | .ok (.inr item, stream, d) =>
        if item.IsSubdirectory then listAccesses A bpb fuel item.low16BitsFirstCluster rest stream d
        else []
      | _ => []

/-- The read at the start of a round of the loop of `fat16_read`. -/
def advanceAccesses (bpb : FatBootSector) (totalRead cluster : ℕ) (desc : FatFileDescriptor) :
    List Access :=
  if totalRead > 0 ∧ u32 (desc.pos + totalRead) % bpb.clusterSize = 0 then [tableAccess bpb cluster]
  else []

/-- The reads of the loop of `fat16_read`. -/
def readLoopAccesses (A : Ata D) (bpb : FatBootSector) (total : ℕ) :
    ℕ → ℕ → ℕ → FatFileDescriptor → DiskStream → D → List Access
  | 0, _, _, _, _, _ => []
  | fuel + 1, totalRead, cluster, desc, stream, d =>
    if totalRead < total then
      advanceAccesses bpb totalRead cluster desc ++
        match fat16AdvanceCluster A bpb totalRead cluster desc stream d with
        | (cluster, desc, stream, d) =>
          if cluster ≥ fat16ClusterReservedMin then []
          else
            let offsetInCluster := u32 (desc.pos + totalRead) % bpb.clusterSize
            let absPos :=
              u32 (u32 (bpb.clusterToSector cluster * bpb.bytesPerSector) + offsetInCluster)
            let n := if bpb.clusterSize - offsetInCluster > total - totalRead then total - totalRead
              else bpb.clusterSize - offsetInCluster
            .data cluster absPos n ::
              match diskstreamRead A (diskstreamSeek stream absPos) n d with
              | ((res, _), stream, d) =>
                if res ≠ 0 then []
                else readLoopAccesses A bpb total fuel (totalRead + n) cluster desc stream d
    else []

/-- The reads of `fat16_read`. -/
def readAccesses (A : Ata D) (bpb : FatBootSector) (size nmemb : ℕ) (desc : FatFileDescriptor)
    (stream : DiskStream) (d : D) : List Access :=
  let total := desc.totalToRead size nmemb
  if total = 0 then []
  else
    skipAccesses A bpb (u32Sub desc.pos desc.start.2 / bpb.clusterSize) desc.start.1 stream d ++
      match fat16GetClusterForOffset A bpb desc.start.1 (u32Sub desc.pos desc.start.2) stream d with
      | (cluster, stream, d) =>
        if cluster ≥ fat16ClusterReservedMin then []
        else
          readLoopAccesses A bpb total total 0 cluster
            { desc with
              lastCluster := cluster
              lastClusterPos := desc.pos / bpb.clusterSize * bpb.clusterSize } stream d

/-! ### The reads of a call -/

/-- The reads of a call on a path: mounting the disk `i`, and then those of `inside`. -/
def mountAccesses (M : Machine H D) (i : ℕ) (d : D)
    (inside : FatBootSector → DiskStream → D → List Access) : List (ℕ × Access) :=
  if i > 1 then []
  else
    ((Access.boot) ::
      match bootSector M i d with
      | .inl _ => []
      | .inr bpb => inside bpb (afterBoot M i d).1 (afterBoot M i d).2).map (i, ·)

/-- The reads of `fopen`, with the disk they are made on. -/
def fopenAccesses (M : Machine H D) (path modeStr : CString) (d : D) : List (ℕ × Access) :=
  match pathParserGetDriveNo path with
  | none => []
  | some (i, rest) =>
    match pathParts (rest.length + 1) rest with
    | [] => []
    | part :: more =>
      mountAccesses M i d fun bpb stream d =>
        if fsParseMode modeStr ≠ .read then []
        else findAccesses M.ata bpb M.fuel 0 part more stream d

/-- The reads of `fs_list`. -/
def fsListAccesses (M : Machine H D) (path : CString) (d : D) : List (ℕ × Access) :=
  match pathParserGetDriveNo path with
  | none => []
  | some (i, rest) =>
    mountAccesses M i d fun bpb stream d =>
      listAccesses M.ata bpb M.fuel 0 (pathParts (rest.length + 1) rest) stream d

/-- The reads of a call. A read of a file uses the boot sector of the mount of its disk. -/
def callAccesses (M : Machine H D) (s : Kernel H D) : FsCall → List (ℕ × Access)
  | .fopen path modeStr => fopenAccesses M path modeStr s.drives
  | .fsList path => fsListAccesses M path s.drives
  | .fread size nmemb fd =>
    match s.entry fd.toInt with
    | none => []
    | some (i, f) =>
      match (s.store (s.fs.fsPrivate i)).bind Obj.asMount with
      | none => []
      | some m => (readAccesses M.ata m.bpb size.toNat nmemb.toNat f ⟨0, i⟩ s.drives).map (i, ·)
  | .fseek _ _ _ | .ftell _ | .fstat _ | .fclose _ => []

/-! ### The lists are complete -/

section Complete

variable {A A' : Ata D} {i : ℕ} {bpb : FatBootSector} {stream : DiskStream}

/-- The loop of `diskstream_read` reads no other sectors than those its stretch touches. -/
theorem diskstreamReadLoop_congr :
    ∀ (fuel sector offset total : ℕ) (d : D), offset < 512 →
      sector + sectorsTouched offset total < 4294967296 →
      (∀ lba, sector ≤ lba → lba < sector + sectorsTouched offset total →
        ∀ d, ataReadSector A i lba d = ataReadSector A' i lba d) →
      diskstreamReadLoop A i fuel sector offset total d =
        diskstreamReadLoop A' i fuel sector offset total d := by
  intro fuel
  induction fuel with
  | zero => exact fun _ _ _ _ _ _ _ => rfl
  | succ fuel ih =>
    intro sector offset total d hoff hend hsame
    rw [diskstreamReadLoop, diskstreamReadLoop]
    by_cases h0 : total = 0
    · rw [if_pos h0, if_pos h0]
    have hpos : 0 < sectorsTouched offset total := by
      unfold sectorsTouched
      rw [if_neg h0]
      exact Nat.succ_pos _
    rw [if_neg h0, if_neg h0, ← hsame sector le_rfl (Nat.lt_add_of_pos_right hpos) d]
    obtain ⟨buffer, d₁⟩ := ataReadSector A i sector d
    cases buffer with
    | none => rfl
    | some buffer =>
      dsimp only
      generalize hn : (if 512 - offset > total then total else 512 - offset) = n
      have hrest : sectorsTouched 0 (total - n) + 1 ≤ sectorsTouched offset total := by
        unfold sectorsTouched
        rw [if_neg h0]
        split_ifs at hn ⊢ <;> omega
      rw [u32_of_lt (by omega : sector + 1 < 4294967296),
        ih (sector + 1) 0 (total - n) d₁ (by norm_num) (by omega)
          fun lba hl hu => hsame lba (by omega) (by omega)]

/-- A read depends on the sectors of its stretch. -/
theorem diskstreamRead_congr (hs : stream.diskId = i) {total : ℕ}
    (hend : stream.pos + total < 549755813888) (d : D)
    (hsame : ∀ lba, stream.pos / 512 ≤ lba →
      lba < stream.pos / 512 + sectorsTouched stream.pos total →
      ∀ d, ataReadSector A i lba d = ataReadSector A' i lba d) :
    diskstreamRead A stream total d = diskstreamRead A' stream total d := by
  have htouched : sectorsTouched (stream.pos % 512) total = sectorsTouched stream.pos total := by
    unfold sectorsTouched
    split_ifs <;> omega
  have hlast : stream.pos / 512 + sectorsTouched stream.pos total < 4294967296 := by
    unfold sectorsTouched
    split_ifs <;> omega
  unfold diskstreamRead
  rw [hs, diskstreamReadLoop_congr total _ _ total d (Nat.mod_lt _ (by norm_num))
    (htouched.symm ▸ hlast) (htouched.symm ▸ hsame)]

/-- So does a read at another position. -/
theorem diskstreamRead_seek_congr (hs : stream.diskId = i) {pos total : ℕ}
    (hend : pos + total < 549755813888) (d : D)
    (hsame : ∀ lba, pos / 512 ≤ lba → lba < pos / 512 + sectorsTouched pos total →
      ∀ d, ataReadSector A i lba d = ataReadSector A' i lba d) :
    diskstreamRead A (diskstreamSeek stream pos) total d =
      diskstreamRead A' (diskstreamSeek stream pos) total d :=
  diskstreamRead_congr (diskstreamSeek_diskId hs pos) hend d hsame

/-- The position of a stream stays a 32-bit number. -/
theorem diskstreamRead_pos_lt (hpos : stream.pos < 4294967296) (total : ℕ) (d : D) :
    (diskstreamRead A stream total d).2.1.pos < 4294967296 := by
  unfold diskstreamRead
  generalize diskstreamReadLoop A stream.diskId total _ _ total d = r
  obtain ⟨⟨ok, bytes⟩, d'⟩ := r
  cases ok with
  | true => exact u32_lt _
  | false => exact hpos

theorem fat16GetFatEntry_congr (hs : stream.diskId = i) (cluster : ℕ) (d : D)
    (hsame : (tableAccess bpb cluster).SameOn A A' i) :
    fat16GetFatEntry A bpb cluster stream d = fat16GetFatEntry A' bpb cluster stream d := by
  have hpos := u32_lt (u32 (bpb.reservedSectors * bpb.bytesPerSector) + u32 (cluster * 2))
  unfold fat16GetFatEntry
  unfold Access.SameOn tableAccess at hsame
  generalize u32 (u32 (bpb.reservedSectors * bpb.bytesPerSector) + u32 (cluster * 2)) = pos at *
  dsimp only
  rw [diskstreamRead_seek_congr hs (by omega : pos + 2 < 549755813888) d hsame]

theorem fat16SkipClusters_congr :
    ∀ (n cluster : ℕ) {stream : DiskStream} (d : D), stream.diskId = i →
      (∀ a ∈ skipAccesses A bpb n cluster stream d, a.SameOn A A' i) →
      fat16SkipClusters A bpb n cluster stream d = fat16SkipClusters A' bpb n cluster stream d := by
  intro n
  induction n with
  | zero => exact fun _ _ _ _ _ => rfl
  | succ n ih =>
    intro cluster stream d hs hsame
    rw [skipAccesses, List.forall_mem_cons] at hsame
    have hk := fat16GetFatEntry_keeps (A := A) (b := bpb) hs cluster d
    rw [fat16SkipClusters, fat16SkipClusters, ← fat16GetFatEntry_congr hs cluster d hsame.1]
    have hrest := hsame.2
    generalize fat16GetFatEntry A bpb cluster stream d = r at hk hrest
    obtain ⟨entry, stream₁, d₁⟩ := r
    dsimp only at hrest ⊢
    by_cases hlast : entry ≥ fat16ClusterLastMin
    · rw [if_pos hlast, if_pos hlast]
    · rw [if_neg hlast] at hrest
      rw [if_neg hlast, if_neg hlast]
      exact ih entry d₁ hk.diskId hrest

/-! Directories. -/

section Entries

variable {use : ℕ → Access} {name : CString}

/-- A read of a directory entry. -/
theorem diskstreamRead_entry_congr (huse : ∀ pos, (use pos).pos = pos ∧ (use pos).len = 32)
    (hs : stream.diskId = i) (hpos : stream.pos < 4294967296) (d : D)
    (hsame : (use stream.pos).SameOn A A' i) :
    diskstreamRead A stream 32 d = diskstreamRead A' stream 32 d := by
  unfold Access.SameOn at hsame
  rw [(huse _).1, (huse _).2] at hsame
  exact diskstreamRead_congr hs (by omega) d hsame

theorem fat16ScanItems_congr (huse : ∀ pos, (use pos).pos = pos ∧ (use pos).len = 32) :
    ∀ (n : ℕ) {stream : DiskStream} (d : D), stream.diskId = i → stream.pos < 4294967296 →
      (∀ a ∈ scanAccesses A use name n stream d, a.SameOn A A' i) →
      fat16ScanItems A name n stream d = fat16ScanItems A' name n stream d := by
  intro n
  induction n with
  | zero => exact fun _ _ _ _ => rfl
  | succ n ih =>
    intro stream d hs hpos hsame
    rw [scanAccesses, List.forall_mem_cons] at hsame
    have hk := diskstreamRead_keeps (A := A) stream 32 d
    have hpos₁ := @diskstreamRead_pos_lt _ A stream hpos 32 d
    rw [fat16ScanItems, fat16ScanItems, ← diskstreamRead_entry_congr huse hs hpos d hsame.1]
    have hrest := hsame.2
    generalize diskstreamRead A stream 32 d = r at hk hpos₁ hrest
    obtain ⟨⟨res, bytes⟩, stream₁, d₁⟩ := r
    have hgo := @ih stream₁ d₁ (hk.diskId.trans hs) hpos₁
    dsimp only at hrest ⊢
    split_ifs at hrest ⊢
    · rfl
    · rfl
    · exact hgo hrest
    · rfl
    · exact hgo hrest

theorem fat16ListItems_congr (huse : ∀ pos, (use pos).pos = pos ∧ (use pos).len = 32) :
    ∀ (n : ℕ) {stream : DiskStream} (d : D), stream.diskId = i → stream.pos < 4294967296 →
      (∀ a ∈ listItemsAccesses A use n stream d, a.SameOn A A' i) →
      fat16ListItems A n stream d = fat16ListItems A' n stream d := by
  intro n
  induction n with
  | zero => exact fun _ _ _ _ => rfl
  | succ n ih =>
    intro stream d hs hpos hsame
    rw [listItemsAccesses, List.forall_mem_cons] at hsame
    have hk := diskstreamRead_keeps (A := A) stream 32 d
    have hpos₁ := @diskstreamRead_pos_lt _ A stream hpos 32 d
    rw [fat16ListItems, fat16ListItems, ← diskstreamRead_entry_congr huse hs hpos d hsame.1]
    have hrest := hsame.2
    generalize diskstreamRead A stream 32 d = r at hk hpos₁ hrest
    obtain ⟨⟨res, bytes⟩, stream₁, d₁⟩ := r
    have hgo := @ih stream₁ d₁ (hk.diskId.trans hs) hpos₁
    dsimp only at hrest ⊢
    by_cases hres : res ≠ 0
    · rw [if_pos hres, if_pos hres]
    rw [if_neg hres] at hrest
    rw [if_neg hres, if_neg hres]
    by_cases hmark : byteAt bytes 0 = 0x00
    · rw [if_pos hmark, if_pos hmark]
    rw [if_neg hmark] at hrest
    rw [if_neg hmark, if_neg hmark, hgo hrest]

theorem fat16ScanClusters_congr :
    ∀ (fuel cluster : ℕ) {stream : DiskStream} (d : D), stream.diskId = i →
      (∀ a ∈ scanClustersAccesses A bpb name fuel cluster stream d, a.SameOn A A' i) →
      fat16ScanClusters A bpb name fuel cluster stream d =
        fat16ScanClusters A' bpb name fuel cluster stream d := by
  intro fuel
  induction fuel with
  | zero => exact fun _ _ _ _ _ => rfl
  | succ fuel ih =>
    intro cluster stream d hs hsame
    rw [scanClustersAccesses] at hsame
    rw [fat16ScanClusters, fat16ScanClusters]
    by_cases hsmall : cluster < fat16ClusterReservedMin
    swap
    · rw [if_neg hsmall, if_neg hsmall]
    rw [if_pos hsmall, List.forall_mem_append] at hsame
    have hpos := u32_lt (bpb.clusterToSector cluster * bpb.bytesPerSector)
    have hk := fat16ScanItems_keeps (A := A) name (bpb.clusterSize / 32) d (diskstreamSeek_diskId hs
      (u32 (bpb.clusterToSector cluster * bpb.bytesPerSector)))
    generalize u32 (bpb.clusterToSector cluster * bpb.bytesPerSector) = absPos at hsame hpos hk ⊢
    -- the entries of the cluster, and then the link
    have hitems := @fat16ScanItems_congr _ A A' i (Access.data cluster · 32) name
        (fun _ => ⟨rfl, rfl⟩)
      _ (diskstreamSeek stream absPos) d (diskstreamSeek_diskId hs absPos) hpos hsame.1
    have hrest := hsame.2
    rw [if_pos hsmall, if_pos hsmall]
    dsimp only
    rw [← hitems]
    generalize fat16ScanItems A name (bpb.clusterSize / 32) _ d = r at hk hrest
    obtain ⟨scan, stream₁, d₁⟩ := r
    cases scan with
    | found item => rfl
    | unreadable => rfl
    | endMark => rfl
    | exhausted =>
      dsimp only at hrest ⊢
      rw [List.forall_mem_cons] at hrest
      have hk' := fat16GetFatEntry_keeps (A := A) (b := bpb) hk.diskId cluster d₁
      rw [← fat16GetFatEntry_congr hk.diskId cluster d₁ hrest.1]
      have hmore := hrest.2
      generalize fat16GetFatEntry A bpb cluster stream₁ d₁ = r' at hk' hmore
      obtain ⟨entry, stream₂, d₂⟩ := r'
      exact ih entry d₂ hk'.diskId hmore

theorem fat16GetDirectoryEntry_congr (fuel cluster : ℕ) (hs : stream.diskId = i) (d : D)
    (hsame : ∀ a ∈ directoryAccesses A bpb fuel cluster name stream d, a.SameOn A A' i) :
    fat16GetDirectoryEntry A bpb fuel cluster name stream d =
      fat16GetDirectoryEntry A' bpb fuel cluster name stream d := by
  unfold directoryAccesses at hsame
  unfold fat16GetDirectoryEntry
  by_cases hroot : cluster = 0
  · rw [if_pos hroot] at hsame
    rw [if_pos hroot, if_pos hroot]
    have hpos := u32_lt (bpb.rootDirectorySector * bpb.bytesPerSector)
    generalize u32 (bpb.rootDirectorySector * bpb.bytesPerSector) = absPos at hsame hpos ⊢
    dsimp only
    rw [@fat16ScanItems_congr _ A A' i .root name (fun _ => ⟨rfl, rfl⟩) _
      (diskstreamSeek stream absPos) d (diskstreamSeek_diskId hs absPos) hpos hsame]
  · rw [if_neg hroot] at hsame
    rw [if_neg hroot, if_neg hroot, fat16ScanClusters_congr fuel cluster d hs hsame]

end Entries

/-- **The reads of the search for a file** are all that it depends on. -/
theorem fat16Find_congr (fuel : ℕ) :
    ∀ (rest : List CString) (cluster : ℕ) (part : CString) {stream : DiskStream} (d : D),
      stream.diskId = i →
      (∀ a ∈ findAccesses A bpb fuel cluster part rest stream d, a.SameOn A A' i) →
      fat16Find A bpb fuel cluster part rest stream d =
        fat16Find A' bpb fuel cluster part rest stream d := by
  intro rest
  induction rest with
  | nil =>
    intro cluster part stream d hs hsame
    rw [fat16Find, fat16Find, fat16GetDirectoryEntry_congr fuel cluster hs d hsame]
  | cons next rest ih =>
    intro cluster part stream d hs hsame
    rw [findAccesses, List.forall_mem_append] at hsame
    have hk := fat16GetDirectoryEntry_keeps (A := A) (b := bpb) fuel cluster part hs d
    rw [fat16Find, fat16Find, ← fat16GetDirectoryEntry_congr fuel cluster hs d hsame.1]
    have hrest := hsame.2
    generalize fat16GetDirectoryEntry A bpb fuel cluster part stream d = r at hk hrest
    rcases r with e | ⟨code | item, stream₁, d₁⟩
    · rfl
    · rfl
    · dsimp only at hrest ⊢
      by_cases hsub : item.IsSubdirectory
      · rw [if_pos hsub] at hrest
        rw [if_pos hsub, if_pos hsub]
        exact ih _ next d₁ (Keeps.diskId hk) hrest
      · rw [if_neg hsub, if_neg hsub]

theorem fat16ListClusters_congr :
    ∀ (fuel cluster : ℕ) {stream : DiskStream} (d : D), stream.diskId = i →
      (∀ a ∈ listClustersAccesses A bpb fuel cluster stream d, a.SameOn A A' i) →
      fat16ListClusters A bpb fuel cluster stream d =
        fat16ListClusters A' bpb fuel cluster stream d := by
  intro fuel
  induction fuel with
  | zero => exact fun _ _ _ _ _ => rfl
  | succ fuel ih =>
    intro cluster stream d hs hsame
    rw [listClustersAccesses] at hsame
    rw [fat16ListClusters, fat16ListClusters]
    by_cases hsmall : cluster < fat16ClusterReservedMin
    swap
    · rw [if_neg hsmall, if_neg hsmall]
    rw [if_pos hsmall, List.forall_mem_append] at hsame
    have hpos := u32_lt (bpb.clusterToSector cluster * bpb.bytesPerSector)
    have hk := fat16ListItems_keeps (A := A) (bpb.clusterSize / 32) d (diskstreamSeek_diskId hs
      (u32 (bpb.clusterToSector cluster * bpb.bytesPerSector)))
    generalize u32 (bpb.clusterToSector cluster * bpb.bytesPerSector) = absPos at hsame hpos hk ⊢
    have hitems := @fat16ListItems_congr _ A A' i (Access.data cluster · 32) (fun _ => ⟨rfl, rfl⟩)
      _ (diskstreamSeek stream absPos) d (diskstreamSeek_diskId hs absPos) hpos hsame.1
    have hrest := hsame.2
    rw [if_pos hsmall, if_pos hsmall]
    dsimp only
    rw [← hitems]
    generalize fat16ListItems A (bpb.clusterSize / 32) _ d = r at hk hrest
    obtain ⟨text, stream₁, d₁⟩ := r
    dsimp only at hrest ⊢
    rw [List.forall_mem_cons] at hrest
    have hk' := fat16GetFatEntry_keeps (A := A) (b := bpb) hk.diskId cluster d₁
    rw [← fat16GetFatEntry_congr hk.diskId cluster d₁ hrest.1]
    have hmore := hrest.2
    generalize fat16GetFatEntry A bpb cluster stream₁ d₁ = r' at hk' hmore
    obtain ⟨entry, stream₂, d₂⟩ := r'
    dsimp only
    rw [ih entry d₂ hk'.diskId hmore]

/-- **The reads of a listing** are all that it depends on. -/
theorem fat16List_congr (fuel : ℕ) :
    ∀ (parts : List CString) (cluster : ℕ) {stream : DiskStream} (d : D), stream.diskId = i →
      (∀ a ∈ listAccesses A bpb fuel cluster parts stream d, a.SameOn A A' i) →
      fat16List A bpb fuel cluster parts stream d =
        fat16List A' bpb fuel cluster parts stream d := by
  intro parts
  induction parts with
  | nil =>
    intro cluster stream d hs hsame
    rw [listAccesses] at hsame
    rw [fat16List, fat16List]
    by_cases hroot : cluster = 0
    · rw [if_pos hroot] at hsame
      rw [if_pos hroot, if_pos hroot]
      have hpos := u32_lt (bpb.rootDirectorySector * bpb.bytesPerSector)
      generalize u32 (bpb.rootDirectorySector * bpb.bytesPerSector) = absPos at hsame hpos ⊢
      dsimp only
      rw [@fat16ListItems_congr _ A A' i .root (fun _ => ⟨rfl, rfl⟩) _
        (diskstreamSeek stream absPos) d (diskstreamSeek_diskId hs absPos) hpos hsame]
    · rw [if_neg hroot] at hsame
      rw [if_neg hroot, if_neg hroot, fat16ListClusters_congr fuel cluster d hs hsame]
  | cons part rest ih =>
    intro cluster stream d hs hsame
    rw [listAccesses, List.forall_mem_append] at hsame
    have hk := fat16GetDirectoryEntry_keeps (A := A) (b := bpb) fuel cluster part hs d
    rw [fat16List, fat16List, ← fat16GetDirectoryEntry_congr fuel cluster hs d hsame.1]
    have hrest := hsame.2
    generalize fat16GetDirectoryEntry A bpb fuel cluster part stream d = r at hk hrest
    rcases r with e | ⟨code | item, stream₁, d₁⟩
    · rfl
    · rfl
    · dsimp only at hrest ⊢
      by_cases hsub : item.IsSubdirectory
      · rw [if_pos hsub] at hrest
        rw [if_pos hsub, if_pos hsub]
        exact ih _ d₁ (Keeps.diskId hk) hrest
      · rw [if_neg hsub, if_neg hsub]

/-! Files. -/

theorem fat16AdvanceCluster_congr (hs : stream.diskId = i) (totalRead cluster : ℕ)
    (desc : FatFileDescriptor) (d : D)
    (hsame : ∀ a ∈ advanceAccesses bpb totalRead cluster desc, a.SameOn A A' i) :
    fat16AdvanceCluster A bpb totalRead cluster desc stream d =
      fat16AdvanceCluster A' bpb totalRead cluster desc stream d := by
  unfold advanceAccesses at hsame
  unfold fat16AdvanceCluster
  dsimp only
  by_cases hadv : totalRead > 0 ∧ u32 (desc.pos + totalRead) % bpb.clusterSize = 0
  · rw [if_pos hadv] at hsame
    rw [if_pos hadv, if_pos hadv,
      fat16GetFatEntry_congr hs cluster d (hsame _ (List.mem_singleton_self _))]
  · rw [if_neg hadv, if_neg hadv]

/-- A read of a piece of a cluster. -/
theorem dataRead_congr (hs : stream.diskId = i) {cluster pos len : ℕ} (hpos : pos < 4294967296)
    (hlen : len < 4294967296) (d : D) (hsame : (Access.data cluster pos len).SameOn A A' i) :
    diskstreamRead A (diskstreamSeek stream pos) len d =
      diskstreamRead A' (diskstreamSeek stream pos) len d :=
  diskstreamRead_seek_congr hs (by omega) d hsame

theorem fat16ReadLoop_congr (hcs : bpb.clusterSize < 4294967296) (total : ℕ) :
    ∀ (fuel totalRead cluster : ℕ) (out : List UInt8) (desc : FatFileDescriptor)
      {stream : DiskStream} (d : D), stream.diskId = i →
      (∀ a ∈ readLoopAccesses A bpb total fuel totalRead cluster desc stream d, a.SameOn A A' i) →
      fat16ReadLoop A bpb total fuel totalRead cluster out desc stream d =
        fat16ReadLoop A' bpb total fuel totalRead cluster out desc stream d := by
  intro fuel
  induction fuel with
  | zero => exact fun _ _ _ _ _ _ _ _ => rfl
  | succ fuel ih =>
    intro totalRead cluster out desc stream d hs hsame
    rw [readLoopAccesses] at hsame
    rw [fat16ReadLoop, fat16ReadLoop]
    by_cases hmore : totalRead < total
    swap
    · rw [if_neg hmore, if_neg hmore]
    rw [if_pos hmore, List.forall_mem_append] at hsame
    obtain ⟨-, -, -, hk, -⟩ :=
      fat16AdvanceCluster_same (A := A) (b := bpb) hs hs totalRead cluster desc d
    -- both advance in the same way
    rw [if_pos hmore, if_pos hmore, ← fat16AdvanceCluster_congr hs totalRead cluster desc d hsame.1]
    have hrest := hsame.2
    generalize fat16AdvanceCluster A bpb totalRead cluster desc stream d = r at hk hrest
    obtain ⟨cluster₁, desc₁, stream₁, d₁⟩ := r
    dsimp only at hrest ⊢
    by_cases hend : cluster₁ ≥ fat16ClusterReservedMin
    · rw [if_pos hend, if_pos hend]
    rw [if_neg hend, List.forall_mem_cons] at hrest
    rw [if_neg hend, if_neg hend]
    generalize hoff : u32 (desc₁.pos + totalRead) % bpb.clusterSize = off at hrest ⊢
    have hpos := u32_lt (u32 (bpb.clusterToSector cluster₁ * bpb.bytesPerSector) + off)
    generalize u32 (u32 (bpb.clusterToSector cluster₁ * bpb.bytesPerSector) + off) = absPos
      at hrest hpos ⊢
    generalize hlen : (if bpb.clusterSize - off > total - totalRead then total - totalRead
      else bpb.clusterSize - off) = len at hrest ⊢
    have hlen' : len ≤ bpb.clusterSize := by
      split_ifs at hlen <;> omega
    have hk' := diskstreamRead_seek_keeps (A := A) hk.diskId absPos len d₁
    have hs₁ : stream₁.diskId = i := hk.diskId
    -- and read the same bytes of the cluster
    rw [← dataRead_congr hs₁ hpos (hlen'.trans_lt hcs) d₁ hrest.1]
    have hmore' := hrest.2
    generalize diskstreamRead A (diskstreamSeek stream₁ absPos) len d₁ = r' at hk' hmore' ⊢
    obtain ⟨⟨res, bytes⟩, stream₂, d₂⟩ := r'
    dsimp only at hmore' ⊢
    by_cases hres : res ≠ 0
    · rw [if_pos hres, if_pos hres]
    · rw [if_neg hres] at hmore'
      rw [if_neg hres, if_neg hres]
      exact ih _ _ _ _ d₂ hk'.diskId hmore'

/-- **The reads of `fat16_read`** are all that it depends on. -/
theorem fat16Read_congr (hcs : bpb.clusterSize < 4294967296) (hs : stream.diskId = i)
    (size nmemb : ℕ) (desc : FatFileDescriptor) (d : D)
    (hsame : ∀ a ∈ readAccesses A bpb size nmemb desc stream d, a.SameOn A A' i) :
    fat16Read A bpb size nmemb desc stream d = fat16Read A' bpb size nmemb desc stream d := by
  unfold readAccesses at hsame
  unfold fat16Read
  dsimp only at hsame ⊢
  by_cases h0 : desc.totalToRead size nmemb = 0
  · rw [if_pos h0, if_pos h0]
  rw [if_neg h0, List.forall_mem_append] at hsame
  rw [if_neg h0, if_neg h0]
  unfold fat16GetClusterForOffset at hsame ⊢
  have hk := fat16SkipClusters_keeps (A := A) (b := bpb)
    (u32Sub desc.pos desc.start.2 / bpb.clusterSize) desc.start.1 d hs
  rw [← fat16SkipClusters_congr _ _ d hs hsame.1]
  have hrest := hsame.2
  generalize fat16SkipClusters A bpb _ _ stream d = r at hk hrest
  obtain ⟨cluster, stream₁, d₁⟩ := r
  dsimp only at hrest ⊢
  by_cases hend : cluster ≥ fat16ClusterReservedMin
  · rw [if_pos hend, if_pos hend]
  · rw [if_neg hend] at hrest
    rw [if_neg hend, if_neg hend, fat16ReadLoop_congr hcs _ _ 0 cluster [] _ d₁ hk.diskId hrest]

end Complete

end VibeKernel
