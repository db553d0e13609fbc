import VibeKernel.Fs.Accesses
import VibeKernel.Fs.Walks
import VibeKernel.Fs.ReadFailures

/-!
# Which sectors the file system reads

The first allocation table has `fatSectors` sectors, and the clusters from `2` on lie behind the
root directory. `fat16.c` compares a cluster number with the end marks and with nothing else, so
whether its reads stay where they belong is up to the disk. `CallContained` says which clusters the
reads of a call reach, by the table and the directories of the image and by the cluster that the
cache of an open file holds: those whose entry is looked up have to be `InFirstFat`, and those that
are read `InDataArea`.

In a run whose calls meet it every access is contained (`fs_contained`), also on drives whose
sectors may fail. A file of the size `1` with the first cluster `0` is a run that leaves the data
area (`fread_leaves_data_area`).
-/

namespace VibeKernel

open Verif

variable {H D : Type}

/-! ### Where reads belong -/

namespace FatBootSector

/-- The entry of the cluster lies in the first allocation table. -/
def InFirstFat (bpb : FatBootSector) (cluster : ℕ) : Prop := 2 * cluster + 2 ≤ 512 * bpb.fatSectors

/-- The cluster has a number of a data cluster, and none of the 32-bit positions in it wraps around
to the sectors in front of the data area. -/
def InDataArea (bpb : FatBootSector) (cluster : ℕ) : Prop :=
  2 ≤ cluster ∧ ∀ off < bpb.clusterSize,
    512 * bpb.firstDataSector ≤ u32 (bpb.clusterPos cluster + off)

end FatBootSector

/-- A table entry comes from the first allocation table; a piece of a cluster is read for a data
cluster and from sectors of the data area. -/
def Access.Contained (bpb : FatBootSector) : Access → Prop
  | .boot => True
  | .root _ => True
  | .table _ pos =>
    512 * bpb.reservedSectors ≤ pos ∧ pos + 2 ≤ 512 * (bpb.reservedSectors + bpb.fatSectors)
  | .data cluster pos _ => 2 ≤ cluster ∧ bpb.firstDataSector ≤ pos / 512

instance (bpb : FatBootSector) : DecidablePred (Access.Contained bpb)
  | .boot | .root _ => inferInstanceAs (Decidable True)
  | .table _ _ | .data _ _ _ => inferInstanceAs (Decidable (_ ∧ _))

/-! ### What a call reaches -/

instance (bpb : FatBootSector) : DecidablePred bpb.InFirstFat :=
  fun _ => inferInstanceAs (Decidable (_ ≤ _))

instance (bpb : FatBootSector) : DecidablePred bpb.InDataArea :=
  fun _ => inferInstanceAs (Decidable (_ ∧ ∀ _ < _, _))

/-- What a walk through the clusters of a directory reaches, up to the first cluster with
`stops`. -/
def WalkContained (bpb : FatBootSector) (img : ℕ → UInt8) (stops : ℕ → Prop) (first : ℕ) : Prop :=
  ∀ k, (∀ j < k, bpb.chainCluster img first j < fat16ClusterReservedMin ∧
      ¬ stops (bpb.chainCluster img first j)) →
    bpb.chainCluster img first k < fat16ClusterReservedMin →
    bpb.InDataArea (bpb.chainCluster img first k) ∧
      (¬ stops (bpb.chainCluster img first k) → bpb.InFirstFat (bpb.chainCluster img first k))

/-- What the search for a name in a directory reaches. -/
def SearchContained (bpb : FatBootSector) (img : ℕ → UInt8) (cluster : ℕ) (name : CString) : Prop :=
  cluster = 0 ∨
    WalkContained bpb img (fun c => StopsSearch name (clusterEntries bpb img c)) cluster

/-- What the search for a file reaches: each part of the path in the directory of the parts
before. -/
def FindContained (bpb : FatBootSector) (img : ℕ → UInt8) : ℕ → CString → List CString → Prop
  | cluster, part, [] => SearchContained bpb img cluster part
  | cluster, part, next :: rest => SearchContained bpb img cluster part ∧
    ∀ e, FirstLive bpb img cluster part e → (FatDirectoryItem.decode e).IsSubdirectory →
      FindContained bpb img (FatDirectoryItem.decode e).low16BitsFirstCluster next rest

/-- What a listing reaches, which goes through the directory to the end of its chain. -/
def ListContained (bpb : FatBootSector) (img : ℕ → UInt8) : ℕ → List CString → Prop
  | cluster, [] => cluster = 0 ∨ WalkContained bpb img (fun _ => False) cluster
  | cluster, part :: rest => SearchContained bpb img cluster part ∧
    ∀ e, FirstLive bpb img cluster part e → (FatDirectoryItem.decode e).IsSubdirectory →
      ListContained bpb img (FatDirectoryItem.decode e).low16BitsFirstCluster rest

/-- What a walk of `n` links to the position of a file looks up. -/
def SkipContained (bpb : FatBootSector) (img : ℕ → UInt8) : ℕ → ℕ → Prop
  | 0, _ => True
  | n + 1, cluster => bpb.InFirstFat cluster ∧
    (bpb.fatEntry img cluster < fat16ClusterLastMin →
      SkipContained bpb img n (bpb.fatEntry img cluster))

/-- What reading a cluster and `n` clusters linked behind it reaches. -/
def PiecesContained (bpb : FatBootSector) (img : ℕ → UInt8) : ℕ → ℕ → Prop
  | 0, cluster => cluster < fat16ClusterReservedMin → bpb.InDataArea cluster
  | n + 1, cluster => cluster < fat16ClusterReservedMin → bpb.InDataArea cluster ∧
    bpb.InFirstFat cluster ∧ PiecesContained bpb img n (bpb.fatEntry img cluster)

/-- The conditions on a walk are checked link by link. -/
instance SkipContained.decide (bpb : FatBootSector) (img : ℕ → UInt8) :
    ∀ n cluster, Decidable (SkipContained bpb img n cluster)
  | 0, _ => inferInstanceAs (Decidable True)
  | n + 1, cluster =>
    have := SkipContained.decide bpb img n (bpb.fatEntry img cluster)
    inferInstanceAs (Decidable (_ ∧ (_ < _ → _)))

instance PiecesContained.decide (bpb : FatBootSector) (img : ℕ → UInt8) :
    ∀ n cluster, Decidable (PiecesContained bpb img n cluster)
  | 0, _ => inferInstanceAs (Decidable (_ < _ → _))
  | n + 1, cluster =>
    have := PiecesContained.decide bpb img n (bpb.fatEntry img cluster)
    inferInstanceAs (Decidable (_ < _ → _ ∧ _ ∧ _))

/-- What a read of a file reaches: the walk starts at the cluster of the cache or at the first
one. -/
def ReadContained (bpb : FatBootSector) (img : ℕ → UInt8) (desc : FatFileDescriptor)
    (size nmemb : ℕ) : Prop :=
  desc.totalToRead size nmemb ≠ 0 →
    let skipped := (desc.pos - desc.start.2) / bpb.clusterSize
    SkipContained bpb img skipped desc.start.1 ∧
      PiecesContained bpb img (desc.linksFollowed bpb size nmemb)
        (tableWalk bpb img skipped desc.start.1)

instance (bpb : FatBootSector) (img : ℕ → UInt8) (desc : FatFileDescriptor) (size nmemb : ℕ) :
    Decidable (ReadContained bpb img desc size nmemb) :=
  inferInstanceAs (Decidable (_ ≠ _ → SkipContained _ _ _ _ ∧ PiecesContained _ _ _ _))

/-- The boot sector of an image. -/
def imageBoot (img : ℕ → UInt8) : FatBootSector := .decode (slice img 0 512)

/-- What a call reaches lies where it belongs, on the disks that `fat16_resolve` accepts. -/
def CallContained (img : ℕ → ℕ → UInt8) (s : Kernel H D) : FsCall → Prop
  | .fopen path modeStr => ∀ i rest part more, pathParserGetDriveNo path = some (i, rest) → i ≤ 1 →
    pathParts (rest.length + 1) rest = part :: more → fsParseMode modeStr = .read →
    (imageBoot (img i)).check = none → FindContained (imageBoot (img i)) (img i) 0 part more
  | .fsList path => ∀ i rest, pathParserGetDriveNo path = some (i, rest) → i ≤ 1 →
    (imageBoot (img i)).check = none →
    ListContained (imageBoot (img i)) (img i) 0 (pathParts (rest.length + 1) rest)
  | .fread size nmemb fd => ∀ i f, s.entry fd.toInt = some (i, f) →
    ReadContained (imageBoot (img i)) (img i) f size.toNat nmemb.toNat
  | .fseek _ _ _ | .ftell _ | .fstat _ | .fclose _ => True

/-! ### The reads of the functions -/

section Reads

variable {A : Ata D} {drive : ℕ} {img : ℕ → UInt8} {bpb : FatBootSector} {name : CString}

/-- The geometry of an accepted boot sector: sectors of 512 bytes, and fields in their range. -/
structure FatBootSector.Fields (bpb : FatBootSector) : Prop where
  bytes : bpb.bytesPerSector = 512
  reserved : bpb.reservedSectors < 65536
  sectors : bpb.firstDataSector < 33554432
  spc : bpb.sectorsPerCluster < 256

/-- The position of a table entry does not wrap around. -/
theorem tableAccess_contained (hF : bpb.Fields) {cluster : ℕ} (hc : cluster < 65536)
    (hin : bpb.InFirstFat cluster) : (tableAccess bpb cluster).Contained bpb := by
  have hres := hF.reserved
  unfold tableAccess
  rw [hF.bytes, u32_of_lt (by omega : bpb.reservedSectors * 512 < 4294967296),
    u32_of_lt (by omega : cluster * 2 < 4294967296), u32_of_lt (by omega)]
  unfold FatBootSector.InFirstFat at hin
  unfold Access.Contained
  omega

/-- The code computes the position of a data cluster, up to the wrap-around. -/
theorem clusterBase_data (hF : bpb.Fields) {cluster : ℕ} (h2 : 2 ≤ cluster) (hc : cluster < 65536) :
    bpb.clusterBase cluster = u32 (bpb.clusterPos cluster) := by
  have hfirst := hF.sectors
  have hspc := hF.spc
  have hbound : (cluster - 2) * bpb.sectorsPerCluster ≤ 65533 * 255 :=
    Nat.mul_le_mul (by omega) (by omega)
  unfold FatBootSector.clusterBase FatBootSector.clusterToSector FatBootSector.clusterPos
  rw [u32Sub_of_le h2 (by omega), hF.bytes, u32_of_lt (by omega : (cluster - 2) * _ < 4294967296),
    u32_of_lt (by omega : bpb.firstDataSector + _ < 4294967296), Nat.mul_comm]

/-- A piece of a data cluster comes from the data area. -/
theorem dataAccess_contained (hF : bpb.Fields) {cluster off len : ℕ} (hc : cluster < 65536)
    (hin : bpb.InDataArea cluster) (hoff : off < bpb.clusterSize) :
    (Access.data cluster (u32 (bpb.clusterBase cluster + off)) len).Contained bpb := by
  have hpos := hin.2 off hoff
  rw [clusterBase_data hF hin.1 hc]
  have hsum : u32 (u32 (bpb.clusterPos cluster) + off) = u32 (bpb.clusterPos cluster + off) := by
    rw [u32_eq, u32_eq, u32_eq, Nat.mod_add_mod]
  rw [hsum]
  exact ⟨hin.1, (Nat.le_div_iff_mul_le (by norm_num)).mpr (Nat.mul_comm .. ▸ hpos)⟩

/-- The first entry of a run, and those behind it. -/
theorem forall_entries {P : ℕ → Prop} {n pos : ℕ} (hpos : pos < 4294967296)
    (hall : ∀ i < n + 1, P (u32 (pos + 32 * i))) :
    P pos ∧ ∀ i < n, P (u32 (u32 (pos + 32) + 32 * i)) := by
  constructor
  · have hfirst := hall 0 (Nat.succ_pos n)
    rwa [Nat.mul_zero, Nat.add_zero, u32_of_lt hpos] at hfirst
  · intro i hi
    have h := hall (i + 1) (Nat.succ_lt_succ hi)
    rwa [show pos + 32 * (i + 1) = pos + 32 + 32 * i by ring, u32_eq, ← Nat.mod_add_mod,
      ← u32_eq (pos + 32)] at h

/-- The scan of `n` entries reads them one behind the other. -/
theorem scanAccesses_mem (hA : A.Holds drive img) {use : ℕ → Access} {P : Access → Prop} :
    ∀ (n pos : ℕ) (d : D), pos < 4294967296 → (∀ i < n, P (use (u32 (pos + 32 * i)))) →
      ∀ a ∈ scanAccesses A use name n ⟨pos, drive⟩ d, P a := by
  intro n
  induction n with
  | zero => exact fun _ _ _ _ _ ha => absurd ha List.not_mem_nil
  | succ n ih =>
    intro pos d hpos hall a ha
    obtain ⟨hfirst, hrest⟩ := @forall_entries (P <| use ·) _ _ hpos hall
    rw [scanAccesses, List.mem_cons] at ha
    rcases ha with rfl | ha
    · exact hfirst
    rcases diskstreamRead_holds hA (by omega : pos + 32 ≤ 512 * 268435456) d with
      ⟨d₁, hread⟩ | ⟨out, d₁, hread⟩
    · rw [hread] at ha
      dsimp only at ha
      split_ifs at ha
      · exact absurd ha List.not_mem_nil
      · exact absurd ha List.not_mem_nil
      · exact ih _ d₁ (u32_lt _) hrest a ha
      · exact absurd ha List.not_mem_nil
      · exact ih _ d₁ (u32_lt _) hrest a ha
    · rw [hread] at ha
      exact absurd ha List.not_mem_nil

/-- So does the listing. -/
theorem listItemsAccesses_mem (hA : A.Holds drive img) {use : ℕ → Access} {P : Access → Prop} :
    ∀ (n pos : ℕ) (d : D), pos < 4294967296 → (∀ i < n, P (use (u32 (pos + 32 * i)))) →
      ∀ a ∈ listItemsAccesses A use n ⟨pos, drive⟩ d, P a := by
  intro n
  induction n with
  | zero => exact fun _ _ _ _ _ ha => absurd ha List.not_mem_nil
  | succ n ih =>
    intro pos d hpos hall a ha
    obtain ⟨hfirst, hrest⟩ := @forall_entries (P <| use ·) _ _ hpos hall
    rw [listItemsAccesses, List.mem_cons] at ha
    rcases ha with rfl | ha
    · exact hfirst
    rcases diskstreamRead_holds hA (by omega : pos + 32 ≤ 512 * 268435456) d with
      ⟨d₁, hread⟩ | ⟨out, d₁, hread⟩
    · rw [hread] at ha
      dsimp only at ha
      split_ifs at ha
      · exact absurd ha List.not_mem_nil
      · exact absurd ha List.not_mem_nil
      · exact ih _ d₁ (u32_lt _) hrest a ha
    · rw [hread] at ha
      exact absurd ha List.not_mem_nil

/-- The entries of a data cluster are read in the data area. -/
theorem entryAccess_contained (hF : bpb.Fields) {cluster : ℕ} (hc : cluster < 65536)
    (hin : bpb.InDataArea cluster) :
    ∀ i < bpb.clusterSize / 32,
      (Access.data cluster (u32 (bpb.clusterBase cluster + 32 * i)) 32).Contained bpb :=
  fun i hi => dataAccess_contained hF hc hin (by omega)

/-- A walk that goes on from a cluster is contained from the next one on. -/
theorem WalkContained.next {stops : ℕ → Prop} {first : ℕ} (h : WalkContained bpb img stops first)
    (hsmall : first < fat16ClusterReservedMin) (hgo : ¬ stops first) :
    WalkContained bpb img stops (bpb.fatEntry img first) := by
  intro k hall hk
  have hnext := h (k + 1) (fun j hj => ?_) (chainCluster_succ first k ▸ hk)
  · rwa [chainCluster_succ] at hnext
  · cases j with
    | zero => exact ⟨hsmall, hgo⟩
    | succ j =>
      rw [chainCluster_succ]
      exact hall j (Nat.lt_of_succ_lt_succ hj)

/-- The first cluster of a contained walk. -/
theorem WalkContained.first {stops : ℕ → Prop} {first : ℕ} (h : WalkContained bpb img stops first)
    (hsmall : first < fat16ClusterReservedMin) :
    bpb.InDataArea first ∧ (¬ stops first → bpb.InFirstFat first) :=
  h 0 (fun _ hj => absurd hj (Nat.not_lt_zero _)) hsmall

theorem small_lt {cluster : ℕ} (h : cluster < fat16ClusterReservedMin) : cluster < 65536 :=
  h.trans (by decide)

/-- **The search through clusters.** -/
theorem scanClustersAccesses_contained (hA : A.Holds drive img) (hF : bpb.Fields)
    (hname : (0 : UInt8) ∉ name) :
    ∀ (fuel first : ℕ) (stream : DiskStream) (d : D), stream.diskId = drive →
      WalkContained bpb img (fun c => StopsSearch name (clusterEntries bpb img c)) first →
      ∀ a ∈ scanClustersAccesses A bpb name fuel first stream d, a.Contained bpb := by
  intro fuel
  induction fuel with
  | zero => exact fun _ _ _ _ _ _ ha => absurd ha List.not_mem_nil
  | succ fuel ih =>
    intro first stream d hs hW a ha
    rw [scanClustersAccesses] at ha
    by_cases hsmall : first < fat16ClusterReservedMin
    swap
    · rw [if_neg hsmall] at ha
      exact absurd ha List.not_mem_nil
    obtain ⟨hdata, hfat⟩ := hW.first hsmall
    have hword := small_lt hsmall
    rw [if_pos hsmall, clusterBase_eq] at ha
    dsimp only at ha
    rw [diskstreamSeek_at hs, List.mem_append] at ha
    rcases ha with ha | ha
    · exact scanAccesses_mem hA _ _ d (u32_lt _) (entryAccess_contained hF hword hdata) a ha
    obtain ⟨r, stream₁, d₁, hscan, hs₁, hr⟩ := fat16ScanItems_holds hA hname (bpb.clusterSize / 32)
      (bpb.clusterBase first) _ d rfl (u32_lt _)
    rw [← clusterEntries] at hr
    rw [hscan] at ha
    cases r with
    | found item => exact absurd ha List.not_mem_nil
    | unreadable => exact absurd ha List.not_mem_nil
    | endMark => exact absurd ha List.not_mem_nil
    | exhausted =>
      have hgo : ¬ StopsSearch name (clusterEntries bpb img first) := by
        rcases hr with h | h
        · cases h
        · exact scanEntries_exhausted_iff _ |>.mp h.symm
      rw [List.mem_cons] at ha
      rcases ha with rfl | ha
      · exact tableAccess_contained hF hword (hfat hgo)
      obtain ⟨entry, stream₂, d₂, hentry, hs₂, hval⟩ :=
        fat16GetFatEntry_holds hA hF.bytes hF.reserved hword hs₁ d₁
      rw [hentry] at ha
      rcases hval with rfl | rfl
      · -- an unreadable entry ends the walk
        cases fuel with
        | zero => exact absurd ha List.not_mem_nil
        | succ fuel => exact absurd ha List.not_mem_nil
      · exact ih _ stream₂ d₂ hs₂ (hW.next hsmall hgo) a ha

/-- **The search in a directory.** The root directory is no chain of clusters. -/
theorem directoryAccesses_contained (hA : A.Holds drive img) (hF : bpb.Fields)
    (hname : (0 : UInt8) ∉ name) {fuel cluster : ℕ} {stream : DiskStream}
    (hs : stream.diskId = drive) (d : D) (hW : SearchContained bpb img cluster name) :
    ∀ a ∈ directoryAccesses A bpb fuel cluster name stream d, a.Contained bpb := by
  intro a ha
  unfold directoryAccesses at ha
  by_cases h0 : cluster = 0
  · rw [if_pos h0, diskstreamSeek_at hs] at ha
    exact scanAccesses_mem hA _ _ d (u32_lt _) (fun _ _ => trivial) a ha
  · rw [if_neg h0] at ha
    exact scanClustersAccesses_contained hA hF hname fuel cluster stream d hs
      (hW.resolve_left h0) a ha

/-- **The search for a file.** -/
theorem findAccesses_contained (hA : A.Holds drive img) (hF : bpb.Fields) {fuel : ℕ} :
    ∀ (rest : List CString) (cluster : ℕ) (part : CString) (stream : DiskStream) (d : D),
      (∀ p ∈ part :: rest, (0 : UInt8) ∉ p) → stream.diskId = drive →
      FindContained bpb img cluster part rest →
      ∀ a ∈ findAccesses A bpb fuel cluster part rest stream d, a.Contained bpb := by
  intro rest
  induction rest with
  | nil =>
    intro cluster part stream d hnul hs hC
    exact directoryAccesses_contained hA hF (hnul part List.mem_cons_self) hs d hC
  | cons next rest ih =>
    intro cluster part stream d hnul hs hC a ha
    have hpart := hnul part List.mem_cons_self
    rw [findAccesses, List.mem_append] at ha
    rcases ha with ha | ha
    · exact directoryAccesses_contained hA hF hpart hs d hC.1 a ha
    cases hdir : fat16GetDirectoryEntry A bpb fuel cluster part stream d with
    | error e =>
      rw [hdir] at ha
      exact absurd ha List.not_mem_nil
    | ok x =>
      obtain ⟨r, stream₁, d₁⟩ := x
      rw [hdir] at ha
      cases r with
      | inl code => exact absurd ha List.not_mem_nil
      | inr item =>
        obtain ⟨hs₁, e, hfirst, rfl⟩ :=
          fat16GetDirectoryEntry_found hA hF.bytes hF.reserved hpart hs hdir
        dsimp only at ha
        by_cases hsub : (FatDirectoryItem.decode e).IsSubdirectory
        · rw [if_pos hsub] at ha
          exact ih _ next stream₁ d₁ (fun p hp => hnul p (List.mem_cons_of_mem _ hp)) hs₁
            (hC.2 e hfirst hsub) a ha
        · rw [if_neg hsub] at ha
          exact absurd ha List.not_mem_nil

/-- **The listing of clusters.** -/
theorem listClustersAccesses_contained (hA : A.Holds drive img) (hF : bpb.Fields) :
    ∀ (fuel first : ℕ) (stream : DiskStream) (d : D), stream.diskId = drive →
      WalkContained bpb img (fun _ => False) first →
      ∀ a ∈ listClustersAccesses A bpb fuel first stream d, a.Contained bpb := by
  intro fuel
  induction fuel with
  | zero => exact fun _ _ _ _ _ _ ha => absurd ha List.not_mem_nil
  | succ fuel ih =>
    intro first stream d hs hW a ha
    rw [listClustersAccesses] at ha
    by_cases hsmall : first < fat16ClusterReservedMin
    swap
    · rw [if_neg hsmall] at ha
      exact absurd ha List.not_mem_nil
    obtain ⟨hdata, hfat⟩ := hW.first hsmall
    have hword := small_lt hsmall
    rw [if_pos hsmall, clusterBase_eq] at ha
    have hkeeps := fat16ListItems_keeps (A := A) (bpb.clusterSize / 32) d
      (diskstreamSeek_diskId hs (bpb.clusterBase first))
    rw [List.mem_append] at ha
    rcases ha with ha | ha
    · rw [diskstreamSeek_at hs] at ha
      exact listItemsAccesses_mem hA _ _ d (u32_lt _) (entryAccess_contained hF hword hdata) a ha
    generalize fat16ListItems A (bpb.clusterSize / 32)
      (diskstreamSeek stream (bpb.clusterBase first)) d = x at ha hkeeps
    obtain ⟨text, stream₁, d₁⟩ := x
    rw [List.mem_cons] at ha
    rcases ha with rfl | ha
    · exact tableAccess_contained hF hword (hfat id)
    obtain ⟨entry, stream₂, d₂, hentry, hs₂, hval⟩ :=
      fat16GetFatEntry_holds hA hF.bytes hF.reserved hword hkeeps.diskId d₁
    rw [hentry] at ha
    rcases hval with rfl | rfl
    · -- an unreadable entry ends the walk
      cases fuel with
      | zero => exact absurd ha List.not_mem_nil
      | succ fuel => exact absurd ha List.not_mem_nil
    · exact ih _ stream₂ d₂ hs₂ (hW.next hsmall id) a ha

/-- **The listing of a directory.** -/
theorem listAccesses_contained (hA : A.Holds drive img) (hF : bpb.Fields) {fuel : ℕ} :
    ∀ (parts : List CString) (cluster : ℕ) (stream : DiskStream) (d : D),
      (∀ p ∈ parts, (0 : UInt8) ∉ p) → stream.diskId = drive →
      ListContained bpb img cluster parts →
      ∀ a ∈ listAccesses A bpb fuel cluster parts stream d, a.Contained bpb := by
  intro parts
  induction parts with
  | nil =>
    intro cluster stream d _ hs hC a ha
    rw [listAccesses] at ha
    by_cases h0 : cluster = 0
    · rw [if_pos h0, diskstreamSeek_at hs] at ha
      exact listItemsAccesses_mem hA _ _ d (u32_lt _) (fun _ _ => trivial) a ha
    · rw [if_neg h0] at ha
      exact listClustersAccesses_contained hA hF fuel cluster stream d hs (hC.resolve_left h0) a ha
  | cons part rest ih =>
    intro cluster stream d hnul hs hC a ha
    have hpart := hnul part List.mem_cons_self
    rw [listAccesses, List.mem_append] at ha
    -- the accesses of the first search, or of the directory it leads to
    rcases ha with ha | ha
    · exact directoryAccesses_contained hA hF hpart hs d hC.1 a ha
    cases hdir : fat16GetDirectoryEntry A bpb fuel cluster part stream d with
    | error e =>
      rw [hdir] at ha
      exact absurd ha List.not_mem_nil
    | ok x =>
      obtain ⟨r, stream₁, d₁⟩ := x
      rw [hdir] at ha
      cases r with
      | inl code => exact absurd ha List.not_mem_nil
      | inr item =>
        obtain ⟨hs₁, e, hfirst, rfl⟩ :=
          fat16GetDirectoryEntry_found hA hF.bytes hF.reserved hpart hs hdir
        dsimp only at ha
        by_cases hsub : (FatDirectoryItem.decode e).IsSubdirectory
        · rw [if_pos hsub] at ha
          exact ih _ stream₁ d₁ (fun p hp => hnul p (List.mem_cons_of_mem _ hp)) hs₁
            (hC.2 e hfirst hsub) a ha
        · rw [if_neg hsub] at ha
          exact absurd ha List.not_mem_nil

/-- **The walk to the position of a file.** -/
theorem skipAccesses_contained (hA : A.Holds drive img) (hF : bpb.Fields) :
    ∀ (n : ℕ) {cluster : ℕ} {stream : DiskStream} (d : D), cluster < 65536 → stream.diskId = drive →
      SkipContained bpb img n cluster →
      ∀ a ∈ skipAccesses A bpb n cluster stream d, a.Contained bpb := by
  intro n
  induction n with
  | zero => exact fun _ _ _ _ _ ha => absurd ha List.not_mem_nil
  | succ n ih =>
    intro cluster stream d hc hs hC a ha
    rw [skipAccesses, List.mem_cons] at ha
    rcases ha with rfl | ha
    · exact tableAccess_contained hF hc hC.1
    obtain ⟨entry, stream₁, d₁, hentry, hs₁, hval⟩ :=
      fat16GetFatEntry_holds hA hF.bytes hF.reserved hc hs d
    rw [hentry] at ha
    dsimp only at ha
    by_cases hlast : entry ≥ fat16ClusterLastMin
    · rw [if_pos hlast] at ha
      exact absurd ha List.not_mem_nil
    rw [if_neg hlast] at ha
    rcases hval with rfl | rfl
    · exact absurd (by decide) hlast
    · exact ih d₁ (fatEntry_lt _) hs₁ (hC.2 (Nat.not_le.mp hlast)) a ha

/-- A walk ends where the table leads, or at an end mark if an entry cannot be read. -/
theorem fat16SkipClusters_holds (hA : A.Holds drive img) (hF : bpb.Fields) :
    ∀ (n : ℕ) {cluster : ℕ} {stream : DiskStream} (d : D), cluster < 65536 → stream.diskId = drive →
      ∃ last stream' d', fat16SkipClusters A bpb n cluster stream d = (last, stream', d') ∧
        stream'.diskId = drive ∧ (last = 0xFFFF ∨ last = tableWalk bpb img n cluster) := by
  intro n
  induction n with
  | zero => exact fun d _ hs => ⟨_, _, d, rfl, hs, .inr rfl⟩
  | succ n ih =>
    intro cluster stream d hc hs
    obtain ⟨entry, stream₁, d₁, hentry, hs₁, hval⟩ :=
      fat16GetFatEntry_holds hA hF.bytes hF.reserved hc hs d
    rw [fat16SkipClusters, hentry, tableWalk]
    dsimp only
    by_cases hlast : entry ≥ fat16ClusterLastMin
    · rw [if_pos hlast]
      exact ⟨_, stream₁, d₁, rfl, hs₁, .inl rfl⟩
    rw [if_neg hlast]
    rcases hval with rfl | rfl
    · exact absurd (by decide) hlast
    · rw [if_neg hlast]
      exact ih d₁ (fatEntry_lt _) hs₁

/-- **The start of a round** of the loop of `fat16_read`, which has moved on `k` times. Behind its
first piece the loop is at the end of the cluster or further, so a link is left if it moves on
again. The piece that follows reaches the end of the cluster, too. -/
theorem advance_contained (hA : A.Holds drive img) (hF : bpb.Fields) {k n totalRead total : ℕ}
    {cluster : ℕ} {desc : FatFileDescriptor} {stream : DiskStream} (d : D)
    (hpos : desc.pos < 4294967296) (hs : stream.diskId = drive)
    (hsmall : cluster < fat16ClusterReservedMin) (hC : PiecesContained bpb img n cluster)
    (hlinks : desc.pos % bpb.clusterSize + total ≤ (k + n + 1) * bpb.clusterSize)
    (hzero : totalRead = 0 → k = 0) (hmore : totalRead < total)
    (hbehind : totalRead > 0 →
      (k + 1) * bpb.clusterSize ≤ desc.pos % bpb.clusterSize + totalRead) :
    (∀ a ∈ advanceAccesses bpb totalRead cluster desc, a.Contained bpb) ∧
      ∃ cluster' desc' stream' d', fat16AdvanceCluster A bpb totalRead cluster desc stream d =
        (cluster', desc', stream', d') ∧ stream'.diskId = drive ∧ desc'.pos = desc.pos ∧
        (cluster' < fat16ClusterReservedMin → ∃ k' n', PiecesContained bpb img n' cluster' ∧
          desc.pos % bpb.clusterSize + total ≤ (k' + n' + 1) * bpb.clusterSize ∧
          (k' + 1) * bpb.clusterSize ≤ desc.pos % bpb.clusterSize + totalRead +
            (bpb.clusterSize - u32 (desc.pos + totalRead) % bpb.clusterSize)) := by
  unfold advanceAccesses fat16AdvanceCluster
  dsimp only
  by_cases hadv : totalRead > 0 ∧ u32 (desc.pos + totalRead) % bpb.clusterSize = 0
  swap
  · rw [if_neg hadv, if_neg hadv]
    refine ⟨fun a ha => absurd ha List.not_mem_nil, cluster, desc, stream, d, rfl, hs, rfl,
      fun _ => ⟨k, n, hC, hlinks, ?_⟩⟩
    rcases Nat.eq_zero_or_pos totalRead with h0 | h0
    · -- the first piece starts at the position
      have hstart : u32 (desc.pos + totalRead) = desc.pos := by
        rw [h0]
        exact u32_of_lt hpos
      rw [hstart, hzero h0]
      omega
    · exact (hbehind h0).trans (Nat.le_add_right _ _)
  rw [if_pos hadv, if_pos hadv, hadv.2]
  have hword := small_lt hsmall
  have hend := hbehind hadv.1
  cases n with
  | zero =>
    rw [Nat.add_zero] at hlinks
    omega
  | succ n =>
    obtain ⟨-, hfat, hrest⟩ := hC hsmall
    refine ⟨fun a ha => ?_, ?_⟩
    · rw [List.mem_singleton.mp ha]
      exact tableAccess_contained hF hword hfat
    obtain ⟨entry, stream₁, d₁, hentry, hs₁, hval⟩ :=
      fat16GetFatEntry_holds hA hF.bytes hF.reserved hword hs d
    rw [hentry]
    refine ⟨entry, _, stream₁, d₁, rfl, hs₁, rfl, fun hsmall' => ?_⟩
    rcases hval with rfl | rfl
    · exact absurd hsmall' (by decide)
    · refine ⟨k + 1, n, hrest, ?_, ?_⟩
      · rwa [show k + 1 + n + 1 = k + (n + 1) + 1 by ring]
      · calc (k + 1 + 1) * bpb.clusterSize
            = (k + 1) * bpb.clusterSize + bpb.clusterSize := Nat.succ_mul _ _
          _ ≤ _ := Nat.add_le_add hend (Nat.sub_zero _).ge

/-- **The loop of `fat16_read`.** -/
theorem readLoopAccesses_contained (hA : A.Holds drive img) (hF : bpb.Fields)
    (hcs : 0 < bpb.clusterSize) {pos total : ℕ} (hpos : pos < 4294967296) :
    ∀ (fuel : ℕ) {k n totalRead cluster : ℕ} {desc : FatFileDescriptor}
      {stream : DiskStream} (d : D),
      desc.pos = pos → stream.diskId = drive → cluster < fat16ClusterReservedMin →
      PiecesContained bpb img n cluster →
      pos % bpb.clusterSize + total ≤ (k + n + 1) * bpb.clusterSize → (totalRead = 0 → k = 0) →
      (totalRead < total → totalRead > 0 →
        (k + 1) * bpb.clusterSize ≤ pos % bpb.clusterSize + totalRead) →
      ∀ a ∈ readLoopAccesses A bpb total fuel totalRead cluster desc stream d, a.Contained bpb := by
  intro fuel
  induction fuel with
  | zero => exact fun _ _ _ _ _ _ _ _ _ ha => absurd ha List.not_mem_nil
  | succ fuel ih =>
    rintro k n totalRead cluster desc stream d rfl hs hsmall hC hlinks hzero hbehind a ha
    rw [readLoopAccesses] at ha
    by_cases hmore : totalRead < total
    swap
    · rw [if_neg hmore] at ha
      exact absurd ha List.not_mem_nil
    -- the reads of the table, with which the loop goes on to the next cluster
    obtain ⟨hadv, cluster₁, desc₁, stream₁, d₁, hstep, hs₁, hdesc₁, hnext⟩ :=
      advance_contained hA hF d hpos hs hsmall hC hlinks hzero hmore (hbehind hmore)
    rw [if_pos hmore, List.mem_append] at ha
    rcases ha with ha | ha
    · exact hadv a ha
    rw [hstep] at ha
    dsimp only at ha
    by_cases hsmall₁ : cluster₁ < fat16ClusterReservedMin
    swap
    · rw [if_pos (Nat.not_lt.mp hsmall₁)] at ha
      exact absurd ha List.not_mem_nil
    -- the cluster that is read now, and how many of the asked ones are behind it
    obtain ⟨k', n', hC', hlinks', hend⟩ := hnext hsmall₁
    rw [if_neg (Nat.not_le.mpr hsmall₁), hdesc₁, clusterBase_eq] at ha
    have hdata : bpb.InDataArea cluster₁ := by
      cases n' with
      | zero => exact hC' hsmall₁
      | succ n' => exact (hC' hsmall₁).1
    have hoff := Nat.mod_lt (u32 (desc.pos + totalRead)) hcs
    generalize u32 (desc.pos + totalRead) % bpb.clusterSize = off at ha hend hoff
    rw [List.mem_cons] at ha
    -- the read of the data, inside one cluster
    rcases ha with rfl | ha
    · exact dataAccess_contained hF (small_lt hsmall₁) hdata hoff
    generalize hlen : (if bpb.clusterSize - off > total - totalRead then total - totalRead
      else bpb.clusterSize - off) = len at ha
    have hkeeps := diskstreamRead_seek_keeps (A := A) hs₁
        (u32 (bpb.clusterBase cluster₁ + off)) len d₁
    generalize diskstreamRead A
      (diskstreamSeek stream₁ (u32 (bpb.clusterBase cluster₁ + off))) len d₁ =
      x at ha hkeeps
    obtain ⟨⟨res, bytes⟩, stream₂, d₂⟩ := x
    dsimp only at ha
    by_cases hres : res ≠ 0
    · rw [if_pos hres] at ha
      exact absurd ha List.not_mem_nil
    rw [if_neg hres] at ha
    -- what is left behind it starts a cluster
    have hlen' : 0 < len ∧ (totalRead + len < total → len = bpb.clusterSize - off) := by
      split_ifs at hlen <;> omega
    refine ih d₂ hdesc₁ hkeeps.diskId hsmall₁ hC' hlinks' (fun h0 => ?_) (fun hlt _ => ?_) a ha
    · exact absurd h0 (by omega)
    · rw [hlen'.2 hlt, ← Nat.add_assoc]
      exact hend

/-- The links that the loop follows are enough for the bytes it reads. -/
theorem linksFollowed_enough (hcs : 0 < bpb.clusterSize) (desc : FatFileDescriptor)
    (size nmemb : ℕ) (h0 : desc.totalToRead size nmemb ≠ 0) :
    desc.pos % bpb.clusterSize + desc.totalToRead size nmemb ≤
      (0 + desc.linksFollowed bpb size nmemb + 1) * bpb.clusterSize := by
  unfold FatFileDescriptor.linksFollowed
  generalize desc.totalToRead size nmemb = total at h0
  have hlast := Nat.lt_mul_div_succ (desc.pos + total - 1) hcs
  have hfirst := Nat.div_add_mod desc.pos bpb.clusterSize
  have hle : desc.pos / bpb.clusterSize ≤ (desc.pos + total - 1) / bpb.clusterSize :=
    Nat.div_le_div_right (by omega)
  obtain ⟨m, hm⟩ := Nat.le.dest hle
  rw [← hm] at hlast ⊢
  rw [Nat.add_sub_cancel_left, Nat.zero_add]
  calc desc.pos % bpb.clusterSize + total
      ≤ bpb.clusterSize * (desc.pos / bpb.clusterSize + m + 1) -
        bpb.clusterSize * (desc.pos / bpb.clusterSize) := by omega
    _ = (m + 1) * bpb.clusterSize := by
      rw [← Nat.mul_sub, Nat.add_assoc, Nat.add_sub_cancel_left, Nat.mul_comm]

/-- The fields of an open file that its reads use, in their range. -/
structure FatFileDescriptor.Fields (desc : FatFileDescriptor) : Prop where
  first : desc.item.low16BitsFirstCluster < 65536
  cluster : desc.lastCluster < 65536
  pos : desc.pos < 4294967296

/-- The walk of a read starts at a cluster in front of the position. -/
theorem FatFileDescriptor.Fields.start {desc : FatFileDescriptor} (h : desc.Fields) :
    desc.start.1 < 65536 ∧ desc.start.2 ≤ desc.pos := by
  unfold FatFileDescriptor.start
  by_cases hcache : desc.pos ≥ desc.lastClusterPos
  · rw [if_pos hcache]
    exact ⟨h.cluster, hcache⟩
  · rw [if_neg hcache]
    exact ⟨h.first, Nat.zero_le _⟩

/-- **The read of a file.** -/
theorem readAccesses_contained (hA : A.Holds drive img) (hF : bpb.Fields)
    (hcs : 0 < bpb.clusterSize) {desc : FatFileDescriptor} (hdesc : desc.Fields) {size nmemb : ℕ}
    {stream : DiskStream} (hs : stream.diskId = drive) (d : D)
    (hC : ReadContained bpb img desc size nmemb) :
    ∀ a ∈ readAccesses A bpb size nmemb desc stream d, a.Contained bpb := by
  intro a ha
  unfold readAccesses at ha
  dsimp only at ha
  by_cases h0 : desc.totalToRead size nmemb = 0
  · rw [if_pos h0] at ha
    exact absurd ha List.not_mem_nil
  obtain ⟨hskip, hpieces⟩ := hC h0
  have hstart := hdesc.start
  rw [if_neg h0, u32Sub_of_le hstart.2 hdesc.pos, List.mem_append] at ha
  rcases ha with ha | ha
  · exact skipAccesses_contained hA hF _ d hstart.1 hs hskip a ha
  unfold fat16GetClusterForOffset at ha
  obtain ⟨cluster, stream₁, d₁, hwalk, hs₁, hval⟩ :=
    fat16SkipClusters_holds hA hF ((desc.pos - desc.start.2) / bpb.clusterSize) d hstart.1 hs
  rw [hwalk] at ha
  dsimp only at ha
  by_cases hsmall : cluster < fat16ClusterReservedMin
  swap
  · rw [if_pos (Nat.not_lt.mp hsmall)] at ha
    exact absurd ha List.not_mem_nil
  rw [if_neg (Nat.not_le.mpr hsmall)] at ha
  rcases hval with rfl | rfl
  · exact absurd hsmall (by decide)
  · refine readLoopAccesses_contained hA hF hcs hdesc.pos _ d₁ ?_ hs₁ hsmall hpieces
      (linksFollowed_enough hcs desc size nmemb h0) (fun _ => rfl) (fun _ h => ?_) a ha
    · rfl
    · exact absurd h (lt_irrefl 0)

end Reads

/-! ### Fields of open files -/

section Files

variable {A : Ata D} {bpb : FatBootSector} {desc desc' : FatFileDescriptor}
    {stream : DiskStream} {d : D}

/-- A table entry is a 16-bit number, whatever the drive stores. -/
theorem fat16GetFatEntry_lt (cluster : ℕ) :
    (fat16GetFatEntry A bpb cluster stream d).1 < 65536 := by
  unfold fat16GetFatEntry
  dsimp only
  generalize diskstreamRead A _ 2 d = x
  obtain ⟨⟨res, bytes⟩, stream', d'⟩ := x
  dsimp only
  split_ifs
  · norm_num
  · exact le16_lt bytes 0

theorem FatFileDescriptor.Fields.fresh {item : FatDirectoryItem}
    (h : item.low16BitsFirstCluster < 65536) : (FatFileDescriptor.fresh item).Fields :=
  ⟨h, h, by unfold FatFileDescriptor.fresh; norm_num⟩

theorem FatFileDescriptor.Fields.seek (h : desc.Fields) (offset : ℤ) (whence : FileSeekMode) :
    (fat16Seek desc offset whence).2.Fields := by
  unfold fat16Seek
  dsimp only
  split_ifs
  · exact h
  · refine ⟨h.first, h.cluster, ?_⟩
    cases whence with
    | set => exact ofInt32_lt offset
    | cur => exact u32_lt _
    | fromEnd => exact u32_lt _

theorem FatFileDescriptor.Fields.advance (h : desc.Fields) (totalRead cluster : ℕ) :
    (fat16AdvanceCluster A bpb totalRead cluster desc stream d).2.1.Fields := by
  unfold fat16AdvanceCluster
  dsimp only
  split_ifs
  · exact ⟨h.first, fat16GetFatEntry_lt cluster, h.pos⟩
  · exact h

theorem FatFileDescriptor.Fields.readLoop {total : ℕ} :
    ∀ (fuel : ℕ) {totalRead cluster : ℕ} {out : List UInt8} {desc : FatFileDescriptor}
      {stream : DiskStream} {d : D}, desc.Fields →
      (fat16ReadLoop A bpb total fuel totalRead cluster out desc stream d).2.1.Fields := by
  intro fuel
  induction fuel with
  | zero => exact fun h => h
  | succ fuel ih =>
    intro totalRead cluster out desc stream d h
    rw [fat16ReadLoop]
    by_cases hmore : totalRead < total
    swap
    · rw [if_neg hmore]
      exact h
    rw [if_pos hmore]
    have hadv : (fat16AdvanceCluster A bpb totalRead cluster desc stream d).2.1.Fields :=
      h.advance totalRead cluster
    generalize fat16AdvanceCluster A bpb totalRead cluster desc stream d = x at hadv ⊢
    obtain ⟨cluster₁, desc₁, stream₁, d₁⟩ := x
    dsimp only
    by_cases hend : cluster₁ ≥ fat16ClusterReservedMin
    · rw [if_pos hend]
      exact hadv
    rw [if_neg hend]
    generalize diskstreamRead A _ _ d₁ = y
    obtain ⟨⟨res, bytes⟩, stream₂, d₂⟩ := y
    dsimp only
    by_cases hres : res ≠ 0
    · rw [if_pos hres]
      exact hadv
    · rw [if_neg hres]
      exact ih hadv

theorem fat16SkipClusters_lt :
    ∀ (n : ℕ) {cluster : ℕ} {stream : DiskStream} {d : D}, cluster < 65536 →
      (fat16SkipClusters A bpb n cluster stream d).1 < 65536 := by
  intro n
  induction n with
  | zero => exact fun h => h
  | succ n ih =>
    intro cluster stream d _
    rw [fat16SkipClusters]
    have hentry := @fat16GetFatEntry_lt _ A bpb stream d cluster
    generalize fat16GetFatEntry A bpb cluster stream d = x at hentry
    obtain ⟨entry, stream₁, d₁⟩ := x
    dsimp only
    split_ifs
    · norm_num
    · exact ih hentry

/-- A read keeps the fields in their range. -/
theorem FatFileDescriptor.Fields.read (h : desc.Fields) {size nmemb : ℕ} {res : ℤ × List UInt8}
    {x : DiskStream × D} (hread : fat16Read A bpb size nmemb desc stream d = .ok (res, desc', x)) :
    desc'.Fields := by
  unfold fat16Read at hread
  dsimp only at hread
  by_cases h0 : desc.totalToRead size nmemb = 0
  · rw [if_pos h0] at hread
    cases hread
    exact h
  rw [if_neg h0] at hread
  unfold fat16GetClusterForOffset at hread
  have hcluster := @fat16SkipClusters_lt _ A bpb
    (u32Sub desc.pos desc.start.2 / bpb.clusterSize) _ stream d h.start.1
  generalize fat16SkipClusters A bpb _ _ stream d = y at hread hcluster
  obtain ⟨cluster, stream₁, d₁⟩ := y
  dsimp only at hread
  by_cases hend : cluster ≥ fat16ClusterReservedMin
  · rw [if_pos hend] at hread
    cases hread
    exact h
  rw [if_neg hend] at hread
  have hloop := @FatFileDescriptor.Fields.readLoop _ A bpb (desc.totalToRead size nmemb)
    (desc.totalToRead size nmemb) 0 cluster [] { desc with
      lastCluster := cluster
      lastClusterPos := desc.pos / bpb.clusterSize * bpb.clusterSize } stream₁ d₁
      ⟨h.first, hcluster, h.pos⟩
  generalize fat16ReadLoop A bpb _ _ 0 cluster [] _ stream₁ d₁ = z at hread hloop
  obtain ⟨⟨totalRead, out⟩, desc₂, stream₂, d₂⟩ := z
  dsimp only at hread
  split_ifs at hread
  cases hread
  exact ⟨hloop.first, hloop.cluster, u32_lt _⟩

end Files

/-! ### Runs -/

section Runs

variable {M : Machine H D} {img : ℕ → ℕ → UInt8} {s : Kernel H D}

theorem imageBoot_fields {img : ℕ → UInt8} (h : (imageBoot img).check = none) :
    (imageBoot img).Fields ∧ 0 < (imageBoot img).clusterSize := by
  obtain ⟨-, -, hbytes, hspc⟩ := FatBootSector.accepted_iff.mp h
  have hfields : ∀ b, (FatBootSector.decode b).fatCopies < 256 ∧
      (FatBootSector.decode b).rootDirEntries < 65536 ∧
      (FatBootSector.decode b).fatSectors < 65536 :=
    fun b => ⟨byteAt_lt b 16, le16_lt b 17, le16_lt b 22⟩
  obtain ⟨hres, hspc'⟩ := decode_bounds (slice img 0 512)
  obtain ⟨hcopies, hroot, hfat⟩ := hfields (slice img 0 512)
  rw [← imageBoot] at hres hspc' hcopies hroot hfat
  have htables : (imageBoot img).fatCopies * (imageBoot img).fatSectors ≤ 255 * 65535 :=
    Nat.mul_le_mul (by omega) (by omega)
  refine ⟨⟨hbytes, hres, ?_, hspc'⟩, ?_⟩
  · unfold FatBootSector.firstDataSector
    rw [hbytes]
    omega
  · unfold FatBootSector.clusterSize
    rw [hbytes]
    exact Nat.mul_pos hspc (by norm_num)

/-- Mounting a disk reads its boot sector; what comes behind works on an accepted one. -/
theorem mountAccesses_contained (hA : ∀ i ≤ 1, M.ata.Holds i (img i)) {i : ℕ} (d : D)
    {inside : FatBootSector → DiskStream → D → List Access}
    (h : i ≤ 1 → (imageBoot (img i)).check = none → ∀ (stream : DiskStream) (d : D),
      stream.diskId = i →
      ∀ a ∈ inside (imageBoot (img i)) stream d, a.Contained (imageBoot (img i))) :
    ∀ a ∈ mountAccesses M i d inside, a.2.Contained (imageBoot (img a.1)) := by
  intro a ha
  unfold mountAccesses at ha
  by_cases hi : i > 1
  · rw [if_pos hi] at ha
    exact absurd ha List.not_mem_nil
  rw [if_neg hi] at ha
  obtain ⟨b, hb, rfl⟩ := List.mem_map.mp ha
  rcases List.mem_cons.mp hb with rfl | hb
  · exact trivial
  cases hboot : bootSector M i d with
  | inl code =>
    rw [hboot] at hb
    exact absurd hb List.not_mem_nil
  | inr bpb =>
    rw [hboot] at hb
    obtain ⟨rfl, hcheck⟩ := bootSector_holds (hA i (Nat.not_lt.mp hi)) hboot
    have hdisk : (afterBoot M i d).1.diskId = i :=
      (diskstreamRead_keeps (A := M.ata) ⟨0, i⟩ 512 d).diskId
    exact h (Nat.not_lt.mp hi) hcheck _ _ hdisk b hb

/-- The disks `0` and `1` are mounted by the boot sectors of their images, and open files lie on
them and have fields in their range. -/
structure OnImages (M : Machine H D) (img : ℕ → ℕ → UInt8) (s : Kernel H D) : Prop where
  sound : FsSound M (fun i bpb => i ≤ 1 → bpb = imageBoot (img i) ∧ bpb.check = none) s
  files : ∀ slot i f, s.openFile slot = some (i, f) → i ≤ 1 ∧ f.Fields

theorem OnImages.boot (M : Machine H D) (img : ℕ → ℕ → UInt8) (h : H) (d : D) :
    OnImages M img (Kernel.boot h d) :=
  ⟨FsSound.boot M h d, fun _ _ _ hfile => nomatch hfile⟩

/-- An open file that is changed, opened or closed. -/
theorem OnImages.update {t : Kernel H D} (hI : OnImages M img s)
    (hS : FsSound M (fun i bpb => i ≤ 1 → bpb = imageBoot (img i) ∧ bpb.check = none) t) {slot : ℕ}
    {r : Option (ℕ × FatFileDescriptor)} (hfiles : t.openFile = Function.update s.openFile slot r)
    (hr : ∀ i f, r = some (i, f) → i ≤ 1 ∧ f.Fields) : OnImages M img t where
  sound := hS
  files := by
    intro slot' i f h
    rw [hfiles] at h
    by_cases heq : slot' = slot
    · rw [heq, Function.update_self] at h
      exact hr i f h
    · rw [Function.update_of_ne heq] at h
      exact hI.files slot' i f h

/-- A path leads to a decoded entry. -/
theorem WalksTo.decoded {bpb : FatBootSector} {img : ℕ → UInt8} {cluster : ℕ} {parts : List CString}
    {item : FatDirectoryItem} (h : WalksTo bpb img cluster parts item) : ∃ e, item = .decode e := by
  induction h with
  | last _ => exact ⟨_, rfl⟩
  | through _ _ _ _ ih => exact ih

/-- What `fopen` finds lies on one of the two disks. -/
theorem fopenLookup_disk {path rest modeStr : CString} {d : D} {i : ℕ} {r : ℕ × FatDirectoryItem}
    (hdrive : pathParserGetDriveNo path = some (i, rest))
    (h : fopenLookup M path modeStr d = .ok (.inr r)) : i ≤ 1 := by
  unfold fopenLookup lookupParts at h
  rw [hdrive] at h
  dsimp only at h
  generalize pathParts (rest.length + 1) rest = parts at h
  cases parts with
  | nil => cases h
  | cons part more =>
    dsimp only at h
    by_contra hi
    rw [if_pos (Nat.not_le.mp hi)] at h
    cases h

/-- **One call** keeps the mounts and the open files. -/
theorem fsStep_onImages_wp (hA : ∀ i ≤ 1, M.ata.Holds i (img i)) (hI : OnImages M img s)
    (c : FsCall) :
    wp (fun _ => True) (fun s => fsStep M s c) (fun _ t => OnImages M img t) s := by
  have hE : ∀ e : Stop, e.AllocFails → True := fun _ _ => trivial
  have hB : ∀ i bpb, bootSector M i s.drives = .inr bpb → i ≤ 1 →
      bpb = imageBoot (img i) ∧ bpb.check = none :=
    fun i bpb hboot hi => bootSector_holds (hA i hi) hboot
  have hS := hI.sound
  cases c with
  | fopen path modeStr =>
    change wp _ (_ <$> fopen M path modeStr) _ s
    rw [wp_map]
    refine fopen_wp hE hS.arena hS.inv hB path modeStr (fun _ => trivial) fun res t hpost => ?_
    -- the file that is opened is the one that the lookup has found
    obtain ⟨_, _, hgrow, -, hout⟩ := hpost.outcome
    have ht : FsSound M _ t := ⟨hgrow.arena, hpost.inv⟩
    unfold OpenOutcome at hout
    cases hlookup : fopenLookup M path modeStr s.drives with
    | error e =>
      rw [hlookup] at hout
      exact hout.elim
    | ok found =>
      rw [hlookup] at hout
      rcases found with code | ⟨i, item⟩
      · -- without a file or a free slot the table stays
        exact ⟨ht, fun slot i f h => hI.files slot i f (hout.2.2.files ▸ h)⟩
      · dsimp only at hout
        cases hslot : freeSlot s.fs with
        | none =>
          rw [hslot] at hout
          exact ⟨ht, fun slot i f h => hI.files slot i f (hout.2.2.files ▸ h)⟩
        | some slot =>
          rw [hslot] at hout
          -- a new entry was decoded from a directory on the image
          refine hI.update ht hout.2.files fun j f hf => ?_
          cases hf
          obtain ⟨_, _, hdrive, -, hwalk, -⟩ := fopenLookup_walksTo hA hlookup
          obtain ⟨e, rfl⟩ := hwalk.decoded
          exact ⟨fopenLookup_disk hdrive hlookup, .fresh (le16_lt e 26)⟩
  | fsList path =>
    change wp _ (_ <$> fsList M path) _ s
    rw [wp_map]
    refine fsList_wp hE hS.arena hS.inv hB path (fun _ => trivial) fun res text t hpost => ?_
    obtain ⟨_, _, hgrow, -, hout⟩ := hpost.outcome
    exact ⟨⟨hgrow.arena, hpost.inv⟩, fun slot i f h => hI.files slot i f (hout.2.2.files ▸ h)⟩
  | fread size nmemb fd =>
    change wp _ (_ <$> fread M size.toNat nmemb.toNat fd.toInt) _ s
    rw [wp_map]
    refine fread_wp hS.arena hS.inv (fun _ => hI) fun slot i f bpb _ hfile _ =>
      ⟨fun _ _ => trivial, fun res f' x hread t hmv => ?_⟩
    -- the read moves the cache along the chain only
    obtain ⟨hi, hf⟩ := hI.files slot i f hfile
    refine hI.update ⟨hmv.arena, hmv.inv⟩ hmv.files fun j g hg => ?_
    cases hg
    exact ⟨hi, hf.read hread⟩
  | fseek fd offset whence =>
    change wp _ (_ <$> fseek fd.toInt offset.toInt whence) _ s
    rw [wp_map]
    refine fseek_wp hS.arena hS.inv (fun _ => hI) fun slot i f _ hfile t hmv => ?_
    obtain ⟨hi, hf⟩ := hI.files slot i f hfile
    refine hI.update ⟨hmv.arena, hmv.inv⟩ hmv.files fun j g hg => ?_
    cases hg
    exact ⟨hi, hf.seek offset.toInt whence⟩
  | ftell fd =>
    change wp _ (_ <$> ftell fd.toInt) _ s
    rw [wp_map]
    exact ftell_wp hS.inv (fun _ => hI) fun _ _ _ _ _ => hI
  | fstat fd =>
    change wp _ (_ <$> fstat fd.toInt) _ s
    rw [wp_map]
    exact fstat_wp hS.inv (fun _ => hI) fun _ _ _ _ _ => hI
  | fclose fd =>
    change wp _ (_ <$> fclose M fd.toInt) _ s
    rw [wp_map]
    refine fclose_wp hS.arena hS.inv (fun _ => hI) fun slot i f _ hfile t hcl => ?_
    exact hI.update ⟨hcl.arena, hcl.inv⟩ hcl.files fun _ _ h => nomatch h

/-- **The reads of a call** are contained if what it reaches is. -/
theorem callAccesses_contained (hA : ∀ i ≤ 1, M.ata.Holds i (img i)) (hI : OnImages M img s)
    {c : FsCall} (hC : CallContained img s c) :
    ∀ a ∈ callAccesses M s c, a.2.Contained (imageBoot (img a.1)) := by
  cases c with
  | fopen path modeStr =>
    intro a ha
    unfold callAccesses fopenAccesses at ha
    dsimp only at ha
    cases hdrive : pathParserGetDriveNo path with
    | none =>
      rw [hdrive] at ha
      exact absurd ha List.not_mem_nil
    | some r =>
      obtain ⟨i, rest⟩ := r
      rw [hdrive] at ha
      dsimp only at ha
      cases hparts : pathParts (rest.length + 1) rest with
      | nil =>
        rw [hparts] at ha
        exact absurd ha List.not_mem_nil
      | cons part more =>
        rw [hparts] at ha
        -- the boot sector is read, and behind an accepted one the directories
        refine mountAccesses_contained hA s.drives (fun hi hcheck stream d hs a ha => ?_) a ha
        by_cases hmode : fsParseMode modeStr ≠ .read
        · rw [if_pos hmode] at ha
          exact absurd ha List.not_mem_nil
        rw [if_neg hmode] at ha
        exact findAccesses_contained (hA i hi) (imageBoot_fields hcheck).1 more 0 part stream d
          (fun p hp => pathParts_no_nul p (hparts ▸ hp)) hs
          (hC i rest part more hdrive hi hparts (not_not.mp hmode) hcheck) a ha
  | fsList path =>
    intro a ha
    unfold callAccesses fsListAccesses at ha
    dsimp only at ha
    cases hdrive : pathParserGetDriveNo path with
    | none =>
      rw [hdrive] at ha
      exact absurd ha List.not_mem_nil
    | some r =>
      obtain ⟨i, rest⟩ := r
      rw [hdrive] at ha
      -- the directories of the path, and the one that is listed
      refine mountAccesses_contained hA s.drives (fun hi hcheck stream d hs a ha => ?_) a ha
      exact listAccesses_contained (hA i hi) (imageBoot_fields hcheck).1 _ 0 stream d
        pathParts_no_nul hs (hC i rest hdrive hi hcheck) a ha
  | fread size nmemb fd =>
    intro a ha
    unfold callAccesses at ha
    dsimp only at ha
    cases hentry : s.entry fd.toInt with
    | none =>
      rw [hentry] at ha
      exact absurd ha List.not_mem_nil
    | some r =>
      obtain ⟨i, f⟩ := r
      -- the descriptor is open, so its disk is mounted with the boot sector of the image
      obtain ⟨slot, -, hfile⟩ := Option.bind_eq_some_iff.mp hentry
      obtain ⟨hi, hf⟩ := hI.files slot i f hfile
      obtain ⟨-, hpriv, -⟩ := hI.sound.inv.openAt hfile
      obtain ⟨m, x, hmount⟩ := hI.sound.inv.mounted i hpriv
      obtain ⟨hbpb, hcheck⟩ := hmount.boot hi
      rw [hentry] at ha
      dsimp only at ha
      rw [hmount.mount] at ha
      obtain ⟨b, hb, rfl⟩ := List.mem_map.mp ha
      change b ∈ readAccesses M.ata m.bpb _ _ f _ _ at hb
      rw [hbpb] at hb hcheck
      obtain ⟨hfields, hcs⟩ := imageBoot_fields hcheck
      -- what the loop reaches is in the condition on the call
      exact readAccesses_contained (hA i hi) hfields hcs hf rfl s.drives (hC i f hentry) b hb
  | fseek fd offset whence => exact fun _ ha => absurd ha List.not_mem_nil
  | ftell fd => exact fun _ ha => absurd ha List.not_mem_nil
  | fstat fd => exact fun _ ha => absurd ha List.not_mem_nil
  | fclose fd => exact fun _ ha => absurd ha List.not_mem_nil

/-- **The volume is contained.** On all disks and in every run of calls whose reads reach only
clusters that are where they belong, every table entry that is fetched lies in the first allocation
table, and every piece of a file or of a directory with clusters is read for a cluster from `2` on
and from the data area. -/
theorem fs_contained (hA : ∀ i ≤ 1, M.ata.Holds i (img i)) (h : H) (d : D) (calls : List FsCall)
    (hcalls : Meets (fsStep M) (CallContained img) (Kernel.boot h d) calls) :
    Meets (fsStep M) (fun s c => ∀ a ∈ callAccesses M s c, a.2.Contained (imageBoot (img a.1)))
      (Kernel.boot h d) calls :=
  @meets_of_invariant _ _ _ _ (fsStep M) (CallContained img) (OnImages M img) _
    (fun _ c _ _ hI _ hstep => (fsStep_onImages_wp hA hI c).ok hstep)
    (fun _ _ hI hC => callAccesses_contained hA hI hC) _ _ (OnImages.boot M img h d) hcalls

end Runs

/-- Reads of a file of two clusters, a seek back over the boundary, and a listing. -/
theorem fs_contained_two_clusters :
    let M := singleFileMachine (slice UInt8.ofNat 0 600)
    let img := fun _ : ℕ => singleFileImage (slice UInt8.ofNat 0 600)
    Meets (fsStep M) (fun s c => ∀ a ∈ callAccesses M s c, a.2.Contained (imageBoot (img a.1)))
      (Kernel.boot (KHeap.init 0x10000) ())
      [.fopen [0x30, 0x3A, 0x2F, 0x41] [0x72], .fread 1 550 1, .fseek 1 (-500) .cur, .fread 3 10 1,
        .fsList [0x30, 0x3A, 0x2F]] := by
  intro M img
  refine fs_contained (fun i _ => badSectorAta_holds [] (img i) i) _ _ _
    (meets_of_checkRun (fun s c => match c with
      | .fopen path _ => path = [0x30, 0x3A, 0x2F, 0x41]
      | .fsList path => path = [0x30, 0x3A, 0x2F]
      | .fread size nmemb fd => ((s.entry fd.toInt).map fun r => decide (ReadContained
          (imageBoot (img r.1)) (img r.1) r.2 size.toNat nmemb.toNat)).getD true
      | _ => true) ?_ (by decide +kernel))
  intro s c h
  cases c with
  | fopen path modeStr =>
    obtain rfl := of_decide_eq_true h
    intro i rest part more hdrive _ hparts _ _
    cases hdrive
    cases hparts
    exact .inl rfl
  | fsList path =>
    obtain rfl := of_decide_eq_true h
    intro i rest hdrive _ _
    cases hdrive
    exact .inl rfl
  | fread size nmemb fd =>
    intro i f hentry
    dsimp only at h
    rw [hentry] at h
    exact of_decide_eq_true h
  | fseek fd offset whence => exact trivial
  | ftell fd => exact trivial
  | fstat fd => exact trivial
  | fclose fd => exact trivial

/-- **The reserved cluster is read.** On an accepted disk whose only file has a byte and the first
cluster `0`, the first read of the file comes from sector `1`, which is the allocation table. -/
theorem fread_leaves_data_area :
    let img := fun _ : ℕ => Function.update (singleFileImage [0x42]) 1050 0
    let M : Machine KHeap Unit := ⟨kheap, imageAta (img 0), 0x10000, 65536⟩
    (imageBoot (img 0)).check = none ∧
      ¬ Meets (fsStep M) (fun s c => ∀ a ∈ callAccesses M s c, a.2.Contained (imageBoot (img a.1)))
        (Kernel.boot (KHeap.init 0x10000) ())
        [.fopen [0x30, 0x3A, 0x2F, 0x41] [0x72], .fread 1 1 1] := by
  intro img M
  have hacc : (fsStep M (Kernel.boot (KHeap.init 0x10000) ())
      (.fopen [0x30, 0x3A, 0x2F, 0x41] [0x72])).toOption.map
        (fun r => callAccesses M r.2 (.fread 1 1 1)) = some [(0, .data 0 512 1)] := by
    decide +kernel
  refine ⟨by decide +kernel, fun ⟨_, hrest⟩ => ?_⟩
  cases hr : fsStep M (Kernel.boot (KHeap.init 0x10000) ())
      (.fopen [0x30, 0x3A, 0x2F, 0x41] [0x72]) with
  | error e =>
    rw [hr] at hacc
    cases hacc
  | ok r =>
    rw [hr] at hacc
    have hlist : callAccesses M r.2 (.fread 1 1 1) = [(0, .data 0 512 1)] := Option.some.inj hacc
    have hread := (hrest r.1 r.2 hr).1 (0, .data 0 512 1)
    rw [hlist] at hread
    exact absurd (hread (List.mem_singleton_self _)).1 (by decide)

end VibeKernel
