import Mathlib.Data.List.TakeWhile
import VibeKernel.Lib.Chain
import VibeKernel.Fs.Volume

/-!
# Directories and paths

What a directory of a volume contains, and where a path leads. The root directory is a region in
front of the data area, every other directory a chain of clusters; either way it is a list of
entries in on-disk order. An entry is live if it is in front of the first end mark and not deleted,
and `DirectoryEntry.find` takes the first live one with the name.

`fat16GetDirectoryEntry_spec` says that both loops of `fat16_get_directory_entry` compute that, and
`fat16Find_spec` that the fold over the parts of a path computes `Resolves`.
-/

namespace VibeKernel

open Verif

variable {D : Type}

/-! ### What is on the volume -/

/-- The 32 bytes of an entry. -/
abbrev DirectoryEntry := List UInt8

/-- The `n` entries from a byte position on. -/
def entriesAt (img : ℕ → UInt8) (pos n : ℕ) : List DirectoryEntry :=
  (List.range n).map fun i => slice img (pos + 32 * i) 32

/-- The `n` entries that a stream at `pos` reads. -/
def entriesFrom (img : ℕ → UInt8) : ℕ → ℕ → List DirectoryEntry
  | _, 0 => []
  | pos, n + 1 => slice img pos 32 :: entriesFrom img (u32 (pos + 32)) n

/-- All positions from which a stream at `pos` reads `n` entries. -/
def AllEntries (P : ℕ → Prop) : ℕ → ℕ → Prop
  | _, 0 => True
  | pos, n + 1 => P pos ∧ AllEntries P (u32 (pos + 32)) n

namespace DirectoryEntry

/-- The directory ends at this entry. -/
def IsEnd (e : DirectoryEntry) : Prop := byteAt e 0 = 0x00

/-- The entry is deleted. -/
def IsDeleted (e : DirectoryEntry) : Prop := byteAt e 0 = 0xE5

instance : DecidablePred IsEnd := fun e => inferInstanceAs (Decidable (byteAt e 0 = 0x00))

instance : DecidablePred IsDeleted := fun e => inferInstanceAs (Decidable (byteAt e 0 = 0xE5))

/-- The name of an entry: `BASE` or `BASE.EXT`. -/
def name (e : DirectoryEntry) : CString :=
  fat16GetFullRelativeFilename (FatDirectoryItem.decode e)

/-- The entries in front of the end mark that are not deleted. -/
def live (es : List DirectoryEntry) : List DirectoryEntry :=
  (es.takeWhile fun e => ¬ IsEnd e).filter fun e => ¬ IsDeleted e

/-- The first live entry with a name, in any letter case. -/
def find (es : List DirectoryEntry) (part : CString) : Option DirectoryEntry :=
  (live es).find? fun e => SameName (name e) part

end DirectoryEntry

/-- The clusters of a chain: each is the table entry of the one before, and the table entry of the
last one is reserved. -/
structure DirectoryChain (bpb : FatBootSector) (img : ℕ → UInt8) (first : ℕ) (chain : List ℕ) :
    Prop where
  linked : ∃ last ≥ fat16ClusterReservedMin, Seg (bpb.fatEntry img) first chain last
  inside : ∀ c ∈ chain, bpb.HasCluster c

/-- The entries of the directory that starts at a cluster; `0` stands for the root directory. -/
inductive DirectoryOf (bpb : FatBootSector) (img : ℕ → UInt8) : ℕ → List DirectoryEntry → Prop
  | root : DirectoryOf bpb img 0 (entriesAt img (512 * bpb.rootDirectorySector) bpb.rootDirEntries)
  | sub {first : ℕ} {chain : List ℕ} (h : first ≠ 0) (hchain : DirectoryChain bpb img first chain) :
    DirectoryOf bpb img first
      (chain.flatMap fun c => entriesAt img (bpb.clusterPos c) (bpb.clusterSize / 32))

/-- The directories of a volume: the root and, for each live entry of a directory that is a
subdirectory, the one at its first cluster. -/
inductive IsDirectory (bpb : FatBootSector) (img : ℕ → UInt8) : ℕ → Prop
  | root : IsDirectory bpb img 0
  | sub {cluster : ℕ} {es : List DirectoryEntry} {e : DirectoryEntry}
    (hdir : IsDirectory bpb img cluster) (hes : DirectoryOf bpb img cluster es)
    (he : e ∈ DirectoryEntry.live es) (hsub : (FatDirectoryItem.decode e).IsSubdirectory) :
    IsDirectory bpb img (FatDirectoryItem.decode e).low16BitsFirstCluster

/-- Where the parts of a path lead from a directory on: each part but the last is a subdirectory,
and the last one is not. -/
inductive Resolves (bpb : FatBootSector) (img : ℕ → UInt8) :
    ℕ → List CString → FatDirectoryItem → Prop
  | file {cluster : ℕ} {es : List DirectoryEntry} {part : CString} {e : DirectoryEntry}
    (hes : DirectoryOf bpb img cluster es) (hfind : DirectoryEntry.find es part = some e)
    (hfile : ¬ (FatDirectoryItem.decode e).IsSubdirectory) :
    Resolves bpb img cluster [part] (FatDirectoryItem.decode e)
  | sub {cluster : ℕ} {es : List DirectoryEntry} {part next : CString} {rest : List CString}
    {e : DirectoryEntry} {item : FatDirectoryItem} (hes : DirectoryOf bpb img cluster es)
    (hfind : DirectoryEntry.find es part = some e)
    (hsub : (FatDirectoryItem.decode e).IsSubdirectory)
    (hrest : Resolves bpb img (FatDirectoryItem.decode e).low16BitsFirstCluster
      (next :: rest) item) :
    Resolves bpb img cluster (part :: next :: rest) item

/-- A volume whose boot sector and root directory lie in it. -/
structure RootedVolume (A : Ata D) (drive : ℕ) (img : ℕ → UInt8) (bpb : FatBootSector) : Prop where
  volume : Volume A drive img bpb
  boot : 0 < bpb.sectors
  root : bpb.firstDataSector ≤ bpb.sectors

/-- A volume whose directories all have finite chains. -/
structure DirectoryVolume (A : Ata D) (drive : ℕ) (img : ℕ → UInt8) (bpb : FatBootSector) : Prop
    extends RootedVolume A drive img bpb where
  finite : ∀ cluster, IsDirectory bpb img cluster → ∃ es, DirectoryOf bpb img cluster es

/-! ### Directories -/

section Entries

variable {bpb : FatBootSector} {img : ℕ → UInt8}

theorem entriesAt_succ (pos n : ℕ) :
    entriesAt img pos (n + 1) = slice img pos 32 :: entriesAt img (pos + 32) n := by
  unfold entriesAt
  rw [List.range_succ_eq_map, List.map_cons, List.map_map, Nat.mul_zero, Nat.add_zero]
  refine congrArg _ (List.map_congr_left fun i _ => ?_)
  change slice img (pos + 32 * (i + 1)) 32 = _
  rw [show pos + 32 * (i + 1) = pos + 32 + 32 * i by ring]

theorem entriesAt_add (pos m n : ℕ) :
    entriesAt img pos (m + n) = entriesAt img pos m ++ entriesAt img (pos + 32 * m) n := by
  unfold entriesAt
  rw [List.range_add, List.map_append, List.map_map]
  refine congrArg _ (List.map_congr_left fun i _ => ?_)
  change slice img (pos + 32 * (m + i)) 32 = _
  rw [show pos + 32 * (m + i) = pos + 32 * m + 32 * i by ring]

/-- What a stream reads in front of the end of the position count lies in a row. -/
theorem entriesFrom_eq : ∀ {n pos : ℕ}, pos + 32 * n ≤ 4294967296 →
    entriesFrom img pos n = entriesAt img pos n := by
  intro n
  induction n with
  | zero => exact fun _ => rfl
  | succ n ih =>
    intro pos hend
    rw [entriesFrom, entriesAt_succ]
    rcases Nat.eq_zero_or_pos n with rfl | hpos
    · rfl
    · rw [u32_of_lt (by omega : pos + 32 < 4294967296), ih (by omega)]

theorem AllEntries.mono {P Q : ℕ → Prop} (himp : ∀ p, P p → Q p) :
    ∀ {n pos : ℕ}, AllEntries P pos n → AllEntries Q pos n
  | 0, _, _ => trivial
  | _ + 1, _, h => ⟨himp _ h.1, h.2.mono himp⟩

/-- Entries in a row lie in a stretch of the disk. -/
theorem allEntries_of_le {sectors : ℕ} (hsmall : sectors ≤ 8388608) : ∀ {n pos : ℕ},
    pos + 32 * n ≤ 512 * sectors → AllEntries (fun p => p + 32 ≤ 512 * sectors) pos n := by
  intro n
  induction n with
  | zero => exact fun _ => trivial
  | succ n ih =>
    intro pos hend
    refine ⟨by omega, ?_⟩
    rcases Nat.eq_zero_or_pos n with rfl | hpos
    · trivial
    · rw [u32_of_lt (by omega : pos + 32 < 4294967296)]
      exact ih (by omega)

/-- Every position is a 32-bit number. -/
theorem allEntries_lt : ∀ {n pos : ℕ}, pos < 4294967296 →
    AllEntries (fun p => p < 4294967296) pos n := by
  intro n
  induction n with
  | zero => exact fun _ => trivial
  | succ n ih => exact fun hpos => ⟨hpos, ih (u32_lt _)⟩

/-- The first entry with the name, behind entries that are live and have other names. -/
theorem DirectoryEntry.find_append {pre post : List DirectoryEntry} {e : DirectoryEntry}
    {part : CString} (hpre : ∀ e ∈ pre, ¬ IsEnd e ∧ ¬ SameName (name e) part) (hend : ¬ IsEnd e)
    (hdel : ¬ IsDeleted e) (hname : SameName (name e) part) :
      find (pre ++ e :: post) part = some e := by
  unfold find live
  have hlive : ∀ e ∈ pre, (decide ¬ IsEnd e) = true := fun e he => decide_eq_true (hpre e he).1
  have hnone : ((pre.filter fun e => decide ¬ IsDeleted e).find? fun e =>
      decide (SameName (name e) part)) = none :=
    List.find?_eq_none.mpr fun e he h =>
      (hpre e (List.mem_filter.mp he).1).2 (of_decide_eq_true h)
  rw [List.takeWhile_append_of_pos hlive, List.takeWhile_cons, if_pos (decide_eq_true hend),
    List.filter_append, List.filter_cons, if_pos (decide_eq_true hdel), List.find?_append, hnone,
    List.find?_cons, decide_eq_true hname]
  rfl

theorem DirectoryChain.small {first : ℕ} {chain : List ℕ}
    (h : DirectoryChain bpb img first chain) : ∀ c ∈ chain, ¬ fat16ClusterReservedMin ≤ c := by
  intro c hc
  have hmax := (h.inside c hc).2.1
  unfold fat16ClusterReservedMin
  omega

/-- The chain of a directory is determined by its first cluster. -/
theorem DirectoryChain.unique {first : ℕ} {chain chain' : List ℕ}
    (h : DirectoryChain bpb img first chain) (h' : DirectoryChain bpb img first chain') :
    chain = chain' := by
  obtain ⟨last, hlast, hseg⟩ := h.linked
  obtain ⟨last', hlast', hseg'⟩ := h'.linked
  exact @Seg.unique _ _ (fun c => fat16ClusterReservedMin ≤ c) _ _ hlast hlast' _ _ _ hseg hseg'
    h.small h'.small

/-- A chain has no more clusters than there are numbers for. -/
theorem DirectoryChain.length_le {first : ℕ} {chain : List ℕ}
    (h : DirectoryChain bpb img first chain) : chain.length ≤ 65518 := by
  obtain ⟨last, hlast, hseg⟩ := h.linked
  have hnodup : chain.Nodup :=
    @Seg.nodup _ _ (fun c => fat16ClusterReservedMin ≤ c) _ hlast _ _ hseg h.small
  have hsub : chain.toFinset ⊆ Finset.Icc 2 0xFFEF := by
    intro c hc
    have hin := h.inside c (List.mem_toFinset.mp hc)
    exact Finset.mem_Icc.mpr ⟨hin.1, hin.2.1⟩
  have hcard := Finset.card_le_card hsub
  rw [List.toFinset_card_of_nodup hnodup, Nat.card_Icc] at hcard
  exact hcard

theorem DirectoryOf.unique {cluster : ℕ} {es es' : List DirectoryEntry}
    (h : DirectoryOf bpb img cluster es) (h' : DirectoryOf bpb img cluster es') : es = es' := by
  cases h with
  | root =>
    cases h' with
    | root => rfl
    | sub h0 => exact absurd rfl h0
  | sub h0 hchain =>
    cases h' with
    | root => exact absurd rfl h0
    | sub _ hchain' => rw [hchain.unique hchain']

/-! ### Names -/

theorem fat16ToProperString_ne {field : List UInt8} : (0 : UInt8) ∉ fat16ToProperString field :=
  fun h => absurd (List.mem_takeWhile_imp h) (by simp)

/-- A name fits into the buffer for it, and no byte of it is `NUL`. -/
theorem fullRelativeFilename_spec (b : List UInt8) :
    (fat16GetFullRelativeFilename (FatDirectoryItem.decode b)).length < 13 ∧
      (0 : UInt8) ∉ fat16GetFullRelativeFilename (FatDirectoryItem.decode b) := by
  have hproper : ∀ (l : List UInt8) (n : ℕ), (fat16ToProperString (l.take n)).length ≤ n :=
    fun l n => ((List.takeWhile_prefix _).length_le).trans (List.length_take_le _ _)
  have hbase : (fat16ToProperString (FatDirectoryItem.decode b).filename).length ≤ 8 := hproper _ _
  have hext : (fat16ToProperString (FatDirectoryItem.decode b).ext).length ≤ 3 := hproper _ _
  unfold fat16GetFullRelativeFilename
  constructor
  · rw [List.length_append]
    split
    · rw [List.length_cons]
      omega
    · rw [List.length_nil]
      omega
  · rw [List.mem_append]
    rintro (h | h)
    · exact fat16ToProperString_ne h
    · split at h
      · rcases List.mem_cons.mp h with h | h
        · cases h
        · exact fat16ToProperString_ne h
      · exact List.not_mem_nil h

end Entries

/-! ### Searching -/

/-- How the scan of a list of entries ends. -/
def scanEntries (name : CString) : List DirectoryEntry → Scan
  | [] => .exhausted
  | e :: es =>
    if DirectoryEntry.IsEnd e then .endMark
    else if DirectoryEntry.IsDeleted e then scanEntries name es
    else if SameName (DirectoryEntry.name e) name then .found (FatDirectoryItem.decode e)
    else scanEntries name es

/-- The item that a scan has found. -/
def Scan.item : Scan → Option FatDirectoryItem
  | .found item => some item
  | _ => none

section Search

variable {A : Ata D} {drive : ℕ} {img : ℕ → UInt8} {bpb : FatBootSector} {name : CString}

/-- A list of entries is scanned in two parts. -/
theorem scanEntries_append (es es' : List DirectoryEntry) :
    scanEntries name (es ++ es') =
      if scanEntries name es = .exhausted then scanEntries name es' else scanEntries name es := by
  induction es with
  | nil => rfl
  | cons e es ih =>
    rw [List.cons_append, scanEntries, scanEntries]
    by_cases hend : DirectoryEntry.IsEnd e
    · rw [if_pos hend, if_pos hend]
      rfl
    rw [if_neg hend, if_neg hend]
    by_cases hdel : DirectoryEntry.IsDeleted e
    · rw [if_pos hdel, if_pos hdel]
      exact ih
    rw [if_neg hdel, if_neg hdel]
    by_cases hname : SameName (DirectoryEntry.name e) name
    · rw [if_pos hname, if_pos hname]
      rfl
    · rw [if_neg hname, if_neg hname]
      exact ih

/-- The scan finds the first live entry with the name. -/
theorem scanEntries_item (es : List DirectoryEntry) :
    (scanEntries name es).item = (DirectoryEntry.find es name).map FatDirectoryItem.decode := by
  unfold DirectoryEntry.find DirectoryEntry.live
  induction es with
  | nil => rfl
  | cons e es ih =>
    rw [scanEntries]
    by_cases hend : DirectoryEntry.IsEnd e
    · rw [if_pos hend, List.takeWhile_cons_of_neg (by simpa using hend)]
      rfl
    rw [if_neg hend, List.takeWhile_cons_of_pos (by simpa using hend)]
    by_cases hdel : DirectoryEntry.IsDeleted e
    · rw [if_pos hdel, List.filter_cons_of_neg (by simpa using hdel)]
      exact ih
    rw [if_neg hdel, List.filter_cons_of_pos (by simpa using hdel)]
    by_cases hname : SameName (DirectoryEntry.name e) name
    · rw [if_pos hname, List.find?_cons_of_pos (by simpa using hname)]
      rfl
    · rw [if_neg hname, List.find?_cons_of_neg (by simpa using hname)]
      exact ih

theorem scanEntries_readable (es : List DirectoryEntry) : scanEntries name es ≠ .unreadable := by
  induction es with
  | nil => exact fun h => by cases h
  | cons e es ih =>
    rw [scanEntries]
    split_ifs
    · exact fun h => by cases h
    · exact ih
    · exact fun h => by cases h
    · exact ih

/-- Reading one entry. -/
theorem diskstreamRead_entry {sectors : ℕ} (hS : SectorsHold A drive sectors img)
    (hword : sectors < 4294967296) {pos : ℕ} (hend : pos + 32 ≤ 512 * sectors) (d : D) :
    ∃ d', diskstreamRead A ⟨pos, drive⟩ 32 d =
      ((0, slice img pos 32), ⟨u32 (pos + 32), drive⟩, d') := by
  obtain ⟨stream', d', hread, -⟩ := diskstreamRead_sectors hS hword ⟨pos, drive⟩ rfl hend d
  have hmoved := diskstreamRead_moved A ⟨pos, drive⟩ 32 d (by rw [hread])
  rw [hread] at hmoved
  exact ⟨d', by rw [hread, ← hmoved]⟩

/-- A stream after seeking. -/
theorem diskstreamSeek_at {stream : DiskStream} (hs : stream.diskId = drive) (pos : ℕ) :
    diskstreamSeek stream pos = ⟨pos, drive⟩ := by
  rw [← hs]
  rfl

/-- The loop over directory entries scans the entries that the stream reads. A read that fails,
where one may fail, ends it. -/
theorem fat16ScanItems_reads {P : ℕ → Prop} (Fails : Prop)
    (hread : ∀ pos d, P pos → (∃ d', diskstreamRead A ⟨pos, drive⟩ 32 d =
        ((0, slice img pos 32), ⟨u32 (pos + 32), drive⟩, d')) ∨
      (Fails ∧ ∃ out d', diskstreamRead A ⟨pos, drive⟩ 32 d = ((-1, out), ⟨pos, drive⟩, d')))
    (hname : (0 : UInt8) ∉ name) :
    ∀ (n pos : ℕ) (stream : DiskStream) (d : D), stream = ⟨pos, drive⟩ → AllEntries P pos n →
      ∃ r stream' d', fat16ScanItems A name n stream d = (r, stream', d') ∧
        stream'.diskId = drive ∧
        ((Fails ∧ r = .unreadable) ∨ r = scanEntries name (entriesFrom img pos n)) := by
  intro n
  induction n with
  | zero =>
    rintro pos _ d rfl -
    exact ⟨.exhausted, _, d, rfl, rfl, .inr rfl⟩
  | succ n ih =>
    rintro pos _ d rfl ⟨hpos, hall⟩
    -- an entry is read, or the scan ends here
    rcases hread pos d hpos with ⟨d₁, hread⟩ | ⟨hfails, out, d₁, hread⟩
    swap
    · rw [fat16ScanItems, hread]
      exact ⟨.unreadable, _, d₁, rfl, rfl, .inl ⟨hfails, rfl⟩⟩
    have hrest := ih (u32 (pos + 32)) ⟨u32 (pos + 32), drive⟩ d₁ rfl hall
    rw [fat16ScanItems, hread, entriesFrom, scanEntries]
    generalize slice img pos 32 = e
    dsimp only
    rw [if_neg (not_not_intro rfl)]
    have hspec := fullRelativeFilename_spec e
    -- 13 characters are enough to compare with a name of 8 and 3
    have hcmp : strncasecmp 13 (fat16GetFullRelativeFilename (FatDirectoryItem.decode e)) name = 0 ↔
        SameName (DirectoryEntry.name e) name :=
      strncasecmp_eq_zero_iff hspec.1 hspec.2 hname
    by_cases hmark : DirectoryEntry.IsEnd e
    · rw [if_pos hmark, if_pos (show byteAt _ 0 = 0 from hmark)]
      exact ⟨_, _, d₁, rfl, rfl, .inr rfl⟩
    rw [if_neg hmark, if_neg (show ¬ byteAt _ 0 = 0 from hmark)]
    by_cases hdel : DirectoryEntry.IsDeleted e
    · rw [if_pos hdel, if_pos (show byteAt _ 0 = 0xE5 from hdel)]
      exact hrest
    rw [if_neg hdel, if_neg (show ¬ byteAt _ 0 = 0xE5 from hdel)]
    by_cases hsame : SameName (DirectoryEntry.name e) name
    · rw [if_pos (hcmp.mpr hsame), if_pos hsame]
      exact ⟨_, _, d₁, rfl, rfl, .inr rfl⟩
    · rw [if_neg fun h => hsame (hcmp.mp h), if_neg hsame]
      exact hrest

/-- The loop over directory entries where all of them can be read. -/
theorem fat16ScanItems_inside {sectors : ℕ} (hS : SectorsHold A drive sectors img)
    (hword : sectors < 4294967296) (hname : (0 : UInt8) ∉ name) {n pos : ℕ}
    (hall : AllEntries (fun p => p + 32 ≤ 512 * sectors) pos n) {stream : DiskStream}
    (hs : stream.diskId = drive) (d : D) :
    ∃ stream' d', fat16ScanItems A name n (diskstreamSeek stream pos) d =
      (scanEntries name (entriesFrom img pos n), stream', d') ∧ stream'.diskId = drive := by
  obtain ⟨r, stream', d', hscan, hs', ⟨hfalse, -⟩ | rfl⟩ :=
    fat16ScanItems_reads (P := fun p => p + 32 ≤ 512 * sectors) False
      (fun pos d hpos => .inl (diskstreamRead_entry hS hword hpos d)) hname n pos _ d
      (diskstreamSeek_at hs pos) hall
  · exact hfalse.elim
  · exact ⟨stream', d', hscan, hs'⟩

/-- The loop over directory entries on a volume. -/
theorem fat16ScanItems_spec (hR : Readable A drive bpb.sectors img) (hname : (0 : UInt8) ∉ name)
    {n pos : ℕ} (hend : pos + 32 * n ≤ 512 * bpb.sectors) {stream : DiskStream}
    (hs : stream.diskId = drive) (d : D) :
    ∃ stream' d', fat16ScanItems A name n (diskstreamSeek stream pos) d =
      (scanEntries name (entriesAt img pos n), stream', d') ∧ stream'.diskId = drive := by
  have hsmall := hR.small
  rw [← entriesFrom_eq (by omega)]
  exact fat16ScanItems_inside hR.read (by omega) hname (allEntries_of_le hsmall hend) hs d

/-! ### Chains of clusters -/

/-- The answer of a search through the clusters of a directory. -/
def scanAnswer : Scan → ℤ ⊕ FatDirectoryItem
  | .found item => .inr item
  | .unreadable => .inl (-2)
  | .endMark => .inl (-3)
  | .exhausted => .inl (-4)

/-- A cluster of a directory can be searched: its entries are scanned, and its table entry is
found. -/
structure Searchable (A : Ata D) (drive : ℕ) (bpb : FatBootSector) (img : ℕ → UInt8)
    (name : CString) (entries : ℕ → List DirectoryEntry) (c : ℕ) : Prop where
  usable : c < fat16ClusterReservedMin
  items : ∀ (stream : DiskStream) (d : D), stream.diskId = drive →
    ∃ stream' d', fat16ScanItems A name (bpb.clusterSize / 32)
        (diskstreamSeek stream (u32 (bpb.clusterToSector c * bpb.bytesPerSector))) d =
      (scanEntries name (entries c), stream', d') ∧ stream'.diskId = drive
  link : ∀ (stream : DiskStream) (d : D), stream.diskId = drive →
    ∃ stream' d', fat16GetFatEntry A bpb c stream d = (bpb.fatEntry img c, stream', d') ∧
      stream'.diskId = drive

/-- The loop over the clusters of a directory scans its entries. -/
theorem fat16ScanClusters_chain {entries : ℕ → List DirectoryEntry} {last : ℕ}
    (hlast : fat16ClusterReservedMin ≤ last) :
    ∀ (chain : List ℕ) (fuel first : ℕ) (stream : DiskStream) (d : D), chain.length < fuel →
      Seg (bpb.fatEntry img) first chain last →
      (∀ c ∈ chain, Searchable A drive bpb img name entries c) → stream.diskId = drive →
      ∃ stream' d', fat16ScanClusters A bpb name fuel first stream d =
        .ok (scanAnswer (scanEntries name (chain.flatMap entries)), stream', d') ∧
          stream'.diskId = drive := by
  intro chain
  induction chain with
  | nil =>
    intro fuel first stream d hfuel hseg _ hs
    obtain ⟨fuel, rfl⟩ : ∃ m, fuel = m + 1 := ⟨fuel - 1, by rw [List.length_nil] at hfuel; omega⟩
    cases hseg
    rw [fat16ScanClusters, if_neg (Nat.not_lt.mpr hlast)]
    exact ⟨stream, d, rfl, hs⟩
  | cons c chain ih =>
    intro fuel first stream d hfuel hseg hin hs
    rw [List.length_cons] at hfuel
    obtain ⟨fuel, rfl⟩ : ∃ m, fuel = m + 1 := ⟨fuel - 1, by omega⟩
    obtain ⟨rfl, hseg⟩ := hseg
    have hc := hin first List.mem_cons_self
    obtain ⟨stream₁, d₁, hscan, hs₁⟩ := hc.items stream d hs
    rw [fat16ScanClusters, if_pos hc.usable]
    dsimp only
    rw [hscan, List.flatMap_cons, scanEntries_append]
    -- the loop goes on only behind entries that have not ended the search
    cases hres : scanEntries name (entries first) with
    | found item => exact ⟨stream₁, d₁, rfl, hs₁⟩
    | unreadable => exact absurd hres (scanEntries_readable _)
    | endMark => exact ⟨stream₁, d₁, rfl, hs₁⟩
    | exhausted =>
      rw [if_pos rfl]
      dsimp only
      obtain ⟨stream₂, d₂, hentry, hs₂⟩ := hc.link stream₁ d₁ hs₁
      rw [hentry]
      exact ih fuel _ stream₂ d₂ (by omega) hseg (fun c h => hin c (List.mem_cons_of_mem _ h)) hs₂

/-- What the scan of the root directory answers. -/
theorem fat16GetDirectoryEntry_root {es : List DirectoryEntry} {fuel : ℕ} {stream : DiskStream}
    {d : D} (hscan : ∃ stream' d', fat16ScanItems A name bpb.rootDirEntries
        (diskstreamSeek stream (u32 (bpb.rootDirectorySector * bpb.bytesPerSector))) d =
      (scanEntries name es, stream', d') ∧ stream'.diskId = drive) :
    ∃ answer stream' d', fat16GetDirectoryEntry A bpb fuel 0 name stream d =
        .ok (answer, stream', d') ∧ stream'.diskId = drive ∧
      answer.getRight? = (DirectoryEntry.find es name).map FatDirectoryItem.decode := by
  obtain ⟨stream', d', hscan, hs'⟩ := hscan
  unfold fat16GetDirectoryEntry
  rw [if_pos rfl]
  dsimp only
  rw [hscan, ← scanEntries_item]
  cases scanEntries name es with
  | found item => exact ⟨_, stream', d', rfl, hs', rfl⟩
  | unreadable => exact ⟨_, stream', d', rfl, hs', rfl⟩
  | endMark => exact ⟨_, stream', d', rfl, hs', rfl⟩
  | exhausted => exact ⟨_, stream', d', rfl, hs', rfl⟩

/-- What the scan of a chain of clusters answers. -/
theorem fat16GetDirectoryEntry_chain {entries : ℕ → List DirectoryEntry} {first last fuel : ℕ}
    {chain : List ℕ} (h0 : first ≠ 0) (hlast : fat16ClusterReservedMin ≤ last)
    (hseg : Seg (bpb.fatEntry img) first chain last) (hfuel : chain.length < fuel)
    (hin : ∀ c ∈ chain, Searchable A drive bpb img name entries c) {stream : DiskStream}
    (hs : stream.diskId = drive) (d : D) :
    ∃ answer stream' d', fat16GetDirectoryEntry A bpb fuel first name stream d =
        .ok (answer, stream', d') ∧ stream'.diskId = drive ∧
      answer.getRight? =
        (DirectoryEntry.find (chain.flatMap entries) name).map FatDirectoryItem.decode := by
  obtain ⟨stream', d', hscan, hs'⟩ :=
    fat16ScanClusters_chain hlast chain fuel first stream d hfuel hseg hin hs
  unfold fat16GetDirectoryEntry
  rw [if_neg h0, hscan, ← scanEntries_item]
  refine ⟨_, stream', d', rfl, hs', ?_⟩
  cases scanEntries name (chain.flatMap entries) <;> rfl

/-! ### The search of the source -/

/-- **`fat16_get_directory_entry`** finds the first live entry with the name, in the root directory
as in a chain of clusters. -/
theorem fat16GetDirectoryEntry_spec (hV : RootedVolume A drive img bpb)
    (hname : (0 : UInt8) ∉ name) {fuel cluster : ℕ} (hfuel : cluster ≠ 0 → 65518 < fuel)
    {es : List DirectoryEntry} (hes : DirectoryOf bpb img cluster es) {stream : DiskStream}
    (hs : stream.diskId = drive) (d : D) :
    ∃ answer stream' d', fat16GetDirectoryEntry A bpb fuel cluster name stream d =
        .ok (answer, stream', d') ∧ stream'.diskId = drive ∧
      answer.getRight? = (DirectoryEntry.find es name).map FatDirectoryItem.decode := by
  have hlim := hV.volume.readable.small
  cases hes with
  | root =>
    have hroot : 512 * bpb.rootDirectorySector + 32 * bpb.rootDirEntries ≤ 512 * bpb.sectors := by
      have h := hV.root
      unfold FatBootSector.firstDataSector at h
      rw [hV.volume.bytes] at h
      unfold FatBootSector.rootDirectorySector
      omega
    refine fat16GetDirectoryEntry_root ?_
    rw [hV.volume.bytes, Nat.mul_comm]
    rcases Nat.eq_zero_or_pos bpb.rootDirEntries with h0 | h0
    · rw [h0]
      exact ⟨_, d, rfl, hs⟩
    · rw [u32_of_lt (by omega)]
      exact fat16ScanItems_spec hV.volume.readable hname hroot hs d
  | sub h0 hchain =>
    have hlen := lt_of_le_of_lt hchain.length_le (hfuel h0)
    obtain ⟨last, hlast, hseg⟩ := hchain.linked
    refine fat16GetDirectoryEntry_chain h0 hlast hseg hlen (fun c hc => ?_) hs d
    have hin := hchain.inside c hc
    obtain ⟨hpos, hinside⟩ := hV.volume.clusterToSector_eq hin
    have hsize : 32 * (bpb.clusterSize / 32) ≤ bpb.clusterSize := Nat.mul_div_le _ _
    refine ⟨Nat.not_le.mp (hchain.small c hc), fun stream d hs => ?_, fun stream d hs =>
      fat16GetFatEntry_spec hV.volume hin hs d⟩
    rw [hpos]
    exact fat16ScanItems_spec hV.volume.readable hname (by omega) hs d

theorem mem_live_of_find {es : List DirectoryEntry} {e : DirectoryEntry}
    (h : DirectoryEntry.find es name = some e) : e ∈ DirectoryEntry.live es :=
  List.mem_of_find?_eq_some h

/-- **The fold of `fat16_open`** over the parts of a path finds what the path resolves to. -/
theorem fat16Find_spec (hV : DirectoryVolume A drive img bpb) {fuel : ℕ} (hfuel : 65518 < fuel) :
    ∀ (rest : List CString) (cluster : ℕ) (part : CString) {stream : DiskStream} (d : D),
      (∀ p ∈ part :: rest, (0 : UInt8) ∉ p) → IsDirectory bpb img cluster →
      stream.diskId = drive →
      ∃ found stream' d', fat16Find A bpb fuel cluster part rest stream d =
          .ok (found, stream', d') ∧
        ∀ item, Resolves bpb img cluster (part :: rest) item ↔
          found = some item ∧ ¬ item.IsSubdirectory := by
  intro rest
  induction rest with
  | nil =>
    intro cluster part stream d hparts hdir hs
    obtain ⟨es, hes⟩ := hV.finite cluster hdir
    obtain ⟨answer, stream', d', hget, hs', hans⟩ := fat16GetDirectoryEntry_spec hV.toRootedVolume
      (hparts part List.mem_cons_self) (fun _ => hfuel) hes hs d
    have hiff : ∀ item, Resolves bpb img cluster [part] item ↔
        answer.getRight? = some item ∧ ¬ item.IsSubdirectory := by
      intro item
      rw [hans, Option.map_eq_some_iff]
      constructor
      · rintro (⟨hes', hfind, hfile⟩)
        rw [hes.unique hes']
        exact ⟨⟨_, hfind, rfl⟩, hfile⟩
      · rintro ⟨⟨e, hfind, rfl⟩, hfile⟩
        exact Resolves.file hes hfind hfile
    rw [fat16Find, hget]
    cases answer with
    | inl code => exact ⟨none, stream', d', rfl, hiff⟩
    | inr item => exact ⟨some item, stream', d', rfl, hiff⟩
  | cons next rest ih =>
    intro cluster part stream d hparts hdir hs
    obtain ⟨es, hes⟩ := hV.finite cluster hdir
    obtain ⟨answer, stream', d', hget, hs', hans⟩ := fat16GetDirectoryEntry_spec hV.toRootedVolume
      (hparts part List.mem_cons_self) (fun _ => hfuel) hes hs d
    -- what the path resolves to, the part `part` being the entry found here
    have hiff : ∀ item, Resolves bpb img cluster (part :: next :: rest) item ↔
        ∃ sub, answer.getRight? = some sub ∧ sub.IsSubdirectory ∧
          Resolves bpb img sub.low16BitsFirstCluster (next :: rest) item := by
      intro item
      rw [hans]
      constructor
      · rintro (_ | ⟨hes', hfind, hsub, hrest⟩)
        rw [hes.unique hes', hfind]
        exact ⟨_, rfl, hsub, hrest⟩
      · rintro ⟨sub, hsome, hsub, hrest⟩
        obtain ⟨e, hfind, rfl⟩ := Option.map_eq_some_iff.mp hsome
        exact Resolves.sub hes hfind hsub hrest
    rw [fat16Find, hget]
    cases answer with
    | inl code =>
      refine ⟨none, stream', d', rfl, fun item => (hiff item).trans (iff_of_false ?_ ?_)⟩
      · rintro ⟨sub, hsome, -⟩
        cases hsome
      · rintro ⟨h, -⟩
        cases h
    | inr sub =>
      dsimp only
      by_cases hsub : sub.IsSubdirectory
      swap
      · rw [if_neg hsub]
        refine ⟨none, stream', d', rfl, fun item => (hiff item).trans (iff_of_false ?_ ?_)⟩
        · rintro ⟨_, ⟨⟩, h, -⟩
          exact hsub h
        · rintro ⟨h, -⟩
          cases h
      rw [if_pos hsub]
      obtain ⟨e, hfind, rfl⟩ := Option.map_eq_some_iff.mp hans.symm
      obtain ⟨found, stream'', d'', hrest, hfound⟩ := ih
        (FatDirectoryItem.decode e).low16BitsFirstCluster next d'
        (fun p hp => hparts p (List.mem_cons_of_mem _ hp))
        (IsDirectory.sub hdir hes (mem_live_of_find hfind) hsub) hs'
      refine ⟨found, stream'', d'', hrest, fun item => (hiff item).trans ?_⟩
      rw [← hfound item]
      constructor
      · rintro ⟨_, ⟨⟩, -, h⟩
        exact h
      · exact fun h => ⟨_, rfl, hsub, h⟩

end Search

end VibeKernel
