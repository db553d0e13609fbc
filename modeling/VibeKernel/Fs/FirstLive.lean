import VibeKernel.Drivers.StreamSlices
import VibeKernel.Fs.Listing
import VibeKernel.Fs.FailedOpen

/-!
# Where a path leads, whatever the attributes

The search for a part of a path compares decoded names and asks for no attribute: it takes the first
live entry with the name, be it a file, a directory, a volume label or a fragment of a long name.
The one attribute that counts is the subdirectory bit, and only for going on: neither a label nor a
fragment has it, so none is ever traversed. An entry of either kind can be opened, and hides what
comes behind it, if it is the first one with its name.

The results hold for drives whose sectors may fail; a walk that finds an entry has read all in front
of it.
-/

namespace VibeKernel

open Verif

variable {H D : Type}

/-- A volume label or a fragment of a long file name. -/
def FatDirectoryItem.IsLabelOrFragment (item : FatDirectoryItem) : Prop :=
  item.attrib = 0x08 ∨ item.attrib = 0x0F

/-- The clusters that a search of a directory has visited; the root directory is one run. -/
inductive DirectoryFront (bpb : FatBootSector) (img : ℕ → UInt8) :
    ℕ → List (List DirectoryEntry) → Prop
  | root : DirectoryFront bpb img 0 [rootEntries bpb img]
  | sub {first last : ℕ} {chain : List ℕ} (h : first ≠ 0)
    (hseg : Seg (bpb.fatEntry img) first chain last)
    (husable : ∀ c ∈ chain, c < fat16ClusterReservedMin) :
    DirectoryFront bpb img first (chain.map (clusterEntries bpb img))

/-- The entry is the first live one of the directory with the name. -/
def FirstLive (bpb : FatBootSector) (img : ℕ → UInt8) (cluster : ℕ) (name : CString)
    (e : DirectoryEntry) : Prop :=
  ∃ blocks, DirectoryFront bpb img cluster blocks ∧ DirectoryEntry.find blocks.flatten name = some e

/-- Where the parts of a path lead: each part to the first live entry with its name. What is
traversed is a subdirectory, and neither a label nor a fragment. -/
inductive WalksTo (bpb : FatBootSector) (img : ℕ → UInt8) :
    ℕ → List CString → FatDirectoryItem → Prop
  | last {cluster : ℕ} {part : CString} {e : DirectoryEntry}
      (h : FirstLive bpb img cluster part e) :
    WalksTo bpb img cluster [part] (.decode e)
  | through {cluster : ℕ} {part next : CString} {rest : List CString} {e : DirectoryEntry}
    {item : FatDirectoryItem} (h : FirstLive bpb img cluster part e)
    (hsub : (FatDirectoryItem.decode e).IsSubdirectory)
    (hfile : ¬ (FatDirectoryItem.decode e).IsLabelOrFragment)
    (hrest : WalksTo bpb img (FatDirectoryItem.decode e).low16BitsFirstCluster
      (next :: rest) item) :
    WalksTo bpb img cluster (part :: next :: rest) item

/-- No label and no fragment has the subdirectory bit. -/
theorem FatDirectoryItem.IsSubdirectory.not_label {item : FatDirectoryItem}
    (h : item.IsSubdirectory) : ¬ item.IsLabelOrFragment := by
  unfold FatDirectoryItem.IsSubdirectory fatFileSubdirectory at h
  rintro (hlabel | hfragment)
  · rw [hlabel] at h
    exact h (by decide)
  · rw [hfragment] at h
    exact h (by decide)

/-! ### The search -/

section Search

variable {A : Ata D} {drive : ℕ} {img : ℕ → UInt8} {bpb : FatBootSector} {name : CString}

/-- The loop over directory entries scans the entries of the disk, as far as they can be read. -/
theorem fat16ScanItems_holds (hA : A.Holds drive img) (hname : (0 : UInt8) ∉ name) (n pos : ℕ)
    (stream : DiskStream) (d : D) (hs : stream = ⟨pos, drive⟩) (hpos : pos < 4294967296) :
    ∃ r stream' d', fat16ScanItems A name n stream d = (r, stream', d') ∧
      stream'.diskId = drive ∧
      (r = .unreadable ∨ r = scanEntries name (entriesFrom img pos n)) := by
  obtain ⟨r, stream', d', hscan, hs', hr⟩ :=
    fat16ScanItems_reads (P := fun p => p < 4294967296) True (fun pos d hpos =>
      (diskstreamRead_holds hA (by omega : pos + 32 ≤ 512 * 268435456) d).imp_right fun h =>
        ⟨trivial, h⟩) hname n pos stream d hs (allEntries_lt hpos)
  exact ⟨r, stream', d', hscan, hs', hr.imp_left And.right⟩

/-- A table entry that cannot be read counts as the end of the chain. -/
theorem fat16GetFatEntry_holds (hA : A.Holds drive img) (hbytes : bpb.bytesPerSector = 512)
    (hres : bpb.reservedSectors < 65536) {cluster : ℕ} (hc : cluster < 65536) {stream : DiskStream}
    (hs : stream.diskId = drive) (d : D) :
    ∃ entry stream' d', fat16GetFatEntry A bpb cluster stream d = (entry, stream', d') ∧
      stream'.diskId = drive ∧ (entry = 0xFFFF ∨ entry = bpb.fatEntry img cluster) := by
  have hpos : u32 (u32 (bpb.reservedSectors * bpb.bytesPerSector) + u32 (cluster * 2)) =
      512 * bpb.reservedSectors + 2 * cluster := by
    rw [hbytes, u32_of_lt (by omega : bpb.reservedSectors * 512 < 4294967296),
      u32_of_lt (by omega : cluster * 2 < 4294967296), u32_of_lt (by omega)]
    ring
  unfold fat16GetFatEntry
  rw [hpos]
  dsimp only
  rw [diskstreamSeek_at hs]
  rcases diskstreamRead_holds hA
    (by omega : 512 * bpb.reservedSectors + 2 * cluster + 2 ≤ 512 * 268435456) d with
    ⟨d₁, hread⟩ | ⟨out, d₁, hread⟩
  · rw [hread]
    exact ⟨_, _, d₁, rfl, rfl, .inr rfl⟩
  · rw [hread]
    exact ⟨_, _, d₁, rfl, rfl, .inl rfl⟩

/-- What the loop over the clusters of a chain finds. -/
theorem fat16ScanClusters_found (hA : A.Holds drive img) (hbytes : bpb.bytesPerSector = 512)
    (hres : bpb.reservedSectors < 65536) (hname : (0 : UInt8) ∉ name) :
    ∀ (fuel first : ℕ) (stream : DiskStream) (d : D) {item : FatDirectoryItem} {x : DiskStream × D},
      stream.diskId = drive →
      fat16ScanClusters A bpb name fuel first stream d = .ok (.inr item, x) →
      x.1.diskId = drive ∧ ∃ chain last, Seg (bpb.fatEntry img) first chain last ∧
        (∀ c ∈ chain, c < fat16ClusterReservedMin) ∧
        scanEntries name (chain.map (clusterEntries bpb img)).flatten = .found item := by
  intro fuel
  induction fuel with
  | zero => exact fun _ _ _ _ _ _ h => nomatch h
  | succ fuel ih =>
    intro first stream d item x hs hfound
    rw [fat16ScanClusters] at hfound
    by_cases hsmall : first < fat16ClusterReservedMin
    swap
    · rw [if_neg hsmall] at hfound
      cases hfound
    rw [if_pos hsmall, clusterBase_eq] at hfound
    obtain ⟨r, stream₁, d₁, hscan, hs₁, hr⟩ := fat16ScanItems_holds hA hname (bpb.clusterSize / 32)
      (bpb.clusterBase first) _ d (diskstreamSeek_at hs _) (u32_lt _)
    rw [← clusterEntries] at hr
    dsimp only at hfound
    rw [hscan] at hfound
    cases r with
    | found item' =>
      cases hfound
      refine ⟨hs₁, [first], _, ⟨rfl, rfl⟩, fun c hc => ?_, ?_⟩
      · rw [List.mem_singleton.mp hc]
        exact hsmall
      · rw [List.map_singleton, List.flatten_singleton]
        rcases hr with h | h
        · cases h
        · exact h.symm
    | unreadable => cases hfound
    | endMark => cases hfound
    | exhausted =>
      have hexh : scanEntries name (clusterEntries bpb img first) = .exhausted := by
        rcases hr with h | h
        · cases h
        · exact h.symm
      dsimp only at hfound
      have hword : first < 65536 := by
        unfold fat16ClusterReservedMin at hsmall
        omega
      obtain ⟨entry, stream₂, d₂, hentry, hs₂, he⟩ :=
        fat16GetFatEntry_holds hA hbytes hres hword hs₁ d₁
      rw [hentry] at hfound
      obtain ⟨hx, chain, last, hseg, husable, hscan'⟩ := ih entry stream₂ d₂ hs₂ hfound
      refine ⟨hx, first :: chain, last, ⟨rfl, ?_⟩, ?_, ?_⟩
      · -- a search that goes on has read the entry
        rcases he with rfl | rfl
        · exfalso
          cases fuel with
          | zero => cases hfound
          | succ fuel =>
            have hlarge : ¬ 0xFFFF < fat16ClusterReservedMin := by decide
            rw [fat16ScanClusters, if_neg hlarge] at hfound
            cases hfound
        · exact hseg
      · exact List.forall_mem_cons.mpr ⟨hsmall, husable⟩
      · rw [List.map_cons, List.flatten_cons, scanEntries_append, if_pos hexh]
        exact hscan'

/-- **What the search for a name finds** is the first live entry with the name. -/
theorem fat16GetDirectoryEntry_found (hA : A.Holds drive img) (hbytes : bpb.bytesPerSector = 512)
    (hres : bpb.reservedSectors < 65536) (hname : (0 : UInt8) ∉ name) {fuel cluster : ℕ}
    {stream : DiskStream} (hs : stream.diskId = drive) {d : D} {item : FatDirectoryItem}
    {x : DiskStream × D}
    (hfound : fat16GetDirectoryEntry A bpb fuel cluster name stream d = .ok (.inr item, x)) :
    x.1.diskId = drive ∧ ∃ e, FirstLive bpb img cluster name e ∧ item = .decode e := by
  -- a scan that ends with an item ends with that of the first live entry
  have hfirst : ∀ blocks, DirectoryFront bpb img cluster blocks →
      scanEntries name blocks.flatten = .found item →
      ∃ e, FirstLive bpb img cluster name e ∧ item = .decode e := by
    intro blocks hfront hscan
    have hitem := @scanEntries_item name blocks.flatten
    rw [hscan] at hitem
    obtain ⟨e, hfind, he⟩ := Option.map_eq_some_iff.mp hitem.symm
    exact ⟨e, ⟨blocks, hfront, hfind⟩, he.symm⟩
  unfold fat16GetDirectoryEntry at hfound
  by_cases h0 : cluster = 0
  · subst h0
    rw [if_pos rfl] at hfound
    obtain ⟨r, stream₁, d₁, hscan, hs₁, hr⟩ := fat16ScanItems_holds hA hname bpb.rootDirEntries
      (u32 (bpb.rootDirectorySector * bpb.bytesPerSector)) _ d (diskstreamSeek_at hs _) (u32_lt _)
    rw [← rootEntries] at hr
    dsimp only at hfound
    rw [hscan] at hfound
    cases r with
    | found item' =>
      cases hfound
      refine ⟨hs₁, hfirst [rootEntries bpb img] .root ?_⟩
      rw [List.flatten_singleton]
      rcases hr with h | h
      · cases h
      · exact h.symm
    | unreadable => cases hfound
    | endMark => cases hfound
    | exhausted => cases hfound
  · rw [if_neg h0] at hfound
    obtain ⟨hx, chain, last, hseg, husable, hscan⟩ :=
      fat16ScanClusters_found hA hbytes hres hname fuel cluster stream d hs hfound
    exact ⟨hx, hfirst _ (.sub h0 hseg husable) hscan⟩

/-- **Where the parts of a path lead.** -/
theorem fat16Find_walksTo (hA : A.Holds drive img) (hbytes : bpb.bytesPerSector = 512)
    (hres : bpb.reservedSectors < 65536) {fuel : ℕ} :
    ∀ (rest : List CString) (cluster : ℕ) (part : CString) (stream : DiskStream) (d : D)
      {item : FatDirectoryItem} {x : DiskStream × D}, (∀ p ∈ part :: rest, (0 : UInt8) ∉ p) →
      stream.diskId = drive →
      fat16Find A bpb fuel cluster part rest stream d = .ok (some item, x) →
      WalksTo bpb img cluster (part :: rest) item := by
  intro rest
  induction rest with
  | nil =>
    intro cluster part stream d item x hparts hs hfind
    rw [fat16Find] at hfind
    cases hget : fat16GetDirectoryEntry A bpb fuel cluster part stream d with
    | error e =>
      rw [hget] at hfind
      cases hfind
    | ok r =>
      obtain ⟨answer, stream₁, d₁⟩ := r
      rw [hget] at hfind
      cases answer with
      | inl code => cases hfind
      | inr item' =>
        cases hfind
        obtain ⟨-, e, hfirst, rfl⟩ :=
          fat16GetDirectoryEntry_found hA hbytes hres (hparts part List.mem_cons_self) hs hget
        exact .last hfirst
  | cons next rest ih =>
    intro cluster part stream d item x hparts hs hfind
    rw [fat16Find] at hfind
    cases hget : fat16GetDirectoryEntry A bpb fuel cluster part stream d with
    | error e =>
      rw [hget] at hfind
      cases hfind
    | ok r =>
      obtain ⟨answer, stream₁, d₁⟩ := r
      rw [hget] at hfind
      cases answer with
      | inl code => cases hfind
      | inr item' =>
        dsimp only at hfind
        by_cases hsub : item'.IsSubdirectory
        swap
        · -- a file in front of further parts ends the search
          rw [if_neg hsub] at hfind
          cases hfind
        rw [if_pos hsub] at hfind
        obtain ⟨hs₁, e, hfirst, rfl⟩ :=
          fat16GetDirectoryEntry_found hA hbytes hres (hparts part List.mem_cons_self) hs hget
        -- the search goes on in the subdirectory
        exact .through hfirst hsub hsub.not_label
          (ih _ next stream₁ d₁ (fun p hp => hparts p (List.mem_cons_of_mem _ hp)) hs₁ hfind)

end Search

/-! ### Opening a file -/

/-- No part of a path contains a `NUL`. -/
theorem pathParts_no_nul : ∀ {n : ℕ} {text : CString}, ∀ p ∈ pathParts n text, (0 : UInt8) ∉ p := by
  intro n
  induction n with
  | zero => exact fun _ h => nomatch h
  | succ n ih =>
    intro text p hp
    rw [pathParts] at hp
    split_ifs at hp
    · cases hp
    · rcases List.mem_cons.mp hp with rfl | hp
      · intro h0
        have hin := List.mem_takeWhile_imp h0
        simp at hin
      · exact ih p hp

section Opening

variable {M : Machine H D} {s t : Kernel H D}

/-- An accepted boot sector is decoded from the start of the disk. -/
theorem bootSector_holds {i : ℕ} {img : ℕ → UInt8} (hA : M.ata.Holds i img) {d : D}
    {bpb : FatBootSector} (hboot : bootSector M i d = .inr bpb) :
    bpb = .decode (slice img 0 512) ∧ bpb.check = none := by
  unfold bootSector at hboot
  have hread := diskstreamRead_holds hA (by norm_num : 0 + 512 ≤ 512 * 268435456) d
  generalize slice img 0 512 = bytes at hread ⊢
  rcases hread with ⟨d₁, hread⟩ | ⟨out, d₁, hread⟩
  · rw [hread] at hboot
    dsimp only at hboot
    rw [if_neg (not_not_intro rfl)] at hboot
    cases hcheck : (FatBootSector.decode bytes).check with
    | some code =>
      rw [hcheck] at hboot
      cases hboot
    | none =>
      rw [hcheck] at hboot
      cases hboot
      exact ⟨rfl, hcheck⟩
  · rw [hread] at hboot
    cases hboot

/-- What `fopen` finds under a path is where the path leads. -/
theorem fopenLookup_walksTo {img : ℕ → ℕ → UInt8} (hA : ∀ i ≤ 1, M.ata.Holds i (img i))
    {path modeStr : CString} {d : D} {i : ℕ} {item : FatDirectoryItem}
    (hlookup : fopenLookup M path modeStr d = .ok (.inr (i, item))) :
    ∃ rest bpb, pathParserGetDriveNo path = some (i, rest) ∧ bootSector M i d = .inr bpb ∧
      WalksTo bpb (img i) 0 (pathParts (rest.length + 1) rest) item ∧ ¬ item.IsSubdirectory := by
  unfold fopenLookup at hlookup
  cases hdrive : pathParserGetDriveNo path with
  | none =>
    rw [hdrive] at hlookup
    cases hlookup
  | some r =>
    obtain ⟨i', rest⟩ := r
    rw [hdrive] at hlookup
    dsimp only at hlookup
    have hnul := @pathParts_no_nul (rest.length + 1) rest
    generalize hparts : pathParts (rest.length + 1) rest = parts at hlookup hnul
    unfold lookupParts at hlookup
    cases parts with
    | nil => cases hlookup
    | cons part more =>
      dsimp only at hlookup
      by_cases hhigh : i' > 1
      · -- each of the tests in front of the search refuses the path
        rw [if_pos hhigh] at hlookup
        cases hlookup
      rw [if_neg hhigh] at hlookup
      cases hboot : bootSector M i' d with
      | inl code =>
        rw [hboot] at hlookup
        cases hlookup
      | inr bpb =>
        rw [hboot] at hlookup
        dsimp only at hlookup
        by_cases hinv : fsParseMode modeStr = .invalid
        · rw [if_pos hinv] at hlookup
          cases hlookup
        rw [if_neg hinv] at hlookup
        by_cases hmode : fsParseMode modeStr ≠ .read
        · rw [if_pos hmode] at hlookup
          cases hlookup
        rw [if_neg hmode] at hlookup
        cases hfind : fat16Find M.ata bpb M.fuel 0 part more (afterBoot M i' d).1
            (afterBoot M i' d).2 with
        | error e =>
          rw [hfind] at hlookup
          cases hlookup
        | ok x =>
          obtain ⟨found, x⟩ := x
          rw [hfind] at hlookup
          cases found with
          | none => cases hlookup
          | some item' =>
            dsimp only at hlookup
            by_cases hsub : item'.IsSubdirectory
            · rw [if_pos hsub] at hlookup
              cases hlookup
            rw [if_neg hsub] at hlookup
            cases hlookup
            -- behind them the search starts in the root directory of an accepted image
            have hdisk : (afterBoot M i d).1.diskId = i :=
              (diskstreamRead_keeps (A := M.ata) ⟨0, i⟩ 512 d).diskId
            obtain ⟨hdecode, hcheck⟩ := bootSector_holds (hA i (by omega)) hboot
            obtain ⟨-, -, hbytes, -⟩ := FatBootSector.accepted_iff.mp hcheck
            have hres : bpb.reservedSectors < 65536 := by
              rw [hdecode]
              exact (decode_bounds _).1
            have hwalk := fat16Find_walksTo (hA i (by omega)) hbytes hres more 0 part _ _ hnul hdisk
              hfind
            exact ⟨rest, bpb, rfl, hboot, hparts ▸ hwalk, hsub⟩

/-- **A path leads to the first live entries with its names.** On every disk and for every path, a
file that `fopen` opens is the first live entry of its directory with the name of the last part,
whatever its attributes, and no subdirectory; every entry traversed on the way is the first live one
with its name, a subdirectory, and neither a volume label nor a fragment of a long name. -/
theorem fopen_first_live (hS : FsSound M (fun _ _ => True) s) {img : ℕ → ℕ → UInt8}
    (hA : ∀ i ≤ 1, M.ata.Holds i (img i)) (path modeStr : CString) {res : ℤ}
    (hopen : fopen M path modeStr s = .ok (res, t)) (hres : 0 < res) :
    ∃ i rest bpb item, pathParserGetDriveNo path = some (i, rest) ∧
      bootSector M i s.drives = .inr bpb ∧
      WalksTo bpb (img i) 0 (pathParts (rest.length + 1) rest) item ∧ ¬ item.IsSubdirectory ∧
      t.openFile (res - 1).toNat = some (i, FatFileDescriptor.fresh item) := by
  have hpost := (fopen_wp (E := fun _ => True) (fun _ _ => trivial) hS.arena hS.inv
    (fun _ _ _ => trivial) path modeStr (fun _ => trivial) (fun _ _ h => h)).ok hopen
  obtain ⟨-, own, new, -, -, hout⟩ := hpost
  unfold OpenOutcome at hout
  cases hlookup : fopenLookup M path modeStr s.drives with
  | error e =>
    rw [hlookup] at hout
    exact hout.elim
  | ok found =>
    rw [hlookup] at hout
    rcases found with code | ⟨i, item⟩
    · have hneg := fopenLookup_neg hlookup
      obtain ⟨rfl, -⟩ := hout
      omega
    · dsimp only at hout
      cases hslot : freeSlot s.fs with
      | none =>
        rw [hslot] at hout
        obtain ⟨rfl, -⟩ := hout
        omega
      | some slot =>
        rw [hslot] at hout
        obtain ⟨rfl, hfilled⟩ := hout
        obtain ⟨rest, bpb, hdrive, hboot, hwalk, hfile⟩ := fopenLookup_walksTo hA hlookup
        refine ⟨i, rest, bpb, item, hdrive, hboot, hwalk, hfile, ?_⟩
        rw [hfilled.files, show ((slot : ℤ) + 1 - 1).toNat = slot by omega]
        exact Function.update_self _ _ _

end Opening

/-- The file of a volume with one file is opened where its path leads. -/
theorem fopen_first_live_single :
    let M := singleFileMachine [0x42]
    ∃ t i rest bpb item, fopen M [0x30, 0x3A, 0x2F, 0x41] [0x72]
        (Kernel.boot (KHeap.init 0x10000) ()) = .ok (1, t) ∧
      pathParserGetDriveNo [0x30, 0x3A, 0x2F, 0x41] = some (i, rest) ∧
      bootSector M i () = .inr bpb ∧
      WalksTo bpb (singleFileImage [0x42]) 0 (pathParts (rest.length + 1) rest) item ∧
      ¬ item.IsSubdirectory ∧
      t.openFile 0 = some (i, FatFileDescriptor.fresh item) := by
  intro M
  have hres : ((fopen M [0x30, 0x3A, 0x2F, 0x41] [0x72]
      (Kernel.boot (KHeap.init 0x10000) ())).toOption.map Prod.fst) = some 1 := by
    decide +kernel
  have hdisk : ∀ i ≤ 1, M.ata.Holds i (singleFileImage [0x42]) :=
    fun i _ => badSectorAta_holds [] (singleFileImage [0x42]) i
  cases hr : fopen M [0x30, 0x3A, 0x2F, 0x41] [0x72] (Kernel.boot (KHeap.init 0x10000) ()) with
  | error e =>
    rw [hr] at hres
    cases hres
  | ok r =>
    obtain ⟨res, t⟩ := r
    rw [hr] at hres
    cases hres
    obtain ⟨i, rest, bpb, item, h⟩ := fopen_first_live (FsSound.boot M _ _) hdisk _ _ hr (by decide)
    exact ⟨t, i, rest, bpb, item, rfl, h⟩

/-- A disk whose root directory holds a volume label `A` and behind it a file `A`. -/
def labelImage (i : ℕ) : UInt8 :=
  if i < 512 then singleFileBoot i
  else match i with
    | 1024 => 0x41
    | 1035 => 0x08
    | 1056 => 0x41
    | 1067 => 0x20
    | 1082 => 2
    | 1084 => 1
    | _ => 0

/-- **A volume label is opened** and hides the file of the same name: `0:/A` leads to the entry with
the attribute `0x08`, although the directory has a file `A`. -/
theorem fopen_opens_label :
    let M : Machine KHeap Unit := ⟨kheap, imageAta labelImage, 0x10000, 65536⟩
    ((DirectoryEntry.live (rootEntries singleFileBpb labelImage)).map fun e =>
        (DirectoryEntry.name e, (FatDirectoryItem.decode e).attrib)) =
      [([0x41], 0x08), ([0x41], 0x20)] ∧
    ((fopen M [0x30, 0x3A, 0x2F, 0x41] [0x72] (Kernel.boot (KHeap.init 0x10000) ())).toOption.bind
        fun r => (r.2.openFile 0).map fun f => (r.1, f.2.item.attrib, f.2.item.filesize)) =
      some (1, 0x08, 0) := by
  decide +kernel

end VibeKernel
