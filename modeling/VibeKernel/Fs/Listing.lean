import VibeKernel.Fs.Directory
import VibeKernel.Fs.AnyImage

/-!
# Listing a directory and looking a name up

`fat16_list` and `fat16_get_directory_entry` scan a directory with the same nested loops, on any
image whose boot sector is accepted. A directory is the list of its clusters' entries
(`DirectoryBlocks`). The lookup leaves both loops at the first end mark, so it searches the live
entries of the whole directory. The listing leaves the inner loop only, so it prints the live
entries of each cluster.

The two agree on the root directory, and on a chain of clusters iff no cluster behind the first end
mark brings a new name (`fat16List_agrees_iff`).
-/

namespace VibeKernel

open Verif

variable {D : Type}

/-! ### Directories of an image -/

/-- The entries in a cluster. -/
def clusterEntries (bpb : FatBootSector) (img : ℕ → UInt8) (cluster : ℕ) : List DirectoryEntry :=
  entriesFrom img (bpb.clusterBase cluster) (bpb.clusterSize / 32)

/-- The entries of the root directory. -/
def rootEntries (bpb : FatBootSector) (img : ℕ → UInt8) : List DirectoryEntry :=
  entriesFrom img (u32 (bpb.rootDirectorySector * bpb.bytesPerSector)) bpb.rootDirEntries

/-- The entries of the directory that starts at a cluster, cluster by cluster. The root directory is
one run of entries; a chain ends at the first reserved value. -/
inductive DirectoryBlocks (bpb : FatBootSector) (img : ℕ → UInt8) :
    ℕ → List (List DirectoryEntry) → Prop
  | root : DirectoryBlocks bpb img 0 [rootEntries bpb img]
  | sub {first last : ℕ} {chain : List ℕ} (h : first ≠ 0)
      (hseg : Seg (bpb.fatEntry img) first chain last)
    (husable : ∀ c ∈ chain, c < fat16ClusterReservedMin) (hlast : fat16ClusterReservedMin ≤ last) :
    DirectoryBlocks bpb img first (chain.map (clusterEntries bpb img))

namespace DirectoryEntry

@[simp] theorem live_nil : live [] = [] := rfl

theorem live_cons (e : DirectoryEntry) (es : List DirectoryEntry) :
    live (e :: es) = if IsEnd e then [] else if IsDeleted e then live es else e :: live es := by
  unfold live
  by_cases hend : IsEnd e
  · rw [if_pos hend, List.takeWhile_cons_of_neg (by simpa using hend)]
    rfl
  rw [if_neg hend, List.takeWhile_cons_of_pos (by simpa using hend)]
  by_cases hdel : IsDeleted e
  · rw [if_pos hdel, List.filter_cons_of_neg (by simpa using hdel)]
  · rw [if_neg hdel, List.filter_cons_of_pos (by simpa using hdel)]

/-- The run of entries has no end mark. -/
def NoEnd (es : List DirectoryEntry) : Prop := ∀ e ∈ es, ¬ IsEnd e

instance : DecidablePred NoEnd := fun es => inferInstanceAs (Decidable (∀ e ∈ es, ¬ IsEnd e))

/-- What is live in front of an end mark is all that is live. -/
theorem live_append (es es' : List DirectoryEntry) :
    live (es ++ es') = live es ++ if NoEnd es then live es' else [] := by
  induction es with
  | nil =>
    rw [if_pos (show NoEnd [] from fun _ h => nomatch h)]
    rfl
  | cons e es ih =>
    have hiff : NoEnd (e :: es) ↔ ¬ IsEnd e ∧ NoEnd es := List.forall_mem_cons
    rw [List.cons_append, live_cons, live_cons, ih]
    by_cases hend : IsEnd e
    · rw [if_pos hend, if_pos hend, if_neg fun h => (hiff.mp h).1 hend]
      rfl
    rw [if_neg hend, if_neg hend]
    have hrest : (if NoEnd (e :: es) then live es' else []) =
        if NoEnd es then live es' else [] := by
      by_cases hno : NoEnd es
      · rw [if_pos hno, if_pos (hiff.mpr ⟨hend, hno⟩)]
      · rw [if_neg hno, if_neg fun h => hno (hiff.mp h).2]
    rw [hrest]
    by_cases hdel : IsDeleted e
    · rw [if_pos hdel, if_pos hdel]
    · rw [if_neg hdel, if_neg hdel]
      rfl

/-- The blocks behind the one with the first end mark. -/
def behindMark (blocks : List (List DirectoryEntry)) : List (List DirectoryEntry) :=
  (blocks.dropWhile fun es => NoEnd es).tail

/-- **What is live block by block** is what is live in the directory and what is live behind the end
mark. -/
theorem flatMap_live (blocks : List (List DirectoryEntry)) :
    blocks.flatMap live = live blocks.flatten ++ (behindMark blocks).flatMap live := by
  induction blocks with
  | nil => rfl
  | cons es blocks ih =>
    unfold behindMark at ih ⊢
    rw [List.flatMap_cons, List.flatten_cons, live_append]
    by_cases hno : NoEnd es
    · rw [if_pos hno, List.dropWhile_cons_of_pos (by simpa using hno), ih, List.append_assoc]
    · rw [if_neg hno, List.dropWhile_cons_of_neg (by simpa using hno), List.append_nil]
      rfl

end DirectoryEntry

section Image

variable {A : Ata D} {drive : ℕ} {img : ℕ → UInt8} {bpb : FatBootSector} {name : CString}

/-! ### Looking a name up -/

/-- The loop over directory entries on any image. -/
theorem fat16ScanItems_image (hS : SectorsHold A drive 268435456 img)
    (hname : (0 : UInt8) ∉ name) {pos : ℕ} (hpos : pos < 4294967296) (n : ℕ) {stream : DiskStream}
    (hs : stream.diskId = drive) (d : D) :
    ∃ stream' d', fat16ScanItems A name n (diskstreamSeek stream pos) d =
      (scanEntries name (entriesFrom img pos n), stream', d') ∧ stream'.diskId = drive :=
  fat16ScanItems_inside hS (by norm_num) hname
    ((allEntries_lt hpos).mono fun p hp => (by omega : p + 32 ≤ 512 * 268435456)) hs d

/-- Every usable cluster of an image can be searched. -/
theorem searchable_image (hS : SectorsHold A drive 268435456 img)
    (hbytes : bpb.bytesPerSector = 512) (hres : bpb.reservedSectors < 65536)
    (hname : (0 : UInt8) ∉ name) {c : ℕ} (hc : c < fat16ClusterReservedMin) :
    Searchable A drive bpb img name (clusterEntries bpb img) c where
  usable := hc
  items stream d hs := fat16ScanItems_image hS hname (u32_lt _) _ hs d
  link stream d hs := by
    have hword : c < 65536 := by
      unfold fat16ClusterReservedMin at hc
      omega
    exact fat16GetFatEntry_image hS hbytes hres hword stream hs d

/-- **The lookup** finds the first live entry of the directory with the name. -/
theorem fat16GetDirectoryEntry_image (hS : SectorsHold A drive 268435456 img)
    (hbytes : bpb.bytesPerSector = 512) (hres : bpb.reservedSectors < 65536)
    (hname : (0 : UInt8) ∉ name) {fuel cluster : ℕ} {blocks : List (List DirectoryEntry)}
    (hdir : DirectoryBlocks bpb img cluster blocks) (hfuel : blocks.length < fuel)
    {stream : DiskStream} (hs : stream.diskId = drive) (d : D) :
    ∃ answer stream' d', fat16GetDirectoryEntry A bpb fuel cluster name stream d =
        .ok (answer, stream', d') ∧ stream'.diskId = drive ∧
      answer.getRight? =
        (DirectoryEntry.find blocks.flatten name).map FatDirectoryItem.decode := by
  cases hdir with
  | root =>
    rw [List.flatten_singleton]
    exact fat16GetDirectoryEntry_root (fat16ScanItems_image hS hname (u32_lt _) _ hs d)
  | sub h0 hseg husable hlast =>
    rw [List.length_map] at hfuel
    rw [← List.flatMap_def]
    exact fat16GetDirectoryEntry_chain h0 hlast hseg hfuel
      (fun c hc => searchable_image hS hbytes hres hname (husable c hc)) hs d

/-! ### Listing -/

/-- What `fat16_list` prints for a list of entries. -/
def listText (es : List DirectoryEntry) : CString := es.flatMap fun e => listLine (.decode e)

/-- The listing of one run of entries. -/
theorem fat16ListItems_image (hS : SectorsHold A drive 268435456 img) :
    ∀ (n pos : ℕ) (stream : DiskStream) (d : D), stream = ⟨pos, drive⟩ → pos < 4294967296 →
      ∃ stream' d', fat16ListItems A n stream d =
        (listText (DirectoryEntry.live (entriesFrom img pos n)), stream', d') ∧
          stream'.diskId = drive := by
  intro n
  induction n with
  | zero =>
    rintro pos _ d rfl -
    exact ⟨_, d, rfl, rfl⟩
  | succ n ih =>
    rintro pos _ d rfl hpos
    obtain ⟨d₁, hread⟩ := diskstreamRead_entry hS (by norm_num) (by omega : pos + 32 ≤ _) d
    obtain ⟨stream', d', hrest, hs'⟩ :=
      ih (u32 (pos + 32)) ⟨u32 (pos + 32), drive⟩ d₁ rfl (u32_lt _)
    rw [fat16ListItems, hread, entriesFrom, DirectoryEntry.live_cons]
    generalize slice img pos 32 = e
    dsimp only
    rw [if_neg (not_not_intro rfl)]
    by_cases hmark : DirectoryEntry.IsEnd e
    · rw [if_pos hmark, if_pos (show byteAt _ 0 = 0 from hmark)]
      exact ⟨_, d₁, rfl, rfl⟩
    rw [if_neg hmark, if_neg (show ¬ byteAt _ 0 = 0 from hmark), hrest]
    dsimp only
    by_cases hdel : DirectoryEntry.IsDeleted e
    · rw [if_pos hdel, if_pos (show byteAt _ 0 = 0xE5 from hdel)]
      exact ⟨stream', d', rfl, hs'⟩
    · rw [if_neg hdel, if_neg (show ¬ byteAt _ 0 = 0xE5 from hdel)]
      exact ⟨stream', d', rfl, hs'⟩

/-- The listing of a chain of clusters: an end mark ends the listing of its cluster only. -/
theorem fat16ListClusters_image (hS : SectorsHold A drive 268435456 img)
    (hbytes : bpb.bytesPerSector = 512) (hres : bpb.reservedSectors < 65536) {last : ℕ}
    (hlast : fat16ClusterReservedMin ≤ last) :
    ∀ (chain : List ℕ) (fuel first : ℕ) (stream : DiskStream) (d : D), chain.length < fuel →
      Seg (bpb.fatEntry img) first chain last → (∀ c ∈ chain, c < fat16ClusterReservedMin) →
      stream.diskId = drive →
      ∃ stream' d', fat16ListClusters A bpb fuel first stream d =
        .ok (listText ((chain.map (clusterEntries bpb img)).flatMap DirectoryEntry.live),
          stream', d') ∧ stream'.diskId = drive := by
  intro chain
  induction chain with
  | nil =>
    intro fuel first stream d hfuel hseg _ hs
    obtain ⟨fuel, rfl⟩ := Nat.exists_eq_succ_of_ne_zero (Nat.ne_of_gt hfuel)
    cases hseg
    rw [fat16ListClusters, if_neg (Nat.not_lt.mpr hlast)]
    exact ⟨stream, d, rfl, hs⟩
  | cons c chain ih =>
    intro fuel first stream d hfuel hseg husable hs
    rw [List.length_cons] at hfuel
    obtain ⟨fuel, rfl⟩ : ∃ m, fuel = m + 1 := ⟨fuel - 1, by omega⟩
    obtain ⟨rfl, hseg⟩ := hseg
    have hsmall := husable first List.mem_cons_self
    -- the entries of the first cluster, the link, the rest of the chain
    obtain ⟨stream₁, d₁, hlist, hs₁⟩ := fat16ListItems_image hS (bpb.clusterSize / 32)
      (bpb.clusterBase first) _ d (diskstreamSeek_at hs _) (u32_lt _)
    rw [← clusterEntries] at hlist
    have hword : first < 65536 := by
      unfold fat16ClusterReservedMin at hsmall
      omega
    obtain ⟨stream₂, d₂, hentry, hs₂⟩ :=
      fat16GetFatEntry_image hS hbytes hres hword stream₁ hs₁ d₁
    obtain ⟨stream₃, d₃, hrest, hs₃⟩ := ih fuel _ stream₂ d₂ (by omega) hseg
      (fun c h => husable c (List.mem_cons_of_mem _ h)) hs₂
    rw [fat16ListClusters, if_pos hsmall, clusterBase_eq]
    dsimp only
    rw [hlist]
    dsimp only
    rw [hentry]
    dsimp only
    rw [hrest]
    refine ⟨stream₃, d₃, ?_, hs₃⟩
    unfold listText
    rw [List.map_cons, List.flatMap_cons, List.flatMap_append]

/-- **The listing** prints the live entries of each block of the directory. -/
theorem fat16List_image (hS : SectorsHold A drive 268435456 img)
    (hbytes : bpb.bytesPerSector = 512) (hres : bpb.reservedSectors < 65536)
    {fuel cluster : ℕ} {blocks : List (List DirectoryEntry)}
    (hdir : DirectoryBlocks bpb img cluster blocks) (hfuel : blocks.length < fuel)
    {stream : DiskStream} (hs : stream.diskId = drive) (d : D) :
    ∃ x, fat16List A bpb fuel cluster [] stream d =
      .ok ((0, listText (blocks.flatMap DirectoryEntry.live)), x) := by
  cases hdir with
  | root =>
    obtain ⟨stream', d', hlist, -⟩ := fat16ListItems_image hS bpb.rootDirEntries
      (u32 (bpb.rootDirectorySector * bpb.bytesPerSector)) _ d (diskstreamSeek_at hs _) (u32_lt _)
    rw [← rootEntries] at hlist
    rw [fat16List, if_pos rfl]
    dsimp only
    rw [hlist, List.flatMap_singleton]
    exact ⟨_, rfl⟩
  | @sub _ last chain h0 hseg husable hlast =>
    rw [List.length_map] at hfuel
    obtain ⟨stream', d', hlist, -⟩ := fat16ListClusters_image hS hbytes hres hlast chain fuel
      cluster stream d hfuel hseg husable hs
    rw [fat16List, if_neg h0, hlist]
    exact ⟨_, rfl⟩

/-! ### Agreement -/

/-- Every name that is live behind the end mark is live in front of it. -/
def NoNewNames (blocks : List (List DirectoryEntry)) : Prop :=
  ∀ es ∈ DirectoryEntry.behindMark blocks, ∀ e ∈ DirectoryEntry.live es,
    ∃ e' ∈ DirectoryEntry.live blocks.flatten, SameName (DirectoryEntry.name e')
      (DirectoryEntry.name e)

/-- The root directory has nothing behind its end mark. -/
theorem noNewNames_root (es : List DirectoryEntry) : NoNewNames [es] := by
  intro es' hes'
  unfold DirectoryEntry.behindMark at hes'
  by_cases hno : DirectoryEntry.NoEnd es
  · rw [List.dropWhile_cons_of_pos (by simpa using hno)] at hes'
    cases hes'
  · rw [List.dropWhile_cons_of_neg (by simpa using hno)] at hes'
    cases hes'

/-- A name is live in some block iff it is live in the directory, for all names. -/
theorem noNewNames_iff (blocks : List (List DirectoryEntry)) : NoNewNames blocks ↔
    ∀ name : CString, 0 ∉ name →
      ((∃ e ∈ blocks.flatMap DirectoryEntry.live, SameName (DirectoryEntry.name e) name) ↔
        ∃ e ∈ DirectoryEntry.live blocks.flatten, SameName (DirectoryEntry.name e) name) := by
  rw [DirectoryEntry.flatMap_live]
  constructor
  · intro h name _
    constructor
    · rintro ⟨e, he, hname⟩
      rcases List.mem_append.mp he with he | he
      · exact ⟨e, he, hname⟩
      · obtain ⟨es, hes, he⟩ := List.mem_flatMap.mp he
        obtain ⟨e', he', hname'⟩ := h es hes e he
        exact ⟨e', he', hname'.trans hname⟩
    · rintro ⟨e, he, hname⟩
      exact ⟨e, List.mem_append_left _ he, hname⟩
  · intro h es hes e he
    exact (h (DirectoryEntry.name e) (fullRelativeFilename_spec e).2).mp
      ⟨e, List.mem_append_right _ (List.mem_flatMap.mpr ⟨es, hes, he⟩), rfl⟩

/-- **Listing and lookup agree iff no cluster behind the first end mark brings a new name.** On
every image whose boot sector is accepted and whose sectors can be read, for the root directory and
every finite chain of clusters. -/
theorem fat16List_agrees_iff (hS : SectorsHold A drive 268435456 img) (hacc : bpb.check = none)
    (hboot : bpb = FatBootSector.decode (slice img 0 512)) {fuel cluster : ℕ}
    {blocks : List (List DirectoryEntry)} (hdir : DirectoryBlocks bpb img cluster blocks)
    (hfuel : blocks.length < fuel) {stream : DiskStream} (hs : stream.diskId = drive) (d : D) :
    (∃ x, fat16List A bpb fuel cluster [] stream d =
      .ok ((0, listText (blocks.flatMap DirectoryEntry.live)), x)) ∧
    ((∀ name : CString, 0 ∉ name →
        ((∃ e ∈ blocks.flatMap DirectoryEntry.live, SameName (DirectoryEntry.name e) name) ↔
          ∃ item x, fat16GetDirectoryEntry A bpb fuel cluster name stream d = .ok (.inr item, x))) ↔
      NoNewNames blocks) := by
  obtain ⟨-, -, hbytes, -⟩ := FatBootSector.accepted_iff.mp hacc
  have hres : bpb.reservedSectors < 65536 := by
    rw [hboot]
    exact (decode_bounds _).1
  refine ⟨fat16List_image hS hbytes hres hdir hfuel hs d, ?_⟩
  rw [noNewNames_iff]
  refine forall₂_congr fun name hname => iff_congr Iff.rfl ?_
  obtain ⟨answer, stream', d', hget, -, hans⟩ :=
    fat16GetDirectoryEntry_image hS hbytes hres hname hdir hfuel hs d
  rw [hget]
  have hfind : (DirectoryEntry.find blocks.flatten name).isSome ↔
      ∃ e ∈ DirectoryEntry.live blocks.flatten, SameName (DirectoryEntry.name e) name := by
    unfold DirectoryEntry.find
    rw [List.find?_isSome]
    simp only [decide_eq_true_eq]
  rw [← hfind]
  cases answer with
  | inl code =>
    refine iff_of_false ?_ ?_
    · rintro ⟨item, x, ⟨⟩⟩
    · intro h
      obtain ⟨e, he⟩ := Option.isSome_iff_exists.mp h
      rw [he] at hans
      cases hans
  | inr item =>
    refine iff_of_true ⟨item, _, rfl⟩ ?_
    obtain ⟨e, he, -⟩ := Option.map_eq_some_iff.mp hans.symm
    rw [he]
    rfl

end Image

/-- A disk with a directory of two clusters, from cluster `2` on: the first one starts with an end
mark, the second one holds the entry `B`. -/
def endMarkImage (i : ℕ) : UInt8 :=
  if i < 512 then singleFileBoot i
  else if i = 516 then 3
  else if i = 518 ∨ i = 519 then 0xFF
  else if i = 2048 then 0x42
  else 0

theorem endMarkImage_boot : singleFileBpb = FatBootSector.decode (slice endMarkImage 0 512) := by
  decide +kernel

/-- The chain from cluster `3` on has one cluster, and no mark in front of its entry. -/
theorem fat16List_agrees_iff_one_cluster :
    (∃ x, fat16List (imageAta endMarkImage) singleFileBpb 2 3 [] ⟨0, 0⟩ () =
      .ok ((0, [0x42, 0x0A]), x)) ∧
    ∀ name : CString, 0 ∉ name →
      ((∃ e ∈ DirectoryEntry.live (clusterEntries singleFileBpb endMarkImage 3),
          SameName (DirectoryEntry.name e) name) ↔
        ∃ item x, fat16GetDirectoryEntry (imageAta endMarkImage) singleFileBpb 2 3 name ⟨0, 0⟩ () =
          .ok (.inr item, x)) := by
  have hend : singleFileBpb.fatEntry endMarkImage 3 = 0xFFFF := by decide +kernel
  have hdir : DirectoryBlocks singleFileBpb endMarkImage 3
      [clusterEntries singleFileBpb endMarkImage 3] :=
    @DirectoryBlocks.sub singleFileBpb endMarkImage 3 0xFFFF [3] (by decide) ⟨rfl, hend⟩
      (by decide) (by decide)
  have htext : listText ([clusterEntries singleFileBpb endMarkImage 3].flatMap
      DirectoryEntry.live) = [0x42, 0x0A] := by decide +kernel
  obtain ⟨hlist, hagree⟩ := @fat16List_agrees_iff _ _ 0 _ _ (imageAta_holds endMarkImage 0)
    (by decide) endMarkImage_boot 2 3 _ hdir (by decide) ⟨0, 0⟩ rfl ()
  rw [htext] at hlist
  rw [List.flatMap_singleton] at hagree
  exact ⟨hlist, hagree.mpr (noNewNames_root _)⟩

/-- **A listed name that cannot be found**: `B` is printed for the directory at cluster `2`, and
looking it up there stops at the end mark. -/
theorem fat16List_behind_end_mark :
    ((fat16List (imageAta endMarkImage) singleFileBpb 3 2 [] ⟨0, 0⟩ ()).toOption.map fun r => r.1) =
        some (0, [0x42, 0x0A]) ∧
      ((fat16GetDirectoryEntry (imageAta endMarkImage) singleFileBpb 3 2 [0x42] ⟨0, 0⟩
        ()).toOption.map fun r => r.1) = some (.inl (-3)) := by
  decide +kernel

end VibeKernel
