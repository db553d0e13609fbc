import VibeKernel.Tools.InjectFile

/-!
# The image with the file

`inject` on an image with a free root entry and enough free clusters: the clusters it takes are the
first free ones, so they lie in the data area, and its writes are apart from each other and from
everything else that is used. So the new image has the same boot sector, the data in a chain of
clusters, and in the root directory the entry of the file behind entries that are as they were.
-/

namespace VibeKernel

open Verif

/-- A character of a file name. -/
structure IsNameChar (c : UInt8) : Prop where
  ascii : c < 0x80
  no_nul : c ≠ 0
  no_space : c ≠ 0x20
  no_dot : c ≠ 0x2E
  no_slash : c ≠ 0x2F

/-- A name of the form `BASE` or `BASE.EXT`. -/
inductive IsTargetName : List UInt8 → Prop
  | base {base : List UInt8} (hpos : 1 ≤ base.length) (hlen : base.length ≤ 8)
    (hbase : ∀ c ∈ base, IsNameChar c) : IsTargetName base
  | ext {base ext : List UInt8} (hpos : 1 ≤ base.length) (hlen : base.length ≤ 8)
    (hbase : ∀ c ∈ base, IsNameChar c) (hpos' : 1 ≤ ext.length) (hlen' : ext.length ≤ 3)
    (hext : ∀ c ∈ ext, IsNameChar c) : IsTargetName (base ++ 0x2E :: ext)

/-- At least `n` data clusters of the volume are free and have their entries inside the allocation
table. -/
def FreeClusters (bpb : FatBootSector) (img : ℕ → UInt8) (n : ℕ) : Prop :=
  ∃ F : Finset ℕ, n ≤ F.card ∧ ∀ c ∈ F, bpb.HasCluster c ∧ 2 * c + 2 ≤ 512 * bpb.fatSectors ∧
    bpb.fatEntry img c = 0

/-- An image that can take a file of `size` bytes under a name: what the script relies on. -/
structure CanTake (img : ℕ → UInt8) (bpb : FatBootSector) (size : ℕ)
    (name : List UInt8) : Prop where
  boot : FatBootSector.decode (slice img 0 512) = bpb
  accepted : bpb.check = none
  small : bpb.sectors ≤ 8388608
  reserved : 1 ≤ bpb.reservedSectors
  copies : 1 ≤ bpb.fatCopies
  wholeSectors : 512 ∣ 32 * bpb.rootDirEntries
  clusters : FreeClusters bpb img ((size + bpb.clusterSize - 1) / bpb.clusterSize)
  /-- A free root entry, and no live one in front of it has the name. -/
  entry : ∃ i < bpb.rootDirEntries, (img (512 * bpb.rootDirectorySector + 32 * i) = 0x00 ∨
      img (512 * bpb.rootDirectorySector + 32 * i) = 0xE5)
  fresh : ∀ i < bpb.rootDirEntries,
    (∀ j ≤ i, img (512 * bpb.rootDirectorySector + 32 * j) ≠ 0x00 ∧
      img (512 * bpb.rootDirectorySector + 32 * j) ≠ 0xE5) →
    ¬ SameName (DirectoryEntry.name (slice img (512 * bpb.rootDirectorySector + 32 * i) 32)) name

section Geometry

variable {img : ℕ → UInt8} {bpb : FatBootSector}

theorem byteAt_slice {a n i : ℕ} (h : i < n) : byteAt (slice img a n) i = (img (a + i)).toNat := by
  unfold byteAt
  rw [List.getD_eq_getElem?_getD, slice_getElem? img h]
  rfl

theorem le16_slice {a n i : ℕ} (h : i + 1 < n) : le16 (slice img a n) i = unpackH img (a + i) := by
  unfold le16 unpackH
  rw [byteAt_slice (by omega), byteAt_slice h, Nat.add_assoc]

/-- The script and the kernel read the boot sector alike. -/
theorem geometry_read (hboot : FatBootSector.decode (slice img 0 512) = bpb) :
    InjectGeometry.read img = ⟨bpb.bytesPerSector, bpb.sectorsPerCluster, bpb.reservedSectors,
      bpb.fatCopies, bpb.rootDirEntries, bpb.fatSectors⟩ := by
  subst hboot
  unfold InjectGeometry.read FatBootSector.decode
  dsimp only
  rw [le16_slice (by norm_num), byteAt_slice (by norm_num), le16_slice (by norm_num),
    byteAt_slice (by norm_num), le16_slice (by norm_num), le16_slice (by norm_num)]

theorem fatEntry_eq (c : ℕ) :
    bpb.fatEntry img c = unpackH img (512 * bpb.reservedSectors + 2 * c) :=
  le16_slice (by norm_num)

theorem unpackH_packH {n : ℕ} (h : n < 65536) (pos : ℕ) {f : ℕ → UInt8}
    (hf : slice f pos 2 = packH n) : unpackH f pos = n := by
  have hle := @le16_slice f pos 2 0 (by norm_num)
  rw [hf, Nat.add_zero] at hle
  rw [← hle]
  change (UInt8.ofNat (n % 256)).toNat + 256 * (UInt8.ofNat (n / 256)).toNat = n
  rw [UInt8.toNat_ofNat', UInt8.toNat_ofNat']
  omega

end Geometry

/-! ### The clusters -/

section Clusters

variable {img : ℕ → UInt8} {bpb : FatBootSector} {g : InjectGeometry}

/-- The loop takes the first free clusters, as many as are needed. -/
theorem findClusters_eq (needed : ℕ) : ∀ (is found : List ℕ), found.length < needed →
    g.findClusters img needed is found =
      found ++ (is.filter fun i => unpackH img (g.fatStart + 2 * i) = 0).take
        (needed - found.length) := by
  intro is
  induction is with
  | nil =>
    intro found _
    rw [InjectGeometry.findClusters, List.filter_nil, List.take_nil, List.append_nil]
  | cons i is ih =>
    intro found hlt
    rw [InjectGeometry.findClusters]
    by_cases h0 : unpackH img (g.fatStart + 2 * i) = 0
    · rw [if_pos h0, List.filter_cons, if_pos (decide_eq_true h0)]
      have hlen : (found ++ [i]).length = found.length + 1 := by
        rw [List.length_append, List.length_singleton]
      obtain ⟨m, hm⟩ : ∃ m, needed - found.length = m + 1 := ⟨needed - found.length - 1, by omega⟩
      rw [hm, List.take_succ_cons, hlen]
      by_cases hfull : found.length + 1 = needed
      · rw [if_pos hfull, show m = 0 by omega, List.take_zero]
      · rw [if_neg hfull, ih _ (by rw [hlen]; omega), hlen, List.append_assoc,
          show needed - (found.length + 1) = m by omega]
        rfl
    · rw [if_neg h0, List.filter_cons, if_neg fun h => h0 (of_decide_eq_true h)]
      exact ih found hlt

/-- The free clusters in the order in which the script finds them. -/
def freeList (bpb : FatBootSector) (img : ℕ → UInt8) : List ℕ :=
  (List.range' 2 65534).filter fun c => bpb.fatEntry img c = 0

theorem freeList_sorted : (freeList bpb img).Pairwise (· < ·) :=
  (List.pairwise_lt_range' (s := 2) (n := 65534)).filter _

/-- **The clusters that are taken.** -/
structure TakenClusters (bpb : FatBootSector) (needed : ℕ) (clusters : List ℕ) : Prop where
  length : clusters.length = needed
  sorted : clusters.Pairwise (· < ·)
  inside : ∀ c ∈ clusters, bpb.HasCluster c
  table : ∀ c ∈ clusters, 2 * c + 2 ≤ 512 * bpb.fatSectors

/-- The first free clusters are data clusters, if there are enough of them: each is at most the last
of these. -/
theorem taken_of_free {n : ℕ} (hfree : FreeClusters bpb img n) :
    TakenClusters bpb n ((freeList bpb img).take n) := by
  obtain ⟨F, hcard, hF⟩ := hfree
  have hsorted := @freeList_sorted img bpb
  have hmem : ∀ c ∈ F, c ∈ freeList bpb img := by
    intro c hc
    obtain ⟨⟨h2, hmax, -⟩, -, h0⟩ := hF c hc
    refine List.mem_filter.mpr ⟨List.mem_range'_1.mpr ⟨h2, by omega⟩, decide_eq_true h0⟩
  have hlen : n ≤ (freeList bpb img).length := by
    have hsub : F ⊆ (freeList bpb img).toFinset := fun c hc => List.mem_toFinset.mpr (hmem c hc)
    exact hcard.trans ((Finset.card_le_card hsub).trans (List.toFinset_card_le _))
  -- a cluster among the first `n` is not larger than all the data clusters
  have hbelow : ∀ c ∈ (freeList bpb img).take n, ∃ c' ∈ F, c ≤ c' := by
    intro c hc
    by_contra hall
    push Not at hall
    obtain ⟨j, hj, rfl⟩ := List.mem_iff_getElem.mp hc
    rw [List.length_take] at hj
    have hsub : F ⊆ ((freeList bpb img).take j).toFinset := by
      intro x hx
      obtain ⟨i, hi, rfl⟩ := List.mem_iff_getElem.mp (hmem x hx)
      have hlt := hall _ hx
      rw [List.getElem_take] at hlt
      have hij : i < j := by
        by_contra hge
        rcases Nat.lt_or_eq_of_le (Nat.not_lt.mp hge) with hji | rfl
        · exact absurd hlt (Nat.not_lt.mpr
            (List.pairwise_iff_getElem.mp hsorted j i (by omega) hi hji).le)
        · exact absurd hlt (lt_irrefl _)
      exact List.mem_toFinset.mpr (List.mem_iff_getElem.mpr
        ⟨i, by rw [List.length_take]; omega, List.getElem_take⟩)
    have hle := (Finset.card_le_card hsub).trans (List.toFinset_card_le _)
    rw [List.length_take] at hle
    omega
  have hlow : ∀ c ∈ (freeList bpb img).take n, 2 ≤ c := fun c hc =>
    (List.mem_range'_1.mp (List.mem_of_mem_filter (List.mem_of_mem_take hc))).1
  refine ⟨?_, hsorted.sublist (List.take_sublist _ _), fun c hc => ?_, fun c hc => ?_⟩
  · rw [List.length_take, min_eq_left hlen]
  · obtain ⟨c', hc', hle⟩ := hbelow c hc
    obtain ⟨⟨-, hmax, hend⟩, -, -⟩ := hF c' hc'
    have hmul : (c - 2) * bpb.sectorsPerCluster ≤ (c' - 2) * bpb.sectorsPerCluster :=
      Nat.mul_le_mul_right _ (by omega)
    exact ⟨hlow c hc, by omega, by omega⟩
  · obtain ⟨c', hc', hle⟩ := hbelow c hc
    have htable := (hF c' hc').2.1
    omega

theorem TakenClusters.getD_mem {needed : ℕ} {clusters : List ℕ}
    (hT : TakenClusters bpb needed clusters) {i : ℕ} (hi : i < needed) :
    clusters.getD i 0 ∈ clusters := by
  rw [List.getD_eq_getElem _ _ (by rw [hT.length]; exact hi)]
  exact List.getElem_mem _

theorem TakenClusters.getD_lt {needed : ℕ} {clusters : List ℕ}
    (hT : TakenClusters bpb needed clusters) {i j : ℕ} (hij : i < j) (hj : j < needed) :
    clusters.getD i 0 < clusters.getD j 0 := by
  have hlen := hT.length
  rw [List.getD_eq_getElem _ _ (by omega), List.getD_eq_getElem _ _ (by omega)]
  exact List.pairwise_iff_getElem.mp hT.sorted i j _ _ hij

end Clusters

/-! ### The writes -/

/-- The fields of the boot sector as the script names them. -/
def geometry (bpb : FatBootSector) : InjectGeometry :=
  ⟨bpb.bytesPerSector, bpb.sectorsPerCluster, bpb.reservedSectors, bpb.fatCopies,
    bpb.rootDirEntries, bpb.fatSectors⟩

/-- The write of the directory entry. -/
def entryWrite (bpb : FatBootSector) (idx : ℕ) (entry : List UInt8) : Write UInt8 :=
  ⟨(geometry bpb).rootStart + idx * 32, entry⟩

section Writes

variable {bpb : FatBootSector} {needed idx : ℕ} {clusters : List ℕ} {data entry : List UInt8}

/-- What the layout of an image says about the positions of the script. -/
structure Positions (bpb : FatBootSector) : Prop where
  fatStart : (geometry bpb).fatStart = 512 * bpb.reservedSectors
  fatSize : ∀ k, k * (geometry bpb).sectorsPerFat * (geometry bpb).bytesPerSector =
    k * (512 * bpb.fatSectors)
  rootStart : (geometry bpb).rootStart = 512 * bpb.rootDirectorySector
  dataStart : (geometry bpb).dataStart = 512 * bpb.firstDataSector
  clusterSize : (geometry bpb).clusterSize = bpb.clusterSize
  clusterPos : ∀ c, (geometry bpb).dataStart +
    (c - 2) * (geometry bpb).sectorsPerCluster * (geometry bpb).bytesPerSector = bpb.clusterPos c

/-- The tables and the root directory start where the kernel looks for them. -/
theorem starts_of (hacc : bpb.check = none) :
    (geometry bpb).fatStart = 512 * bpb.reservedSectors ∧
      (geometry bpb).rootStart = 512 * bpb.rootDirectorySector := by
  have hbytes : bpb.bytesPerSector = 512 := (FatBootSector.accepted_iff.mp hacc).2.2.1
  have hfat : (geometry bpb).fatStart = 512 * bpb.reservedSectors := by
    unfold InjectGeometry.fatStart geometry
    rw [hbytes, Nat.mul_comm]
  refine ⟨hfat, ?_⟩
  unfold InjectGeometry.rootStart
  rw [hfat]
  unfold FatBootSector.rootDirectorySector geometry
  rw [hbytes]
  ring

theorem positions_of (hacc : bpb.check = none) (hwhole : 512 ∣ 32 * bpb.rootDirEntries) :
    Positions bpb := by
  have hbytes : bpb.bytesPerSector = 512 := (FatBootSector.accepted_iff.mp hacc).2.2.1
  obtain ⟨hfat, hroot⟩ := starts_of hacc
  have hdata : (geometry bpb).dataStart = 512 * bpb.firstDataSector := by
    unfold InjectGeometry.dataStart
    rw [hroot]
    unfold FatBootSector.firstDataSector FatBootSector.rootDirectorySector geometry
    rw [hbytes]
    dsimp only
    omega
  refine ⟨hfat, fun k => ?_, hroot, hdata, ?_, fun c => ?_⟩
  · unfold geometry
    rw [hbytes]
    ring
  · rfl
  · rw [hdata]
    unfold FatBootSector.clusterPos geometry
    rw [hbytes]
    ring

theorem mem_fatWrites {w : Write UInt8} (h : w ∈ (geometry bpb).fatWrites clusters needed) :
    ∃ k < bpb.fatCopies, ∃ i < needed, w = ⟨(geometry bpb).fatStart +
      k * (geometry bpb).sectorsPerFat * (geometry bpb).bytesPerSector + clusters.getD i 0 * 2,
      if i + 1 = needed then packH 0xFFFF else packH (clusters.getD (i + 1) 0)⟩ := by
  obtain ⟨k, hk, h⟩ := List.mem_flatMap.mp h
  obtain ⟨i, hi, rfl⟩ := List.mem_map.mp h
  exact ⟨k, List.mem_range.mp hk, i, List.mem_range.mp hi, rfl⟩

theorem fatLink_length (n m : ℕ) :
    (if n = m then packH 0xFFFF else packH (clusters.getD n 0)).length = 2 := by
  split <;> rfl

/-- The writes to the allocation tables stay in front of the root directory, each in its copy. -/
theorem fatWrites_span (hP : Positions bpb) (hT : TakenClusters bpb needed clusters)
    {w : Write UInt8} (h : w ∈ (geometry bpb).fatWrites clusters needed) :
    512 * bpb.reservedSectors ≤ w.span.start ∧ w.span.stop ≤ 512 * bpb.rootDirectorySector := by
  obtain ⟨k, hk, i, hi, rfl⟩ := mem_fatWrites h
  have htable := hT.table _ (hT.getD_mem hi)
  unfold Write.span Span.stop
  dsimp only
  rw [fatLink_length, hP.fatStart, hP.fatSize]
  have hmul : k * (512 * bpb.fatSectors) + 512 * bpb.fatSectors ≤
      bpb.fatCopies * (512 * bpb.fatSectors) := by
    rw [← Nat.succ_mul]
    exact Nat.mul_le_mul_right _ hk
  have hroot : 512 * bpb.rootDirectorySector =
      512 * bpb.reservedSectors + bpb.fatCopies * (512 * bpb.fatSectors) := by
    unfold FatBootSector.rootDirectorySector
    ring
  omega

theorem dataWrite_length (i : ℕ) :
    ((data.drop (i * (geometry bpb).clusterSize)).take
      (min (i * (geometry bpb).clusterSize + (geometry bpb).clusterSize) data.length -
        i * (geometry bpb).clusterSize)).length =
      min (i * (geometry bpb).clusterSize + (geometry bpb).clusterSize) data.length -
        i * (geometry bpb).clusterSize := by
  rw [List.length_take, List.length_drop]
  omega

/-- The write to the `i`-th cluster stays in the cluster. -/
theorem dataWrites_span (hP : Positions bpb) {w : Write UInt8}
    (h : w ∈ (geometry bpb).dataWrites clusters needed data) :
    ∃ i < needed, w.span.start = bpb.clusterPos (clusters.getD i 0) ∧
      w.span.stop ≤ bpb.clusterPos (clusters.getD i 0) + bpb.clusterSize := by
  obtain ⟨i, hi, rfl⟩ := List.mem_map.mp h
  refine ⟨i, List.mem_range.mp hi, hP.clusterPos _, ?_⟩
  unfold Write.span Span.stop
  dsimp only
  rw [dataWrite_length, hP.clusterPos, hP.clusterSize]
  omega

theorem clusterPos_add_le {c c' : ℕ} (hc : 2 ≤ c) (h : c < c')
    (hsize : bpb.clusterSize = 512 * bpb.sectorsPerCluster) :
    bpb.clusterPos c + bpb.clusterSize ≤ bpb.clusterPos c' := by
  have hmul : (c - 2 + 1) * bpb.sectorsPerCluster ≤ (c' - 2) * bpb.sectorsPerCluster :=
    Nat.mul_le_mul_right _ (by omega)
  rw [Nat.add_mul] at hmul
  unfold FatBootSector.clusterPos
  omega

/-- **The writes are apart from each other.** -/
theorem writes_apart (hP : Positions bpb) (hsize : bpb.clusterSize = 512 * bpb.sectorsPerCluster)
    (hT : TakenClusters bpb needed clusters) (hidx : idx < bpb.rootDirEntries)
    (hentry : entry.length ≤ 32) :
    ((geometry bpb).fatWrites clusters needed ++ (geometry bpb).dataWrites clusters needed data ++
      [entryWrite bpb idx entry]).Pairwise fun w w' => w.span.Apart w'.span := by
  have hdata : 512 * bpb.rootDirectorySector + bpb.rootDirEntries * 32 =
      512 * bpb.firstDataSector := by
    rw [← hP.rootStart, ← hP.dataStart]
    rfl
  have hentrySpan : (entryWrite bpb idx entry).span =
      ⟨512 * bpb.rootDirectorySector + idx * 32, entry.length⟩ := by
    unfold entryWrite Write.span
    rw [hP.rootStart]
  have hclusters : ∀ i < needed, 512 * bpb.firstDataSector ≤
      bpb.clusterPos (clusters.getD i 0) := by
    intro i _
    unfold FatBootSector.clusterPos
    omega
  have hfatApart : ((geometry bpb).fatWrites clusters needed).Pairwise
      fun w w' => w.span.Apart w'.span := by
    refine List.pairwise_flatMap.mpr ⟨fun k _ => ?_, ?_⟩
    · -- in one copy the entries are those of different clusters
      refine List.pairwise_map.mpr (List.pairwise_lt_range.imp_of_mem fun {i j} hi hj hij => ?_)
      have hlt := hT.getD_lt hij (List.mem_range.mp hj)
      unfold Write.span Span.Apart Span.stop
      dsimp only
      rw [fatLink_length]
      omega
    · -- the copies lie one behind the other
      refine List.pairwise_lt_range.imp fun {k l} hkl w hw w' hw' => ?_
      obtain ⟨i, hi, rfl⟩ := List.mem_map.mp hw
      obtain ⟨j, hj, rfl⟩ := List.mem_map.mp hw'
      have htable := hT.table _ (hT.getD_mem (List.mem_range.mp hi))
      have hmul : (k + 1) * (512 * bpb.fatSectors) ≤ l * (512 * bpb.fatSectors) :=
        Nat.mul_le_mul_right _ hkl
      rw [Nat.add_mul] at hmul
      unfold Write.span Span.Apart Span.stop
      dsimp only
      rw [fatLink_length, hP.fatSize, hP.fatSize]
      omega
  have hdataApart : ((geometry bpb).dataWrites clusters needed data).Pairwise
      fun w w' => w.span.Apart w'.span := by
    refine List.pairwise_map.mpr (List.pairwise_lt_range.imp_of_mem fun {i j} hi hj hij => ?_)
    have hlt := hT.getD_lt hij (List.mem_range.mp hj)
    have hle := clusterPos_add_le (hT.inside _ (hT.getD_mem (List.mem_range.mp hi))).1 hlt hsize
    unfold Write.span Span.Apart Span.stop
    dsimp only
    rw [dataWrite_length, hP.clusterPos, hP.clusterPos, hP.clusterSize]
    omega
  refine List.pairwise_append.mpr ⟨List.pairwise_append.mpr ⟨hfatApart, hdataApart, ?_⟩,
    List.pairwise_singleton _ _, ?_⟩
  · intro w hw w' hw'
    have hfat := fatWrites_span hP hT hw
    obtain ⟨i, hi, hstart, -⟩ := dataWrites_span hP hw'
    have := hclusters i hi
    unfold Span.Apart
    omega
  · intro w hw w' hw'
    rw [List.mem_singleton.mp hw', hentrySpan]
    unfold Span.Apart Span.stop
    dsimp only
    rcases List.mem_append.mp hw with hw | hw
    · have hfat := fatWrites_span hP hT hw
      unfold Span.stop at hfat
      omega
    · obtain ⟨i, hi, hstart, -⟩ := dataWrites_span hP hw
      have := hclusters i hi
      omega

end Writes

/-! ### The directory entry -/

section Entry

theorem toNat_toupper (c : UInt8) : (toupper c).toNat =
    if 0x61 ≤ c.toNat ∧ c.toNat ≤ 0x7A then c.toNat - 32 else c.toNat := by
  unfold toupper
  have hiff : (0x61 ≤ c ∧ c ≤ 0x7A) ↔ 0x61 ≤ c.toNat ∧ c.toNat ≤ 0x7A := by
    rw [UInt8.le_iff_toNat_le, UInt8.le_iff_toNat_le]
    rfl
  by_cases h : 0x61 ≤ c ∧ c ≤ 0x7A
  · rw [if_pos h, if_pos (hiff.mp h), UInt8.toNat_sub_of_le]
    · rfl
    · rw [UInt8.le_iff_toNat_le]
      have := (hiff.mp h).1
      change 32 ≤ c.toNat
      omega
  · rw [if_neg h, if_neg fun h' => h (hiff.mpr h')]

theorem toupper_toupper (c : UInt8) : toupper (toupper c) = toupper c := by
  refine UInt8.toNat_inj.mp ?_
  rw [toNat_toupper, toNat_toupper]
  split_ifs <;> omega

/-- A character other than a letter is not what a letter becomes. -/
theorem toupper_eq_iff {c b : UInt8} (hb : b.toNat < 0x41 ∨ 0x7A < b.toNat) :
    toupper c = b ↔ c = b := by
  rw [← UInt8.toNat_inj, ← UInt8.toNat_inj, toNat_toupper]
  split_ifs <;> omega

theorem IsNameChar.toupper {c : UInt8} (h : IsNameChar c) : IsNameChar (toupper c) where
  ascii := by
    have hc := UInt8.lt_iff_toNat_lt.mp h.ascii
    rw [UInt8.lt_iff_toNat_lt, toNat_toupper]
    change c.toNat < 128 at hc
    change _ < 128
    split_ifs <;> omega
  no_nul := fun h0 => h.no_nul ((toupper_eq_iff (by decide)).mp h0)
  no_space := fun h0 => h.no_space ((toupper_eq_iff (by decide)).mp h0)
  no_dot := fun h0 => h.no_dot ((toupper_eq_iff (by decide)).mp h0)
  no_slash := fun h0 => h.no_slash ((toupper_eq_iff (by decide)).mp h0)

theorem map_toupper_nameChar {l : List UInt8} (h : ∀ c ∈ l, IsNameChar c) :
    ∀ c ∈ l.map toupper, IsNameChar c := by
  intro c hc
  obtain ⟨b, hb, rfl⟩ := List.mem_map.mp hc
  exact (h b hb).toupper

theorem takeWhile_no_dot {l : List UInt8} (h : ∀ c ∈ l, IsNameChar c) :
    l.takeWhile (fun c => decide (c ≠ 0x2E)) = l :=
  List.takeWhile_eq_self_iff.mpr fun c hc => decide_eq_true (h c hc).no_dot

/-- The two parts of a target name, in upper case. -/
theorem IsTargetName.parts {name : List UInt8} (h : IsTargetName name) :
    ∃ base ext : List UInt8, targetBase name = base ∧ targetExt name = ext ∧
      1 ≤ base.length ∧ base.length ≤ 8 ∧ ext.length ≤ 3 ∧ (∀ c ∈ base, IsNameChar c) ∧
      (∀ c ∈ ext, IsNameChar c) ∧
      name.map toupper = base ++ if ext = [] then [] else 0x2E :: ext := by
  cases h with
  | base hpos hlen hbase =>
    have hup := map_toupper_nameChar hbase
    refine ⟨_, [], rfl, ?_, ?_⟩
    · unfold targetExt
      rw [List.dropWhile_eq_nil_iff.mpr fun c hc => decide_eq_true (hup c hc).no_dot]
      rfl
    · unfold targetBase
      rw [takeWhile_no_dot hup, List.length_map]
      exact ⟨hpos, hlen, by norm_num, hup, by simp, by simp⟩
  | @ext base ext hpos hlen hbase hpos' hlen' hext =>
    have hup := map_toupper_nameChar hbase
    have hupe := map_toupper_nameChar hext
    have hmap : (base ++ 0x2E :: ext).map toupper = base.map toupper ++
        0x2E :: ext.map toupper := by
      rw [List.map_append, List.map_cons]
      rfl
    have hpass : ∀ c ∈ base.map toupper, (decide (c ≠ 0x2E)) = true := fun c hc =>
      decide_eq_true (hup c hc).no_dot
    have hne : ext.map toupper ≠ [] := by
      rw [Ne, List.map_eq_nil_iff]
      rintro rfl
      exact absurd hpos' (by norm_num)
    refine ⟨base.map toupper, ext.map toupper, ?_, ?_, ?_⟩
    · unfold targetBase
      rw [hmap, List.takeWhile_append_of_pos hpass, List.takeWhile_cons_of_neg (by decide),
        List.append_nil]
    · unfold targetExt
      rw [hmap, List.dropWhile_append_of_pos hpass, List.dropWhile_cons_of_neg (by decide)]
      exact takeWhile_no_dot hupe
    · rw [List.length_map, List.length_map, if_neg hne]
      exact ⟨hpos, hlen, hlen', hup, hupe, hmap⟩

theorem ljust_length (s : List UInt8) (n : ℕ) : (ljust s n).length = n := by
  unfold ljust
  rw [List.length_take, List.length_append, List.length_replicate]
  omega

/-- Padding is cut off again. -/
theorem properString_ljust {s : List UInt8} {n : ℕ} (hlen : s.length ≤ n)
    (hs : ∀ c ∈ s, IsNameChar c) : fat16ToProperString (ljust s n) = s := by
  unfold ljust fat16ToProperString
  rw [List.take_of_length_le (by rw [List.length_append, List.length_replicate]; omega),
    List.takeWhile_append_of_pos fun c hc => decide_eq_true ⟨(hs c hc).no_nul, (hs c hc).no_space⟩]
  cases n - s.length with
  | zero => exact List.append_nil _
  | succ m => exact List.append_nil _

theorem byteAt_append {a b : List UInt8} {i : ℕ} (h : a.length ≤ i) :
    byteAt (a ++ b) i = byteAt b (i - a.length) := by
  unfold byteAt
  rw [List.getD_eq_getElem?_getD, List.getD_eq_getElem?_getD, List.getElem?_append_right h]

/-- The item that the kernel reads from the entry. -/
theorem decode_injectEntry {name : List UInt8} {first size : ℕ} (hfirst : first < 65536)
    (hsize : size < 4294967296) :
    FatDirectoryItem.decode (injectEntry name first size) =
      { filename := ljust (targetBase name) 8
        ext := ljust (targetExt name) 3
        attrib := 0x20
        low16BitsFirstCluster := first
        filesize := size } := by
  have hb := ljust_length (targetBase name) 8
  have he := ljust_length (targetExt name) 3
  have hassoc : injectEntry name first size = ljust (targetBase name) 8 ++
      (ljust (targetExt name) 3 ++ ([0x20] ++ List.replicate 10 0 ++ packH 0 ++ packH 0 ++
        packH first ++ packI size)) := by
    unfold injectEntry
    simp only [List.append_assoc]
  generalize ljust (targetBase name) 8 = base at hb hassoc ⊢
  generalize ljust (targetExt name) 3 = ext at he hassoc ⊢
  -- behind the name everything is at a fixed place
  have hbyte : ∀ i, 11 ≤ i → byteAt (injectEntry name first size) i =
      byteAt ([0x20] ++ List.replicate 10 0 ++ packH 0 ++ packH 0 ++ packH first ++ packI size)
        (i - 11) := by
    intro i hi
    rw [hassoc, byteAt_append (by omega), byteAt_append (by omega), hb, he, Nat.sub_sub]
  unfold FatDirectoryItem.decode le32 le16
  rw [hbyte 11 (by norm_num), hbyte 26 (by norm_num), hbyte (26 + 1) (by norm_num),
    hbyte 28 (by norm_num), hbyte (28 + 1) (by norm_num), hbyte (28 + 2) (by norm_num),
    hbyte (28 + 2 + 1) (by norm_num), hassoc]
  congr 1
  · rw [List.take_left' hb]
  · rw [List.drop_left' hb, List.take_left' he]
  · change (UInt8.ofNat (first % 256)).toNat + 256 * (UInt8.ofNat (first / 256)).toNat = first
    rw [UInt8.toNat_ofNat', UInt8.toNat_ofNat']
    omega
  · change (UInt8.ofNat (size % 65536 % 256)).toNat +
      256 * (UInt8.ofNat (size % 65536 / 256)).toNat +
      65536 * ((UInt8.ofNat (size / 65536 % 256)).toNat +
        256 * (UInt8.ofNat (size / 65536 / 256)).toNat) = size
    simp only [UInt8.toNat_ofNat']
    omega

theorem injectEntry_length (name : List UInt8) (first size : ℕ) :
    (injectEntry name first size).length = 32 := by
  unfold injectEntry
  simp only [List.length_append, ljust_length, List.length_replicate]
  rfl

/-- The entry has the name of the file, and is neither an end mark nor deleted. -/
theorem injectEntry_named {name : List UInt8} (hname : IsTargetName name) {first size : ℕ}
    (hfirst : first < 65536) (hsize : size < 4294967296) :
    DirectoryEntry.name (injectEntry name first size) = name.map toupper ∧
      ¬ DirectoryEntry.IsEnd (injectEntry name first size) ∧
      ¬ DirectoryEntry.IsDeleted (injectEntry name first size) := by
  obtain ⟨base, ext, hb, he, hpos, hlen, hlen', hbase, hext, hmap⟩ := hname.parts
  constructor
  · unfold DirectoryEntry.name
    rw [decode_injectEntry hfirst hsize, hb, he]
    unfold fat16GetFullRelativeFilename
    dsimp only
    rw [properString_ljust hlen hbase, properString_ljust hlen' hext, hmap]
    congr 1
    cases ext with
    | nil => rfl
    | cons c ext =>
      have hc := hext c List.mem_cons_self
      have hhead : (ljust (c :: ext) 3).headD 0 = c := rfl
      rw [hhead, if_pos ⟨hc.no_nul, hc.no_space⟩, if_neg (List.cons_ne_nil _ _)]
  · -- the first byte is the first character of the name
    obtain ⟨c, rest, rfl⟩ : ∃ c rest, base = c :: rest := by
      cases base with
      | nil => exact absurd hpos (by norm_num)
      | cons c rest => exact ⟨c, rest, rfl⟩
    have hc := hbase c List.mem_cons_self
    have hfirst : byteAt (injectEntry name first size) 0 = c.toNat := by
      unfold injectEntry
      rw [hb]
      rfl
    unfold DirectoryEntry.IsEnd DirectoryEntry.IsDeleted
    rw [hfirst]
    refine ⟨fun h => hc.no_nul (UInt8.toNat_inj.mp h), fun h => ?_⟩
    have hascii := UInt8.lt_iff_toNat_lt.mp hc.ascii
    change c.toNat < 128 at hascii
    omega

end Entry

/-! ### The new image -/

/-- The image `img'` is `img` with the data in the given clusters and the entry at `idx`. -/
structure Injected (img img' : ℕ → UInt8) (bpb : FatBootSector) (data name : List UInt8)
    (clusters : List ℕ) (idx : ℕ) : Prop where
  taken : TakenClusters bpb ((data.length + bpb.clusterSize - 1) / bpb.clusterSize) clusters
  boot : FatBootSector.decode (slice img' 0 512) = bpb
  linked : ∀ i, i + 1 < clusters.length →
    bpb.fatEntry img' (clusters.getD i 0) = clusters.getD (i + 1) 0
  filled : ∀ i r, i < clusters.length → r < bpb.clusterSize →
    (h : i * bpb.clusterSize + r < data.length) →
    img' (bpb.clusterPos (clusters.getD i 0) + r) = data[i * bpb.clusterSize + r]
  idx_lt : idx < bpb.rootDirEntries
  entry : slice img' (512 * bpb.rootDirectorySector + 32 * idx) 32 =
    injectEntry name (clusters.getD 0 0) data.length
  before : ∀ j < idx, slice img' (512 * bpb.rootDirectorySector + 32 * j) 32 =
    slice img (512 * bpb.rootDirectorySector + 32 * j) 32
  live : ∀ j < idx, img (512 * bpb.rootDirectorySector + 32 * j) ≠ 0x00 ∧
    img (512 * bpb.rootDirectorySector + 32 * j) ≠ 0xE5

section Result

variable {img : ℕ → UInt8} {bpb : FatBootSector} {data name : List UInt8}

theorem clustersNeeded_pos (hdata : data ≠ []) (hcs : 0 < bpb.clusterSize) :
    0 < (data.length + bpb.clusterSize - 1) / bpb.clusterSize := by
  have hpos := List.length_pos_iff.mpr hdata
  exact Nat.div_pos (by omega) hcs

/-- The script succeeds, with the first free clusters and the first free entry. -/
theorem inject_eq (hC : CanTake img bpb data.length name) (hdata : data ≠ []) :
    ∃ clusters idx, TakenClusters bpb
      ((data.length + bpb.clusterSize - 1) / bpb.clusterSize) clusters ∧
      idx < bpb.rootDirEntries ∧
      (∀ j < idx, img (512 * bpb.rootDirectorySector + 32 * j) ≠ 0x00 ∧
        img (512 * bpb.rootDirectorySector + 32 * j) ≠ 0xE5) ∧
      inject img data name = some (applyWrites img
        ((geometry bpb).fatWrites clusters
          ((data.length + bpb.clusterSize - 1) / bpb.clusterSize) ++
          (geometry bpb).dataWrites clusters ((data.length + bpb.clusterSize - 1) / bpb.clusterSize)
            data ++
          [entryWrite bpb idx (injectEntry name (clusters.getD 0 0) data.length)])) := by
  have hacc := FatBootSector.accepted_iff.mp hC.accepted
  have hP := positions_of hC.accepted hC.wholeSectors
  have hcs : 0 < bpb.clusterSize := by
    unfold FatBootSector.clusterSize
    rw [hacc.2.2.1]
    omega
  have hpos := clustersNeeded_pos hdata hcs
  have hT := taken_of_free hC.clusters
  set needed := (data.length + bpb.clusterSize - 1) / bpb.clusterSize with hneeded
  have hfind : (geometry bpb).findClusters img needed (List.range' 2 65534) [] =
      (freeList bpb img).take needed := by
    rw [findClusters_eq needed _ [] hpos, List.nil_append, List.length_nil, Nat.sub_zero]
    unfold freeList
    congr 1
    refine List.filter_congr fun c _ => ?_
    rw [fatEntry_eq, hP.fatStart]
  -- the first free entry
  obtain ⟨idx, hidx⟩ : ∃ idx, (geometry bpb).entryIdx img = some idx := by
    obtain ⟨i, hi, hfree⟩ := hC.entry
    unfold InjectGeometry.entryIdx
    rw [hP.rootStart]
    cases h : (List.range (geometry bpb).rootEntries).find? fun i =>
        img (512 * bpb.rootDirectorySector + 32 * i) = 0x00 ∨
          img (512 * bpb.rootDirectorySector + 32 * i) = 0xE5 with
    | some idx => exact ⟨idx, rfl⟩
    | none =>
      exact absurd (decide_eq_true hfree) (List.find?_eq_none.mp h i (List.mem_range.mpr hi))
  have hspec := hidx
  unfold InjectGeometry.entryIdx at hspec
  rw [hP.rootStart, List.find?_range_eq_some] at hspec
  refine ⟨(freeList bpb img).take needed, idx, hT, List.mem_range.mp hspec.2.1, ?_, ?_⟩
  · intro j hj
    have h := hspec.2.2 j hj
    simpa using h
  · have hn : (geometry bpb).clustersNeeded data.length = needed := by
      unfold InjectGeometry.clustersNeeded
      rw [hP.clusterSize]
    have hg : InjectGeometry.read img = geometry bpb := geometry_read hC.boot
    simp only [inject, hg, hidx, hn, hfind]
    rw [if_neg (by rw [hT.length]; exact lt_irrefl _)]
    have hlen := hT.length
    generalize (freeList bpb img).take needed = clusters at hlen ⊢
    cases clusters with
    | nil =>
      rw [List.length_nil] at hlen
      omega
    | cons first rest => rfl

/-- **What the script leaves.** -/
theorem inject_spec (hC : CanTake img bpb data.length name) (hdata : data ≠ []) :
    ∃ img' clusters idx, inject img data name = some img' ∧
      Injected img img' bpb data name clusters idx := by
  -- what the scans of the tool find
  obtain ⟨clusters, idx, hT, hidx, hlive, hinject⟩ := inject_eq hC hdata
  have hacc := FatBootSector.accepted_iff.mp hC.accepted
  have hP := positions_of hC.accepted hC.wholeSectors
  have hsize : bpb.clusterSize = 512 * bpb.sectorsPerCluster := by
    unfold FatBootSector.clusterSize
    rw [hacc.2.2.1, Nat.mul_comm]
  set needed := (data.length + bpb.clusterSize - 1) / bpb.clusterSize with hneeded
  set entry := injectEntry name (clusters.getD 0 0) data.length with hentry
  have hapart := @writes_apart bpb _ _ _ data _ hP hsize hT hidx
    (injectEntry_length name (clusters.getD 0 0) data.length).le
  rw [← hentry] at hapart
  -- the tool writes the table entries, the data and the directory entry, which lie apart
  set ws := (geometry bpb).fatWrites clusters needed ++
      (geometry bpb).dataWrites clusters needed data ++
    [entryWrite bpb idx entry] with hws
  have hlen := hT.length
  have hfat : ∀ w ∈ (geometry bpb).fatWrites clusters needed, w ∈ ws := fun w hw =>
    List.mem_append_left _ (List.mem_append_left _ hw)
  have hdat : ∀ w ∈ (geometry bpb).dataWrites clusters needed data, w ∈ ws := fun w hw =>
    List.mem_append_left _ (List.mem_append_right _ hw)
  have hent : entryWrite bpb idx entry ∈ ws := List.mem_append_right _ (List.mem_singleton.mpr rfl)
  have hentrySpan : (entryWrite bpb idx entry).span =
      ⟨512 * bpb.rootDirectorySector + idx * 32, 32⟩ := by
    unfold entryWrite Write.span
    rw [hP.rootStart, hentry, injectEntry_length]
  -- in this order on the disk: reserved sectors, tables, root directory, data
  have hdataStart : ∀ c, 512 * bpb.rootDirectorySector + bpb.rootDirEntries * 32 ≤
      bpb.clusterPos c := by
    intro c
    have h : (geometry bpb).dataStart = (geometry bpb).rootStart + bpb.rootDirEntries * 32 := rfl
    rw [hP.dataStart, hP.rootStart] at h
    unfold FatBootSector.clusterPos
    omega
  have hrootStart : 512 * bpb.reservedSectors ≤ 512 * bpb.rootDirectorySector := by
    unfold FatBootSector.rootDirectorySector
    omega
  have hreserved := hC.reserved
  refine ⟨applyWrites img ws, clusters, idx, hinject, hT, ?_, ?_, ?_, hidx, ?_, ?_, hlive⟩
  · -- no write touches the boot sector
    rw [slice_applyWrites_other, hC.boot]
    intro w hw
    unfold Span.Apart Span.stop
    dsimp only
    rcases List.mem_append.mp hw with hw | hw
    · rcases List.mem_append.mp hw with hw | hw
      · have := (fatWrites_span hP hT hw).1
        omega
      · obtain ⟨i, hi, hstart, -⟩ := dataWrites_span hP hw
        have := hdataStart (clusters.getD i 0)
        omega
    · rw [List.mem_singleton.mp hw, hentrySpan]
      dsimp only
      omega
  · -- the entries in the first copy of the table
    intro i hi
    rw [hlen] at hi
    have hmem : (⟨(geometry bpb).fatStart + 0 * (geometry bpb).sectorsPerFat *
        (geometry bpb).bytesPerSector + clusters.getD i 0 * 2,
        if i + 1 = needed then packH 0xFFFF else packH (clusters.getD (i + 1) 0)⟩ : Write UInt8) ∈
        (geometry bpb).fatWrites clusters needed :=
      List.mem_flatMap.mpr ⟨0, List.mem_range.mpr hC.copies,
        List.mem_map.mpr ⟨i, List.mem_range.mpr (by omega), rfl⟩⟩
    have hwrite := slice_applyWrites (f := img) hapart (hfat _ hmem)
    rw [if_neg (by omega)] at hwrite
    have hmax := (hT.inside _ (hT.getD_mem (i := i + 1) (by omega))).2.1
    rw [fatEntry_eq]
    refine unpackH_packH (by omega) _ ?_
    rw [show 512 * bpb.reservedSectors + 2 * clusters.getD i 0 = (geometry bpb).fatStart +
      0 * (geometry bpb).sectorsPerFat * (geometry bpb).bytesPerSector + clusters.getD i 0 * 2 by
        rw [hP.fatStart]; ring]
    exact hwrite
  · -- the clusters hold the data
    intro i r hi hr h
    rw [hlen] at hi
    have hmem : (⟨(geometry bpb).dataStart +
        (clusters.getD i 0 - 2) * (geometry bpb).sectorsPerCluster * (geometry bpb).bytesPerSector,
        (data.drop (i * (geometry bpb).clusterSize)).take
          (min (i * (geometry bpb).clusterSize + (geometry bpb).clusterSize) data.length -
            i * (geometry bpb).clusterSize)⟩ : Write UInt8) ∈
        (geometry bpb).dataWrites clusters needed data :=
      List.mem_map.mpr ⟨i, List.mem_range.mpr hi, rfl⟩
    have hr' : r < ((data.drop (i * (geometry bpb).clusterSize)).take
        (min (i * (geometry bpb).clusterSize + (geometry bpb).clusterSize) data.length -
          i * (geometry bpb).clusterSize)).length := by
      rw [dataWrite_length, hP.clusterSize]
      omega
    have hwrite := applyWrites_self (f := img) hapart (hdat _ hmem) hr'
    rw [hP.clusterPos] at hwrite
    rw [hwrite, List.getElem_take, List.getElem_drop]
    rfl
  · -- the new entry of the directory
    have hwrite := slice_applyWrites (f := img) hapart hent
    have hpos : (entryWrite bpb idx entry).pos = 512 * bpb.rootDirectorySector + 32 * idx := by
      show (geometry bpb).rootStart + idx * 32 = 512 * bpb.rootDirectorySector + 32 * idx
      rw [hP.rootStart, Nat.mul_comm idx]
    have hdataLen : (entryWrite bpb idx entry).data.length = 32 := injectEntry_length _ _ _
    rw [hpos, hdataLen] at hwrite
    exact hwrite
  · -- no write touches the entries in front
    intro j hj
    refine slice_applyWrites_other fun w hw => ?_
    unfold Span.Apart Span.stop
    dsimp only
    rcases List.mem_append.mp hw with hw | hw
    · rcases List.mem_append.mp hw with hw | hw
      · have h := (fatWrites_span hP hT hw).2
        unfold Span.stop at h
        omega
      · obtain ⟨i, hi, hstart, -⟩ := dataWrites_span hP hw
        have := hdataStart (clusters.getD i 0)
        omega
    · rw [List.mem_singleton.mp hw, hentrySpan]
      dsimp only
      omega

end Result

end VibeKernel
