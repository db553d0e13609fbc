import VibeKernel.Fs.FileCursor
import VibeKernel.Lib.Chain

/-!
# Files whose chain ends

`fat16_read` cuts a read at `filesize` by comparing the end of the read with it, and the end is a
32-bit number. A read whose end wraps around is not cut, and runs on to the end of the last cluster.
What such a read does depends on what follows the last cluster of a file: a `ClosedChain` is
followed by an end mark of the allocation table.

`readOut` is what a read of either kind delivers, and `fat16Read_closed` says that `fat16_read`
delivers it. For the read that wraps around the layout of the file is extended: the same clusters
are those of an item one byte longer than all of them, and the loop does not look at the item.
-/

namespace VibeKernel

open Verif

variable {D : Type}

/-- The clusters of a file, up to an end mark: they start at the first cluster of the directory
item, lie behind the boot sector, and are long enough. -/
structure ClosedChain (bpb : FatBootSector) (img : ℕ → UInt8) (item : FatDirectoryItem)
    (chain : List ℕ) (mark : ℕ) : Prop where
  small : item.filesize < 4294967296
  walk : Seg (bpb.fatEntry img) item.low16BitsFirstCluster chain mark
  ended : fat16ClusterLastMin ≤ mark
  inside : ∀ c ∈ chain, bpb.HasCluster c
  front : 0 < bpb.firstDataSector
  long : item.filesize ≤ chain.length * bpb.clusterSize

/-- The bytes of the clusters of a file, also those behind `filesize`. -/
def clusterBytes (bpb : FatBootSector) (img : ℕ → UInt8) (chain : List ℕ) : List UInt8 :=
  blocks img bpb.clusterSize (chain.map bpb.clusterPos)

/-- What a read of `n` bytes at `pos` delivers, of a file with the given content and clusters. -/
def readOut (content clusters : List UInt8) (pos n : ℕ) : List UInt8 :=
  ((if pos + n < 4294967296 then content else clusters).drop pos).take n

section Closed

variable {A : Ata D} {drive : ℕ} {img : ℕ → UInt8} {bpb : FatBootSector}
  {item : FatDirectoryItem} {chain : List ℕ} {mark : ℕ} {c : ℕ → ℕ} {K : ℕ} {cell : ℕ → UInt8}

/-! ### The layout of a closed chain -/

/-- A closed chain visits no cluster twice, so its clusters fit into the volume. -/
theorem ClosedChain.room (hV : Volume A drive img bpb) (hC : ClosedChain bpb img item chain mark) :
    chain.length * bpb.clusterSize + 1 < 4294967296 := by
  have hspc := (FatBootSector.accepted_iff.mp hV.accepted).2.2.2
  have hsmall := hV.readable.small
  have hnodup : chain.Nodup := by
    refine @Seg.nodup _ _ (fun x => fat16ClusterLastMin ≤ x) _ hC.ended _ _ hC.walk
      fun x hx hlast => ?_
    have hmax := (hC.inside x hx).2.1
    unfold fat16ClusterLastMin at hlast
    omega
  set room := (bpb.sectors - bpb.firstDataSector) / bpb.sectorsPerCluster with hroom
  -- the numbers of the clusters, counted from the first one of the data area
  have hlen : chain.length ≤ room := by
    have hsub : (chain.map (· - 2)) ⊆ List.range room := by
      intro x hx
      obtain ⟨y, hy, rfl⟩ := List.mem_map.mp hx
      obtain ⟨h2, -, hend⟩ := hC.inside y hy
      refine List.mem_range.mpr ((Nat.le_div_iff_mul_le hspc).mpr ?_)
      rw [Nat.succ_mul]
      omega
    have hmap : (chain.map (· - 2)).Nodup := by
      refine List.Nodup.map_on (fun x hx y hy hxy => ?_) hnodup
      have h2 := (hC.inside x hx).1
      have h2' := (hC.inside y hy).1
      omega
    have hle := (hmap.subperm hsub).length_le
    rwa [List.length_map, List.length_range] at hle
  have hmul : chain.length * bpb.sectorsPerCluster ≤ bpb.sectors - bpb.firstDataSector :=
    (Nat.mul_le_mul_right _ hlen).trans (Nat.div_mul_le_self _ _)
  have hfront := hC.front
  rw [hV.clusterSize_eq, ← Nat.mul_assoc]
  omega

/-- **A closed chain is a layout**, also for an item that is longer than its clusters. -/
theorem ClosedChain.layout (hV : Volume A drive img bpb)
    (hC : ClosedChain bpb img item chain mark) :
    FileLayout A drive bpb { item with filesize := chain.length * bpb.clusterSize + 1 }
      (fun k => (bpb.fatEntry img)^[k] item.low16BitsFirstCluster) chain.length
      (fileCell bpb img chain) where
  size := hC.room hV
  clusterSize_pos := hV.clusterSize_pos
  first := rfl
  usable := by
    intro k hk
    have hmax := (hC.inside _ (List.mem_of_getElem? (hC.walk.iterate.1 k hk))).2.1
    unfold fat16ClusterReservedMin
    exact Nat.lt_succ_of_le hmax
  entry := by
    intro k hk _ stream d hs
    rw [Function.iterate_succ_apply']
    exact fat16GetFatEntry_spec hV
      (hC.inside _ (List.mem_of_getElem? (hC.walk.iterate.1 k hk))) hs d
  piece := by
    intro k hk off n hn hoff _ stream d hs
    have hlim := hV.readable.small
    have hget := hC.walk.iterate.1 k hk
    obtain ⟨hsector, hinside⟩ := hV.clusterToSector_eq (hC.inside _ (List.mem_of_getElem? hget))
    set x := (bpb.fatEntry img)^[k] item.low16BitsFirstCluster with hx
    have hend : (diskstreamSeek stream (bpb.clusterPos x + off)).pos + n ≤ 512 * bpb.sectors := by
      change bpb.clusterPos x + off + n ≤ _
      omega
    rw [hsector, u32_of_lt (by omega), ← slice_cluster hget hoff]
    exact diskstreamRead_spec hV.readable (diskstreamSeek stream (bpb.clusterPos x + off)) hs hend d
  stop := by
    intro j hj hsize stream d hs
    obtain rfl : j = chain.length :=
      le_antisymm (Nat.le_of_mul_le_mul_right (Nat.le_of_lt_succ hsize) hV.clusterSize_pos) hj
    -- behind the last cluster stands the mark
    have hended := hC.ended
    refine ⟨mark, stream, d, ?_, ?_, hs⟩
    · rw [Nat.sub_self, hC.walk.iterate.2]
      rfl
    · unfold fat16ClusterLastMin at hended
      unfold fat16ClusterReservedMin
      omega

/-- The layout of an item is one of every shorter item. -/
theorem FileLayout.cut {long : FatDirectoryItem} (hL : FileLayout A drive bpb long c K cell)
    (hfirst : item.low16BitsFirstCluster = long.low16BitsFirstCluster)
    (hle : item.filesize ≤ long.filesize) : FileLayout A drive bpb item c K cell where
  size := lt_of_le_of_lt hle hL.size
  clusterSize_pos := hL.clusterSize_pos
  first := hL.first.trans hfirst.symm
  usable := hL.usable
  entry k hk h := hL.entry k hk (lt_of_lt_of_le h hle)
  piece k hk off n hn hoff h := hL.piece k hk off n hn hoff (h.trans hle)
  stop j hj h := hL.stop j hj (lt_of_lt_of_le h hle)

/-! ### Reading -/

/-- The loop of `fat16_read` does not look at the item. -/
theorem fat16ReadLoop_item (item : FatDirectoryItem) (total : ℕ) :
    ∀ (fuel totalRead cluster : ℕ) (out : List UInt8) (desc : FatFileDescriptor)
      (stream : DiskStream) (d : D),
      fat16ReadLoop A bpb total fuel totalRead cluster out { desc with item := item } stream d =
        ((fat16ReadLoop A bpb total fuel totalRead cluster out desc stream d).1,
          { (fat16ReadLoop A bpb total fuel totalRead cluster out desc stream d).2.1 with
            item := item },
          (fat16ReadLoop A bpb total fuel totalRead cluster out desc stream d).2.2) := by
  intro fuel
  induction fuel with
  | zero => exact fun _ _ _ _ _ _ => rfl
  | succ fuel ih =>
    intro totalRead cluster out desc stream d
    rw [fat16ReadLoop, fat16ReadLoop]
    by_cases hdone : totalRead < total
    swap
    · rw [if_neg hdone, if_neg hdone]
    rw [if_pos hdone, if_pos hdone]
    -- moving on to the next cluster leaves the item alone
    have hadv : fat16AdvanceCluster A bpb totalRead cluster { desc with item := item } stream d =
        ((fat16AdvanceCluster A bpb totalRead cluster desc stream d).1,
          { (fat16AdvanceCluster A bpb totalRead cluster desc stream d).2.1 with item := item },
          (fat16AdvanceCluster A bpb totalRead cluster desc stream d).2.2) := by
      unfold fat16AdvanceCluster
      dsimp only
      split <;> rfl
    rw [hadv]
    obtain ⟨cluster', desc', stream', d'⟩ :=
      fat16AdvanceCluster A bpb totalRead cluster desc stream d
    dsimp only
    by_cases hend : cluster' ≥ fat16ClusterReservedMin
    · rw [if_pos hend, if_pos hend]
    rw [if_neg hend, if_neg hend]
    -- the piece that is read is the same, and so is what becomes of it
    split_ifs
    · rfl
    · exact ih _ _ _ desc' _ _
    · rfl
    · exact ih _ _ _ desc' _ _

/-- A read whose end wraps around delivers the clusters of the file from its position on. -/
theorem fat16Read_wraps (hL : FileLayout A drive bpb
      { item with filesize := K * bpb.clusterSize + 1 } c K cell)
    (hlong : item.filesize ≤ K * bpb.clusterSize) {desc : FatFileDescriptor} {pos n : ℕ}
    (hat : AtPos bpb item c K desc pos) (hn : n < 4294967296) (hwrap : 4294967296 ≤ pos + n)
    {stream : DiskStream} (hs : stream.diskId = drive) (d : D) :
    ∃ desc' stream' d', fat16Read A bpb n 1 desc stream d =
      .ok ((asInt32 ((K * bpb.clusterSize - pos) / n), slice cell pos (K * bpb.clusterSize - pos)),
        desc', stream', d') ∧ stream'.diskId = drive := by
  obtain ⟨hitem, rfl, hinside, i, hlast, hclus, hiK⟩ := hat
  have hsize : K * bpb.clusterSize + 1 < 4294967296 := hL.size
  have hcs := hL.clusterSize_pos
  set long : FatDirectoryItem := { item with filesize := K * bpb.clusterSize + 1 } with hlongdef
  -- the end of the read is small again, so it is not cut
  have htotal : desc.totalToRead n 1 = n := by
    unfold FatFileDescriptor.totalToRead
    rw [Nat.mul_one, u32_of_lt hn, u32_eq, hitem, if_neg (by omega)]
  have hatLong : AtPos bpb long c K { desc with item := long } desc.pos :=
    ⟨rfl, rfl, by change desc.pos ≤ K * bpb.clusterSize + 1; omega, i, hlast, hclus,
      fun h => Nat.le_of_mul_le_mul_right (Nat.le_of_lt_succ h) hcs⟩
  obtain ⟨r, stream₁, d₁, hwalk, hs₁, hr⟩ := fat16GetClusterForOffset_spec hL hatLong
    (show desc.pos < K * bpb.clusterSize + 1 by omega) hs d
  have hstart : ({ desc with item := long } : FatFileDescriptor).start = desc.start := by
    unfold FatFileDescriptor.start
    rw [hitem]
  rw [hstart] at hwalk
  unfold fat16Read
  rw [htotal]
  dsimp only at hwalk ⊢
  rw [if_neg (by omega), hwalk]
  dsimp only
  have hlow : desc.pos / bpb.clusterSize * bpb.clusterSize ≤ desc.pos := Nat.div_mul_le_self _ _
  have hhigh : desc.pos < desc.pos / bpb.clusterSize * bpb.clusterSize + bpb.clusterSize :=
    Nat.lt_div_mul_add hcs
  by_cases hK : desc.pos / bpb.clusterSize < K
  swap
  · rw [if_neg hK] at hr
    have hroom := Nat.mul_le_mul_right bpb.clusterSize (Nat.not_lt.mp hK)
    rw [if_pos hr, Nat.sub_eq_zero_of_le (by omega), Nat.zero_div, slice_zero]
    exact ⟨desc, stream₁, d₁, rfl, hs₁⟩
  rw [if_pos hK] at hr
  subst hr
  rw [if_neg (Nat.not_le.mpr (hL.usable _ hK))]
  set desc₁ : FatFileDescriptor := ⟨long, desc.pos, c (desc.pos / bpb.clusterSize),
    desc.pos / bpb.clusterSize * bpb.clusterSize⟩ with hdesc₁
  have hat₁ : AtPos bpb long c K desc₁ desc.pos :=
    ⟨rfl, rfl, hatLong.inside, desc.pos / bpb.clusterSize, rfl, rfl, fun _ => hK.le⟩
  obtain ⟨desc₂, stream₂, d₂, hloop, -, hs₂⟩ :=
    fat16ReadLoop_spec hL n desc.pos (min_le_right _ _) n 0 (desc.pos / bpb.clusterSize) [] desc₁
      stream₁ d₁ (by omega) (by omega) hK hat₁ hs₁ ⟨hlow, by omega, by omega, fun _ => hhigh⟩
  have hitemLoop := @fat16ReadLoop_item _ A bpb desc.item n n 0
    (c (desc.pos / bpb.clusterSize)) [] desc₁ stream₁ d₁
  rw [hloop] at hitemLoop
  have hstored : min n (K * bpb.clusterSize - desc.pos) = K * bpb.clusterSize - desc.pos := by omega
  rw [hstored, List.nil_append, Nat.add_zero, Nat.sub_zero] at hitemLoop
  change fat16ReadLoop A bpb n n 0 (c (desc.pos / bpb.clusterSize)) []
    ⟨desc.item, desc.pos, c (desc.pos / bpb.clusterSize),
      desc.pos / bpb.clusterSize * bpb.clusterSize⟩ stream₁ d₁ = _ at hitemLoop
  rw [hitemLoop]
  dsimp only
  rw [if_neg (by omega)]
  exact ⟨_, stream₂, d₂, rfl, hs₂⟩

theorem clusterBytes_eq (hV : Volume A drive img bpb) :
    clusterBytes bpb img chain =
      slice (fileCell bpb img chain) 0 (chain.length * bpb.clusterSize) := by
  unfold clusterBytes
  rw [blocks_eq_slice img hV.clusterSize_pos, List.length_map]
  rfl

theorem ClosedChain.content_eq (hV : Volume A drive img bpb)
    (hC : ClosedChain bpb img item chain mark) :
    fileContent bpb img item chain = slice (fileCell bpb img chain) 0 item.filesize := by
  have hcut : fileContent bpb img item chain =
      (clusterBytes bpb img chain).take item.filesize := rfl
  rw [hcut, clusterBytes_eq hV, slice_take _ _ hC.long]

theorem ClosedChain.content_length (hV : Volume A drive img bpb)
    (hC : ClosedChain bpb img item chain mark) :
    (fileContent bpb img item chain).length = item.filesize := by
  rw [hC.content_eq hV, slice_length]

theorem readOut_length_le (content clusters : List UInt8) (pos n : ℕ) :
    (readOut content clusters pos n).length ≤ n := by
  unfold readOut
  rw [List.length_take]
  exact min_le_left _ _

/-- A read of one item counts it if it is not empty and delivered whole. -/
theorem readCount_eq_one {len n : ℕ} (h : len ≤ n) : asInt32 (len / n) = 1 ↔ 0 < n ∧ len = n := by
  rcases Nat.eq_zero_or_pos n with rfl | hn
  · rw [Nat.div_zero]
    exact iff_of_false (by decide) fun h => absurd h.1 (lt_irrefl _)
  · rcases lt_or_eq_of_le h with hlt | rfl
    · rw [Nat.div_eq_of_lt hlt]
      exact iff_of_false (by decide) fun h => absurd h.2 hlt.ne
    · rw [Nat.div_self hn]
      exact iff_of_true rfl ⟨hn, rfl⟩

/-- The clusters of a file, numbered from its first one on and over the end mark. -/
abbrev clustersFrom (bpb : FatBootSector) (img : ℕ → UInt8) (item : FatDirectoryItem) (k : ℕ) : ℕ :=
  (bpb.fatEntry img)^[k] item.low16BitsFirstCluster

/-- **Reading a file whose chain ends**: one item of any length, from any position. -/
theorem fat16Read_closed (hV : Volume A drive img bpb) (hC : ClosedChain bpb img item chain mark)
    {desc : FatFileDescriptor} {pos n : ℕ}
    (hat : AtPos bpb item (clustersFrom bpb img item) chain.length desc pos) (hn : n < 4294967296)
    {stream : DiskStream} (hs : stream.diskId = drive) (d : D) :
    let out := readOut (fileContent bpb img item chain) (clusterBytes bpb img chain) pos n
    ∃ desc' stream' d',
      fat16Read A bpb n 1 desc stream d =
        .ok ((asInt32 (out.length / n), out), desc', stream', d') ∧
      (pos + n < 4294967296 →
        AtPos bpb item (clustersFrom bpb img item) chain.length desc' (pos + out.length)) ∧
      stream'.diskId = drive := by
  have hinside := hat.inside
  unfold readOut
  by_cases hwrap : pos + n < 4294967296
  · rw [if_pos hwrap]
    have hcut : FileLayout A drive bpb item (clustersFrom bpb img item) chain.length
        (fileCell bpb img chain) := (hC.layout hV).cut rfl (hC.long.trans (Nat.le_succ _))
    have hread := @fat16Read_layout _ _ _ _ _ _ _ _ hcut _ _ hat n 1 (by rwa [Nat.mul_one]) _ hs d
    have hbytes : fileBytes bpb item chain.length (fileCell bpb img chain) =
        fileContent bpb img item chain := by
      unfold fileBytes
      rw [hC.content_eq hV, min_eq_left hC.long]
    unfold Cursor.readBytes at hread
    rw [hbytes, Nat.mul_one] at hread
    obtain ⟨desc', stream', d', hread, hat', hs'⟩ := hread
    exact ⟨desc', stream', d', hread, fun _ => hat', hs'⟩
  · rw [if_neg hwrap]
    obtain ⟨desc', stream', d', hread, hs'⟩ :=
      fat16Read_wraps (hC.layout hV) hC.long hat hn (Nat.not_lt.mp hwrap) hs d
    have hroom := hC.room hV
    have hlong := hC.long
    -- the read is longer than what is left of the clusters
    have hout : ((clusterBytes bpb img chain).drop pos).take n =
        slice (fileCell bpb img chain) pos (chain.length * bpb.clusterSize - pos) := by
      rw [clusterBytes_eq hV, List.take_of_length_le]
      · have hsplit := @slice_drop_take _ (fileCell bpb img chain) 0 pos
          (chain.length * bpb.clusterSize - pos) (chain.length * bpb.clusterSize) (by omega)
        rw [List.take_of_length_le, Nat.zero_add] at hsplit
        · exact hsplit
        · rw [List.length_drop, slice_length]
      · rw [List.length_drop, slice_length]
        omega
    rw [hout]
    refine ⟨desc', stream', d', ?_, fun h => absurd h hwrap, hs'⟩
    rw [slice_length]
    exact hread

end Closed

end VibeKernel
