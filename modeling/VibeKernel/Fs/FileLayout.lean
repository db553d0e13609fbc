import VibeKernel.Fs.Fat16

/-!
# Reading a file by its layout

What the read path of `fat16.c` needs to know of a file is its `FileLayout`: the sequence `c` of the
clusters its table entries link to, how many of them (`K`) are in front of the first one that counts
as the end, and the bytes `cell` they hold. The layout says what the single accesses answer: a table
entry, a piece of a cluster, and a walk that starts behind the last usable cluster, which must not
come back to a usable one.

From this `fat16Read_layout` derives that a read delivers the bytes `fileBytes` at its position,
whatever the cluster cache holds. What the argument maintains is `CacheValid`: `last_cluster_pos` is
the position of some cluster of the sequence, not behind the end, and `last_cluster` is that
cluster. A walk may then start at the cache or at the first cluster, and ends at the cluster of the
position either way (`fat16GetClusterForOffset_spec`).
-/

namespace VibeKernel

open Verif

variable {D : Type}

/-- How a file is stored: `c k` is its `k`-th cluster, the first `K` of them are usable, and
`cell i` is the byte at position `i`. -/
structure FileLayout (A : Ata D) (drive : ℕ) (bpb : FatBootSector) (item : FatDirectoryItem)
    (c : ℕ → ℕ) (K : ℕ) (cell : ℕ → UInt8) : Prop where
  size : item.filesize < 4294967296
  clusterSize_pos : 0 < bpb.clusterSize
  first : c 0 = item.low16BitsFirstCluster
  usable : ∀ k < K, c k < fat16ClusterReservedMin
  /-- The table entry of a usable cluster is the next cluster. -/
  entry : ∀ k < K, (k + 1) * bpb.clusterSize < item.filesize →
    ∀ (stream : DiskStream) (d : D), stream.diskId = drive →
      ∃ stream' d', fat16GetFatEntry A bpb (c k) stream d = (c (k + 1), stream', d') ∧
        stream'.diskId = drive
  /-- A piece of a usable cluster can be read, as far as it belongs to the file. -/
  piece : ∀ k < K, ∀ off n, 0 < n → off + n ≤ bpb.clusterSize →
    k * bpb.clusterSize + off + n ≤ item.filesize →
    ∀ (stream : DiskStream) (d : D), stream.diskId = drive →
      ∃ stream' d', diskstreamRead A (diskstreamSeek stream
          (u32 (u32 (bpb.clusterToSector (c k) * bpb.bytesPerSector) + off))) n d =
        ((0, slice cell (k * bpb.clusterSize + off) n), stream', d') ∧ stream'.diskId = drive
  /-- A walk to a position behind the usable clusters that starts at the first unusable one does not
  end at a usable one. -/
  stop : ∀ j, K ≤ j → j * bpb.clusterSize < item.filesize →
    ∀ (stream : DiskStream) (d : D), stream.diskId = drive →
      ∃ r stream' d', fat16SkipClusters A bpb (j - K) (c K) stream d = (r, stream', d') ∧
        r ≥ fat16ClusterReservedMin ∧ stream'.diskId = drive

/-- The bytes of a file: its usable clusters one after the other, cut at `filesize`. -/
def fileBytes (bpb : FatBootSector) (item : FatDirectoryItem) (K : ℕ) (cell : ℕ → UInt8) :
    List UInt8 :=
  slice cell 0 (min item.filesize (K * bpb.clusterSize))

/-- The cluster cache of a descriptor points at a cluster of the file, at most the first unusable
one. -/
def CacheValid (bpb : FatBootSector) (c : ℕ → ℕ) (K : ℕ) (desc : FatFileDescriptor) : Prop :=
  ∃ i, desc.lastClusterPos = i * bpb.clusterSize ∧ desc.lastCluster = c i ∧
    (i * bpb.clusterSize < desc.item.filesize → i ≤ K)

section Layout

variable {A : Ata D} {drive : ℕ} {bpb : FatBootSector} {item : FatDirectoryItem} {c : ℕ → ℕ} {K : ℕ}
  {cell : ℕ → UInt8}

theorem fileBytes_length : (fileBytes bpb item K cell).length =
    min item.filesize (K * bpb.clusterSize) := slice_length _ _ _

/-! ### Walking the clusters -/

/-- A walk among the usable clusters. -/
theorem fat16SkipClusters_usable (hL : FileLayout A drive bpb item c K cell) :
    ∀ (n : ℕ) {i : ℕ} {stream : DiskStream} (d : D), i + n < K →
      (i + n) * bpb.clusterSize < item.filesize → stream.diskId = drive →
      ∃ stream' d', fat16SkipClusters A bpb n (c i) stream d = (c (i + n), stream', d') ∧
        stream'.diskId = drive := by
  intro n
  induction n with
  | zero => exact fun d _ _ hs => ⟨_, d, rfl, hs⟩
  | succ n ih =>
    intro i stream d hK hsize hs
    have hnext : (i + 1) * bpb.clusterSize < item.filesize :=
      lt_of_le_of_lt (Nat.mul_le_mul_right _ (by omega)) hsize
    obtain ⟨stream₁, d₁, hentry, hs₁⟩ := hL.entry i (by omega) hnext stream d hs
    have hlast : ¬ c (i + 1) ≥ fat16ClusterLastMin := by
      have := hL.usable (i + 1) (by omega)
      unfold fat16ClusterReservedMin at this
      unfold fat16ClusterLastMin
      omega
    have hsum : i + 1 + n = i + (n + 1) := by omega
    obtain ⟨stream₂, d₂, hrest, hs₂⟩ :=
      ih (i := i + 1) d₁ (by omega) (by rw [hsum]; exact hsize) hs₁
    refine ⟨stream₂, d₂, ?_, hs₂⟩
    rw [fat16SkipClusters, hentry]
    dsimp only
    rw [if_neg hlast, hrest, hsum]

/-- A walk to a position behind the usable clusters ends at an unusable one. -/
theorem fat16SkipClusters_stop (hL : FileLayout A drive bpb item c K cell) :
    ∀ (n : ℕ) {i : ℕ} {stream : DiskStream} (d : D), i ≤ K → K ≤ i + n →
      (i + n) * bpb.clusterSize < item.filesize → stream.diskId = drive →
      ∃ r stream' d', fat16SkipClusters A bpb n (c i) stream d = (r, stream', d') ∧
        r ≥ fat16ClusterReservedMin ∧ stream'.diskId = drive := by
  intro n
  induction n with
  | zero =>
    intro i stream d hi hK hsize hs
    obtain rfl : i = K := by omega
    have hstop := hL.stop i le_rfl hsize stream d hs
    rw [Nat.sub_self] at hstop
    exact hstop
  | succ n ih =>
    intro i stream d hi hK hsize hs
    rcases Nat.lt_or_ge i K with hlt | hge
    swap
    · obtain rfl : i = K := by omega
      have hstop := hL.stop (i + (n + 1)) (by omega) hsize stream d hs
      rw [Nat.add_sub_cancel_left] at hstop
      exact hstop
    have hnext : (i + 1) * bpb.clusterSize < item.filesize :=
      lt_of_le_of_lt (Nat.mul_le_mul_right _ (by omega)) hsize
    obtain ⟨stream₁, d₁, hentry, hs₁⟩ := hL.entry i hlt hnext stream d hs
    rw [fat16SkipClusters, hentry]
    dsimp only
    by_cases hlast : c (i + 1) ≥ fat16ClusterLastMin
    · rw [if_pos hlast]
      exact ⟨0xFFFF, stream₁, d₁, rfl, by decide, hs₁⟩
    · rw [if_neg hlast]
      have hsum : i + 1 + n = i + (n + 1) := by omega
      exact ih (i := i + 1) d₁ (by omega) (by omega) (by rw [hsum]; exact hsize) hs₁

/-- A descriptor of the file at a position, with a valid cache. -/
structure AtPos (bpb : FatBootSector) (item : FatDirectoryItem) (c : ℕ → ℕ) (K : ℕ)
    (desc : FatFileDescriptor) (pos : ℕ) : Prop where
  item_eq : desc.item = item
  pos_eq : desc.pos = pos
  inside : pos ≤ item.filesize
  cache : CacheValid bpb c K desc

theorem AtPos.fresh (hL : FileLayout A drive bpb item c K cell) :
    AtPos bpb item c K (FatFileDescriptor.fresh item) 0 :=
  ⟨rfl, rfl, Nat.zero_le _, 0, (Nat.zero_mul _).symm, hL.first.symm, fun _ => Nat.zero_le _⟩

/-- Wherever the cache points, the walk ends at the cluster of the position, or at an unusable
one if the position lies behind the usable clusters. -/
theorem fat16GetClusterForOffset_spec (hL : FileLayout A drive bpb item c K cell)
    {desc : FatFileDescriptor} {pos : ℕ} (hat : AtPos bpb item c K desc pos)
    (hpos : pos < item.filesize) {stream : DiskStream} (hs : stream.diskId = drive) (d : D) :
    ∃ r stream' d',
      fat16GetClusterForOffset A bpb desc.start.1 (u32Sub desc.pos desc.start.2) stream d =
        (r, stream', d') ∧ stream'.diskId = drive ∧
      if pos / bpb.clusterSize < K then r = c (pos / bpb.clusterSize)
        else r ≥ fat16ClusterReservedMin := by
  obtain ⟨hitem, rfl, hinside, i, hlast, hclus, hiK⟩ := hat
  have hcs := hL.clusterSize_pos
  have hsize := hL.size
  -- both starting points are clusters in front of the position
  obtain ⟨i, hle, hiK, hstart, hstartPos⟩ : ∃ i, i * bpb.clusterSize ≤ desc.pos ∧ i ≤ K ∧
      desc.start.1 = c i ∧ desc.start.2 = i * bpb.clusterSize := by
    unfold FatFileDescriptor.start
    split
    · next hge =>
      have hle : i * bpb.clusterSize ≤ desc.pos := by omega
      exact ⟨i, hle, hiK (by rw [hitem]; omega), hclus, hlast⟩
    · exact ⟨0, by omega, Nat.zero_le _, by rw [hitem]; exact hL.first.symm, (Nat.zero_mul _).symm⟩
  have hile : i ≤ desc.pos / bpb.clusterSize := (Nat.le_div_iff_mul_le hcs).mpr hle
  have hskip : u32Sub desc.pos desc.start.2 / bpb.clusterSize = desc.pos / bpb.clusterSize - i := by
    rw [hstartPos, u32Sub_of_le hle (by omega), Nat.mul_comm, Nat.sub_mul_div]
  have hsum : i + (desc.pos / bpb.clusterSize - i) = desc.pos / bpb.clusterSize :=
    Nat.add_sub_cancel' hile
  have hfile : desc.pos / bpb.clusterSize * bpb.clusterSize < item.filesize :=
    lt_of_le_of_lt (Nat.div_mul_le_self _ _) hpos
  unfold fat16GetClusterForOffset
  rw [hskip, hstart]
  by_cases hK : desc.pos / bpb.clusterSize < K
  · obtain ⟨stream', d', hwalk, hs'⟩ := fat16SkipClusters_usable hL
      (desc.pos / bpb.clusterSize - i) (i := i) d (by omega) (by rw [hsum]; exact hfile) hs
    refine ⟨_, stream', d', hwalk, hs', ?_⟩
    rw [if_pos hK, hsum]
  · obtain ⟨r, stream', d', hwalk, hr, hs'⟩ := fat16SkipClusters_stop hL
      (desc.pos / bpb.clusterSize - i) (i := i) d hiK (by omega) (by rw [hsum]; exact hfile) hs
    refine ⟨r, stream', d', hwalk, hs', ?_⟩
    rw [if_neg hK]
    exact hr

/-! ### The loop -/

/-- The cluster of the loop of `fat16_read` is the `k`-th one, counted as the loop counts: between
two pieces it is still the cluster of the piece just read. -/
structure AtCluster (bpb : FatBootSector) (pos totalRead k : ℕ) : Prop where
  low : k * bpb.clusterSize ≤ pos + totalRead
  high : pos + totalRead ≤ k * bpb.clusterSize + bpb.clusterSize
  behind : 0 < totalRead → k * bpb.clusterSize < pos + totalRead
  first : totalRead = 0 → pos < k * bpb.clusterSize + bpb.clusterSize

/-- The start of a round: the loop moves on to the cluster of the next byte, or to the first
unusable one, and the cache stays valid. -/
theorem fat16AdvanceCluster_spec (hL : FileLayout A drive bpb item c K cell) {pos totalRead k : ℕ}
    {desc : FatFileDescriptor} (hat : AtPos bpb item c K desc pos) (hk : k < K)
    (hclus : AtCluster bpb pos totalRead k) (hend : pos + totalRead < item.filesize)
    {stream : DiskStream} (hs : stream.diskId = drive) (d : D) :
    ∃ k' desc' stream' d',
      fat16AdvanceCluster A bpb totalRead (c k) desc stream d = (c k', desc', stream', d') ∧
      k' ≤ K ∧ k' * bpb.clusterSize ≤ pos + totalRead ∧
      pos + totalRead < k' * bpb.clusterSize + bpb.clusterSize ∧
      AtPos bpb item c K desc' pos ∧ stream'.diskId = drive := by
  obtain ⟨hlow, hhigh, hbehind, hfirst⟩ := hclus
  have hcs := hL.clusterSize_pos
  have hsize := hL.size
  have hsucc : (k + 1) * bpb.clusterSize = k * bpb.clusterSize + bpb.clusterSize := by ring
  unfold fat16AdvanceCluster
  rw [hat.pos_eq, u32_of_lt (by omega : pos + totalRead < 4294967296)]
  dsimp only
  by_cases hboundary : totalRead > 0 ∧ (pos + totalRead) % bpb.clusterSize = 0
  · rw [if_pos hboundary]
    have hnext : pos + totalRead = (k + 1) * bpb.clusterSize := by
      by_contra hne
      have hmod := (div_mod_between hlow (by omega : _ < k * bpb.clusterSize + bpb.clusterSize)).2
      have := hbehind hboundary.1
      omega
    obtain ⟨stream₁, d₁, hentry, hs₁⟩ := hL.entry k hk (by omega) stream d hs
    rw [hentry]
    refine ⟨k + 1, _, stream₁, d₁, rfl, hk, hnext.ge, by omega, ?_, hs₁⟩
    exact ⟨hat.item_eq, rfl, hat.inside, k + 1, hnext, rfl, fun _ => hk⟩
  · rw [if_neg hboundary]
    refine ⟨k, desc, stream, d, rfl, hk.le, hlow, ?_, hat, hs⟩
    -- only a boundary could be at the end of the cluster
    by_contra hge
    have hlast : pos + totalRead = k * bpb.clusterSize + bpb.clusterSize := by omega
    have hzero : totalRead ≠ 0 := by
      intro h
      have := hfirst h
      omega
    refine hboundary ⟨by omega, ?_⟩
    rw [hlast, ← Nat.succ_mul, Nat.mul_mod_left]

/-- **The loop.** With `totalRead` bytes delivered it delivers the rest, up to the end of the usable
clusters. -/
theorem fat16ReadLoop_spec (hL : FileLayout A drive bpb item c K cell) (total pos : ℕ)
    (hend : min (pos + total) (K * bpb.clusterSize + 1) ≤ item.filesize) :
    ∀ (fuel totalRead k : ℕ) (out : List UInt8) (desc : FatFileDescriptor) (stream : DiskStream)
      (d : D),
      total ≤ totalRead + fuel → totalRead ≤ total → k < K → AtPos bpb item c K desc pos →
      stream.diskId = drive → AtCluster bpb pos totalRead k →
      let stored := min total (K * bpb.clusterSize - pos)
      ∃ desc' stream' d',
        fat16ReadLoop A bpb total fuel totalRead (c k) out desc stream d =
          ((stored, out ++ slice cell (pos + totalRead) (stored - totalRead)),
            desc', stream', d') ∧
        AtPos bpb item c K desc' pos ∧ stream'.diskId = drive := by
  have hsize := hL.size
  have hcs := hL.clusterSize_pos
  intro fuel
  induction fuel with
  | zero =>
    intro totalRead k out desc stream d hfuel hle hk hat hs hclus stored
    have hroom := Nat.mul_le_mul_right bpb.clusterSize (Nat.succ_le_of_lt hk)
    have hhigh := hclus.high
    rw [Nat.succ_mul] at hroom
    have hstored : stored = totalRead := by omega
    refine ⟨desc, stream, d, ?_, hat, hs⟩
    rw [fat16ReadLoop, hstored, Nat.sub_self, slice_zero, List.append_nil]
  | succ fuel ih =>
    intro totalRead k out desc stream d hfuel hle hk hat hs hclus stored
    have hroom := Nat.mul_le_mul_right bpb.clusterSize (Nat.succ_le_of_lt hk)
    rw [Nat.succ_mul] at hroom
    rw [fat16ReadLoop]
    by_cases hdone : totalRead < total
    swap
    · have hhigh := hclus.high
      have hstored : stored = totalRead := by omega
      rw [if_neg hdone, hstored, Nat.sub_self, slice_zero, List.append_nil]
      exact ⟨desc, stream, d, rfl, hat, hs⟩
    rw [if_pos hdone]
    have hnext : pos + totalRead < item.filesize := by
      have hhigh := hclus.high
      omega
    obtain ⟨k', desc', stream', d', hadv, hk', hlow, hhigh, hat', hs'⟩ :=
      fat16AdvanceCluster_spec hL hat hk hclus hnext hs d
    rw [hadv]
    dsimp only
    rcases Nat.lt_or_ge k' K with hlt | hge
    swap
    · -- the end of the usable clusters
      obtain rfl : k' = K := by omega
      obtain ⟨r, _, _, hwalk, hr, -⟩ := hL.stop k' le_rfl (by omega) stream' d' hs'
      rw [Nat.sub_self] at hwalk
      have hunusable : c k' ≥ fat16ClusterReservedMin := by
        have hr' : c k' = r := congrArg Prod.fst hwalk
        rw [hr']
        exact hr
      have hstored : stored = totalRead := by
        have := hclus.high
        omega
      rw [if_pos hunusable, hstored, Nat.sub_self, slice_zero, List.append_nil]
      exact ⟨desc', stream', d', rfl, hat', hs'⟩
    have hroom' := Nat.mul_le_mul_right bpb.clusterSize (Nat.succ_le_of_lt hlt)
    rw [Nat.succ_mul] at hroom'
    have husable : ¬ c k' ≥ fat16ClusterReservedMin := Nat.not_le.mpr (hL.usable k' hlt)
    have hmod : (pos + totalRead) % bpb.clusterSize = pos + totalRead - k' * bpb.clusterSize :=
      (div_mod_between hlow hhigh).2
    rw [if_neg husable, hat'.pos_eq, u32_of_lt (by omega : pos + totalRead < 4294967296), hmod]
    -- the piece ends with the cluster or with the read
    set off := pos + totalRead - k' * bpb.clusterSize with hoffdef
    set n := if bpb.clusterSize - off > total - totalRead then total - totalRead
      else bpb.clusterSize - off with hn
    have hnle : n ≤ total - totalRead ∧ n ≤ bpb.clusterSize - off ∧ 0 < n := by
      rw [hn]
      split <;> omega
    have hoff : k' * bpb.clusterSize + off = pos + totalRead := by omega
    obtain ⟨stream₂, d₂, hread, hs₂⟩ :=
      hL.piece k' hlt off n hnle.2.2 (by omega) (by omega) stream' d' hs'
    rw [hoff] at hread
    obtain ⟨desc₃, stream₃, d₃, hrest, hat₃, hs₃⟩ :=
      ih (totalRead + n) k' (out ++ slice cell (pos + totalRead) n) desc' stream₂ d₂
        (by omega) (by omega) hlt hat' hs₂ ⟨by omega, by omega, by omega, by omega⟩
    refine ⟨desc₃, stream₃, d₃, ?_, hat₃, hs₃⟩
    have hlen : n + (stored - (totalRead + n)) = stored - totalRead := by omega
    calc _ = fat16ReadLoop A bpb total fuel (totalRead + n) (c k')
            (out ++ slice cell (pos + totalRead) n) desc' stream₂ d₂ := by
          rw [hread]
          dsimp only
          rw [if_neg (by simp)]
      _ = _ := by
          rw [hrest, List.append_assoc, ← Nat.add_assoc, ← slice_add, hlen]

/-! ### One call -/

/-- The bytes a read at `pos` delivers, as a stretch of the cells. -/
theorem fileBytes_read (pos size nmemb : ℕ) :
    Cursor.readBytes (fileBytes bpb item K cell) pos size nmemb =
      slice cell pos (min (pos + size * nmemb)
        (min item.filesize (K * bpb.clusterSize)) - pos) := by
  rcases Nat.lt_or_ge (min item.filesize (K * bpb.clusterSize)) pos with hlt | hle
  · have hdrop : (fileBytes bpb item K cell).drop pos = [] :=
      List.drop_eq_nil_of_le (by rw [fileBytes_length]; exact hlt.le)
    unfold Cursor.readBytes
    rw [hdrop, List.take_nil, Nat.sub_eq_zero_of_le (by omega), slice_zero]
  · have hlen : (Cursor.readBytes (fileBytes bpb item K cell) pos size nmemb).length = _ :=
      Cursor.readBytes_length (by rw [fileBytes_length]; exact hle)
    rw [fileBytes_length] at hlen
    rw [Cursor.readBytes_eq_take, hlen]
    unfold fileBytes
    rw [slice_drop_take _ (by omega), Nat.zero_add]

/-- **Reading by the layout.** A read in the address range delivers the bytes of the file at its
position, and moves the position by as many. -/
theorem fat16Read_layout (hL : FileLayout A drive bpb item c K cell) {desc : FatFileDescriptor}
    {pos : ℕ} (hat : AtPos bpb item c K desc pos) {size nmemb : ℕ}
    (hrange : pos + size * nmemb < 4294967296) {stream : DiskStream}
    (hs : stream.diskId = drive) (d : D) :
    let bytes := Cursor.readBytes (fileBytes bpb item K cell) pos size nmemb
    ∃ desc' stream' d', fat16Read A bpb size nmemb desc stream d =
        .ok ((asInt32 (bytes.length / size), bytes), desc', stream', d') ∧
      AtPos bpb item c K desc' (pos + bytes.length) ∧ stream'.diskId = drive := by
  have hcs := hL.clusterSize_pos
  have hsize := hL.size
  have hinside := hat.inside
  rw [fileBytes_read]
  intro bytes
  have hlen : bytes.length =
      min (pos + size * nmemb) (min item.filesize (K * bpb.clusterSize)) - pos := slice_length _ _ _
  -- `total_to_read` is cut at the end of the file
  have htotal : desc.totalToRead size nmemb = min (pos + size * nmemb) item.filesize - pos := by
    unfold FatFileDescriptor.totalToRead
    rw [u32_of_lt (by omega : size * nmemb < 4294967296), hat.pos_eq, u32_of_lt hrange, hat.item_eq]
    split
    · rw [u32Sub_of_le hinside hsize]
      omega
    · omega
  have hnone : asInt32 (0 / size) = 0 := by
    rw [Nat.zero_div]
    rfl
  unfold fat16Read
  rw [htotal]
  dsimp only
  set total := min (pos + size * nmemb) item.filesize - pos with htotaldef
  rcases Nat.eq_zero_or_pos total with hzero | htotalpos
  · -- nothing is left, or nothing was asked for
    have hnil : bytes = [] := List.length_eq_zero_iff.mp (by omega)
    rw [if_pos hzero, hnil, List.length_nil, hnone]
    exact ⟨desc, stream, d, rfl, hat, hs⟩
  rw [if_neg (by omega)]
  -- the walk from the cached cluster to that of the position
  obtain ⟨r, stream₁, d₁, hwalk, hs₁, hr⟩ :=
    fat16GetClusterForOffset_spec hL hat (by omega) hs d
  rw [hwalk]
  dsimp only
  have hlow : pos / bpb.clusterSize * bpb.clusterSize ≤ pos := Nat.div_mul_le_self _ _
  have hhigh : pos < pos / bpb.clusterSize * bpb.clusterSize + bpb.clusterSize :=
    Nat.lt_div_mul_add hcs
  by_cases hK : pos / bpb.clusterSize < K
  swap
  · -- the position lies behind the usable clusters
    rw [if_neg hK] at hr
    have hroom := Nat.mul_le_mul_right bpb.clusterSize (Nat.not_lt.mp hK)
    have hnil : bytes = [] := List.length_eq_zero_iff.mp (by omega)
    rw [if_pos hr, hnil, List.length_nil, hnone]
    exact ⟨desc, stream₁, d₁, rfl, hat, hs₁⟩
  rw [if_pos hK] at hr
  subst hr
  have hroom := Nat.mul_le_mul_right bpb.clusterSize (Nat.succ_le_of_lt hK)
  rw [Nat.succ_mul] at hroom
  have hnonempty : size ≠ 0 := by
    rintro rfl
    rw [Nat.zero_mul] at htotaldef
    omega
  rw [if_neg (Nat.not_le.mpr (hL.usable _ hK)), hat.pos_eq]
  -- from there the loop copies, with the cache at the cluster of the position
  set desc₁ : FatFileDescriptor := ⟨desc.item, pos, c (pos / bpb.clusterSize),
    pos / bpb.clusterSize * bpb.clusterSize⟩ with hdesc₁
  have hat₁ : AtPos bpb item c K desc₁ pos :=
    ⟨hat.item_eq, rfl, hinside, pos / bpb.clusterSize, rfl, rfl, fun _ => hK.le⟩
  obtain ⟨desc₂, stream₂, d₂, hloop, hat₂, hs₂⟩ :=
    fat16ReadLoop_spec hL total pos (by omega) total 0 (pos / bpb.clusterSize) [] desc₁ stream₁ d₁
      (by omega) (by omega) hK hat₁ hs₁ ⟨hlow, by omega, by omega, fun _ => hhigh⟩
  have hstored : min total (K * bpb.clusterSize - pos) = bytes.length := by omega
  rw [hstored, List.nil_append, Nat.add_zero, Nat.sub_zero] at hloop
  have hbytes : slice cell pos bytes.length = bytes := by
    rw [hlen]
  -- the result counts whole items
  rw [hloop]
  dsimp only
  rw [if_neg hnonempty, hbytes, hat₂.pos_eq, u32_of_lt (by omega : pos + bytes.length < 4294967296)]
  exact ⟨_, stream₂, d₂, rfl, ⟨hat₂.item_eq, rfl, by omega, hat₂.cache⟩, hs₂⟩

/-- A seek moves inside the file, and keeps the cache. -/
theorem fat16Seek_layout {desc : FatFileDescriptor} {pos : ℕ}
    (hat : AtPos bpb item c K desc pos) (offset : ℤ) (whence : FileSeekMode) :
    ∃ res desc' pos', fat16Seek desc offset whence = (res, desc') ∧
      AtPos bpb item c K desc' pos' := by
  have hmove : ∀ newPos : ℕ, ∃ res desc' pos',
      (if newPos > desc.item.filesize then ((-1 : ℤ), desc)
        else (0, { desc with pos := newPos })) = (res, desc') ∧
      AtPos bpb item c K desc' pos' := by
    intro newPos
    by_cases hnew : newPos > desc.item.filesize
    · rw [if_pos hnew]
      exact ⟨-1, desc, pos, rfl, hat⟩
    · rw [if_neg hnew]
      exact ⟨0, _, newPos, rfl, hat.item_eq, rfl, hat.item_eq ▸ Nat.not_lt.mp hnew, hat.cache⟩
  exact hmove _

end Layout

end VibeKernel
