import VibeKernel.Drivers.FlakyDrive
import VibeKernel.Fs.ReadBound

/-!
# Reads on a drive that fails from time to time

A file with a chain of clusters on a well-formed volume, read through a drive whose sector reads
fail by an arbitrary pattern. What has to survive the failures is `SoundCache`: `last_cluster` is
the cluster of the chain at `last_cluster_pos`.

A failure in the initial walk leaves the descriptor as it is, and so does a failing data read for
the cache. But a failing table read in the loop of `fat16_read` is taken for the end mark and stored
in the cache, with the position of the next cluster. `LinksRead` says that none of these reads is
the first one of its call to fail; their numbers are known before the call, because all the reads of
a call are. As long as it holds, and no read wraps around, the cache is sound after every call, and
once failures have stopped the reads deliver the file (`fat16_failures_harmless`). One failing table
read is enough to lose the rest of a file for good (`fat16_failure_remembered`).
-/

namespace VibeKernel

open Verif

/-! ### The sector reads of a call -/

/-- How many links between clusters a call of `fat16_read` follows in its loop. -/
def FatFileDescriptor.linksFollowed (bpb : FatBootSector) (desc : FatFileDescriptor)
    (size nmemb : ℕ) : ℕ :=
  (desc.pos + desc.totalToRead size nmemb - 1) / bpb.clusterSize - desc.pos / bpb.clusterSize

/-- The number of the sector read of a call that looks up the `j`-th of these links: it comes behind
the lookups of the initial walk, the rest of the cluster of the position, and `j` whole clusters
with a lookup in front of each of them. -/
def FatFileDescriptor.linkRead (bpb : FatBootSector) (desc : FatFileDescriptor) (j : ℕ) : ℕ :=
  (desc.pos - desc.start.2) / bpb.clusterSize +
    (bpb.sectorsPerCluster - desc.pos % bpb.clusterSize / 512 + j * (bpb.sectorsPerCluster + 1))

/-- No lookup of a link is the first read of the call to fail. -/
def LinksRead (bpb : FatBootSector) (desc : FatFileDescriptor) (size nmemb : ℕ)
    (fails : ℕ → Bool) : Prop :=
  ∀ j < desc.linksFollowed bpb size nmemb, ¬ FirstFails fails (desc.linkRead bpb j)

instance (bpb : FatBootSector) (desc : FatFileDescriptor) (size nmemb : ℕ) (fails : ℕ → Bool) :
    Decidable (LinksRead bpb desc size nmemb fails) :=
  inferInstanceAs (Decidable (∀ _ < _, _))

/-- The last cluster of a descriptor is the cluster of the chain at the position it is kept with. -/
structure SoundCache (bpb : FatBootSector) (item : FatDirectoryItem) (chain : List ℕ)
    (desc : FatFileDescriptor) : Prop where
  aligned : bpb.clusterSize ∣ desc.lastClusterPos
  inChain : desc.lastClusterPos / bpb.clusterSize ≤ chain.length - 1
  cluster : desc.lastCluster = chainAt item chain (desc.lastClusterPos / bpb.clusterSize)

/-- A descriptor of the file with a position in the file and a sound cache. -/
structure SoundDesc (bpb : FatBootSector) (item : FatDirectoryItem) (chain : List ℕ)
    (desc : FatFileDescriptor) : Prop extends InFile item desc, SoundCache bpb item chain desc

/-- No lookup of a link in the rest of a read, which ends at `stop`, is the first read to fail: with
`used` bytes of the `k`-th cluster read, the next lookup comes behind the rest of this cluster. -/
def RestLinksRead (bpb : FatBootSector) (fails : ℕ → Bool) (used k stop : ℕ) : Prop :=
  ∀ j, (k + 1 + j) * bpb.clusterSize < stop →
    ¬ FirstFails fails (bpb.sectorsPerCluster - used / 512 + j * (bpb.sectorsPerCluster + 1))

section Failures

variable {img : ℕ → UInt8} {drive : ℕ} {bpb : FatBootSector} {item : FatDirectoryItem}
  {chain : List ℕ}

theorem SoundCache.at {desc : FatFileDescriptor} (hcs : 0 < bpb.clusterSize) {k : ℕ}
    (hpos : desc.lastClusterPos = k * bpb.clusterSize) (hk : k ≤ chain.length - 1)
    (hclus : desc.lastCluster = chainAt item chain k) : SoundCache bpb item chain desc := by
  have hdiv : desc.lastClusterPos / bpb.clusterSize = k := by
    rw [hpos, Nat.mul_div_cancel _ hcs]
  exact ⟨⟨k, by rw [hpos, Nat.mul_comm]⟩, hdiv.symm ▸ hk, hdiv.symm ▸ hclus⟩

/-! ### Lookups -/

/-- A table entry takes one sector read. -/
theorem fat16GetFatEntry_flaky (hV : Volume (imageAta img) drive img bpb) {c : ℕ}
    (hc : bpb.HasCluster c) {stream : DiskStream} (hs : stream.diskId = drive) (fails : ℕ → Bool) :
    (fails 0 = false ∧ ∃ stream', fat16GetFatEntry (flakyAta img) bpb c stream fails =
        (bpb.fatEntry img c, stream', behind fails 1) ∧ stream'.diskId = drive) ∨
      (fails 0 = true ∧ ∃ stream' fails', fat16GetFatEntry (flakyAta img) bpb c stream fails =
        (0xFFFF, stream', fails') ∧ stream'.diskId = drive) := by
  have hin := hV.fatEntry_inside hc
  have hsmall := hV.readable.small
  have hone : sectorsTouched (512 * bpb.reservedSectors + 2 * c) 2 = 1 :=
    sectorsTouched_one (by norm_num) (by omega)
  have hseek : diskstreamSeek stream (512 * bpb.reservedSectors + 2 * c) =
      ⟨512 * bpb.reservedSectors + 2 * c, drive⟩ := by
    unfold diskstreamSeek
    rw [hs]
  unfold fat16GetFatEntry
  rw [hV.fatEntryPos_eq hc]
  dsimp only
  rw [hseek]
  rcases @diskstreamRead_flaky img drive (512 * bpb.reservedSectors + 2 * c) 2 (by omega) fails with
    ⟨hall, hread⟩ | ⟨⟨i, hi, hfail⟩, out, fails', hread⟩
  · rw [hone] at hall hread
    rw [hread]
    exact .inl ⟨hall 0 Nat.one_pos, _, rfl, rfl⟩
  · rw [hone] at hi
    obtain rfl : i = 0 := Nat.lt_one_iff.mp hi
    rw [hread]
    exact .inr ⟨hfail, _, fails', rfl, rfl⟩

/-- A walk among the clusters of the file takes one sector read a step. -/
theorem fat16SkipClusters_flaky (hV : Volume (imageAta img) drive img bpb)
    (hC : LongChain bpb img item chain) :
    ∀ (n : ℕ) {k : ℕ} {stream : DiskStream} (fails : ℕ → Bool), k + n < chain.length →
      stream.diskId = drive →
      ((∀ i < n, fails i = false) ∧
        ∃ stream', fat16SkipClusters (flakyAta img) bpb n (chainAt item chain k) stream fails =
          (chainAt item chain (k + n), stream', behind fails n) ∧ stream'.diskId = drive) ∨
      ((∃ i < n, fails i = true) ∧
        ∃ stream' fails', fat16SkipClusters (flakyAta img) bpb n (chainAt item chain k) stream
          fails = (0xFFFF, stream', fails') ∧ stream'.diskId = drive) := by
  intro n
  induction n with
  | zero =>
    intro k stream fails _ hs
    refine .inl ⟨fun i hi => absurd hi (Nat.not_lt_zero i), stream, ?_, hs⟩
    rw [fat16SkipClusters]
    unfold behind
    simp only [Nat.zero_add, Nat.add_zero]
  | succ n ih =>
    intro k stream fails hlen hs
    rw [fat16SkipClusters]
    rcases fat16GetFatEntry_flaky hV (hC.hasCluster (by omega : k < chain.length)) hs fails with
      ⟨hfst, stream₁, hentry, hs₁⟩ | ⟨hfail, stream₁, fails₁, hentry, hs₁⟩
    swap
    · -- an unreadable entry counts as the end
      rw [hentry]
      dsimp only
      rw [if_pos (by decide)]
      exact .inr ⟨⟨0, Nat.succ_pos n, hfail⟩, stream₁, fails₁, rfl, hs₁⟩
    have hlast : ¬ chainAt item chain (k + 1) ≥ fat16ClusterLastMin := by
      have := hC.usable (by omega : k + 1 < chain.length)
      unfold fat16ClusterReservedMin at this
      unfold fat16ClusterLastMin
      omega
    rw [hentry, hC.link (by omega)]
    dsimp only
    rw [if_neg hlast]
    rcases @ih (k + 1) stream₁ (behind fails 1) (by omega) hs₁ with
      ⟨hall, stream₂, hwalk, hs₂⟩ | ⟨⟨i, hi, hfail⟩, hwalk⟩
    · refine .inl ⟨fun i hi => ?_, stream₂, ?_, hs₂⟩
      · cases i with
        | zero => exact hfst
        | succ i =>
          have := hall i (by omega)
          unfold behind at this
          rwa [Nat.add_comm] at this
      · have hsum : k + 1 + n = k + (n + 1) := by omega
        rw [hwalk, behind_behind, hsum, Nat.add_comm 1 n]
    · exact .inr ⟨⟨1 + i, by omega, hfail⟩, hwalk⟩

/-- A piece of a cluster of the file takes a read for every sector it touches. -/
theorem diskstreamRead_piece_flaky (hV : Volume (imageAta img) drive img bpb)
    (hC : LongChain bpb img item chain) {k off n : ℕ} (hk : k < chain.length) (hn : 0 < n)
    (hoff : off + n ≤ bpb.clusterSize) {stream : DiskStream} (hs : stream.diskId = drive)
    (fails : ℕ → Bool) :
    let read := diskstreamRead (flakyAta img) (diskstreamSeek stream
      (u32 (u32 (bpb.clusterToSector (chainAt item chain k) * bpb.bytesPerSector) + off))) n fails
    ((∀ i < sectorsTouched off n, fails i = false) ∧
      ∃ stream', read = ((0, slice (fileCell bpb img chain) (k * bpb.clusterSize + off) n),
        stream', behind fails (sectorsTouched off n)) ∧ stream'.diskId = drive) ∨
    ((∃ i, fails i = true) ∧ ∃ out stream' fails', read = ((-1, out), stream', fails') ∧
      stream'.diskId = drive) := by
  intro read
  have hsmall := hV.readable.small
  obtain ⟨hsector, hinside⟩ := hV.clusterToSector_eq (hC.hasCluster hk)
  have hseek : diskstreamSeek stream (bpb.clusterPos (chainAt item chain k) + off) =
      ⟨bpb.clusterPos (chainAt item chain k) + off, drive⟩ := by
    unfold diskstreamSeek
    rw [hs]
  -- clusters start with a sector
  have htouched : sectorsTouched (bpb.clusterPos (chainAt item chain k) + off) n =
      sectorsTouched off n := by
    unfold sectorsTouched FatBootSector.clusterPos
    split
    · rfl
    · omega
  have hread : read = diskstreamRead (flakyAta img)
      ⟨bpb.clusterPos (chainAt item chain k) + off, drive⟩ n fails := by
    simp only [read]
    rw [hsector, u32_of_lt (by omega), hseek]
  rw [hread]
  rcases @diskstreamRead_flaky img drive (bpb.clusterPos (chainAt item chain k) + off) n (by omega)
    fails with ⟨hall, hok⟩ | ⟨⟨i, hi, hfail⟩, out, fails', hfailed⟩
  · rw [htouched] at hall hok
    rw [hok, slice_cluster (chainAt_eq hk) hoff]
    exact .inl ⟨hall, _, rfl, rfl⟩
  · exact .inr ⟨⟨i, hfail⟩, out, _, fails', hfailed, rfl⟩

/-! ### The loop -/

/-- Behind a link the lookups of the rest are those of the next cluster. -/
theorem RestLinksRead.behind_link (hV : Volume (imageAta img) drive img bpb) {fails : ℕ → Bool}
    {k stop : ℕ} (h : RestLinksRead bpb fails bpb.clusterSize k stop) (hfst : fails 0 = false) :
    RestLinksRead bpb (behind fails 1) 0 (k + 1) stop := by
  intro j hj hfirst
  have hfull : bpb.clusterSize / 512 = bpb.sectorsPerCluster := by
    rw [hV.clusterSize_eq, Nat.mul_div_cancel _ (by norm_num)]
  have hfront : ∀ i < 1, fails i = false := by
    intro i hi
    obtain rfl : i = 0 := Nat.lt_one_iff.mp hi
    exact hfst
  have hsum : k + 1 + (j + 1) = k + 1 + 1 + j := by omega
  have hnumber : 1 + (bpb.sectorsPerCluster - 0 / 512 + j * (bpb.sectorsPerCluster + 1)) =
      bpb.sectorsPerCluster - bpb.clusterSize / 512 + (j + 1) * (bpb.sectorsPerCluster + 1) := by
    rw [hfull, Nat.sub_self, Nat.zero_div, Nat.sub_zero]
    ring
  refine h (j + 1) (hsum ▸ hj) ?_
  rw [← hnumber]
  exact hfirst.of_behind hfront

/-- Behind the rest of a cluster the next read is a lookup. -/
theorem RestLinksRead.behind_piece (hV : Volume (imageAta img) drive img bpb) {fails : ℕ → Bool}
    {used k stop : ℕ} (h : RestLinksRead bpb fails used k stop)
    (hall : ∀ i < bpb.sectorsPerCluster - used / 512, fails i = false) :
    RestLinksRead bpb (behind fails (bpb.sectorsPerCluster - used / 512)) bpb.clusterSize k
      stop := by
  intro j hj hfirst
  have hfull : bpb.clusterSize / 512 = bpb.sectorsPerCluster := by
    rw [hV.clusterSize_eq, Nat.mul_div_cancel _ (by norm_num)]
  rw [hfull, Nat.sub_self, Nat.zero_add] at hfirst
  exact h j hj (hfirst.of_behind hall)

/-- Once the rest lies in the cluster there is no link left. -/
theorem RestLinksRead.last {fails : ℕ → Bool} {used k stop : ℕ}
    (hstop : stop ≤ (k + 1) * bpb.clusterSize) : RestLinksRead bpb fails used k stop := by
  intro j hj
  have := Nat.mul_le_mul_right bpb.clusterSize (Nat.le_add_right (k + 1) j)
  omega

/-- The start of a round: the loop moves on to the next cluster, if it has to, and the cache stays
sound. -/
theorem fat16AdvanceCluster_flaky (hV : Volume (imageAta img) drive img bpb)
    (hC : LongChain bpb img item chain) {totalRead k stop : ℕ} {desc : FatFileDescriptor}
    (hat : SoundDesc bpb item chain desc) (hk : k < chain.length)
    (hclus : AtCluster bpb desc.pos totalRead k) (hend : desc.pos + totalRead < stop)
    (hstop : stop ≤ item.filesize) {stream : DiskStream} (hs : stream.diskId = drive)
    {fails : ℕ → Bool}
    (hlinks : RestLinksRead bpb fails (desc.pos + totalRead - k * bpb.clusterSize) k stop) :
    ∃ k' desc' stream' fails',
      fat16AdvanceCluster (flakyAta img) bpb totalRead (chainAt item chain k) desc stream fails =
        (chainAt item chain k', desc', stream', fails') ∧
      k' < chain.length ∧ k' * bpb.clusterSize ≤ desc.pos + totalRead ∧
      desc.pos + totalRead < k' * bpb.clusterSize + bpb.clusterSize ∧
      SoundDesc bpb item chain desc' ∧ desc'.pos = desc.pos ∧ stream'.diskId = drive ∧
      RestLinksRead bpb fails' (desc.pos + totalRead - k' * bpb.clusterSize) k' stop ∧
      (Quiet fails → Quiet fails') := by
  obtain ⟨hlow, hhigh, hbehind, hfirst⟩ := hclus
  have hcs := hV.clusterSize_pos
  have hsize := hC.size
  have hsucc : (k + 1) * bpb.clusterSize = k * bpb.clusterSize + bpb.clusterSize := by ring
  unfold fat16AdvanceCluster
  rw [u32_of_lt (by omega : desc.pos + totalRead < 4294967296)]
  dsimp only
  by_cases hboundary : totalRead > 0 ∧ (desc.pos + totalRead) % bpb.clusterSize = 0
  · rw [if_pos hboundary]
    have hnext : desc.pos + totalRead = (k + 1) * bpb.clusterSize := by
      by_contra hne
      have hmod := (div_mod_between hlow (by omega : _ < k * bpb.clusterSize + bpb.clusterSize)).2
      have := hbehind hboundary.1
      omega
    have hused : desc.pos + totalRead - k * bpb.clusterSize = bpb.clusterSize := by omega
    have hk' : k + 1 < chain.length := hC.lt_length (by omega)
    rw [hused] at hlinks
    -- the lookup is the next read, so it must be in order
    have hfst : fails 0 = false := by
      by_contra hfail
      have hfull : bpb.clusterSize / 512 = bpb.sectorsPerCluster := by
        rw [hV.clusterSize_eq, Nat.mul_div_cancel _ (by norm_num)]
      refine hlinks 0 (by rw [Nat.add_zero, ← hnext]; exact hend) ?_
      rw [hfull, Nat.sub_self, Nat.zero_mul]
      exact ⟨Bool.not_eq_false _ ▸ hfail, fun i hi => absurd hi (Nat.not_lt_zero i)⟩
    rcases fat16GetFatEntry_flaky hV (hC.hasCluster hk) hs fails with
      ⟨-, stream₁, hentry, hs₁⟩ | ⟨hfail, -⟩
    swap
    · rw [hfst] at hfail
      cases hfail
    rw [hentry, hC.link hk']
    refine ⟨k + 1, _, stream₁, _, rfl, hk', hnext.ge, by omega,
      ⟨⟨hat.item_eq, hat.inside⟩, ?_⟩, rfl, hs₁, ?_, fun hq => hq.behind 1⟩
    · exact SoundCache.at hcs hnext (by omega) rfl
    · rw [hnext, Nat.sub_self]
      exact hlinks.behind_link hV hfst
  · rw [if_neg hboundary]
    refine ⟨k, desc, stream, fails, rfl, hk, hlow, ?_, hat, rfl, hs, hlinks, id⟩
    -- only a boundary could be at the end of the cluster
    by_contra hge
    have hlast : desc.pos + totalRead = k * bpb.clusterSize + bpb.clusterSize := by omega
    have hzero : totalRead ≠ 0 := by
      intro h
      have := hfirst h
      omega
    refine hboundary ⟨by omega, ?_⟩
    rw [hlast, ← Nat.succ_mul, Nat.mul_mod_left]

/-- **The loop** on a drive that may fail: the cache stays sound if no lookup of a link is the first
read to fail, and the rest of the file is delivered if no read fails. -/
theorem fat16ReadLoop_flaky (hV : Volume (imageAta img) drive img bpb)
    (hC : LongChain bpb img item chain) {total pos : ℕ} (hend : pos + total ≤ item.filesize) :
    ∀ (fuel totalRead k : ℕ) (out : List UInt8) (desc : FatFileDescriptor) (stream : DiskStream)
      (fails : ℕ → Bool),
      total ≤ totalRead + fuel → totalRead ≤ total → k < chain.length →
      SoundDesc bpb item chain desc → desc.pos = pos → stream.diskId = drive →
      AtCluster bpb pos totalRead k →
      RestLinksRead bpb fails (pos + totalRead - k * bpb.clusterSize) k (pos + total) →
      ∃ count bytes desc' stream' fails',
        fat16ReadLoop (flakyAta img) bpb total fuel totalRead (chainAt item chain k) out desc stream
          fails = ((count, out ++ bytes), desc', stream', fails') ∧ count ≤ total ∧
        SoundDesc bpb item chain desc' ∧ desc'.pos = pos ∧ stream'.diskId = drive ∧
        (Quiet fails → count = total ∧
          bytes = slice (fileCell bpb img chain) (pos + totalRead) (total - totalRead) ∧
          Quiet fails') := by
  have hsize := hC.size
  have hcs := hV.clusterSize_pos
  have hsectors := hV.clusterSize_eq
  intro fuel
  induction fuel with
  | zero =>
    intro totalRead k out desc stream fails hfuel hle hk hat hpos hs _ _
    obtain rfl : totalRead = total := by omega
    refine ⟨totalRead, [], desc, stream, fails, ?_, le_rfl, hat, hpos, hs, fun hq => ⟨rfl, ?_, hq⟩⟩
    · rw [fat16ReadLoop, List.append_nil]
    · rw [Nat.sub_self, slice_zero]
  | succ fuel ih =>
    intro totalRead k out desc stream fails hfuel hle hk hat hpos hs hclus hlinks
    rw [fat16ReadLoop]
    by_cases hdone : totalRead < total
    swap
    · obtain rfl : totalRead = total := by omega
      rw [if_neg hdone]
      refine ⟨totalRead, [], desc, stream, fails, ?_, le_rfl, hat, hpos, hs,
        fun hq => ⟨rfl, ?_, hq⟩⟩
      · rw [List.append_nil]
      · rw [Nat.sub_self, slice_zero]
    rw [if_pos hdone]
    subst hpos
    obtain ⟨k', desc₁, stream₁, fails₁, hadv, hk', hlow, hhigh, hat₁, hpos₁, hs₁, hlinks₁, hq₁⟩ :=
      fat16AdvanceCluster_flaky hV hC hat hk hclus (by omega) hend hs hlinks
    rw [hadv]
    dsimp only
    have husable : ¬ chainAt item chain k' ≥ fat16ClusterReservedMin :=
      Nat.not_le.mpr (hC.usable hk')
    have hmod : (desc.pos + totalRead) % bpb.clusterSize =
        desc.pos + totalRead - k' * bpb.clusterSize := (div_mod_between hlow hhigh).2
    rw [if_neg husable, hpos₁, u32_of_lt (by omega : desc.pos + totalRead < 4294967296), hmod]
    -- the piece ends with the cluster or with the read
    set off := desc.pos + totalRead - k' * bpb.clusterSize with hoffdef
    set n := if bpb.clusterSize - off > total - totalRead then total - totalRead
      else bpb.clusterSize - off with hn
    have hnle : n ≤ total - totalRead ∧ n ≤ bpb.clusterSize - off ∧ 0 < n := by
      rw [hn]
      split <;> omega
    rcases diskstreamRead_piece_flaky hV hC hk' hnle.2.2 (by omega : off + n ≤ bpb.clusterSize) hs₁
      fails₁ with ⟨hall, stream₂, hread, hs₂⟩ | ⟨⟨i, hfail⟩, bytes, stream₂, fails₂, hread, hs₂⟩
    swap
    · -- a failing data read leaves the cache
      rw [hread]
      dsimp only
      rw [if_pos (by decide)]
      refine ⟨totalRead, bytes, desc₁, stream₂, fails₂, rfl, hle, hat₁, hpos₁, hs₂, fun hq => ?_⟩
      rw [hq₁ hq i] at hfail
      cases hfail
    rw [hread]
    dsimp only
    rw [if_neg (by decide)]
    have hused : desc.pos + (totalRead + n) - k' * bpb.clusterSize = off + n := by omega
    have hrest : RestLinksRead bpb (behind fails₁ (sectorsTouched off n))
        (desc.pos + (totalRead + n) - k' * bpb.clusterSize) k' (desc.pos + total) := by
      rw [hused]
      by_cases hshort : bpb.clusterSize - off > total - totalRead
      · refine RestLinksRead.last ?_
        rw [Nat.succ_mul]
        omega
      · -- the piece takes the rest of the sectors of its cluster
        have hfull : off + n = bpb.clusterSize := by
          rw [hn, if_neg hshort]
          omega
        have htouched : sectorsTouched off n = bpb.sectorsPerCluster - off / 512 := by
          unfold sectorsTouched
          rw [if_neg (by omega), hfull]
          omega
        rw [htouched] at hall ⊢
        rw [hfull]
        exact hlinks₁.behind_piece hV hall
    obtain ⟨count, bytes, desc₂, stream₂', fails₂, hloop, hcount, hat₂, hpos₂, hs₂', hquiet⟩ :=
      ih (totalRead + n) k' (out ++ slice (fileCell bpb img chain) (k' * bpb.clusterSize + off) n)
        desc₁ stream₂ _ (by omega) (by omega) hk' hat₁ hpos₁ hs₂
        ⟨by omega, by omega, fun _ => by omega, fun h => by omega⟩ hrest
    rw [hloop, List.append_assoc]
    refine ⟨count, _, desc₂, stream₂', fails₂, rfl, hcount, hat₂, hpos₂, hs₂', fun hq => ?_⟩
    obtain ⟨hcount', hbytes, hq₂⟩ := hquiet ((hq₁ hq).behind _)
    refine ⟨hcount', ?_, hq₂⟩
    have hstart : k' * bpb.clusterSize + off = desc.pos + totalRead := by omega
    have hsplit : total - totalRead = n + (total - (totalRead + n)) := by omega
    rw [hbytes, hstart, hsplit, slice_add, Nat.add_assoc]

/-! ### One call -/

/-- The links of a call are those of the rest behind the initial walk. -/
theorem LinksRead.rest {desc : FatFileDescriptor} (hcs : 0 < bpb.clusterSize) {size nmemb : ℕ}
    {fails : ℕ → Bool} (h : LinksRead bpb desc size nmemb fails)
    (hall : ∀ i < (desc.pos - desc.start.2) / bpb.clusterSize, fails i = false) :
    RestLinksRead bpb (behind fails ((desc.pos - desc.start.2) / bpb.clusterSize))
      (desc.pos % bpb.clusterSize) (desc.pos / bpb.clusterSize)
      (desc.pos + desc.totalToRead size nmemb) := by
  intro j hj hfirst
  refine h j ?_ (hfirst.of_behind hall)
  unfold FatFileDescriptor.linksFollowed
  have hle : desc.pos / bpb.clusterSize + 1 + j ≤
      (desc.pos + desc.totalToRead size nmemb - 1) / bpb.clusterSize := by
    rw [Nat.le_div_iff_mul_le hcs]
    omega
  omega

/-- What a call promises on a drive that may fail: once no read fails any more, a read delivers the
bytes of `content` at its position, as many as its 32-bit product asks for, and moves behind
them. -/
def DeliversOnceQuiet (content : List UInt8) (s : FatFileDescriptor × DiskStream × (ℕ → Bool))
    (op : FileOp) (out : FileOut) (t : FatFileDescriptor × DiskStream × (ℕ → Bool)) : Prop :=
  Quiet s.2.2 → Quiet t.2.2 ∧ ∀ size nmemb, op = .read size nmemb →
    out.bytes = (content.drop s.1.pos).take (u32 (size.toNat * nmemb.toNat)) ∧
      out.result = asInt32 (out.bytes.length / size.toNat) ∧ t.1.pos = s.1.pos + out.bytes.length

/-- A read whose end does not wrap around asks for what is left of the file at most. -/
theorem totalToRead_eq {desc : FatFileDescriptor} {size nmemb : ℕ}
    (hpos : desc.pos ≤ desc.item.filesize) (hsize : desc.item.filesize < 4294967296)
    (hrange : desc.pos + u32 (size * nmemb) < 4294967296) :
    desc.totalToRead size nmemb = min (u32 (size * nmemb)) (desc.item.filesize - desc.pos) := by
  unfold FatFileDescriptor.totalToRead
  generalize u32 (size * nmemb) = asked at hrange ⊢
  rw [u32_of_lt hrange, u32Sub_of_le hpos hsize]
  split <;> omega

/-- **A read** whose end does not wrap around, and none of whose link lookups is the first read to
fail, leaves the cache sound. -/
theorem fat16Read_flaky (hV : Volume (imageAta img) drive img bpb)
    (hC : LongChain bpb img item chain) {desc : FatFileDescriptor}
    (hat : SoundDesc bpb item chain desc) {size nmemb : ℕ}
    (hrange : desc.pos + u32 (size * nmemb) < 4294967296) {stream : DiskStream}
    (hs : stream.diskId = drive) {fails : ℕ → Bool} (hlinks : LinksRead bpb desc size nmemb fails) :
    ∃ res out desc' stream' fails', fat16Read (flakyAta img) bpb size nmemb desc stream fails =
        .ok ((res, out), desc', stream', fails') ∧ SoundDesc bpb item chain desc' ∧
      stream'.diskId = drive ∧
      (Quiet fails → Quiet fails' ∧
        out = ((fileContent bpb img item chain).drop desc.pos).take (u32 (size * nmemb)) ∧
        res = asInt32 (out.length / size) ∧ desc'.pos = desc.pos + out.length) := by
  obtain ⟨⟨rfl, hinside⟩, hcache⟩ := hat
  have hcs := hV.clusterSize_pos
  have hsize := hC.size
  have htotal := totalToRead_eq hinside hsize hrange
  have hend : desc.pos + desc.totalToRead size nmemb ≤ desc.item.filesize := by omega
  have hnone : size = 0 → desc.totalToRead size nmemb = 0 := by
    rintro rfl
    exact totalToRead_no_item hinside hsize
  have hbytes : ((fileContent bpb img desc.item chain).drop desc.pos).take (u32 (size * nmemb)) =
      slice (fileCell bpb img chain) desc.pos (desc.totalToRead size nmemb) := by
    have hlen : (fileContent bpb img desc.item chain).length = desc.item.filesize := by
      rw [hC.content_eq hV, slice_length]
    rw [List.take_eq_take_min, List.length_drop, hlen, ← htotal, hC.content_eq hV,
      slice_drop_take _ hend, Nat.zero_add]
  have hrest := @LinksRead.rest bpb desc hcs size nmemb fails hlinks
  rw [hbytes]
  unfold fat16Read
  generalize desc.totalToRead size nmemb = total at htotal hend hnone hrest ⊢
  dsimp only
  by_cases hzero : total = 0
  · rw [if_pos hzero, hzero]
    refine ⟨0, [], desc, stream, fails, rfl, ⟨⟨rfl, hinside⟩, hcache⟩, hs,
      fun hq => ⟨hq, rfl, ?_, rfl⟩⟩
    rw [List.length_nil, Nat.zero_div]
    rfl
  rw [if_neg hzero]
  -- both starting points are clusters in front of the position
  obtain ⟨k, hle, hk, hstart, hstartPos⟩ : ∃ k, k * bpb.clusterSize ≤ desc.pos ∧
      k ≤ chain.length - 1 ∧ desc.start.1 = chainAt desc.item chain k ∧
      desc.start.2 = k * bpb.clusterSize := by
    unfold FatFileDescriptor.start
    split
    · next hge =>
      have hpos := (Nat.div_mul_cancel hcache.aligned).symm
      exact ⟨_, hpos ▸ hge, hcache.inChain, hcache.cluster, hpos⟩
    · exact ⟨0, by omega, Nat.zero_le _, hC.chainAt_zero.symm, (Nat.zero_mul _).symm⟩
  have hkle : k ≤ desc.pos / bpb.clusterSize := (Nat.le_div_iff_mul_le hcs).mpr hle
  have hskip : (desc.pos - k * bpb.clusterSize) / bpb.clusterSize =
      desc.pos / bpb.clusterSize - k := by
    rw [Nat.mul_comm, Nat.sub_mul_div]
  have hlow : desc.pos / bpb.clusterSize * bpb.clusterSize ≤ desc.pos := Nat.div_mul_le_self _ _
  have hhigh : desc.pos < desc.pos / bpb.clusterSize * bpb.clusterSize + bpb.clusterSize :=
    Nat.lt_div_mul_add hcs
  have hlen : desc.pos / bpb.clusterSize < chain.length := hC.lt_length (by omega)
  have hsum : k + (desc.pos / bpb.clusterSize - k) = desc.pos / bpb.clusterSize :=
    Nat.add_sub_cancel' hkle
  unfold fat16GetClusterForOffset
  rw [hstartPos] at hrest
  rw [hstart, hstartPos, u32Sub_of_le hle (by omega)]
  rw [hskip] at hrest ⊢
  rcases fat16SkipClusters_flaky hV hC (desc.pos / bpb.clusterSize - k) fails (hsum.symm ▸ hlen)
      hs with
    ⟨hall, stream₁, hwalk, hs₁⟩ | ⟨⟨i, hi, hfail⟩, stream₁, fails₁, hwalk, hs₁⟩
  swap
  · -- a failure in the initial walk
    rw [hwalk]
    dsimp only
    rw [if_pos (by decide)]
    refine ⟨0, [], desc, stream₁, fails₁, rfl, ⟨⟨rfl, hinside⟩, hcache⟩, hs₁, fun hq => ?_⟩
    rw [hq i] at hfail
    cases hfail
  rw [hsum] at hwalk
  rw [hwalk]
  dsimp only
  rw [if_neg (Nat.not_le.mpr (hC.usable hlen))]
  set desc₁ : FatFileDescriptor := ⟨desc.item, desc.pos,
    chainAt desc.item chain (desc.pos / bpb.clusterSize),
    desc.pos / bpb.clusterSize * bpb.clusterSize⟩ with hdesc₁
  have hat₁ : SoundDesc bpb desc.item chain desc₁ :=
    ⟨⟨rfl, hinside⟩, SoundCache.at hcs rfl (by omega) rfl⟩
  have hmod : desc.pos + 0 - desc.pos / bpb.clusterSize * bpb.clusterSize =
      desc.pos % bpb.clusterSize := by
    rw [Nat.add_zero, Nat.mod_eq_sub_div_mul]
  obtain ⟨count, bytes, desc₂, stream₂, fails₂, hloop, hcount, hat₂, hpos₂, hs₂, hquiet⟩ :=
    fat16ReadLoop_flaky hV hC hend total 0 (desc.pos / bpb.clusterSize) [] desc₁ stream₁ _
      (by omega) (Nat.zero_le _) hlen hat₁ rfl hs₁ ⟨hlow, by omega, by omega, fun _ => hhigh⟩
      (hmod.symm ▸ hrest hall)
  rw [hloop]
  dsimp only
  rw [if_neg fun h => hzero (hnone h), hpos₂, u32_of_lt (by omega : desc.pos + count < 4294967296),
    List.nil_append]
  refine ⟨_, bytes, _, stream₂, fails₂, rfl, ⟨⟨hat₂.item_eq, ?_⟩, ?_⟩, hs₂, fun hq => ?_⟩
  · change desc.pos + count ≤ _
    omega
  · exact ⟨hat₂.aligned, hat₂.inChain, hat₂.cluster⟩
  · obtain ⟨hcount', hbytes', hq₂⟩ := hquiet (hq.behind _)
    rw [Nat.add_zero, Nat.sub_zero] at hbytes'
    have hlength : bytes.length = total := by rw [hbytes', slice_length]
    exact ⟨hq₂, hbytes', by rw [hlength, hcount'], by rw [hlength, hcount']⟩

/-! ### Runs -/

/-- What a call must meet: its read does not wrap around, and no lookup of a link is the first of
its sector reads to fail. -/
def ReadUnharmed (bpb : FatBootSector) (s : FatFileDescriptor × DiskStream × (ℕ → Bool))
    (op : FileOp) : Prop :=
  InAddressRange s.1.pos op ∧ ∀ size nmemb, op = .read size nmemb →
    LinksRead bpb s.1 size.toNat nmemb.toNat s.2.2

/-- **The step lemma.** A call that meets the condition returns and leaves the cache sound. -/
theorem fatFileStep_flaky (hV : Volume (imageAta img) drive img bpb)
    (hC : LongChain bpb img item chain) {s : FatFileDescriptor × DiskStream × (ℕ → Bool)}
    (hat : SoundDesc bpb item chain s.1) (hs : s.2.1.diskId = drive) {op : FileOp}
    (hop : ReadUnharmed bpb s op) :
    ∃ out t, fatFileStep (flakyAta img) bpb s op = .ok (out, t) ∧
      SoundDesc bpb item chain t.1 ∧ t.2.1.diskId = drive ∧
      DeliversOnceQuiet (fileContent bpb img item chain) s op out t := by
  obtain ⟨desc, stream, fails⟩ := s
  cases op with
  | read size nmemb =>
    obtain ⟨res, out, desc', stream', fails', hread, hat', hs', hquiet⟩ :=
      fat16Read_flaky hV hC hat (hop.1 size nmemb rfl) hs (hop.2 size nmemb rfl)
    refine ⟨⟨res, out⟩, (desc', stream', fails'), ?_, hat', hs', fun hq => ?_⟩
    · unfold fatFileStep
      dsimp only at hread ⊢
      rw [hread]
    · obtain ⟨hq', hout, hres, hpos⟩ := hquiet hq
      refine ⟨hq', fun size' nmemb' hop' => ?_⟩
      cases hop'
      exact ⟨hout, hres, hpos⟩
  | seek offset whence =>
    have hcache : ∀ newPos : ℕ, SoundCache bpb item chain (if newPos > desc.item.filesize then
        ((-1 : ℤ), desc) else (0, { desc with pos := newPos })).2 := by
      intro newPos
      split
      · exact hat.toSoundCache
      · exact ⟨hat.aligned, hat.inChain, hat.cluster⟩
    exact ⟨_, ((fat16Seek desc offset.toInt whence).2, stream, fails), rfl,
      ⟨fat16Seek_inFile hat.toInFile offset.toInt whence, hcache _⟩, hs,
      fun hq => ⟨hq, fun _ _ h => (by cases h)⟩⟩
  | tell =>
    exact ⟨_, (desc, stream, fails), rfl, hat, hs, fun hq => ⟨hq, fun _ _ h => (by cases h)⟩⟩

/-- **Harmless failures.** On a well-formed volume, with any pattern of failing sector reads, in
every run of reads, seeks and tells on a fresh descriptor of a file with a long enough chain in
which no read wraps around and no lookup of a link is the first read of its call to fail: the cache
is sound in every state, and once no read fails any more every read delivers the file at its
position. -/
theorem fat16_failures_harmless (hV : Volume (imageAta img) drive img bpb)
    (hC : LongChain bpb img item chain) {stream : DiskStream} (hs : stream.diskId = drive)
    (fails : ℕ → Bool) {ops : List FileOp}
    (hops : Meets (fatFileStep (flakyAta img) bpb) (ReadUnharmed bpb)
      (FatFileDescriptor.fresh item, stream, fails) ops) :
    SoundCache bpb item chain (FatFileDescriptor.fresh item) ∧
    Meets (fatFileStep (flakyAta img) bpb)
      (fun s op => ∃ out t, fatFileStep (flakyAta img) bpb s op = .ok (out, t) ∧
        SoundCache bpb item chain t.1 ∧
        DeliversOnceQuiet (fileContent bpb img item chain) s op out t)
      (FatFileDescriptor.fresh item, stream, fails) ops := by
  have hfresh : SoundDesc bpb item chain (FatFileDescriptor.fresh item) :=
    ⟨⟨rfl, Nat.zero_le _⟩, SoundCache.at hV.clusterSize_pos (Nat.zero_mul _).symm (Nat.zero_le _)
      hC.chainAt_zero.symm⟩
  refine ⟨hfresh.toSoundCache, ?_⟩
  refine @meets_of_progress _ _ _ _ _ _
    (fun s => SoundDesc bpb item chain s.1 ∧ s.2.1.diskId = drive)
    (fun s op out t => SoundCache bpb item chain t.1 ∧
      DeliversOnceQuiet (fileContent bpb img item chain) s op out t)
    (fun s op hI hop => ?_) _ _ ⟨hfresh, hs⟩ hops
  obtain ⟨out, t, hstep, hat, hs', hdel⟩ := fatFileStep_flaky hV hC hI.1 hI.2 hop
  exact ⟨out, t, hstep, ⟨hat.toSoundCache, hdel⟩, hat, hs'⟩

end Failures

/-- Reads of a file of two clusters on a drive whose first and third sector read fail: a data read
and, in the second call, another one behind the boundary. -/
theorem fat16_failures_harmless_two_clusters :
    let file := slice UInt8.ofNat 0 600
    let fails := fun n => decide (n = 0 ∨ n = 3)
    let ops := [.read 1 100, .read 200 3, .seek (-50) .cur, .read 7 20]
    SoundCache singleFileBpb (singleFileItem file.length) (singleFileChain file.length)
      (FatFileDescriptor.fresh (singleFileItem file.length)) ∧
    Meets (fatFileStep (flakyAta (singleFileImage file)) singleFileBpb)
      (fun s op => ∃ out t,
        fatFileStep (flakyAta (singleFileImage file)) singleFileBpb s op = .ok (out, t) ∧
        SoundCache singleFileBpb (singleFileItem file.length) (singleFileChain file.length) t.1 ∧
        DeliversOnceQuiet (fileContent singleFileBpb (singleFileImage file)
          (singleFileItem file.length) (singleFileChain file.length)) s op out t)
      (FatFileDescriptor.fresh (singleFileItem file.length), ⟨0, 0⟩, fails) ops := by
  intro file fails ops
  refine fat16_failures_harmless (singleFile_volume 0)
    (@singleFile_chain file (by simp [file])).longChain rfl fails
    (meets_of_checkRun (fun s op => match op with
      | .read size nmemb => s.1.pos + u32 (size.toNat * nmemb.toNat) < 4294967296 ∧
          LinksRead singleFileBpb s.1 size.toNat nmemb.toNat s.2.2
      | _ => true) ?_ (by decide +kernel))
  intro s op h
  cases op with
  | read size nmemb =>
    have hok := of_decide_eq_true h
    exact ⟨fun _ _ e => (by cases e; exact hok.1), fun _ _ e => (by cases e; exact hok.2)⟩
  | seek offset whence => exact ⟨fun _ _ e => (by cases e), fun _ _ e => (by cases e)⟩
  | tell => exact ⟨fun _ _ e => (by cases e), fun _ _ e => (by cases e)⟩

/-- **A remembered failure.** A file of `600` bytes read on a drive whose second sector read fails,
and no other: the first call delivers the `512` bytes of the first cluster and takes the failing
lookup of the second one for the end of the file. No sector read fails any more, but the cache says
`0xFFFF` at `512`, where the chain has its second cluster, and the `88` bytes that are left are not
delivered. -/
theorem fat16_failure_remembered :
    let file := slice UInt8.ofNat 0 600
    let step := fatFileStep (flakyAta (singleFileImage file)) singleFileBpb
    let s := (FatFileDescriptor.fresh (singleFileItem 600), (⟨0, 0⟩ : DiskStream),
      fun n => decide (n = 1))
    let run := (runList step s [.read 1 600, .read 1 88, .tell]).toOption
    (run.map fun r => r.1.map fun out => out.bytes.length) = some [512, 0, 0] ∧
      (run.map fun r => (r.2.1.pos, r.2.1.lastClusterPos, r.2.1.lastCluster)) =
        some (512, 512, 0xFFFF) ∧
      chainAt (singleFileItem 600) (singleFileChain 600) 1 = 3 ∧
      ((fileContent singleFileBpb (singleFileImage file) (singleFileItem 600)
        (singleFileChain 600)).drop 512).length = 88 := by
  decide +kernel

end VibeKernel
