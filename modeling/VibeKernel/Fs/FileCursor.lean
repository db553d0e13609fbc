import VibeKernel.Fs.FileLayout
import VibeKernel.Fs.Seek
import VibeKernel.Fs.SingleFile

/-!
# An open file is a cursor over its content

On a volume whose sectors can be read, a file whose chain of clusters is long enough has a content:
the clusters of the chain one after the other, cut at `filesize`. `fat16_is_cursor` shows that every
sequence of `fat16_read`, `fat16_seek` and `fat16_tell` on a fresh descriptor answers like the
abstract cursor over that content.

The chain is a layout of the file whose clusters are all usable (`FileChain.layout`), so what a read
delivers is known from there.
-/

namespace VibeKernel

open Verif

variable {D : Type}

section File

variable {A : Ata D} {drive : ℕ} {img : ℕ → UInt8} {bpb : FatBootSector}
  {item : FatDirectoryItem} {chain : List ℕ}

/-! ### The chain as a layout -/

/-- The clusters of a file, numbered from its first one on. -/
def chainAt (item : FatDirectoryItem) (chain : List ℕ) (k : ℕ) : ℕ :=
  chain.getD k item.low16BitsFirstCluster

theorem chainAt_eq {k : ℕ} (hk : k < chain.length) : chain[k]? = some (chainAt item chain k) := by
  unfold chainAt
  rw [List.getD_eq_getElem _ _ hk]
  exact List.getElem?_eq_getElem hk

theorem LongChain.hasCluster (hC : LongChain bpb img item chain) {k : ℕ} (hk : k < chain.length) :
    bpb.HasCluster (chainAt item chain k) :=
  hC.inside _ (List.mem_of_getElem? (chainAt_eq hk))

theorem LongChain.usable (hC : LongChain bpb img item chain) {k : ℕ} (hk : k < chain.length) :
    chainAt item chain k < fat16ClusterReservedMin := by
  have hin := (hC.hasCluster hk).2.1
  unfold fat16ClusterReservedMin
  omega

theorem LongChain.link (hC : LongChain bpb img item chain) {k : ℕ} (hk : k + 1 < chain.length) :
    bpb.fatEntry img (chainAt item chain k) = chainAt item chain (k + 1) :=
  hC.linked k _ _ (chainAt_eq (Nat.lt_of_succ_lt hk)) (chainAt_eq hk)

theorem LongChain.chainAt_zero (hC : LongChain bpb img item chain) :
    chainAt item chain 0 = item.low16BitsFirstCluster := by
  unfold chainAt
  cases hch : chain with
  | nil => rfl
  | cons a rest =>
    rw [List.getD_cons_zero]
    exact hC.first a (by rw [hch]; rfl)

/-- A position of the file lies in one of its clusters. -/
theorem LongChain.lt_length (hC : LongChain bpb img item chain) {k : ℕ}
    (hk : k * bpb.clusterSize < item.filesize) : k < chain.length :=
  Nat.lt_of_mul_lt_mul_right (lt_of_lt_of_le hk hC.long)

/-- **A chain is a layout.** All its clusters are usable, and no position of the file lies behind
them. -/
theorem FileChain.layout (hV : Volume A drive img bpb) (hC : FileChain bpb img item chain) :
    FileLayout A drive bpb item (chainAt item chain) chain.length (fileCell bpb img chain) where
  size := lt_trans hC.size (by norm_num)
  clusterSize_pos := hV.clusterSize_pos
  first := hC.longChain.chainAt_zero
  usable := fun _ hk => hC.longChain.usable hk
  entry := by
    intro k hk hsize stream d hs
    rw [← hC.longChain.link (hC.longChain.lt_length hsize)]
    exact fat16GetFatEntry_spec hV (hC.longChain.hasCluster hk) hs d
  piece := by
    intro k hk off n hn hoff hsize stream d hs
    have hlim := hV.readable.small
    have hget := @chainAt_eq item _ _ hk
    obtain ⟨hsector, hinside⟩ := hV.clusterToSector_eq (hC.longChain.hasCluster hk)
    have hend : (diskstreamSeek stream (bpb.clusterPos (chainAt item chain k) + off)).pos + n ≤
        512 * bpb.sectors := by
      change bpb.clusterPos (chainAt item chain k) + off + n ≤ _
      omega
    rw [hsector, u32_of_lt (by omega), ← slice_cluster hget hoff]
    exact diskstreamRead_spec hV.readable
      (diskstreamSeek stream (bpb.clusterPos (chainAt item chain k) + off)) hs hend d
  stop := by
    intro j hj hsize
    exact absurd (lt_of_lt_of_le hsize (hC.long.trans (Nat.mul_le_mul_right _ hj))) (lt_irrefl _)

theorem FileChain.fileBytes_eq (hV : Volume A drive img bpb) (hC : FileChain bpb img item chain) :
    fileBytes bpb item chain.length (fileCell bpb img chain) = fileContent bpb img item chain := by
  rw [hC.content_eq hV]
  unfold fileBytes
  rw [min_eq_left hC.long]

/-- A descriptor of the file at a position. -/
abbrev AtChainPos (bpb : FatBootSector) (item : FatDirectoryItem) (chain : List ℕ)
    (desc : FatFileDescriptor) (pos : ℕ) : Prop :=
  AtPos bpb item (chainAt item chain) chain.length desc pos

/-! ### Reading and seeking -/

/-- `fat16_read` delivers what the cursor delivers and counts as it does. -/
theorem fat16Read_spec (hV : Volume A drive img bpb) (hC : FileChain bpb img item chain)
    {desc : FatFileDescriptor} {pos : ℕ} (hat : AtChainPos bpb item chain desc pos)
    {size nmemb : ℕ} (hrange : pos + size * nmemb < 4294967296) {stream : DiskStream}
    (hs : stream.diskId = drive) (d : D) :
    let bytes := Cursor.readBytes (fileContent bpb img item chain) pos size nmemb
    ∃ desc' stream' d', fat16Read A bpb size nmemb desc stream d =
        .ok (((bytes.length / size : ℕ), bytes), desc', stream', d') ∧
      AtChainPos bpb item chain desc' (pos + bytes.length) ∧ stream'.diskId = drive := by
  intro bytes
  have hread := fat16Read_layout (hC.layout hV) hat hrange hs d
  rw [hC.fileBytes_eq hV] at hread
  -- the count fits into an `int`
  have hlen : bytes.length ≤ item.filesize := by
    rw [Cursor.readBytes_length (by rw [fileContent_length hV hC]; exact hat.inside),
      fileContent_length hV hC]
    omega
  have hint : asInt32 (bytes.length / size) = (bytes.length / size : ℕ) :=
    asInt32_of_lt (lt_of_le_of_lt ((Nat.div_le_self _ _).trans hlen) hC.size)
  rw [← hint]
  exact hread

/-- `fat16_seek` moves to its exact target if that lies in the file, and nowhere otherwise. -/
theorem fat16Seek_spec (hV : Volume A drive img bpb) (hC : FileChain bpb img item chain)
    {desc : FatFileDescriptor} {pos : ℕ} (hat : AtChainPos bpb item chain desc pos) (offset : Int32)
    (whence : Whence) :
    let t := Cursor.target (fileContent bpb img item chain) pos offset.toInt whence
    ∃ desc', fat16Seek desc offset.toInt whence =
        (if 0 ≤ t ∧ t ≤ item.filesize then 0 else -1, desc') ∧
      AtChainPos bpb item chain desc' (if 0 ≤ t ∧ t ≤ item.filesize then t.toNat else pos) := by
  obtain ⟨rfl, rfl, hinside, hcache⟩ := hat
  have hsmall := hC.size
  intro t
  have htarget : seekTarget desc.pos desc.item.filesize offset.toInt whence = t := by
    unfold seekTarget
    cases whence <;> simp only [t, Cursor.target, fileContent_length hV hC]
  rw [fat16Seek_eq_exact hinside (by omega) (seekFits_of_small hinside hsmall offset whence)]
  unfold exactSeek
  rw [htarget]
  dsimp only
  by_cases ht : 0 ≤ t ∧ t ≤ desc.item.filesize
  · rw [if_pos ht, if_pos ht, if_pos ht]
    refine ⟨_, rfl, rfl, rfl, ?_, hcache⟩
    omega
  · rw [if_neg ht, if_neg ht, if_neg ht]
    exact ⟨desc, rfl, rfl, rfl, hinside, hcache⟩

/-! ### The refinement -/

/-- One operation on an open file at the level of `fat16_read`, `fat16_seek` and `fat16_tell`. -/
def fatFileStep (A : Ata D) (bpb : FatBootSector) (s : FatFileDescriptor × DiskStream × D) :
    FileOp → Except Stop (FileOut × FatFileDescriptor × DiskStream × D)
  | .read size nmemb =>
    match fat16Read A bpb size.toNat nmemb.toNat s.1 s.2.1 s.2.2 with
    | .error e => .error e
    | .ok ((res, out), s) => .ok (⟨res, out⟩, s)
  | .seek offset whence =>
    match fat16Seek s.1 offset.toInt whence with
    | (res, desc) => .ok (⟨res, []⟩, desc, s.2)
  | .tell => .ok (⟨fat16Tell s.1, []⟩, s)

/-- A read does not reach past the end of the address range. -/
def ReadInRange (pos : ℕ) (op : FileOp) : Prop :=
  ∀ size nmemb, op = .read size nmemb → pos + size.toNat * nmemb.toNat < 4294967296

/-- A step of an open file is the step of the cursor. -/
theorem fatFileStep_spec (hV : Volume A drive img bpb) (hC : FileChain bpb img item chain)
    {s : FatFileDescriptor × DiskStream × D} {pos : ℕ} (hat : AtChainPos bpb item chain s.1 pos)
    (hs : s.2.1.diskId = drive) {op : FileOp} (hop : ReadInRange pos op) :
    ∃ out t pos', fatFileStep A bpb s op = .ok (out, t) ∧
      Cursor.step (fileContent bpb img item chain) pos op = .ok (out, pos') ∧
      AtChainPos bpb item chain t.1 pos' ∧ t.2.1.diskId = drive := by
  obtain ⟨desc, stream, d⟩ := s
  cases op with
  | read size nmemb =>
    obtain ⟨desc', stream', d', hread, hat', hs'⟩ :=
      fat16Read_spec hV hC hat (hop size nmemb rfl) hs d
    refine ⟨_, (desc', stream', d'), _, ?_, rfl, hat', hs'⟩
    unfold fatFileStep
    dsimp only
    rw [hread]
  | seek offset whence =>
    obtain ⟨desc', hseek, hat'⟩ := fat16Seek_spec hV hC hat offset whence
    refine ⟨⟨(fat16Seek desc offset.toInt whence).1, []⟩, (desc', stream, d), _, ?_, ?_, hat', hs⟩
    · unfold fatFileStep
      dsimp only
      rw [hseek]
    · unfold Cursor.step
      dsimp only
      rw [fileContent_length hV hC, hseek]
      split <;> rfl
  | tell =>
    refine ⟨_, (desc, stream, d), pos, rfl, ?_, hat, hs⟩
    have hsmall := hC.size
    have hinside := hat.inside
    unfold fat16Tell
    rw [hat.pos_eq, asInt32_of_lt (by omega)]
    rfl

/-- **An open file is a cursor.** On a readable volume below 4 GiB, every sequence of reads, seeks
and tells on a fresh descriptor of a file with a long enough chain answers like the cursor over the
file's content, as long as no read reaches past the address range. -/
theorem fat16_is_cursor (hV : Volume A drive img bpb) (hC : FileChain bpb img item chain)
    {stream : DiskStream} (hs : stream.diskId = drive) (d : D) {ops : List FileOp}
    (hops : Meets (fatFileStep A bpb) (fun s op => ReadInRange s.1.pos op)
      (FatFileDescriptor.fresh item, stream, d) ops) :
    ∃ outs t pos, runList (fatFileStep A bpb) (FatFileDescriptor.fresh item, stream, d) ops =
        .ok (outs, t) ∧
      runList (Cursor.step (fileContent bpb img item chain)) 0 ops = .ok (outs, pos) ∧
      t.1.pos = pos := by
  have hstep : ∀ (s : FatFileDescriptor × DiskStream × D) (pos : ℕ) (op : FileOp),
      (AtChainPos bpb item chain s.1 pos ∧ s.2.1.diskId = drive) → ReadInRange s.1.pos op →
      ∃ out t pos', fatFileStep A bpb s op = .ok (out, t) ∧
        Cursor.step (fileContent bpb img item chain) pos op = .ok (out, pos') ∧
        AtChainPos bpb item chain t.1 pos' ∧ t.2.1.diskId = drive :=
    fun s pos op hR hok => fatFileStep_spec hV hC hR.1 hR.2 (hR.1.pos_eq ▸ hok)
  obtain ⟨outs, t, pos, hrun, hcur, hat, -⟩ :=
    runList_simulates hstep ⟨AtPos.fresh (hC.layout hV), hs⟩ hops
  exact ⟨outs, t, pos, hrun, hcur, hat.pos_eq⟩

end File

/-- Reads across a cluster boundary, a seek back behind the cache and a read at the end of a file of
two clusters. -/
theorem fat16_is_cursor_two_clusters :
    let file := slice UInt8.ofNat 0 600
    let ops := [.read 100 5, .read 1 100, .seek (-50) .cur, .read 7 20, .seek 601 .set, .tell]
    ∃ outs t pos, runList (fatFileStep (imageAta (singleFileImage file)) singleFileBpb)
        (FatFileDescriptor.fresh (singleFileItem file.length), ⟨0, 0⟩, ()) ops = .ok (outs, t) ∧
      runList (Cursor.step (fileContent singleFileBpb (singleFileImage file)
        (singleFileItem file.length) (singleFileChain file.length))) 0 ops = .ok (outs, pos) ∧
      t.1.pos = pos := by
  intro file ops
  refine fat16_is_cursor (singleFile_volume 0) (singleFile_chain (by simp [file])) rfl ()
    (meets_of_checkRun (fun s op => match op with
      | .read size nmemb => s.1.pos + size.toNat * nmemb.toNat < 4294967296
      | _ => true) ?_ (by decide +kernel))
  rintro s op h size nmemb rfl
  exact of_decide_eq_true h

end VibeKernel
