import VibeKernel.Fs.FileCursor

/-!
# How much a read writes

What `fat16_read` stores at `out` is bounded by what it is asked for and by what is left of the
file, whatever the drive answers and whatever the table links to. The clamp compares
`pos + size * nmemb` with `filesize` after both operations wrapped around, so the bound needs
`InAddressRange`: the sum does not wrap. With it the position stays inside the file, and the
division at the end is not reached with `size = 0`.
-/

namespace VibeKernel

open Verif

variable {D : Type} {A : Ata D} {bpb : FatBootSector}

/-! ### What the loops store -/

theorem diskstreamReadLoop_length (diskId : ℕ) :
    ∀ (fuel sector offset total : ℕ) (d : D),
      (diskstreamReadLoop A diskId fuel sector offset total d).1.2.length ≤ total := by
  intro fuel
  induction fuel with
  | zero => exact fun _ _ _ _ => Nat.zero_le _
  | succ fuel ih =>
    intro sector offset total d
    rw [diskstreamReadLoop]
    by_cases htotal : total = 0
    · rw [if_pos htotal]
      exact Nat.zero_le _
    rw [if_neg htotal]
    cases hread : ataReadSector A diskId sector d with
    | mk buffer d₁ =>
      cases buffer with
      | none => exact Nat.zero_le _
      | some buffer =>
        dsimp only
        rw [List.length_append, slice_length]
        have hrest := ih (u32 (sector + 1)) 0
          (total - if 512 - offset > total then total else 512 - offset) d₁
        have hle : (if 512 - offset > total then total else 512 - offset) ≤ total := by
          split <;> omega
        exact (Nat.add_le_add le_rfl hrest).trans (Nat.add_sub_cancel' hle).le

theorem diskstreamRead_length (stream : DiskStream) (total : ℕ) (d : D) :
    (diskstreamRead A stream total d).1.2.length ≤ total := by
  have hloop := diskstreamReadLoop_length (A := A) stream.diskId total (stream.pos / 512)
    (stream.pos % 512) total d
  unfold diskstreamRead
  generalize diskstreamReadLoop A stream.diskId total (stream.pos / 512)
    (stream.pos % 512) total d = r at hloop
  obtain ⟨⟨ok, bytes⟩, d'⟩ := r
  cases ok
  · exact hloop
  · exact hloop

/-- Moving on to the next cluster changes the cache only. -/
theorem fat16AdvanceCluster_desc (totalRead cluster : ℕ) (desc : FatFileDescriptor)
    (stream : DiskStream) (d : D) :
    (fat16AdvanceCluster A bpb totalRead cluster desc stream d).2.1.item = desc.item ∧
      (fat16AdvanceCluster A bpb totalRead cluster desc stream d).2.1.pos = desc.pos := by
  unfold fat16AdvanceCluster
  dsimp only
  split
  · exact ⟨rfl, rfl⟩
  · exact ⟨rfl, rfl⟩

/-- **The loop** counts and stores at most `total` bytes. -/
theorem fat16ReadLoop_length (total : ℕ) :
    ∀ (fuel totalRead cluster : ℕ) (out : List UInt8) (desc : FatFileDescriptor)
      (stream : DiskStream) (d : D), totalRead ≤ total → out.length ≤ totalRead →
      (fat16ReadLoop A bpb total fuel totalRead cluster out desc stream d).1.1 ≤ total ∧
        (fat16ReadLoop A bpb total fuel totalRead cluster out desc stream d).1.2.length ≤ total ∧
        (fat16ReadLoop A bpb total fuel totalRead cluster out desc stream d).2.1.item =
          desc.item ∧
        (fat16ReadLoop A bpb total fuel totalRead cluster out desc stream d).2.1.pos =
          desc.pos := by
  intro fuel
  induction fuel with
  | zero => exact fun _ _ _ _ _ _ hle hlen => ⟨hle, hlen.trans hle, rfl, rfl⟩
  | succ fuel ih =>
    intro totalRead cluster out desc stream d hle hlen
    rw [fat16ReadLoop]
    by_cases hlt : totalRead < total
    swap
    · rw [if_neg hlt]
      exact ⟨hle, hlen.trans hle, rfl, rfl⟩
    rw [if_pos hlt]
    obtain ⟨hitem, hpos⟩ :=
      @fat16AdvanceCluster_desc _ A bpb totalRead cluster desc stream d
    generalize fat16AdvanceCluster A bpb totalRead cluster desc stream d = x at hitem hpos
    obtain ⟨cluster₁, desc₁, stream₁, d₁⟩ := x
    dsimp only at hitem hpos ⊢
    by_cases hend : cluster₁ ≥ fat16ClusterReservedMin
    · rw [if_pos hend]
      exact ⟨hle, hlen.trans hle, hitem, hpos⟩
    rw [if_neg hend]
    -- a piece is at most what is left of the read
    generalize hn : (if bpb.clusterSize - u32 (desc₁.pos + totalRead) % bpb.clusterSize >
      total - totalRead then total - totalRead
      else bpb.clusterSize - u32 (desc₁.pos + totalRead) % bpb.clusterSize) = n
    have hnle : n ≤ total - totalRead := by
      rw [← hn]
      split
      · exact le_refl _
      · next h => exact Nat.not_lt.mp h
    generalize hr : diskstreamRead A (diskstreamSeek stream₁ _) n d₁ = r
    have hbytes : r.1.2.length ≤ n := by
      rw [← hr]
      exact diskstreamRead_length _ n d₁
    clear hr hn
    obtain ⟨⟨res, bytes⟩, stream₂, d₂⟩ := r
    dsimp only at hbytes ⊢
    have hout : (out ++ bytes).length ≤ totalRead + n := by
      rw [List.length_append]
      omega
    by_cases hres : res ≠ 0
    · rw [if_pos hres]
      exact ⟨hle, hout.trans (by omega), hitem, hpos⟩
    · rw [if_neg hres]
      obtain ⟨hcount, hstored, hitem', hpos'⟩ :=
        ih (totalRead + n) cluster₁ (out ++ bytes) desc₁ stream₂ d₂ (by omega) hout
      exact ⟨hcount, hstored, hitem'.trans hitem, hpos'.trans hpos⟩

/-! ### One call -/

/-- The clamp of `fat16_read` limits a read to what is left of the file exactly if the end of the
read does not wrap around. -/
theorem totalToRead_le_iff {desc : FatFileDescriptor} {size nmemb : ℕ}
    (hpos : desc.pos ≤ desc.item.filesize) (hsize : desc.item.filesize < 4294967296) :
    desc.totalToRead size nmemb ≤ desc.item.filesize - desc.pos ↔
      desc.pos + u32 (size * nmemb) < 4294967296 := by
  have hword := u32_lt (size * nmemb)
  unfold FatFileDescriptor.totalToRead
  generalize u32 (size * nmemb) = total at hword ⊢
  rw [u32Sub_of_le hpos hsize, u32_eq]
  constructor
  · intro h
    split at h <;> omega
  · intro h
    rw [Nat.mod_eq_of_lt h]
    split <;> omega

/-- A read with no item asks for no byte. -/
theorem totalToRead_no_item {desc : FatFileDescriptor} {nmemb : ℕ}
    (hpos : desc.pos ≤ desc.item.filesize) (hsize : desc.item.filesize < 4294967296) :
    desc.totalToRead 0 nmemb = 0 := by
  unfold FatFileDescriptor.totalToRead
  rw [Nat.zero_mul, u32_of_lt (by norm_num : 0 < 4294967296), Nat.add_zero,
    u32_of_lt (lt_of_le_of_lt hpos hsize), if_neg (Nat.not_lt.mpr hpos)]

/-- The end of a read does not wrap around. -/
def InAddressRange (pos : ℕ) (op : FileOp) : Prop :=
  ∀ size nmemb, op = .read size nmemb → pos + u32 (size.toNat * nmemb.toNat) < 4294967296

/-- A descriptor of the file whose position lies in the file. -/
structure InFile (item : FatDirectoryItem) (desc : FatFileDescriptor) : Prop where
  item_eq : desc.item = item
  inside : desc.pos ≤ item.filesize

/-- A read in the address range stores at most what it is asked for and what is left, stays inside
the file and does not divide by zero. -/
theorem fat16Read_inFile {item : FatDirectoryItem} {desc : FatFileDescriptor} {size nmemb : ℕ}
    (hsize : item.filesize < 4294967296) (hat : InFile item desc)
    (hrange : desc.pos + u32 (size * nmemb) < 4294967296) (stream : DiskStream) (d : D) :
    ∃ res out desc' stream' d',
      fat16Read A bpb size nmemb desc stream d = .ok ((res, out), desc', stream', d') ∧
        out.length ≤ min (size * nmemb) (item.filesize - desc.pos) ∧ InFile item desc' := by
  obtain ⟨rfl, hpos⟩ := hat
  have hleft := (totalToRead_le_iff hpos hsize).mpr hrange
  -- neither more than asked for, nor more than is left
  have hasked : desc.totalToRead size nmemb ≤ size * nmemb := by
    have hle : u32 (size * nmemb) ≤ size * nmemb := Nat.mod_le _ _
    unfold FatFileDescriptor.totalToRead
    generalize u32 (size * nmemb) = total at hle hrange ⊢
    rw [u32Sub_of_le hpos hsize, u32_of_lt hrange]
    split <;> omega
  have hnone : size = 0 → desc.totalToRead size nmemb = 0 := by
    rintro rfl
    exact totalToRead_no_item hpos hsize
  unfold fat16Read
  generalize desc.totalToRead size nmemb = total at hleft hasked hnone ⊢
  dsimp only
  by_cases htotal : total = 0
  · rw [if_pos htotal]
    exact ⟨0, [], desc, stream, d, rfl, Nat.zero_le _, rfl, hpos⟩
  rw [if_neg htotal]
  generalize fat16GetClusterForOffset A bpb desc.start.1 (u32Sub desc.pos desc.start.2) stream d = x
  obtain ⟨cluster, stream₁, d₁⟩ := x
  dsimp only
  by_cases hend : cluster ≥ fat16ClusterReservedMin
  · rw [if_pos hend]
    exact ⟨0, [], desc, stream₁, d₁, rfl, Nat.zero_le _, rfl, hpos⟩
  rw [if_neg hend]
  -- the loop stores no more than it counts, and it counts up to `total`
  obtain ⟨hcount, hstored, hitem, hpos'⟩ := @fat16ReadLoop_length _ A bpb total total 0
    cluster [] { desc with
      lastCluster := cluster
      lastClusterPos := desc.pos / bpb.clusterSize * bpb.clusterSize } stream₁ d₁
    (Nat.zero_le _) (Nat.zero_le _)
  generalize fat16ReadLoop A bpb total total 0 cluster [] _ stream₁ d₁ =
    y at hcount hstored hitem hpos'
  obtain ⟨⟨totalRead, out⟩, desc₁, stream₂, d₂⟩ := y
  dsimp only at hcount hstored hitem hpos' ⊢
  rw [if_neg fun h => htotal (hnone h)]
  refine ⟨_, out, _, stream₂, d₂, rfl, ?_, hitem, ?_⟩
  · exact le_min (hstored.trans hasked) (hstored.trans hleft)
  · change u32 (desc₁.pos + totalRead) ≤ desc.item.filesize
    rw [hpos', u32_of_lt (by omega)]
    omega

/-- A seek stays inside the file. -/
theorem fat16Seek_inFile {item : FatDirectoryItem} {desc : FatFileDescriptor}
    (hat : InFile item desc) (offset : ℤ) (whence : FileSeekMode) :
    InFile item (fat16Seek desc offset whence).2 := by
  obtain ⟨rfl, hpos⟩ := hat
  have hmove : ∀ newPos : ℕ, InFile desc.item (if newPos > desc.item.filesize then ((-1 : ℤ), desc)
      else (0, { desc with pos := newPos })).2 := by
    intro newPos
    by_cases hnew : newPos > desc.item.filesize
    · rw [if_pos hnew]
      exact ⟨rfl, hpos⟩
    · rw [if_neg hnew]
      exact ⟨rfl, Nat.not_lt.mp hnew⟩
  exact hmove _

/-! ### Runs -/

/-- What a call promises: a read stores no more than it is asked for and than is left of the file,
and the position stays inside the file. -/
structure ReadBounded (item : FatDirectoryItem) (s : FatFileDescriptor × DiskStream × D)
    (op : FileOp) (out : FileOut) (t : FatFileDescriptor × DiskStream × D) : Prop where
  stored : ∀ size nmemb, op = .read size nmemb →
    out.bytes.length ≤ min (size.toNat * nmemb.toNat) (item.filesize - s.1.pos)
  inside : t.1.pos ≤ item.filesize

/-- **The step lemma.** A call in the address range returns, is bounded and keeps the descriptor in
the file. -/
theorem fatFileStep_bounded {item : FatDirectoryItem} (hsize : item.filesize < 4294967296)
    {s : FatFileDescriptor × DiskStream × D} (hat : InFile item s.1) {op : FileOp}
    (hop : InAddressRange s.1.pos op) :
    ∃ out t, fatFileStep A bpb s op = .ok (out, t) ∧ ReadBounded item s op out t ∧
      InFile item t.1 := by
  obtain ⟨desc, stream, d⟩ := s
  cases op with
  | read size nmemb =>
    obtain ⟨res, out, desc', stream', d', hread, hlen, hat'⟩ :=
      @fat16Read_inFile _ A bpb _ _ _ _ hsize hat (hop size nmemb rfl) stream d
    refine ⟨⟨res, out⟩, (desc', stream', d'), ?_, ⟨?_, hat'.inside⟩, hat'⟩
    · unfold fatFileStep
      dsimp only
      rw [hread]
    · intro size' nmemb' hop'
      cases hop'
      exact hlen
  | seek offset whence =>
    have hat' := fat16Seek_inFile hat offset.toInt whence
    exact ⟨_, ((fat16Seek desc offset.toInt whence).2, stream, d), rfl,
      ⟨fun _ _ h => (by cases h), hat'.inside⟩, hat'⟩
  | tell =>
    exact ⟨_, (desc, stream, d), rfl, ⟨fun _ _ h => (by cases h), hat.inside⟩, hat⟩

/-- **Reads are bounded.** On any drive and any volume, in every run of reads, seeks and tells on a
fresh descriptor whose reads end in the address range, every call returns, no read stores more than
it is asked for or than is left of the file, and the position stays inside the file. -/
theorem fat16_reads_bounded {item : FatDirectoryItem} (hsize : item.filesize < 4294967296)
    (stream : DiskStream) (d : D) {ops : List FileOp}
    (hops : Meets (fatFileStep A bpb) (fun s op => InAddressRange s.1.pos op)
      (FatFileDescriptor.fresh item, stream, d) ops) :
    Meets (fatFileStep A bpb)
      (fun s op => ∃ out t, fatFileStep A bpb s op = .ok (out, t) ∧ ReadBounded item s op out t)
      (FatFileDescriptor.fresh item, stream, d) ops :=
  @meets_of_progress _ _ _ _ _ _ (fun s => InFile item s.1) _
    (fun _ _ hat hop => fatFileStep_bounded hsize hat hop) _ _ ⟨rfl, Nat.zero_le _⟩ hops

/-- A run with an item count that wraps around to a small number of bytes. -/
theorem fat16_reads_bounded_run :
    let file := slice UInt8.ofNat 0 600
    let ops := [.read 100 5, .read 65536 65537, .seek (-50) .cur, .read 0 20, .read 7 20]
    Meets (fatFileStep (imageAta (singleFileImage file)) singleFileBpb)
      (fun s op => ∃ out t, fatFileStep (imageAta (singleFileImage file)) singleFileBpb s op =
        .ok (out, t) ∧ ReadBounded (singleFileItem 600) s op out t)
      (FatFileDescriptor.fresh (singleFileItem 600), ⟨0, 0⟩, ()) ops := by
  intro file ops
  refine fat16_reads_bounded (by decide) ⟨0, 0⟩ ()
    (meets_of_checkRun (fun s op => match op with
      | .read size nmemb => s.1.pos + u32 (size.toNat * nmemb.toNat) < 4294967296
      | _ => true) ?_ (by decide +kernel))
  rintro s op h size nmemb rfl
  exact of_decide_eq_true h

/-- **An unclamped read.** At position `100` of a file of `600` bytes a read of `2 ^ 32 - 1` bytes
ends, after the wrap-around, in front of the end of the file. It stores both clusters to their end,
`924` bytes instead of the `500` that are left, and leaves the position behind the end of the
file. -/
theorem fat16_read_unclamped :
    let file := slice UInt8.ofNat 0 600
    let step := fatFileStep (imageAta (singleFileImage file)) singleFileBpb
    let s := (FatFileDescriptor.fresh (singleFileItem 600), (⟨0, 0⟩ : DiskStream), ())
    ((runList step s [.seek 100 .set, .read 1 4294967295]).toOption.map fun r =>
      (r.1.map fun out => out.bytes.length, r.2.1.pos)) = some ([0, 924], 1024) := by
  decide +kernel

end VibeKernel
