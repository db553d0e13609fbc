import VibeKernel.Tools.RoundTrip

/-!
# The other files of the image

What `inject_file.py` does to the files that were in the image before. `Present` says where the
entries of these files are, in the root directory and in the directories below it, and `OnChain`
which clusters belong to a file. `Undisturbed` says that entries, table entries and clusters of all
of them are as they were.

The script looks for free clusters in the first 65536 words behind the start of the table, whatever
the volume is. `inject_harmless_iff` says when this is right: the volume has as many free clusters
as are needed, so that the first free words are those of clusters, and none of these is in the chain
of a file. The script does not round the size of the root directory to whole sectors, as the kernel
does.

A name that is not ASCII, and a size that does not fit in a word, make the script raise an error in
the middle of the entry. What it has written by then stays in the image.
-/

namespace VibeKernel

open Verif

/-! ### What the script leaves -/

/-- The two parts of the target name after `ljust`, the cut and `encode('ascii')`, with `none` where
the encoding raises an error. -/
structure EncodedName where
  base : Option (List UInt8)
  ext : Option (List UInt8)
  base_length : ∀ b ∈ base, b.length = 8
  ext_length : ∀ b ∈ ext, b.length = 3

/-- The bytes of the directory entry that are written, up to the first error. The number `first` is
missing if `free_clusters` is empty. -/
def entryBytes (name : EncodedName) (first : Option ℕ) (size : ℕ) : List UInt8 :=
  match name.base, name.ext, first with
  | none, _, _ => []
  | some base, none, _ => base
  | some base, some ext, none => base ++ ext ++ [0x20] ++ List.replicate 10 0 ++ packH 0 ++ packH 0
  | some base, some ext, some first =>
    base ++ ext ++ [0x20] ++ List.replicate 10 0 ++ packH 0 ++ packH 0 ++ packH first ++
      if size < 4294967296 then packI size else []

namespace InjectGeometry

variable (g : InjectGeometry) (img : ℕ → UInt8) (len : ℕ)

/-- The loop over the root directory of an image of `len` bytes: the first free entry. -/
def scanRoot : List ℕ → Option ℕ
  | [] => none
  | i :: is =>
    -- behind the end there is no `entry[0]`
    if len ≤ g.rootStart + 32 * i then none
    else if img (g.rootStart + 32 * i) = 0x00 ∨ img (g.rootStart + 32 * i) = 0xE5 then some i
    else scanRoot is

/-- The loop over the allocation table of an image of `len` bytes. -/
def scanTable (needed : ℕ) : List ℕ → List ℕ → Option (List ℕ)
  | [], found => some found
  | i :: is, found =>
    -- behind the end `unpack` raises an error
    if len < g.fatStart + 2 * i + 2 then none
    else if unpackH img (g.fatStart + 2 * i) = 0 then
      if (found ++ [i]).length = needed then some (found ++ [i])
        else scanTable needed is (found ++ [i])
    else scanTable needed is found

end InjectGeometry

/-- The entry and the free clusters that `inject` finds in an image of `len` bytes, or `none` if it
exits. It has written nothing by then. -/
def injectScan (img : ℕ → UInt8) (len size : ℕ) : Option (ℕ × List ℕ) :=
  let g := InjectGeometry.read img
  let needed := g.clustersNeeded size
  if len < 24 then none
  else
    match g.scanRoot img len (List.range g.rootEntries) with
    | none => none
    | some entryIdx =>
      match g.scanTable img len needed (List.range' 2 65534) [] with
      | none => none
      | some clusters => if clusters.length < needed then none else some (entryIdx, clusters)

/-- The writes of `inject`, or `none` if it exits before them. -/
def injectWrites (img : ℕ → UInt8) (len : ℕ) (data : List UInt8) (name : EncodedName) :
    Option (List (Write UInt8)) :=
  let g := InjectGeometry.read img
  let needed := g.clustersNeeded data.length
  match injectScan img len data.length with
  | none => none
  | some (entryIdx, clusters) =>
    some (g.fatWrites clusters needed ++ g.dataWrites clusters needed data ++
      [{ pos := g.rootStart + entryIdx * 32, data := entryBytes name clusters.head? data.length }])

/-- The image after the script. -/
def injectLeaves (img : ℕ → UInt8) (len : ℕ) (data : List UInt8) (name : EncodedName) : ℕ → UInt8 :=
  match injectWrites img len data name with
  | none => img
  | some ws => applyWrites img ws

/-- The clusters that the script links. -/
def injectClusters (img : ℕ → UInt8) (len size : ℕ) : List ℕ :=
  match injectScan img len size with
  | none => []
  | some (_, clusters) => clusters.take ((InjectGeometry.read img).clustersNeeded size)

/-- An ASCII name. -/
def asciiName (name : List UInt8) : EncodedName where
  base := some (ljust (targetBase name) 8)
  ext := some (ljust (targetExt name) 3)
  base_length b hb := by
    cases hb
    exact ljust_length _ _
  ext_length b hb := by
    cases hb
    exact ljust_length _ _

section Scan

variable {g : InjectGeometry} {img : ℕ → UInt8} {len : ℕ}

theorem scanRoot_some : ∀ {is : List ℕ} {idx : ℕ}, g.scanRoot img len is = some idx →
    (is.find? fun i => img (g.rootStart + 32 * i) = 0x00 ∨ img (g.rootStart + 32 * i) = 0xE5) =
      some idx
  | [], _, h => nomatch h
  | i :: is, idx, h => by
    unfold InjectGeometry.scanRoot at h
    split_ifs at h with hlen hfree
    · rw [List.find?_cons, decide_eq_true hfree]
      exact h
    · rw [List.find?_cons, decide_eq_false hfree]
      exact scanRoot_some h

/-- The loop over the directory finds no entry if there is no free one in the image. -/
theorem scanRoot_none : ∀ {is : List ℕ}, is.Pairwise (· < ·) → (g.scanRoot img len is = none ↔
    ∀ i ∈ is, g.rootStart + 32 * i < len →
      img (g.rootStart + 32 * i) ≠ 0x00 ∧ img (g.rootStart + 32 * i) ≠ 0xE5)
  | [], _ => iff_of_true rfl fun _ h => nomatch h
  | i :: is, hsorted => by
    obtain ⟨hlt, hsorted'⟩ := List.pairwise_cons.mp hsorted
    unfold InjectGeometry.scanRoot
    split_ifs with hlen hfree
    · -- the later entries lie behind the end, too
      refine iff_of_true rfl fun j hj hin => ?_
      rcases List.mem_cons.mp hj with rfl | hj
      · omega
      · have := hlt j hj
        omega
    · refine iff_of_false (fun h => nomatch h) fun h => ?_
      obtain ⟨h0, h5⟩ := h i List.mem_cons_self (Nat.not_le.mp hlen)
      exact hfree.elim h0 h5
    · rw [scanRoot_none hsorted', List.forall_mem_cons]
      exact ⟨fun h => ⟨fun _ => not_or.mp hfree, h⟩, fun h => h.2⟩

theorem scanTable_some {needed : ℕ} : ∀ {is found clusters : List ℕ},
    g.scanTable img len needed is found = some clusters →
      g.findClusters img needed is found = clusters
  | [], _, _, h => Option.some.inj h
  | i :: is, found, clusters, h => by
    unfold InjectGeometry.scanTable at h
    unfold InjectGeometry.findClusters
    split_ifs at h ⊢ with hlen hzero hfull
    · exact Option.some.inj h
    · exact scanTable_some h
    · exact scanTable_some h

/-- The loop over the table finds the needed number of clusters exactly if the image has as many
free words. -/
theorem scanTable_refuses {needed : ℕ} : ∀ {is found : List ℕ}, is.Pairwise (· < ·) →
    found.length < needed → ((∀ clusters, g.scanTable img len needed is found = some clusters →
      clusters.length < needed) ↔ found.length + (is.filter fun i =>
        g.fatStart + 2 * i + 2 ≤ len ∧ unpackH img (g.fatStart + 2 * i) = 0).length < needed)
  | [], found, _, hfew => iff_of_true (fun _ h => Option.some.inj h ▸ hfew) hfew
  | i :: is, found, hsorted, hfew => by
    obtain ⟨hlt, hsorted'⟩ := List.pairwise_cons.mp hsorted
    have hlen : (found ++ [i]).length = found.length + 1 := by
      rw [List.length_append, List.length_singleton]
    unfold InjectGeometry.scanTable
    split_ifs with hend hzero hfull
    · -- no later word lies in the image
      have hnil : ((i :: is).filter fun i => g.fatStart + 2 * i + 2 ≤ len ∧
          unpackH img (g.fatStart + 2 * i) = 0) = [] := by
        refine List.filter_eq_nil_iff.mpr fun j hj h => ?_
        have hin := (of_decide_eq_true h).1
        rcases List.mem_cons.mp hj with rfl | hj
        · omega
        · have := hlt j hj
          omega
      rw [hnil]
      exact iff_of_true (fun _ h => nomatch h) hfew
    · rw [List.filter_cons, if_pos (decide_eq_true ⟨Nat.not_lt.mp hend, hzero⟩), List.length_cons]
      refine iff_of_false (fun h => ?_) (by omega)
      have := h _ rfl
      omega
    · rw [List.filter_cons, if_pos (decide_eq_true ⟨Nat.not_lt.mp hend, hzero⟩), List.length_cons,
        scanTable_refuses hsorted' (by omega), hlen]
      omega
    · rw [List.filter_cons, if_neg fun h => hzero (of_decide_eq_true h).2]
      exact scanTable_refuses hsorted' hfew

/-- If no cluster is needed, the loop runs to the end of the table. -/
theorem scanTable_zero : ∀ {is found : List ℕ}, g.scanTable img len 0 is found = none ↔
    ∃ i ∈ is, len < g.fatStart + 2 * i + 2
  | [], _ => iff_of_false (fun h => nomatch h) fun ⟨_, h, _⟩ => nomatch h
  | i :: is, found => by
    rw [List.exists_mem_cons_iff]
    unfold InjectGeometry.scanTable
    split_ifs with hend hzero hfull
    · exact iff_of_true rfl (Or.inl hend)
    · rw [List.length_append] at hfull
      exact absurd hfull (Nat.succ_ne_zero _)
    · rw [scanTable_zero, or_iff_right hend]
    · rw [scanTable_zero, or_iff_right hend]

end Scan

/-- For an ASCII name and a file that ends without an error, this is the image of `inject`. -/
theorem injectLeaves_of_inject {img img' : ℕ → UInt8} {len : ℕ} {data name : List UInt8}
    (h : inject img data name = some img') (hsize : data.length < 4294967296)
    (hscan : injectScan img len data.length ≠ none) :
    injectLeaves img len data (asciiName name) = img' := by
  unfold inject at h
  unfold injectScan at hscan
  unfold injectLeaves injectWrites injectScan
  dsimp only at h hscan ⊢
  split_ifs at hscan ⊢ with hlen
  · exact absurd rfl hscan
  -- nothing is left when a scan runs behind the end of the image
  cases hidx : (InjectGeometry.read img).scanRoot img len
      (List.range (InjectGeometry.read img).rootEntries) with
  | none =>
    rw [hidx] at hscan
    exact absurd rfl hscan
  | some idx =>
    rw [hidx] at hscan
    have hentry : (InjectGeometry.read img).entryIdx img = some idx := scanRoot_some hidx
    rw [hentry] at h
    dsimp only at h hscan ⊢
    cases htable : (InjectGeometry.read img).scanTable img len
        ((InjectGeometry.read img).clustersNeeded data.length) (List.range' 2 65534) [] with
    | none =>
      rw [htable] at hscan
      exact absurd rfl hscan
    | some clusters =>
      rw [scanTable_some htable] at h
      rw [htable] at hscan
      dsimp only at h hscan ⊢
      split_ifs at h hscan ⊢ with hfew
      cases clusters with
      | nil => cases h
      | cons first rest =>
        -- a size of 32 bits is written with the entry
        have hbytes : entryBytes (asciiName name) (some first) data.length =
            injectEntry name first data.length := by
          change _ ++ (if data.length < 4294967296 then packI data.length else []) = _
          rw [if_pos hsize]
          rfl
        dsimp only
        rw [List.head?_cons, hbytes]
        exact Option.some.inj h

theorem entryBytes_length_le (name : EncodedName) (first : Option ℕ) (size : ℕ) :
    (entryBytes name first size).length ≤ 32 := by
  obtain ⟨base, ext, hbase, hext⟩ := name
  cases base with
  | none => exact Nat.zero_le 32
  | some base =>
    have h8 := hbase base rfl
    cases ext with
    | none =>
      change base.length ≤ 32
      omega
    | some ext =>
      have h3 := hext ext rfl
      have hrest : ∀ l : List UInt8, (base ++ ext ++ [0x20] ++ List.replicate 10 0 ++ packH 0 ++
          packH 0 ++ l).length = 26 + l.length := by
        intro l
        have hpack : (packH 0).length = 2 := rfl
        simp only [List.length_append, List.length_replicate, List.length_singleton, h8, h3, hpack]
      cases first with
      | none =>
        have h := hrest []
        rw [List.append_nil] at h
        exact h.le.trans (by decide)
      | some first =>
        change ((base ++ ext ++ [0x20] ++ List.replicate 10 0 ++ packH 0 ++ packH 0) ++
          packH first ++ if size < 4294967296 then packI size else []).length ≤ 32
        rw [List.append_assoc, hrest, List.length_append]
        have hlast : (if size < 4294967296 then packI size else []).length ≤ 4 := by
          split
          · exact le_refl 4
          · exact Nat.zero_le 4
        have hpack : (packH first).length = 2 := rfl
        omega

/-! ### The files of an image -/

namespace FatBootSector

variable (bpb : FatBootSector) (img : ℕ → UInt8)

/-- The cluster is in the data area, and has its entry in the table. -/
def Exists (c : ℕ) : Prop := bpb.HasCluster c ∧ 2 * c + 2 ≤ 512 * bpb.fatSectors

/-- The cluster belongs to the chain. -/
def OnChain (first c : ℕ) : Prop :=
  ∃ k, (∀ j ≤ k, bpb.Exists (bpb.chainCluster img first j)) ∧ c = bpb.chainCluster img first k

/-- The position of entry number `e` of a directory below the root directory. -/
def entryPos (first e : ℕ) : ℕ :=
  bpb.clusterPos (bpb.chainCluster img first (e / (bpb.clusterSize / 32))) +
    32 * (e % (bpb.clusterSize / 32))

/-- There is a file or a directory whose entry is at this position. -/
inductive Present : ℕ → Prop
  | root (i : ℕ) (hi : i < bpb.rootDirEntries)
    (hlive : ∀ j ≤ i, img (512 * bpb.rootDirectorySector + 32 * j) ≠ 0x00)
    (hused : img (512 * bpb.rootDirectorySector + 32 * i) ≠ 0xE5) :
    Present (512 * bpb.rootDirectorySector + 32 * i)
  | sub {pos : ℕ} (h : Present pos) (hdir : (img (pos + 11)).toNat &&& 0x10 ≠ 0) (e : ℕ)
    (hchain : ∀ k ≤ e / (bpb.clusterSize / 32),
      bpb.Exists (bpb.chainCluster img (unpackH img (pos + 26)) k))
    (hlive : ∀ j ≤ e, img (bpb.entryPos img (unpackH img (pos + 26)) j) ≠ 0x00)
    (hused : img (bpb.entryPos img (unpackH img (pos + 26)) e) ≠ 0xE5) :
    Present (bpb.entryPos img (unpackH img (pos + 26)) e)

/-- Of every file that is in the image the directory entry, the entries of its clusters in all
copies of the table, and the clusters are the same in the other image. -/
def Undisturbed (img' : ℕ → UInt8) : Prop :=
  ∀ pos, bpb.Present img pos →
    (∀ i < 32, img' (pos + i) = img (pos + i)) ∧
    ∀ c, bpb.OnChain img (unpackH img (pos + 26)) c →
      (∀ k < bpb.fatCopies, ∀ i < 2,
        img' (512 * (bpb.reservedSectors + k * bpb.fatSectors) + 2 * c + i) =
          img (512 * (bpb.reservedSectors + k * bpb.fatSectors) + 2 * c + i)) ∧
      ∀ i < bpb.clusterSize, img' (bpb.clusterPos c + i) = img (bpb.clusterPos c + i)

end FatBootSector

/-- The script exits before it writes, or it disturbs no file and links clusters of the volume
only. -/
def Harmless (bpb : FatBootSector) (img : ℕ → UInt8) (len : ℕ) (data : List UInt8)
    (name : EncodedName) : Prop :=
  injectWrites img len data name = none ∨
    (bpb.Undisturbed img (injectLeaves img len data name) ∧
      ∀ c ∈ injectClusters img len data.length, bpb.Exists c)

/-- There are as many free clusters as are needed, and no file uses one of the first of them. -/
structure HasRoom (bpb : FatBootSector) (img : ℕ → UInt8) (needed : ℕ) : Prop where
  enough : FreeClusters bpb img needed
  unused : ∀ pos, bpb.Present img pos → ∀ c, bpb.OnChain img (unpackH img (pos + 26)) c →
    c ∉ (freeList bpb img).take needed

/-! ### Where the writes lie -/

section Places

variable {bpb : FatBootSector} {img : ℕ → UInt8} {taken : List ℕ} {idx : ℕ}

/-- A write is one to the table entry of a taken cluster, to a taken cluster, or to the entry number
`idx` of the root directory. -/
inductive Placed (bpb : FatBootSector) (taken : List ℕ) (idx : ℕ) (w : Write UInt8) : Prop
  | table (k c : ℕ) (hk : k < bpb.fatCopies) (hc : c ∈ taken)
    (hspan : w.span = ⟨512 * (bpb.reservedSectors + k * bpb.fatSectors) + 2 * c, 2⟩)
  | cluster (c : ℕ) (hc : c ∈ taken) (hstart : bpb.clusterPos c ≤ w.span.start)
    (hstop : w.span.stop ≤ bpb.clusterPos c + bpb.clusterSize)
  | entry (hstart : w.span.start = 512 * bpb.rootDirectorySector + 32 * idx)
    (hstop : w.span.stop ≤ 512 * bpb.rootDirectorySector + 32 * idx + 32)

/-- The table entries of a copy end in front of the root directory. -/
theorem tableEntry_le {k c : ℕ} (hk : k < bpb.fatCopies) (hc : 2 * c + 2 ≤ 512 * bpb.fatSectors) :
    512 * (bpb.reservedSectors + k * bpb.fatSectors) + 2 * c + 2 ≤
      512 * bpb.rootDirectorySector := by
  have hmul : (k + 1) * bpb.fatSectors ≤ bpb.fatCopies * bpb.fatSectors := Nat.mul_le_mul_right _ hk
  rw [Nat.succ_mul] at hmul
  unfold FatBootSector.rootDirectorySector
  omega

/-- The clusters lie behind the root directory. -/
theorem root_le_clusterPos (hacc : bpb.check = none) (c : ℕ) :
    512 * bpb.rootDirectorySector + 32 * bpb.rootDirEntries ≤ bpb.clusterPos c := by
  have hbytes : bpb.bytesPerSector = 512 := (FatBootSector.accepted_iff.mp hacc).2.2.1
  unfold FatBootSector.clusterPos FatBootSector.firstDataSector FatBootSector.rootDirectorySector
  rw [hbytes]
  omega

variable (hacc : bpb.check = none) (hsize : bpb.clusterSize = 512 * bpb.sectorsPerCluster)
  (htaken : ∀ c ∈ taken, bpb.Exists c)

include hacc htaken

/-- No write touches another entry of the root directory. -/
theorem Placed.root_apart {w : Write UInt8} (h : Placed bpb taken idx w) {i : ℕ}
    (hi : i < bpb.rootDirEntries) (hne : i ≠ idx) {a : ℕ}
    (ha : 512 * bpb.rootDirectorySector + 32 * i ≤ a)
    (ha' : a < 512 * bpb.rootDirectorySector + 32 * i + 32) : ¬ w.span.Has a := by
  rintro ⟨hlow, hhigh⟩
  cases h with
  | table k c hk hc hspan =>
    have hle := tableEntry_le hk (htaken c hc).2
    rw [hspan] at hhigh
    unfold Span.stop at hhigh
    dsimp only at hhigh
    omega
  | cluster c hc hstart hstop =>
    have hle := root_le_clusterPos hacc c
    omega
  | entry hstart hstop => omega

/-- No write touches the table entry of a cluster that is not taken. -/
theorem Placed.table_apart {w : Write UInt8} (h : Placed bpb taken idx w) {k c' : ℕ}
    (hk : k < bpb.fatCopies) (hc' : bpb.Exists c') (hnot : c' ∉ taken) {a : ℕ}
    (ha : 512 * (bpb.reservedSectors + k * bpb.fatSectors) + 2 * c' ≤ a)
    (ha' : a < 512 * (bpb.reservedSectors + k * bpb.fatSectors) + 2 * c' + 2) : ¬ w.span.Has a := by
  have hend := tableEntry_le hk hc'.2
  rintro ⟨hlow, hhigh⟩
  cases h with
  | table l c hl hc hspan =>
    have hne : c ≠ c' := fun heq => hnot (heq ▸ hc)
    have hc2 := (htaken c hc).2
    have hc2' := hc'.2
    rw [hspan] at hlow hhigh
    unfold Span.stop at hhigh
    dsimp only at hlow hhigh
    -- the copies lie one behind the other
    rcases Nat.lt_trichotomy k l with hkl | rfl | hlk
    · have hmul : (k + 1) * bpb.fatSectors ≤ l * bpb.fatSectors := Nat.mul_le_mul_right _ hkl
      rw [Nat.succ_mul] at hmul
      omega
    · omega
    · have hmul : (l + 1) * bpb.fatSectors ≤ k * bpb.fatSectors := Nat.mul_le_mul_right _ hlk
      rw [Nat.succ_mul] at hmul
      omega
  | cluster c hc hstart hstop =>
    have hle := root_le_clusterPos hacc c
    omega
  | entry hstart hstop => omega

include hsize

/-- No write touches a cluster that is not taken. -/
theorem Placed.cluster_apart {w : Write UInt8} (h : Placed bpb taken idx w)
    (hidx : idx < bpb.rootDirEntries) {c' : ℕ} (hc' : bpb.Exists c') (hnot : c' ∉ taken) {a : ℕ}
    (ha : bpb.clusterPos c' ≤ a) (ha' : a < bpb.clusterPos c' + bpb.clusterSize) :
    ¬ w.span.Has a := by
  have hroot := root_le_clusterPos hacc c'
  rintro ⟨hlow, hhigh⟩
  cases h with
  | table k c hk hc hspan =>
    have hle := tableEntry_le hk (htaken c hc).2
    rw [hspan] at hhigh
    unfold Span.stop at hhigh
    dsimp only at hhigh
    omega
  | cluster c hc hstart hstop =>
    have hne : c ≠ c' := fun heq => hnot (heq ▸ hc)
    rcases Nat.lt_or_gt_of_ne hne with hlt | hgt
    · have hle := clusterPos_add_le (htaken c hc).1.1 hlt hsize
      omega
    · have hle := clusterPos_add_le hc'.1.1 hgt hsize
      omega
  | entry hstart hstop => omega

end Places

/-! ### The writes of the script -/

section Script

variable {bpb : FatBootSector} {img : ℕ → UInt8} {len : ℕ} {data : List UInt8} {name : EncodedName}

/-- The number of clusters that the data needs. -/
def neededClusters (bpb : FatBootSector) (size : ℕ) : ℕ :=
  (size + bpb.clusterSize - 1) / bpb.clusterSize

/-- The words of the table that count as free and lie in the image. -/
def freeWords (bpb : FatBootSector) (img : ℕ → UInt8) (len : ℕ) : List ℕ :=
  (freeList bpb img).filter fun c => 512 * bpb.reservedSectors + 2 * c + 2 ≤ len

/-- When the script exits: the image has no free entry in the root directory, or not enough free
words in the table, or it is shorter than 65536 words of the table and the data is empty. -/
def Refuses (bpb : FatBootSector) (img : ℕ → UInt8) (len needed : ℕ) : Prop :=
  (∀ i < bpb.rootDirEntries, 512 * bpb.rootDirectorySector + 32 * i < len →
    img (512 * bpb.rootDirectorySector + 32 * i) ≠ 0x00 ∧
    img (512 * bpb.rootDirectorySector + 32 * i) ≠ 0xE5) ∨
  (freeWords bpb img len).length < needed ∨
  (needed = 0 ∧ len < 512 * bpb.reservedSectors + 131072)

/-- The script finds a free entry and, in front, the first free words. -/
theorem injectScan_some (hboot : FatBootSector.decode (slice img 0 512) = bpb)
    (hacc : bpb.check = none) {size idx : ℕ} {clusters : List ℕ}
    (h : injectScan img len size = some (idx, clusters)) :
    idx < bpb.rootDirEntries ∧
      (img (512 * bpb.rootDirectorySector + 32 * idx) = 0x00 ∨
        img (512 * bpb.rootDirectorySector + 32 * idx) = 0xE5) ∧
      neededClusters bpb size ≤ clusters.length ∧
      clusters.take (neededClusters bpb size) =
        (freeList bpb img).take (neededClusters bpb size) := by
  have hg : InjectGeometry.read img = geometry bpb := geometry_read hboot
  have hn : (geometry bpb).clustersNeeded size = neededClusters bpb size := rfl
  unfold injectScan at h
  simp only [hg, hn] at h
  split_ifs at h
  cases hroot : (geometry bpb).scanRoot img len (List.range (geometry bpb).rootEntries) with
  | none =>
    rw [hroot] at h
    cases h
  | some i =>
    rw [hroot] at h
    dsimp only at h
    cases htable : (geometry bpb).scanTable img len (neededClusters bpb size)
      (List.range' 2 65534) [] with
    | none =>
      rw [htable] at h
      cases h
    | some found =>
      rw [htable] at h
      dsimp only at h
      split_ifs at h with hfew
      cases Option.some.inj h
      -- both scans have found what they look for
      have hfind := scanRoot_some hroot
      rw [(starts_of hacc).2, List.find?_range_eq_some] at hfind
      refine ⟨List.mem_range.mp hfind.2.1, of_decide_eq_true hfind.1, Nat.not_lt.mp hfew, ?_⟩
      rw [← scanTable_some htable]
      -- without a needed cluster the lists agree trivially
      rcases Nat.eq_zero_or_pos (neededClusters bpb size) with h0 | hpos
      · rw [h0, List.take_zero, List.take_zero]
      · have hfree : (List.range' 2 65534).filter (fun i =>
            unpackH img ((geometry bpb).fatStart + 2 * i) = 0) = freeList bpb img := by
          unfold freeList
          refine List.filter_congr fun c _ => ?_
          rw [fatEntry_eq, (starts_of hacc).1]
        rw [findClusters_eq _ _ [] hpos, List.nil_append, List.length_nil, Nat.sub_zero, hfree,
          List.take_take, min_self]

theorem injectScan_none_iff (hboot : FatBootSector.decode (slice img 0 512) = bpb)
    (hacc : bpb.check = none) (hlen : 512 ≤ len) {size : ℕ} :
    injectScan img len size = none ↔ Refuses bpb img len (neededClusters bpb size) := by
  have hg : InjectGeometry.read img = geometry bpb := geometry_read hboot
  have hn : (geometry bpb).clustersNeeded size = neededClusters bpb size := rfl
  have hroot := @scanRoot_none (geometry bpb) img len (List.range (geometry bpb).rootEntries)
    List.pairwise_lt_range
  rw [(starts_of hacc).2] at hroot
  have hsorted : (List.range' 2 65534).Pairwise (· < ·) := List.pairwise_lt_range'
  -- the loop over the table
  have htable : (∀ clusters, (geometry bpb).scanTable img len (neededClusters bpb size)
      (List.range' 2 65534) [] = some clusters → clusters.length < neededClusters bpb size) ↔
        (freeWords bpb img len).length < neededClusters bpb size ∨
          (neededClusters bpb size = 0 ∧ len < 512 * bpb.reservedSectors + 131072) := by
    rcases Nat.eq_zero_or_pos (neededClusters bpb size) with h0 | hpos
    · rw [h0, or_iff_right (Nat.not_lt_zero _), and_iff_right rfl]
      have hzero := @scanTable_zero (geometry bpb) img len (List.range' 2 65534) []
      rw [(starts_of hacc).1] at hzero
      refine ⟨fun h => ?_, fun h clusters hc => ?_⟩
      · have hnone : (geometry bpb).scanTable img len 0 (List.range' 2 65534) [] = none :=
          Option.eq_none_iff_forall_ne_some.mpr fun clusters hc => Nat.not_lt_zero _ (h clusters hc)
        obtain ⟨i, hi, hend⟩ := hzero.mp hnone
        have := List.mem_range'_1.mp hi
        omega
      · rw [hzero.mpr ⟨65535, List.mem_range'_1.mpr (by decide), by omega⟩] at hc
        cases hc
    · rw [scanTable_refuses hsorted hpos, List.length_nil, Nat.zero_add,
        or_iff_left fun h => Nat.ne_of_gt hpos h.1]
      have hwords : (List.range' 2 65534).filter
          (fun i => (geometry bpb).fatStart + 2 * i + 2 ≤ len ∧
          unpackH img ((geometry bpb).fatStart + 2 * i) = 0) = freeWords bpb img len := by
        unfold freeWords freeList
        rw [List.filter_filter]
        refine List.filter_congr fun c _ => ?_
        rw [fatEntry_eq, (starts_of hacc).1, Bool.decide_and]
      rw [hwords]
  unfold injectScan Refuses
  simp only [hg, hn]
  rw [if_neg (by omega), ← htable]
  cases hidx : (geometry bpb).scanRoot img len (List.range (geometry bpb).rootEntries) with
  | none => exact iff_of_true rfl (Or.inl fun i hi => hroot.mp hidx i (List.mem_range.mpr hi))
  | some idx =>
    have hfree : ¬ ∀ i < bpb.rootDirEntries, 512 * bpb.rootDirectorySector + 32 * i < len →
        img (512 * bpb.rootDirectorySector + 32 * i) ≠ 0x00 ∧
        img (512 * bpb.rootDirectorySector + 32 * i) ≠ 0xE5 := fun hall => by
      rw [hroot.mpr fun i hi => hall i (List.mem_range.mp hi)] at hidx
      cases hidx
    rw [or_iff_right hfree]
    dsimp only
    cases (geometry bpb).scanTable img len (neededClusters bpb size) (List.range' 2 65534) [] with
    | none => exact iff_of_true rfl fun _ h => nomatch h
    | some clusters =>
      dsimp only
      split_ifs with hfew
      · exact iff_of_true rfl fun _ h => Option.some.inj h ▸ hfew
      · exact iff_of_false (fun h => nomatch h) fun h => hfew (h _ rfl)

/-- The loops over the clusters look at as many as are needed. -/
theorem getD_take {clusters : List ℕ} {n i : ℕ} (hi : i < n) :
    (clusters.take n).getD i 0 = clusters.getD i 0 := by
  rw [List.getD_eq_getElem?_getD, List.getElem?_take, if_pos hi, List.getD_eq_getElem?_getD]

theorem fatWrites_take (g : InjectGeometry) (clusters : List ℕ) (n : ℕ) :
    g.fatWrites (clusters.take n) n = g.fatWrites clusters n := by
  unfold InjectGeometry.fatWrites
  congr 1
  funext k
  refine List.map_congr_left fun i hi => ?_
  have hi' := List.mem_range.mp hi
  rw [getD_take hi']
  congr 1
  by_cases hlast : i + 1 = n
  · rw [if_pos hlast, if_pos hlast]
  · rw [if_neg hlast, if_neg hlast, getD_take (by omega)]

theorem dataWrites_take (g : InjectGeometry) (clusters : List ℕ) (n : ℕ) (data : List UInt8) :
    g.dataWrites (clusters.take n) n data = g.dataWrites clusters n data := by
  unfold InjectGeometry.dataWrites
  refine List.map_congr_left fun i hi => ?_
  rw [getD_take (List.mem_range.mp hi)]

theorem injectWrites_eq_none : injectWrites img len data name = none ↔
    injectScan img len data.length = none := by
  unfold injectWrites
  cases injectScan img len data.length with
  | none => exact iff_of_true rfl rfl
  | some x => exact iff_of_false (fun h => nomatch h) fun h => nomatch h

/-- What the script writes: the links, the data, and an entry in place of a free one. -/
theorem injectWrites_some (hboot : FatBootSector.decode (slice img 0 512) = bpb)
    (hacc : bpb.check = none) {ws : List (Write UInt8)}
    (h : injectWrites img len data name = some ws) :
    ∃ idx entry, idx < bpb.rootDirEntries ∧
      (img (512 * bpb.rootDirectorySector + 32 * idx) = 0x00 ∨
        img (512 * bpb.rootDirectorySector + 32 * idx) = 0xE5) ∧
      entry.length ≤ 32 ∧
      (injectClusters img len data.length).length = neededClusters bpb data.length ∧
      injectClusters img len data.length =
        (freeList bpb img).take (neededClusters bpb data.length) ∧
      ws = (geometry bpb).fatWrites (injectClusters img len data.length)
          (neededClusters bpb data.length) ++
        (geometry bpb).dataWrites (injectClusters img len data.length)
          (neededClusters bpb data.length) data ++
        [entryWrite bpb idx entry] := by
  have hg : InjectGeometry.read img = geometry bpb := geometry_read hboot
  have hn : (geometry bpb).clustersNeeded data.length = neededClusters bpb data.length := rfl
  unfold injectWrites at h
  unfold injectClusters
  simp only [hg, hn] at h ⊢
  cases hscan : injectScan img len data.length with
  | none =>
    rw [hscan] at h
    cases h
  | some found =>
    obtain ⟨idx, clusters⟩ := found
    rw [hscan] at h
    obtain ⟨hidx, hfree, henough, htake⟩ := injectScan_some hboot hacc hscan
    dsimp only at h ⊢
    rw [fatWrites_take, dataWrites_take, List.length_take]
    exact ⟨idx, entryBytes name clusters.head? data.length, hidx, hfree, entryBytes_length_le _ _ _,
      min_eq_left henough, htake, (Option.some.inj h).symm⟩

/-- The writes lie where the kernel has the structures that they are for. -/
theorem injectWrites_placed (hacc : bpb.check = none)
    (hwhole : neededClusters bpb data.length = 0 ∨ 512 ∣ 32 * bpb.rootDirEntries)
    {clusters : List ℕ} (hlen : clusters.length = neededClusters bpb data.length) {idx : ℕ}
    {entry : List UInt8} (hentry : entry.length ≤ 32) :
    ∀ w ∈ (geometry bpb).fatWrites clusters (neededClusters bpb data.length) ++
        (geometry bpb).dataWrites clusters (neededClusters bpb data.length) data ++
        [entryWrite bpb idx entry], Placed bpb clusters idx w := by
  have hmem : ∀ i < neededClusters bpb data.length, clusters.getD i 0 ∈ clusters := fun i hi => by
    rw [List.getD_eq_getElem _ _ (hlen ▸ hi)]
    exact List.getElem_mem _
  intro w hw
  rcases List.mem_append.mp hw with hw | hw
  · -- a link or a cluster: there is something to write
    have hP : ∀ i < neededClusters bpb data.length, Positions bpb := fun i hi =>
      positions_of hacc (hwhole.resolve_left (Nat.ne_of_gt (Nat.zero_lt_of_lt hi)))
    rcases List.mem_append.mp hw with hw | hw
    · obtain ⟨k, hk, i, hi, rfl⟩ := mem_fatWrites hw
      refine .table k _ hk (hmem i hi) ?_
      unfold Write.span
      dsimp only
      rw [fatLink_length, (hP i hi).fatStart, (hP i hi).fatSize]
      congr 1
      ring
    · have hsome := hw
      unfold InjectGeometry.dataWrites at hsome
      obtain ⟨i, hi, -⟩ := List.mem_map.mp hsome
      obtain ⟨j, hj, hstart, hstop⟩ := dataWrites_span (hP i (List.mem_range.mp hi)) hw
      exact .cluster _ (hmem j hj) hstart.ge hstop
  · rw [List.mem_singleton.mp hw]
    have hstart : (entryWrite bpb idx entry).span.start = 512 * bpb.rootDirectorySector +
        32 * idx := by
      change (geometry bpb).rootStart + idx * 32 = _
      rw [(starts_of hacc).2, Nat.mul_comm idx]
    refine .entry hstart ?_
    have hdata : (entryWrite bpb idx entry).span.size = entry.length := rfl
    unfold Span.stop
    omega

/-- Writes in their places disturb no file that has none of the clusters. -/
theorem undisturbed_of_placed (hacc : bpb.check = none) {taken : List ℕ} {idx : ℕ}
    (htaken : ∀ c ∈ taken, bpb.Exists c) (hidx : idx < bpb.rootDirEntries)
    (hfree : img (512 * bpb.rootDirectorySector + 32 * idx) = 0x00 ∨
      img (512 * bpb.rootDirectorySector + 32 * idx) = 0xE5)
    (hunused : ∀ pos, bpb.Present img pos →
      ∀ c, bpb.OnChain img (unpackH img (pos + 26)) c → c ∉ taken)
    {ws : List (Write UInt8)} (hws : ∀ w ∈ ws, Placed bpb taken idx w) :
    bpb.Undisturbed img (applyWrites img ws) := by
  have hsize : bpb.clusterSize = 512 * bpb.sectorsPerCluster := by
    unfold FatBootSector.clusterSize
    rw [(FatBootSector.accepted_iff.mp hacc).2.2.1, Nat.mul_comm]
  have hspc := (FatBootSector.accepted_iff.mp hacc).2.2.2
  intro pos hpos
  refine ⟨fun i hi => applyWrites_other fun w hw => ?_, fun c hc => ?_⟩
  · cases hpos with
    | root j hj hlive hused =>
      refine (hws w hw).root_apart hacc htaken hj ?_ (Nat.le_add_right _ _) (by omega)
      rintro rfl
      exact hfree.elim (hlive j (le_refl j)) hused
    | sub h hdir e hchain hlive hused =>
      -- the entry lies in a cluster of its directory
      have hin := hchain _ (le_refl _)
      have hnot := hunused _ h _ ⟨_, hchain, rfl⟩
      have hpos : 0 < bpb.clusterSize / 32 := by omega
      have hrow := Nat.mod_lt e hpos
      have hfit : 32 * (e % (bpb.clusterSize / 32)) + 32 ≤ bpb.clusterSize := by omega
      refine (hws w hw).cluster_apart hacc hsize htaken hidx hin hnot ?_ ?_
      · unfold FatBootSector.entryPos
        omega
      · unfold FatBootSector.entryPos
        omega
  · have hnot := hunused pos hpos c hc
    obtain ⟨k, hchain, rfl⟩ := hc
    have hin := hchain k (le_refl k)
    refine ⟨fun l hl i hi => ?_, fun i hi => ?_⟩
    · exact applyWrites_other fun w hw =>
        (hws w hw).table_apart hacc htaken hl hin hnot (Nat.le_add_right _ _) (by omega)
    · exact applyWrites_other fun w hw =>
        (hws w hw).cluster_apart hacc hsize htaken hidx hin hnot (Nat.le_add_right _ _) (by omega)

/-- With enough room the script is harmless. -/
theorem harmless_of_room (hboot : FatBootSector.decode (slice img 0 512) = bpb)
    (hacc : bpb.check = none)
    (hwhole : neededClusters bpb data.length = 0 ∨ 512 ∣ 32 * bpb.rootDirEntries)
    (hroom : HasRoom bpb img (neededClusters bpb data.length)) :
      Harmless bpb img len data name := by
  cases h : injectWrites img len data name with
  | none => exact Or.inl h
  | some ws =>
    obtain ⟨idx, entry, hidx, hfree, hentry, hcount, hclusters, rfl⟩ :=
      injectWrites_some hboot hacc h
    have hT := taken_of_free hroom.enough
    rw [← hclusters] at hT
    have htaken : ∀ c ∈ injectClusters img len data.length, bpb.Exists c := fun c hc =>
      ⟨hT.inside c hc, hT.table c hc⟩
    refine Or.inr ⟨?_, htaken⟩
    unfold injectLeaves
    rw [h]
    refine undisturbed_of_placed hacc htaken hidx hfree (fun pos hpos c hc => ?_)
      (injectWrites_placed hacc hwhole hcount hentry)
    rw [hclusters]
    exact hroom.unused pos hpos c hc

/-- The link that the script writes in the first table is not free. -/
theorem linked_ne_zero (hacc : bpb.check = none) (hwhole : 512 ∣ 32 * bpb.rootDirEntries)
    (hcopies : 1 ≤ bpb.fatCopies) {needed idx : ℕ} {clusters : List ℕ}
    (hT : TakenClusters bpb needed clusters) (hidx : idx < bpb.rootDirEntries) {entry : List UInt8}
    (hentry : entry.length ≤ 32) {c : ℕ} (hc : c ∈ clusters) :
    bpb.fatEntry (applyWrites img ((geometry bpb).fatWrites clusters needed ++
      (geometry bpb).dataWrites clusters needed data ++ [entryWrite bpb idx entry])) c ≠ 0 := by
  have hP := positions_of hacc hwhole
  have hsize : bpb.clusterSize = 512 * bpb.sectorsPerCluster := by
    unfold FatBootSector.clusterSize
    rw [(FatBootSector.accepted_iff.mp hacc).2.2.1, Nat.mul_comm]
  have hapart := @writes_apart bpb _ _ _ data _ hP hsize hT hidx hentry
  have hlen := hT.length
  obtain ⟨i, hi, rfl⟩ := List.mem_iff_getElem.mp hc
  have hget : clusters[i] = clusters.getD i 0 := (List.getD_eq_getElem _ _ hi).symm
  rw [hlen] at hi
  have hmem : (⟨(geometry bpb).fatStart + 0 * (geometry bpb).sectorsPerFat *
      (geometry bpb).bytesPerSector + clusters.getD i 0 * 2,
      if i + 1 = needed then packH 0xFFFF else packH (clusters.getD (i + 1) 0)⟩ : Write UInt8) ∈
      (geometry bpb).fatWrites clusters needed ++ (geometry bpb).dataWrites clusters needed data ++
        [entryWrite bpb idx entry] := by
    refine List.mem_append_left _ (List.mem_append_left _ (List.mem_flatMap.mpr ⟨0, ?_, ?_⟩))
    · exact List.mem_range.mpr hcopies
    · exact List.mem_map.mpr ⟨i, List.mem_range.mpr hi, rfl⟩
  have hwrite := slice_applyWrites (f := img) hapart hmem
  dsimp only at hwrite
  rw [fatLink_length] at hwrite
  rw [fatEntry_eq, hget, show 512 * bpb.reservedSectors + 2 * clusters.getD i 0 =
    (geometry bpb).fatStart + 0 * (geometry bpb).sectorsPerFat * (geometry bpb).bytesPerSector +
      clusters.getD i 0 * 2 by rw [hP.fatStart]; ring]
  by_cases hlast : i + 1 = needed
  · rw [if_pos hlast] at hwrite
    rw [unpackH_packH (by decide) _ hwrite]
    decide
  · rw [if_neg hlast] at hwrite
    obtain ⟨h2, hmax, -⟩ := hT.inside _ (hT.getD_mem (i := i + 1) (by omega))
    rw [unpackH_packH (by omega) _ hwrite]
    omega

/-- A harmless script has exited, or had enough room. -/
theorem room_of_harmless (hboot : FatBootSector.decode (slice img 0 512) = bpb)
    (hacc : bpb.check = none) (hwhole : 512 ∣ 32 * bpb.rootDirEntries) (hcopies : 1 ≤ bpb.fatCopies)
    (h : Harmless bpb img len data name) :
    injectWrites img len data name = none ∨ HasRoom bpb img (neededClusters bpb data.length) := by
  rcases h with hnone | ⟨hund, htaken⟩
  · exact Or.inl hnone
  cases hws : injectWrites img len data name with
  | none => exact Or.inl rfl
  | some ws =>
    obtain ⟨idx, entry, hidx, -, hentry, hcount, hclusters, rfl⟩ := injectWrites_some hboot hacc hws
    have hsorted : (injectClusters img len data.length).Pairwise (· < ·) := by
      rw [hclusters]
      exact freeList_sorted.sublist (List.take_sublist _ _)
    have hzero : ∀ c ∈ injectClusters img len data.length, bpb.fatEntry img c = 0 := fun c hc => by
      rw [hclusters] at hc
      exact of_decide_eq_true (List.mem_filter.mp (List.mem_of_mem_take hc)).2
    have hT : TakenClusters bpb (neededClusters bpb data.length)
        (injectClusters img len data.length) :=
      ⟨hcount, hsorted, fun c hc => (htaken c hc).1, fun c hc => (htaken c hc).2⟩
    refine Or.inr ⟨⟨(injectClusters img len data.length).toFinset, ?_, fun c hc => ?_⟩,
      fun pos hpos c hc hmem => ?_⟩
    · rw [List.toFinset_card_of_nodup (hsorted.imp fun h => Nat.ne_of_lt h), hcount]
    · have hc' := List.mem_toFinset.mp hc
      exact ⟨(htaken c hc').1, (htaken c hc').2, hzero c hc'⟩
    · rw [← hclusters] at hmem
      -- the table entry of the cluster is what it was, but it has been linked
      unfold injectLeaves at hund
      rw [hws] at hund
      dsimp only at hund
      have hsame := ((hund pos hpos).2 c hc).1 0 hcopies
      refine @linked_ne_zero bpb img data hacc hwhole hcopies _ _ _ hT hidx _ hentry _ hmem ?_
      rw [← hzero c hmem, fatEntry_eq, fatEntry_eq]
      unfold unpackH
      have h0 := hsame 0 (by decide)
      have h1 := hsame 1 (by decide)
      simp only [Nat.zero_mul, Nat.add_zero] at h0 h1
      rw [h0, h1]

/-- The script is harmless if the volume has enough free clusters, none of the first of them is in
the chain of a file, and the root directory fills whole sectors (unless there is no data). On
volumes with such a root directory and a table it is harmless only if it exits or this is so. -/
theorem inject_harmless_iff (hboot : FatBootSector.decode (slice img 0 512) = bpb)
    (hacc : bpb.check = none) (hlen : 512 ≤ len) :
    (Refuses bpb img len (neededClusters bpb data.length) ∨
        ((neededClusters bpb data.length = 0 ∨ 512 ∣ 32 * bpb.rootDirEntries) ∧
          HasRoom bpb img (neededClusters bpb data.length)) → Harmless bpb img len data name) ∧
      (512 ∣ 32 * bpb.rootDirEntries → 1 ≤ bpb.fatCopies →
        (Harmless bpb img len data name ↔ Refuses bpb img len (neededClusters bpb data.length) ∨
          HasRoom bpb img (neededClusters bpb data.length))) := by
  have hnone : injectWrites img len data name = none ↔
      Refuses bpb img len (neededClusters bpb data.length) :=
    injectWrites_eq_none.trans (injectScan_none_iff hboot hacc hlen)
  refine ⟨?_, fun hwhole hcopies => ⟨fun h => ?_, ?_⟩⟩
  · rintro (hrefuse | ⟨hwhole, hroom⟩)
    · exact Or.inl (hnone.mpr hrefuse)
    · exact harmless_of_room hboot hacc hwhole hroom
  · exact (room_of_harmless hboot hacc hwhole hcopies h).imp hnone.mp id
  · rintro (hrefuse | hroom)
    · exact Or.inl (hnone.mpr hrefuse)
    · exact harmless_of_room hboot hacc (Or.inr hwhole) hroom

end Script

/-- There is no file in the empty volume. -/
theorem emptyImage_vacant {pos : ℕ} (h : singleFileBpb.Present emptyImage pos) : False := by
  induction h with
  | root i hi hlive hused => exact hlive 0 (Nat.zero_le i) rfl
  | sub _ _ _ _ _ _ ih => exact ih

/-- The file `b` of one byte has room in the empty volume. -/
theorem inject_harmless_empty :
    Harmless singleFileBpb emptyImage 102400 [0x42] (asciiName [0x62]) :=
  (inject_harmless_iff emptyImage_boot (by decide) (by decide)).1
    (Or.inr ⟨Or.inr (by decide),
      ⟨emptyImage_canTake.clusters, fun _ hpos => (emptyImage_vacant hpos).elim⟩⟩)

/-- A file that needs 198 clusters is written into the empty volume, which has 197. -/
theorem inject_harms_full :
    ¬ Harmless singleFileBpb emptyImage 102400 (List.replicate 101376 0) (asciiName [0x62]) := by
  have hneeded : neededClusters singleFileBpb (List.replicate 101376 (0 : UInt8)).length = 198 := by
    rw [List.length_replicate]
    rfl
  intro h
  have hroom := room_of_harmless emptyImage_boot (by decide) (by decide) (by decide) h
  rw [injectWrites_eq_none, injectScan_none_iff emptyImage_boot (by decide) (by decide), hneeded]
    at hroom
  rcases hroom with (hall | hfew | ⟨h0, -⟩) | hroom
  · exact (hall 0 (by decide) (by decide)).1 rfl
  · -- the words behind the number 198 are in the table, too
    have hsub : List.range' 2 198 ⊆ freeWords singleFileBpb emptyImage 102400 := fun c hc => by
      obtain ⟨h2, hlt⟩ := List.mem_range'_1.mp hc
      have hin : 512 * singleFileBpb.reservedSectors + 2 * c + 2 ≤ 102400 := by
        change 512 + 2 * c + 2 ≤ 102400
        omega
      have hzero : singleFileBpb.fatEntry emptyImage c = 0 := by
        rw [fatEntry_eq]
        unfold unpackH emptyImage
        change (if 512 + 2 * c < 512 then _ else (0 : UInt8)).toNat +
          256 * (if 512 + 2 * c + 1 < 512 then _ else (0 : UInt8)).toNat = 0
        rw [if_neg (by omega), if_neg (by omega)]
        rfl
      exact List.mem_filter.mpr ⟨List.mem_filter.mpr ⟨List.mem_range'_1.mpr ⟨h2, by omega⟩,
        decide_eq_true hzero⟩, decide_eq_true hin⟩
    have hle := ((List.nodup_range' (s := 2) (n := 198)).subperm hsub).length_le
    rw [List.length_range'] at hle
    omega
  · cases h0
  · obtain ⟨F, hcard, hF⟩ := hroom.enough
    have hsub : F ⊆ Finset.Icc 2 198 := fun c hc => by
      obtain ⟨⟨h2, -, hend⟩, -⟩ := hF c hc
      rw [Finset.mem_Icc]
      change 3 + (c - 2) * 1 + 1 ≤ 200 at hend
      omega
    have := Finset.card_le_card hsub
    rw [Nat.card_Icc] at this
    omega

end VibeKernel
