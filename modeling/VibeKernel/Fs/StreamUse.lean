import VibeKernel.Fs.Fat16

/-!
# What the file system functions do to the stream of a disk

All files of a disk share one stream. Every function moves it to where it reads before it reads, so
the answer does not depend on where the stream was left (`SameAnswer`), and none of them makes the
stream one of another disk (`Keeps`). Drives with fixed contents stay as they are.
-/

namespace VibeKernel

open Verif

variable {D α : Type}

/-- Reading does not change the drives: a sector always has the same content, or always fails. -/
def Ata.Fixed (A : Ata D) : Prop := ∀ d drive lba, (A.readSector d drive lba).2 = d

/-- The stream is one of disk `i`, and drives with fixed contents are in the state `d`. -/
structure Keeps (A : Ata D) (i : ℕ) (d : D) (st : DiskStream × D) : Prop where
  diskId : st.1.diskId = i
  drives : A.Fixed → st.2 = d

/-- Two runs of a function answer the same, and both keep the stream on its disk. -/
structure SameAnswer (A : Ata D) (i : ℕ) (d : D) (x y : α × DiskStream × D) : Prop where
  answer : x.1 = y.1
  drives : x.2.2 = y.2.2
  left : Keeps A i d x.2
  right : y.2.1.diskId = i

/-- Two reads answer the same and leave the same descriptor. -/
def SameRead {β : Type} (A : Ata D) (i : ℕ) (d : D) (x y : β × α × DiskStream × D) : Prop :=
  x.1 = y.1 ∧ SameAnswer A i d x.2 y.2

/-- A search keeps the stream on its disk, unless it never ends. -/
def SearchKeeps (A : Ata D) (i : ℕ) (d : D) : Except Stop (α × DiskStream × D) → Prop
  | .ok x => Keeps A i d x.2
  | .error e => e = .diverges

variable {A : Ata D} {i : ℕ} {b : FatBootSector} {stream stream' : DiskStream}

theorem Keeps.trans {d d' : D} {x : DiskStream × D} (h : Keeps A i d' x)
    (hd : A.Fixed → d' = d) : Keeps A i d x :=
  ⟨h.diskId, fun hA => (h.drives hA).trans (hd hA)⟩

theorem SearchKeeps.trans {d d' : D} {r : Except Stop (α × DiskStream × D)}
    (h : SearchKeeps A i d' r) (hd : A.Fixed → d' = d) : SearchKeeps A i d r := by
  cases r with
  | error e => exact h
  | ok x => exact Keeps.trans h hd

theorem SameAnswer.refl {d : D} {x : α × DiskStream × D} (h : Keeps A i d x.2) :
    SameAnswer A i d x x :=
  ⟨rfl, rfl, h, h.diskId⟩

/-! ### Reading and the allocation table -/

theorem diskstreamReadLoop_drives (hA : A.Fixed) :
    ∀ (fuel sector offset total : ℕ) (d : D),
      (diskstreamReadLoop A i fuel sector offset total d).2 = d := by
  intro fuel
  induction fuel with
  | zero => exact fun _ _ _ _ => rfl
  | succ fuel ih =>
    intro sector offset total d
    rw [diskstreamReadLoop]
    split
    · rfl
    · have hd : (ataReadSector A i sector d).2 = d := hA _ _ _
      cases hread : ataReadSector A i sector d with
      | mk buffer d' =>
        rw [hread] at hd
        cases hd
        cases buffer with
        | none => rfl
        | some buffer => exact ih _ _ _ _

theorem diskstreamRead_keeps (stream : DiskStream) (total : ℕ) (d : D) :
    Keeps A stream.diskId d (diskstreamRead A stream total d).2 := by
  have hd := fun hA : A.Fixed =>
    diskstreamReadLoop_drives (i := stream.diskId) hA total (stream.pos / 512) (stream.pos % 512)
      total d
  unfold diskstreamRead
  generalize diskstreamReadLoop A stream.diskId total (stream.pos / 512)
    (stream.pos % 512) total d = r at hd
  obtain ⟨⟨ok, bytes⟩, d'⟩ := r
  cases ok
  · exact ⟨rfl, hd⟩
  · exact ⟨rfl, hd⟩

/-- Seeking forgets where the stream was. -/
theorem diskstreamSeek_eq (hs : stream.diskId = i) (hs' : stream'.diskId = i) (pos : ℕ) :
    diskstreamSeek stream pos = diskstreamSeek stream' pos := by
  unfold diskstreamSeek
  rw [hs, hs']

theorem diskstreamSeek_diskId (hs : stream.diskId = i) (pos : ℕ) :
    (diskstreamSeek stream pos).diskId = i := hs

theorem diskstreamRead_seek_keeps (hs : stream.diskId = i) (pos total : ℕ) (d : D) :
    Keeps A i d (diskstreamRead A (diskstreamSeek stream pos) total d).2 := by
  subst hs
  exact diskstreamRead_keeps (diskstreamSeek stream pos) total d

theorem fat16GetFatEntry_keeps (hs : stream.diskId = i) (cluster : ℕ) (d : D) :
    Keeps A i d (fat16GetFatEntry A b cluster stream d).2 := by
  exact diskstreamRead_seek_keeps hs _ 2 d

theorem fat16GetFatEntry_eq (hs : stream.diskId = i) (hs' : stream'.diskId = i) (cluster : ℕ)
    (d : D) : fat16GetFatEntry A b cluster stream d = fat16GetFatEntry A b cluster stream' d := by
  unfold fat16GetFatEntry
  dsimp only
  rw [diskstreamSeek_eq hs hs']

/-- A walk along the table keeps the stream on its disk. -/
theorem fat16SkipClusters_keeps :
    ∀ (n cluster : ℕ) {stream : DiskStream} (d : D), stream.diskId = i →
      Keeps A i d (fat16SkipClusters A b n cluster stream d).2 := by
  intro n
  induction n with
  | zero => exact fun _ _ _ hs => ⟨hs, fun _ => rfl⟩
  | succ n ih =>
    intro cluster stream d hs
    have hk := fat16GetFatEntry_keeps (A := A) (b := b) hs cluster d
    rw [fat16SkipClusters]
    generalize fat16GetFatEntry A b cluster stream d = r at hk
    obtain ⟨entry, stream₁, d₁⟩ := r
    dsimp only
    split
    · exact hk
    · have hrest := ih entry d₁ hk.diskId
      exact ⟨hrest.diskId, fun hA => (hrest.drives hA).trans (hk.drives hA)⟩

theorem fat16SkipClusters_same (hs : stream.diskId = i) (hs' : stream'.diskId = i) :
    ∀ (n cluster : ℕ) (d : D), SameAnswer A i d (fat16SkipClusters A b n cluster stream d)
      (fat16SkipClusters A b n cluster stream' d) := by
  intro n cluster d
  cases n with
  | zero => exact ⟨rfl, rfl, ⟨hs, fun _ => rfl⟩, hs'⟩
  | succ n =>
    -- after the first entry both walks are the same walk
    have hk := fat16SkipClusters_keeps (A := A) (b := b) (n + 1) cluster d hs'
    rw [fat16SkipClusters] at hk ⊢
    rw [fat16SkipClusters, fat16GetFatEntry_eq hs hs']
    exact SameAnswer.refl hk

/-! ### Reading a file -/

theorem fat16AdvanceCluster_same (hs : stream.diskId = i) (hs' : stream'.diskId = i)
    (totalRead cluster : ℕ) (desc : FatFileDescriptor) (d : D) :
    SameRead A i d (fat16AdvanceCluster A b totalRead cluster desc stream d)
      (fat16AdvanceCluster A b totalRead cluster desc stream' d) := by
  have hk := fat16GetFatEntry_keeps (A := A) (b := b) hs' cluster d
  unfold fat16AdvanceCluster
  generalize u32 (desc.pos + totalRead) = offsetInFile
  dsimp only
  by_cases hb : totalRead > 0 ∧ offsetInFile % b.clusterSize = 0
  · rw [if_pos hb, if_pos hb, fat16GetFatEntry_eq hs hs']
    generalize fat16GetFatEntry A b cluster stream' d = r at hk
    exact ⟨rfl, SameAnswer.refl hk⟩
  · rw [if_neg hb, if_neg hb]
    exact ⟨rfl, rfl, rfl, ⟨hs, fun _ => rfl⟩, hs'⟩

/-- The loop of a read delivers the same bytes wherever the stream was. -/
theorem fat16ReadLoop_same (total : ℕ) :
    ∀ (fuel totalRead cluster : ℕ) (out : List UInt8) (desc : FatFileDescriptor)
      {stream stream' : DiskStream} (d : D), stream.diskId = i → stream'.diskId = i →
      SameRead A i d (fat16ReadLoop A b total fuel totalRead cluster out desc stream d)
        (fat16ReadLoop A b total fuel totalRead cluster out desc stream' d) := by
  intro fuel
  induction fuel with
  | zero =>
    intro totalRead cluster out desc stream stream' d hs hs'
    exact ⟨rfl, rfl, rfl, ⟨hs, fun _ => rfl⟩, hs'⟩
  | succ fuel ih =>
    intro totalRead cluster out desc stream stream' d hs hs'
    rw [fat16ReadLoop, fat16ReadLoop]
    by_cases hlt : totalRead < total
    swap
    · rw [if_neg hlt, if_neg hlt]
      exact ⟨rfl, rfl, rfl, ⟨hs, fun _ => rfl⟩, hs'⟩
    rw [if_pos hlt, if_pos hlt]
    obtain ⟨hclus, hadv⟩ :=
      fat16AdvanceCluster_same (A := A) (b := b) hs hs' totalRead cluster desc d
    generalize fat16AdvanceCluster A b totalRead cluster desc stream d = x at hclus hadv
    generalize fat16AdvanceCluster A b totalRead cluster desc stream' d = y at hclus hadv
    obtain ⟨cluster₁, desc₁, stream₁, d₁⟩ := x
    obtain ⟨cluster₂, desc₂, stream₂, d₂⟩ := y
    obtain ⟨hdesc, hdrives, hleft, hright⟩ := hadv
    dsimp only at hclus hdesc hdrives hleft hright ⊢
    subst hclus hdesc hdrives
    by_cases hend : cluster₁ ≥ fat16ClusterReservedMin
    · rw [if_pos hend, if_pos hend]
      exact ⟨rfl, rfl, rfl, hleft, hright⟩
    rw [if_neg hend, if_neg hend]
    -- both seek to the piece, and go on together
    rw [diskstreamSeek_eq hleft.diskId hright]
    generalize hn : (if b.clusterSize - u32 (desc₁.pos + totalRead) % b.clusterSize >
      total - totalRead then total - totalRead
      else b.clusterSize - u32 (desc₁.pos + totalRead) % b.clusterSize) = n
    generalize hr : diskstreamRead A (diskstreamSeek stream₂ _) n d₁ = r
    have hk : Keeps A i d₁ r.2 := by
      rw [← hr]
      exact diskstreamRead_seek_keeps hright _ _ d₁
    clear hr hn
    obtain ⟨⟨res, bytes⟩, stream₃, d₃⟩ := r
    have hkept : A.Fixed → d₃ = d := fun hA => (hk.drives hA).trans (hleft.drives hA)
    dsimp only at hk ⊢
    by_cases hres : res ≠ 0
    · rw [if_pos hres]
      exact ⟨rfl, rfl, rfl, ⟨hk.diskId, hkept⟩, hk.diskId⟩
    · rw [if_neg hres]
      obtain ⟨hans, hrest⟩ :=
        ih (totalRead + n) cluster₁ (out ++ bytes) desc₁ d₃ hk.diskId hk.diskId
      exact ⟨hans, hrest.answer, hrest.drives,
        ⟨hrest.left.diskId, fun hA => (hrest.left.drives hA).trans (hkept hA)⟩, hrest.right⟩

/-- A read stops only at the division by the size of its items. -/
theorem fat16Read_error {size nmemb : ℕ} {desc : FatFileDescriptor} {d : D} {e : Stop}
    (h : fat16Read A b size nmemb desc stream d = .error e) : e = .divideError ∧ size = 0 := by
  unfold fat16Read at h
  dsimp only at h
  split at h
  · cases h
  -- the walk along the chain finds a cluster, and the loop reads from there
  split at h
  · cases h
  split at h
  · next hsize =>
    cases h
    exact ⟨rfl, hsize⟩
  · cases h

/-- **A read of a file depends on its descriptor and the drives only.** -/
theorem fat16Read_same (hs : stream.diskId = i) (hs' : stream'.diskId = i) (size nmemb : ℕ)
    (desc : FatFileDescriptor) (d : D) :
    match fat16Read A b size nmemb desc stream d, fat16Read A b size nmemb desc stream' d with
    | .ok x, .ok y => SameRead A i d x y
    | .error e, .error e' => e = e' ∧ e = .divideError
    | _, _ => False := by
  unfold fat16Read fat16GetClusterForOffset
  generalize desc.totalToRead size nmemb = total
  generalize u32Sub desc.pos desc.start.2 / b.clusterSize = skip
  dsimp only
  by_cases htotal : total = 0
  · rw [if_pos htotal, if_pos htotal]
    exact ⟨rfl, rfl, rfl, ⟨hs, fun _ => rfl⟩, hs'⟩
  rw [if_neg htotal, if_neg htotal]
  -- the walk along the chain
  have hwalk := fat16SkipClusters_same (A := A) (b := b) hs hs' skip desc.start.1 d
  generalize fat16SkipClusters A b skip desc.start.1 stream d = x at hwalk
  generalize fat16SkipClusters A b skip desc.start.1 stream' d = y at hwalk
  obtain ⟨cluster, stream₁, d₁⟩ := x
  obtain ⟨cluster', stream₂, d₂⟩ := y
  obtain ⟨hclus, hdrives, hleft, hright⟩ := hwalk
  dsimp only at hclus hdrives hleft hright ⊢
  subst hclus hdrives
  by_cases hend : cluster ≥ fat16ClusterReservedMin
  · rw [if_pos hend, if_pos hend]
    exact ⟨rfl, rfl, rfl, hleft, hright⟩
  rw [if_neg hend, if_neg hend]
  generalize hdesc₀ : ({ desc with
    lastCluster := cluster
    lastClusterPos := desc.pos / b.clusterSize * b.clusterSize } : FatFileDescriptor) = desc₀
  -- the loop over the clusters
  have hloop := fat16ReadLoop_same (A := A) (b := b) total total 0 cluster [] desc₀ d₁
    hleft.diskId hright
  generalize fat16ReadLoop A b total total 0 cluster [] desc₀ stream₁ d₁ = x at hloop
  generalize fat16ReadLoop A b total total 0 cluster [] desc₀ stream₂ d₁ = y at hloop
  obtain ⟨⟨n, out⟩, desc₁, stream₃, d₃⟩ := x
  obtain ⟨⟨n', out'⟩, desc₂, stream₄, d₄⟩ := y
  obtain ⟨hans, hdesc, hdrives', hleft', hright'⟩ := hloop
  simp only [Prod.mk.injEq] at hans
  obtain ⟨rfl, rfl⟩ := hans
  dsimp only at hdesc hdrives' hleft' hright' ⊢
  subst hdesc hdrives'
  -- the result is divided by the size of an item
  by_cases hsize : size = 0
  · rw [if_pos hsize, if_pos hsize]
    exact ⟨rfl, rfl⟩
  · rw [if_neg hsize, if_neg hsize]
    exact ⟨rfl, rfl, rfl,
      ⟨hleft'.diskId, fun hA => (hleft'.drives hA).trans (hleft.drives hA)⟩, hright'⟩

/-! ### Finding a file -/

theorem fat16ScanItems_keeps (name : CString) :
    ∀ (n : ℕ) {stream : DiskStream} (d : D), stream.diskId = i →
      Keeps A i d (fat16ScanItems A name n stream d).2 := by
  intro n
  induction n with
  | zero => exact fun _ hs => ⟨hs, fun _ => rfl⟩
  | succ n ih =>
    intro stream d hs
    have hk := diskstreamRead_keeps (A := A) stream 32 d
    rw [fat16ScanItems]
    generalize diskstreamRead A stream 32 d = r at hk
    obtain ⟨⟨res, bytes⟩, stream₁, d₁⟩ := r
    have hdisk : stream₁.diskId = i := hk.diskId.trans hs
    have hgo : Keeps A i d (fat16ScanItems A name n stream₁ d₁).2 :=
      ⟨(ih d₁ hdisk).diskId, fun hA => ((ih d₁ hdisk).drives hA).trans (hk.drives hA)⟩
    dsimp only
    split_ifs
    · exact ⟨hdisk, hk.drives⟩
    · exact ⟨hdisk, hk.drives⟩
    · exact hgo
    · exact ⟨hdisk, hk.drives⟩
    · exact hgo

theorem fat16ScanClusters_keeps (name : CString) :
    ∀ (fuel cluster : ℕ) {stream : DiskStream} (d : D), stream.diskId = i →
      SearchKeeps A i d (fat16ScanClusters A b name fuel cluster stream d) := by
  intro fuel
  induction fuel with
  | zero => exact fun _ _ _ _ => rfl
  | succ fuel ih =>
    intro cluster stream d hs
    rw [fat16ScanClusters]
    by_cases hend : cluster < fat16ClusterReservedMin
    swap
    · rw [if_neg hend]
      exact ⟨hs, fun _ => rfl⟩
    rw [if_pos hend]
    dsimp only
    generalize hr : fat16ScanItems A name (b.clusterSize / 32) (diskstreamSeek stream _) d = r
    have hk : Keeps A i d r.2 := by
      rw [← hr]
      exact fat16ScanItems_keeps name _ d (diskstreamSeek_diskId hs _)
    clear hr
    obtain ⟨scan, stream₁, d₁⟩ := r
    cases scan with
    | found item => exact hk
    | unreadable => exact hk
    | endMark => exact hk
    | exhausted =>
      have hk' := fat16GetFatEntry_keeps (A := A) (b := b) hk.diskId cluster d₁
      dsimp only at hk' ⊢
      generalize fat16GetFatEntry A b cluster stream₁ d₁ = r' at hk'
      obtain ⟨entry, stream₂, d₂⟩ := r'
      exact (ih entry d₂ hk'.diskId).trans fun hA => (hk'.drives hA).trans (hk.drives hA)

theorem fat16GetDirectoryEntry_keeps (fuel cluster : ℕ) (name : CString) (hs : stream.diskId = i)
    (d : D) : SearchKeeps A i d (fat16GetDirectoryEntry A b fuel cluster name stream d) := by
  unfold fat16GetDirectoryEntry
  by_cases hroot : cluster = 0
  swap
  · rw [if_neg hroot]
    exact fat16ScanClusters_keeps name fuel cluster d hs
  rw [if_pos hroot]
  dsimp only
  generalize hr : fat16ScanItems A name b.rootDirEntries (diskstreamSeek stream _) d = r
  have hk : Keeps A i d r.2 := by
    rw [← hr]
    exact fat16ScanItems_keeps name _ d (diskstreamSeek_diskId hs _)
  clear hr
  obtain ⟨scan, stream₁, d₁⟩ := r
  cases scan <;> exact hk

/-- **Looking up a path keeps the stream on its disk.** -/
theorem fat16Find_keeps (fuel : ℕ) :
    ∀ (rest : List CString) (cluster : ℕ) (part : CString) {stream : DiskStream} (d : D),
      stream.diskId = i → SearchKeeps A i d (fat16Find A b fuel cluster part rest stream d) := by
  intro rest
  induction rest with
  | nil =>
    intro cluster part stream d hs
    have hk := fat16GetDirectoryEntry_keeps (A := A) (b := b) fuel cluster part hs d
    rw [fat16Find]
    generalize fat16GetDirectoryEntry A b fuel cluster part stream d = r at hk
    rcases r with e | ⟨code | item, x⟩
    · exact hk
    · exact hk
    · exact hk
  | cons next rest ih =>
    intro cluster part stream d hs
    have hk := fat16GetDirectoryEntry_keeps (A := A) (b := b) fuel cluster part hs d
    rw [fat16Find]
    generalize fat16GetDirectoryEntry A b fuel cluster part stream d = r at hk
    rcases r with e | ⟨code | item, stream₁, d₁⟩
    · exact hk
    · exact hk
    · dsimp only
      by_cases hdir : item.IsSubdirectory
      · rw [if_pos hdir]
        exact (ih item.low16BitsFirstCluster next d₁ (Keeps.diskId hk)).trans (Keeps.drives hk)
      · rw [if_neg hdir]
        exact hk

/-! ### Listing a directory -/

theorem fat16ListItems_keeps :
    ∀ (n : ℕ) {stream : DiskStream} (d : D), stream.diskId = i →
      Keeps A i d (fat16ListItems A n stream d).2 := by
  intro n
  induction n with
  | zero => exact fun _ hs => ⟨hs, fun _ => rfl⟩
  | succ n ih =>
    intro stream d hs
    have hk := diskstreamRead_keeps (A := A) stream 32 d
    rw [fat16ListItems]
    generalize diskstreamRead A stream 32 d = r at hk
    obtain ⟨⟨res, bytes⟩, stream₁, d₁⟩ := r
    have hdisk : stream₁.diskId = i := hk.diskId.trans hs
    have hgo := (ih d₁ hdisk).trans hk.drives
    dsimp only
    generalize fat16ListItems A n stream₁ d₁ = r' at hgo
    split_ifs
    · exact ⟨hdisk, hk.drives⟩
    · exact ⟨hdisk, hk.drives⟩
    · exact hgo
    · exact hgo

theorem fat16ListClusters_keeps :
    ∀ (fuel cluster : ℕ) {stream : DiskStream} (d : D), stream.diskId = i →
      SearchKeeps A i d (fat16ListClusters A b fuel cluster stream d) := by
  intro fuel
  induction fuel with
  | zero => exact fun _ _ _ _ => rfl
  | succ fuel ih =>
    intro cluster stream d hs
    rw [fat16ListClusters]
    by_cases hend : cluster < fat16ClusterReservedMin
    swap
    · rw [if_neg hend]
      exact ⟨hs, fun _ => rfl⟩
    rw [if_pos hend]
    dsimp only
    generalize hr : fat16ListItems A (b.clusterSize / 32) (diskstreamSeek stream _) d = r
    have hk : Keeps A i d r.2 := by
      rw [← hr]
      exact fat16ListItems_keeps _ d (diskstreamSeek_diskId hs _)
    clear hr
    obtain ⟨text, stream₁, d₁⟩ := r
    have hk' := fat16GetFatEntry_keeps (A := A) (b := b) hk.diskId cluster d₁
    dsimp only at hk' ⊢
    generalize fat16GetFatEntry A b cluster stream₁ d₁ = r' at hk'
    obtain ⟨entry, stream₂, d₂⟩ := r'
    have hrest := (ih entry d₂ hk'.diskId).trans fun hA => (hk'.drives hA).trans (hk.drives hA)
    dsimp only
    generalize fat16ListClusters A b fuel entry stream₂ d₂ = r'' at hrest
    cases r'' with
    | error e => exact hrest
    | ok x => exact hrest

/-- **Listing a directory keeps the stream on its disk.** -/
theorem fat16List_keeps (fuel : ℕ) :
    ∀ (path : List CString) (cluster : ℕ) {stream : DiskStream} (d : D), stream.diskId = i →
      SearchKeeps A i d (fat16List A b fuel cluster path stream d) := by
  intro path
  induction path with
  | nil =>
    intro cluster stream d hs
    rw [fat16List]
    by_cases hroot : cluster = 0
    · rw [if_pos hroot]
      dsimp only
      generalize hr : fat16ListItems A b.rootDirEntries (diskstreamSeek stream _) d = r
      have hk : Keeps A i d r.2 := by
        rw [← hr]
        exact fat16ListItems_keeps _ d (diskstreamSeek_diskId hs _)
      exact hk
    · rw [if_neg hroot]
      have hk := fat16ListClusters_keeps (A := A) (b := b) fuel cluster d hs
      generalize fat16ListClusters A b fuel cluster stream d = r at hk
      cases r with
      | error e => exact hk
      | ok x => exact hk
  | cons part rest ih =>
    intro cluster stream d hs
    have hk := fat16GetDirectoryEntry_keeps (A := A) (b := b) fuel cluster part hs d
    rw [fat16List]
    generalize fat16GetDirectoryEntry A b fuel cluster part stream d = r at hk
    rcases r with e | ⟨code | item, stream₁, d₁⟩
    · exact hk
    · exact hk
    · dsimp only
      by_cases hdir : item.IsSubdirectory
      · rw [if_pos hdir]
        exact (ih item.low16BitsFirstCluster d₁ (Keeps.diskId hk)).trans (Keeps.drives hk)
      · rw [if_neg hdir]
        exact hk

end VibeKernel
