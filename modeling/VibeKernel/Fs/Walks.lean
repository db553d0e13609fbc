import VibeKernel.Fs.FirstLive

/-!
# When the walks through directories end

The loops over the clusters of a directory follow the allocation table of the disk and count
nothing. A search ends when the chain reaches a reserved value, an end mark or the name; a listing
ends at a reserved value only, since an end mark leaves just its inner loop. On a disk whose table
links clusters in a circle neither needs to happen.

`directory_walks_end_iff` says exactly when both end. The clusters a walk may visit are the iterates
of the table entry, and whether it goes on from one of them depends on the cluster alone. A read
that fails only ends a walk earlier.
-/

namespace VibeKernel

open Verif

variable {D : Type}

/-! ### Conditions on the disk -/

/-- The chain from a cluster on reaches a reserved value; the root directory has no chain. -/
def ChainEnds (bpb : FatBootSector) (img : ℕ → UInt8) (cluster : ℕ) : Prop :=
  cluster = 0 ∨ ∃ k, fat16ClusterReservedMin ≤ bpb.chainCluster img cluster k

/-- A run of entries ends the search for a name: it has an end mark or a live entry with the
name. -/
def StopsSearch (name : CString) (es : List DirectoryEntry) : Prop :=
  (∃ e ∈ es, DirectoryEntry.IsEnd e) ∨
    ∃ e ∈ DirectoryEntry.live es, SameName (DirectoryEntry.name e) name

/-- The chain from a cluster on reaches a reserved value or a cluster that ends the search. -/
def SearchEnds (bpb : FatBootSector) (img : ℕ → UInt8) (cluster : ℕ) (name : CString) : Prop :=
  cluster = 0 ∨ ∃ k, fat16ClusterReservedMin ≤ bpb.chainCluster img cluster k ∨
    StopsSearch name (clusterEntries bpb img (bpb.chainCluster img cluster k))

/-- Each search on a path ends, and the chain of the directory it leads to does. -/
def ListEnds (bpb : FatBootSector) (img : ℕ → UInt8) : ℕ → List CString → Prop
  | cluster, [] => ChainEnds bpb img cluster
  | cluster, part :: rest => SearchEnds bpb img cluster part ∧
    ∀ e, FirstLive bpb img cluster part e → (FatDirectoryItem.decode e).IsSubdirectory →
      ListEnds bpb img (FatDirectoryItem.decode e).low16BitsFirstCluster rest

section Walks

variable {A : Ata D} {drive : ℕ} {img : ℕ → UInt8} {bpb : FatBootSector} {name : CString}

/-- A scan goes on behind the entries iff they do not end the search. -/
theorem scanEntries_exhausted_iff (es : List DirectoryEntry) :
    scanEntries name es = .exhausted ↔ ¬ StopsSearch name es := by
  unfold StopsSearch
  induction es with
  | nil => simp [scanEntries]
  | cons e es ih =>
    rw [scanEntries, DirectoryEntry.live_cons]
    by_cases hend : DirectoryEntry.IsEnd e
    · rw [if_pos hend]
      exact iff_of_false (fun h => by cases h) (not_not_intro (.inl ⟨e, List.mem_cons_self, hend⟩))
    rw [if_neg hend, if_neg hend, List.exists_mem_cons_iff, or_iff_right hend]
    by_cases hdel : DirectoryEntry.IsDeleted e
    · rw [if_pos hdel, if_pos hdel]
      exact ih
    rw [if_neg hdel, if_neg hdel, List.exists_mem_cons_iff]
    by_cases hname : SameName (DirectoryEntry.name e) name
    · rw [if_pos hname]
      exact iff_of_false (fun h => by cases h) (not_not_intro (.inr (.inl hname)))
    · rw [if_neg hname, or_iff_right hname]
      exact ih

/-- The chain from the next cluster on. -/
theorem chainCluster_succ (cluster k : ℕ) : bpb.chainCluster img cluster (k + 1) =
    bpb.chainCluster img (bpb.fatEntry img cluster) k := Function.iterate_succ_apply _ _ _

theorem SectorsHold.holds (hS : SectorsHold A drive 268435456 img) : A.Holds drive img := by
  intro d lba buffer d' hlba hread
  obtain ⟨buffer', d'', hread', hbuf⟩ := hS d lba hlba
  rw [hread] at hread'
  cases hread'
  exact hbuf

/-! ### How long a walk goes on -/

/-- **The search** is cut off after `fuel` clusters iff none of these ends it. -/
theorem fat16ScanClusters_cut_iff (hS : SectorsHold A drive 268435456 img)
    (hbytes : bpb.bytesPerSector = 512) (hres : bpb.reservedSectors < 65536)
    (hname : (0 : UInt8) ∉ name) :
    ∀ (fuel first : ℕ) (stream : DiskStream) (d : D), stream.diskId = drive →
      (fat16ScanClusters A bpb name fuel first stream d = .error .diverges ↔
        ∀ k < fuel, ¬ (fat16ClusterReservedMin ≤ bpb.chainCluster img first k ∨
          StopsSearch name (clusterEntries bpb img (bpb.chainCluster img first k)))) := by
  intro fuel
  induction fuel with
  | zero => exact fun _ _ _ _ => iff_of_true rfl fun k hk => absurd hk (Nat.not_lt_zero k)
  | succ fuel ih =>
    intro first stream d hs
    rw [fat16ScanClusters]
    by_cases hsmall : first < fat16ClusterReservedMin
    swap
    · rw [if_neg hsmall]
      refine iff_of_false (fun h => by cases h) fun h => ?_
      exact h 0 (Nat.succ_pos _) (.inl (Nat.not_lt.mp hsmall))
    rw [if_pos hsmall, clusterBase_eq]
    obtain ⟨stream₁, d₁, hscan, hs₁⟩ := (searchable_image hS hbytes hres hname hsmall).items
      stream d hs
    rw [clusterBase_eq] at hscan
    dsimp only
    rw [hscan]
    have hexh := @scanEntries_exhausted_iff name (clusterEntries bpb img first)
    have hread := @scanEntries_readable name (clusterEntries bpb img first)
    -- a scan that does not run through ends the search at the first cluster
    have hstop : ∀ r, scanEntries name (clusterEntries bpb img first) = r → r ≠ .exhausted →
        ¬ ∀ k < fuel + 1, ¬ (fat16ClusterReservedMin ≤ bpb.chainCluster img first k ∨
          StopsSearch name (clusterEntries bpb img (bpb.chainCluster img first k))) := by
      intro r hr hne h
      refine h 0 (Nat.succ_pos _) (.inr ?_)
      by_contra hgo
      exact hne (hr.symm.trans (hexh.mpr hgo))
    cases hans : scanEntries name (clusterEntries bpb img first) with
    | found item => exact iff_of_false (fun h => by cases h) (hstop _ hans fun h => by cases h)
    | unreadable => exact absurd hans hread
    | endMark => exact iff_of_false (fun h => by cases h) (hstop _ hans fun h => by cases h)
    | exhausted =>
      dsimp only
      have hword : first < 65536 := by
        unfold fat16ClusterReservedMin at hsmall
        omega
      obtain ⟨stream₂, d₂, hentry, hs₂⟩ :=
        fat16GetFatEntry_image hS hbytes hres hword stream₁ hs₁ d₁
      rw [hentry, Nat.forall_lt_succ_left]
      simp only [chainCluster_succ]
      refine (ih _ stream₂ d₂ hs₂).trans (and_iff_right ?_).symm
      exact not_or.mpr ⟨Nat.not_le.mpr hsmall, hexh.mp hans⟩

/-- **The listing** is cut off after `fuel` clusters iff none of these is reserved. -/
theorem fat16ListClusters_cut_iff (hS : SectorsHold A drive 268435456 img)
    (hbytes : bpb.bytesPerSector = 512) (hres : bpb.reservedSectors < 65536) :
    ∀ (fuel first : ℕ) (stream : DiskStream) (d : D), stream.diskId = drive →
      (fat16ListClusters A bpb fuel first stream d = .error .diverges ↔
        ∀ k < fuel, ¬ fat16ClusterReservedMin ≤ bpb.chainCluster img first k) := by
  intro fuel
  induction fuel with
  | zero => exact fun _ _ _ _ => iff_of_true rfl fun k hk => absurd hk (Nat.not_lt_zero k)
  | succ fuel ih =>
    intro first stream d hs
    rw [fat16ListClusters]
    by_cases hsmall : first < fat16ClusterReservedMin
    swap
    · rw [if_neg hsmall]
      exact iff_of_false (fun h => by cases h) fun h => h 0 (Nat.succ_pos _) (Nat.not_lt.mp hsmall)
    rw [if_pos hsmall, clusterBase_eq]
    obtain ⟨stream₁, d₁, hlist, hs₁⟩ := fat16ListItems_image hS (bpb.clusterSize / 32)
      (bpb.clusterBase first) _ d (diskstreamSeek_at hs _) (u32_lt _)
    have hword : first < 65536 := by
      unfold fat16ClusterReservedMin at hsmall
      omega
    obtain ⟨stream₂, d₂, hentry, hs₂⟩ :=
      fat16GetFatEntry_image hS hbytes hres hword stream₁ hs₁ d₁
    dsimp only
    rw [hlist]
    dsimp only
    rw [hentry]
    dsimp only
    rw [Nat.forall_lt_succ_left]
    simp only [chainCluster_succ]
    refine Iff.trans ?_ (and_iff_right (show ¬ _ from Nat.not_le.mpr hsmall)).symm
    rw [← ih _ stream₂ d₂ hs₂]
    cases fat16ListClusters A bpb fuel (bpb.fatEntry img first) stream₂ d₂ with
    | error e => rfl
    | ok x => exact iff_of_false (fun h => by cases h) fun h => by cases h

/-! ### What a search answers -/

/-- A name found in a front part of a directory is found there in any longer part. -/
theorem find_append_of_some {es : List DirectoryEntry} {e : DirectoryEntry}
    (h : DirectoryEntry.find es name = some e) (es' : List DirectoryEntry) :
    DirectoryEntry.find (es ++ es') name = some e := by
  unfold DirectoryEntry.find at h ⊢
  rw [DirectoryEntry.live_append, List.find?_append, h]
  rfl

/-- Two front parts of a directory: one is the beginning of the other. -/
theorem DirectoryFront.prefix_or {cluster : ℕ} {bs bs' : List (List DirectoryEntry)}
    (h : DirectoryFront bpb img cluster bs) (h' : DirectoryFront bpb img cluster bs') :
    (∃ more, bs' = bs ++ more) ∨ ∃ more, bs = bs' ++ more := by
  cases h with
  | root =>
    cases h' with
    | root => exact .inl ⟨[], rfl⟩
    | sub h0 => exact absurd rfl h0
  | sub h0 hseg =>
    cases h' with
    | root => exact absurd rfl h0
    | sub _ hseg' =>
      rcases hseg.prefix_or hseg' with ⟨m, rfl, -⟩ | ⟨m, rfl, -⟩
      · exact .inl ⟨_, List.map_append⟩
      · exact .inr ⟨_, List.map_append⟩

/-- The first live entry with a name is one entry. -/
theorem FirstLive.unique {cluster : ℕ} {e e' : DirectoryEntry}
    (h : FirstLive bpb img cluster name e) (h' : FirstLive bpb img cluster name e') : e = e' := by
  obtain ⟨bs, hfront, hfind⟩ := h
  obtain ⟨bs', hfront', hfind'⟩ := h'
  have hsame : ∀ {bs bs' : List (List DirectoryEntry)} {e e' : DirectoryEntry},
      DirectoryEntry.find bs.flatten name = some e →
        DirectoryEntry.find bs'.flatten name = some e' →
      (∃ more, bs' = bs ++ more) → e = e' := by
    rintro bs _ e e' he he' ⟨more, rfl⟩
    rw [List.flatten_append, find_append_of_some he] at he'
    exact Option.some.inj he'
  rcases hfront.prefix_or hfront' with hmore | hmore
  · exact hsame hfind hfind' hmore
  · exact (hsame hfind' hfind hmore).symm

/-- A search through a chain that ends has scanned a part of it, to its end unless the scan stopped
before. -/
theorem fat16ScanClusters_answer (hS : SectorsHold A drive 268435456 img)
    (hbytes : bpb.bytesPerSector = 512) (hres : bpb.reservedSectors < 65536)
    (hname : (0 : UInt8) ∉ name) :
    ∀ (fuel first : ℕ) (stream : DiskStream) (d : D) {r : ℤ ⊕ FatDirectoryItem}
      {x : DiskStream × D}, stream.diskId = drive →
      fat16ScanClusters A bpb name fuel first stream d = .ok (r, x) →
      ∃ chain last, Seg (bpb.fatEntry img) first chain last ∧
        (∀ c ∈ chain, c < fat16ClusterReservedMin) ∧
        r = scanAnswer (scanEntries name (chain.map (clusterEntries bpb img)).flatten) ∧
        (scanEntries name (chain.map (clusterEntries bpb img)).flatten = .exhausted →
          fat16ClusterReservedMin ≤ last) := by
  intro fuel
  induction fuel with
  | zero => exact fun _ _ _ _ _ _ h => by cases h
  | succ fuel ih =>
    intro first stream d r x hs hok
    rw [fat16ScanClusters] at hok
    by_cases hsmall : first < fat16ClusterReservedMin
    swap
    · rw [if_neg hsmall] at hok
      cases hok
      exact ⟨[], first, rfl, (fun _ h => by cases h), rfl, fun _ => Nat.not_lt.mp hsmall⟩
    rw [if_pos hsmall, clusterBase_eq] at hok
    obtain ⟨stream₁, d₁, hscan, hs₁⟩ := (searchable_image hS hbytes hres hname hsmall).items
      stream d hs
    rw [clusterBase_eq] at hscan
    dsimp only at hok
    rw [hscan] at hok
    have hread := @scanEntries_readable name (clusterEntries bpb img first)
    -- a scan that does not run through is the whole answer
    have hone : ∀ a, scanEntries name (clusterEntries bpb img first) = a → a ≠ .exhausted →
        r = scanAnswer a → ∃ chain last, Seg (bpb.fatEntry img) first chain last ∧
          (∀ c ∈ chain, c < fat16ClusterReservedMin) ∧
          r = scanAnswer (scanEntries name (chain.map (clusterEntries bpb img)).flatten) ∧
          (scanEntries name (chain.map (clusterEntries bpb img)).flatten = .exhausted →
            fat16ClusterReservedMin ≤ last) := by
      intro a ha hne hr
      refine ⟨[first], _, ⟨rfl, rfl⟩, fun c hc => ?_, ?_, fun h => ?_⟩
      · rw [List.mem_singleton.mp hc]
        exact hsmall
      · rw [List.map_singleton, List.flatten_singleton, ha]
        exact hr
      · rw [List.map_singleton, List.flatten_singleton, ha] at h
        exact absurd h hne
    cases hans : scanEntries name (clusterEntries bpb img first) with
    | found item =>
      rw [hans] at hok
      cases hok
      exact hone _ hans (fun h => by cases h) rfl
    | unreadable => exact absurd hans hread
    | endMark =>
      rw [hans] at hok
      cases hok
      exact hone _ hans (fun h => by cases h) rfl
    | exhausted =>
      rw [hans] at hok
      dsimp only at hok
      have hword : first < 65536 := by
        unfold fat16ClusterReservedMin at hsmall
        omega
      obtain ⟨stream₂, d₂, hentry, hs₂⟩ :=
        fat16GetFatEntry_image hS hbytes hres hword stream₁ hs₁ d₁
      rw [hentry] at hok
      obtain ⟨chain, last, hseg, husable, hr, hlast⟩ := ih _ stream₂ d₂ hs₂ hok
      refine ⟨first :: chain, last, ⟨rfl, hseg⟩, List.forall_mem_cons.mpr ⟨hsmall, husable⟩, ?_, ?_⟩
      · rw [List.map_cons, List.flatten_cons, scanEntries_append, if_pos hans]
        exact hr
      · rw [List.map_cons, List.flatten_cons, scanEntries_append, if_pos hans]
        exact hlast

/-- The scan of a list in which the name is found. -/
theorem scanEntries_of_find {es : List DirectoryEntry} {e : DirectoryEntry}
    (h : DirectoryEntry.find es name = some e) : scanEntries name es = .found (.decode e) := by
  have hitem := @scanEntries_item name es
  rw [h] at hitem
  cases hscan : scanEntries name es with
  | found item =>
    rw [hscan] at hitem
    cases hitem
    rfl
  | unreadable =>
    rw [hscan] at hitem
    cases hitem
  | endMark =>
    rw [hscan] at hitem
    cases hitem
  | exhausted =>
    rw [hscan] at hitem
    cases hitem

/-- A search that ends finds the first live entry with the name, if there is one. -/
theorem fat16GetDirectoryEntry_of_firstLive (hS : SectorsHold A drive 268435456 img)
    (hbytes : bpb.bytesPerSector = 512) (hres : bpb.reservedSectors < 65536)
    (hname : (0 : UInt8) ∉ name) {fuel cluster : ℕ} {stream : DiskStream}
    (hs : stream.diskId = drive) {d : D} {r : ℤ ⊕ FatDirectoryItem} {x : DiskStream × D}
    (hok : fat16GetDirectoryEntry A bpb fuel cluster name stream d = .ok (r, x))
    {e : DirectoryEntry}
    (hfirst : FirstLive bpb img cluster name e) : r = .inr (.decode e) := by
  obtain ⟨blocks, hfront, hfind⟩ := hfirst
  have hscan' := scanEntries_of_find hfind
  unfold fat16GetDirectoryEntry at hok
  cases hfront with
  | root =>
    rw [if_pos rfl] at hok
    obtain ⟨stream', d', hscan, -⟩ := fat16ScanItems_image hS hname
      (u32_lt (bpb.rootDirectorySector * bpb.bytesPerSector)) bpb.rootDirEntries hs d
    rw [← rootEntries] at hscan
    rw [List.flatten_singleton] at hscan'
    dsimp only at hok
    rw [hscan, hscan'] at hok
    cases hok
    rfl
  | @sub _ last' chain' h0 hseg' husable' =>
    rw [if_neg h0] at hok
    obtain ⟨chain, last, hseg, -, hr, hlast⟩ :=
      fat16ScanClusters_answer hS hbytes hres hname fuel cluster stream d hs hok
    rw [hr]
    rcases hseg.prefix_or hseg' with ⟨m, rfl, hm⟩ | ⟨m, rfl, -⟩
    · rw [List.map_append, List.flatten_append, scanEntries_append] at hscan'
      by_cases hexh : scanEntries name (chain.map (clusterEntries bpb img)).flatten = .exhausted
      · -- the chain ends with a reserved value, so nothing comes behind it
        rw [if_pos hexh] at hscan'
        have hreserved := hlast hexh
        cases m with
        | nil => cases hscan'
        | cons c m =>
          have hc := husable' c (List.mem_append_right _ List.mem_cons_self)
          rw [← hm.1] at hc
          exact absurd hreserved (Nat.not_le.mpr hc)
      · rw [if_neg hexh] at hscan'
        rw [hscan']
        rfl
    · rw [List.map_append, List.flatten_append, scanEntries_append, hscan',
        if_neg fun h => by cases h]
      rfl

/-! ### When a walk ends -/

/-- A search in a directory completes with `fuel` clusters iff one of these ends it. -/
theorem fat16GetDirectoryEntry_ok_iff (hS : SectorsHold A drive 268435456 img)
    (hbytes : bpb.bytesPerSector = 512) (hres : bpb.reservedSectors < 65536)
    (hname : (0 : UInt8) ∉ name) (fuel cluster : ℕ) {stream : DiskStream}
    (hs : stream.diskId = drive) (d : D) :
    (∃ r, fat16GetDirectoryEntry A bpb fuel cluster name stream d = .ok r) ↔
      cluster = 0 ∨ ∃ k < fuel, fat16ClusterReservedMin ≤ bpb.chainCluster img cluster k ∨
        StopsSearch name (clusterEntries bpb img (bpb.chainCluster img cluster k)) := by
  have hkeeps := fat16GetDirectoryEntry_keeps (A := A) (b := bpb) fuel cluster name hs d
  unfold fat16GetDirectoryEntry at hkeeps ⊢
  by_cases h0 : cluster = 0
  · rw [if_pos h0]
    refine iff_of_true ?_ (.inl h0)
    dsimp only
    generalize fat16ScanItems A name bpb.rootDirEntries _ d = x
    obtain ⟨r, stream', d'⟩ := x
    cases r <;> exact ⟨_, rfl⟩
  · rw [if_neg h0] at hkeeps ⊢
    have hcut := fat16ScanClusters_cut_iff hS hbytes hres hname fuel cluster stream d hs
    rw [or_iff_right h0]
    cases hrun : fat16ScanClusters A bpb name fuel cluster stream d with
    | error e =>
      rw [hrun] at hkeeps hcut
      obtain rfl : e = .diverges := hkeeps
      refine iff_of_false (by rintro ⟨r, h⟩; cases h) ?_
      rintro ⟨k, hk, hstop⟩
      exact hcut.mp rfl k hk hstop
    | ok x =>
      rw [hrun] at hcut
      refine iff_of_true ⟨x, rfl⟩ ?_
      by_contra hgo
      cases hcut.mpr fun k hk hstop => hgo ⟨k, hk, hstop⟩

/-- A search goes no further than a reserved value. -/
theorem fat16ScanClusters_reserved {fuel k cluster : ℕ} (hk : k < fuel)
    (hc : fat16ClusterReservedMin ≤ cluster) (stream : DiskStream) (d : D) :
    ∃ r, fat16ScanClusters A bpb name fuel cluster stream d = .ok r := by
  obtain ⟨fuel, rfl⟩ := Nat.exists_eq_succ_of_ne_zero (Nat.ne_of_gt (Nat.zero_lt_of_lt hk))
  rw [fat16ScanClusters, if_neg (Nat.not_lt.mpr hc)]
  exact ⟨_, rfl⟩

theorem fat16ListClusters_reserved {fuel k cluster : ℕ} (hk : k < fuel)
    (hc : fat16ClusterReservedMin ≤ cluster) (stream : DiskStream) (d : D) :
    ∃ r, fat16ListClusters A bpb fuel cluster stream d = .ok r := by
  obtain ⟨fuel, rfl⟩ := Nat.exists_eq_succ_of_ne_zero (Nat.ne_of_gt (Nat.zero_lt_of_lt hk))
  rw [fat16ListClusters, if_neg (Nat.not_lt.mpr hc)]
  exact ⟨_, rfl⟩

/-- A search through a chain returns as soon as there are clusters enough to reach one that ends it,
whatever reads fail: a failure ends it, too. -/
theorem fat16ScanClusters_completes (hA : A.Holds drive img) (hbytes : bpb.bytesPerSector = 512)
    (hres : bpb.reservedSectors < 65536) (hname : (0 : UInt8) ∉ name) :
    ∀ (fuel first k : ℕ) (stream : DiskStream) (d : D), stream.diskId = drive → k < fuel →
      (fat16ClusterReservedMin ≤ bpb.chainCluster img first k ∨
        StopsSearch name (clusterEntries bpb img (bpb.chainCluster img first k))) →
      ∃ r, fat16ScanClusters A bpb name fuel first stream d = .ok r := by
  intro fuel
  induction fuel with
  | zero => exact fun _ k _ _ _ hk => absurd hk (Nat.not_lt_zero k)
  | succ fuel ih =>
    intro first k stream d hs hk hend
    rw [fat16ScanClusters]
    by_cases hsmall : first < fat16ClusterReservedMin
    swap
    · rw [if_neg hsmall]
      exact ⟨_, rfl⟩
    rw [if_pos hsmall, clusterBase_eq]
    obtain ⟨r, stream₁, d₁, hscan, hs₁, hr⟩ := fat16ScanItems_holds hA hname (bpb.clusterSize / 32)
      (bpb.clusterBase first) _ d (diskstreamSeek_at hs _) (u32_lt _)
    rw [← clusterEntries] at hr
    dsimp only
    rw [hscan]
    cases r with
    | found item => exact ⟨_, rfl⟩
    | unreadable => exact ⟨_, rfl⟩
    | endMark => exact ⟨_, rfl⟩
    | exhausted =>
      dsimp only
      have hgo : ¬ StopsSearch name (clusterEntries bpb img first) := by
        rcases hr with h | h
        · cases h
        · exact (scanEntries_exhausted_iff _).mp h.symm
      -- the cluster that ends the search is a later one
      cases k with
      | zero => exact absurd hend (not_or.mpr ⟨Nat.not_le.mpr hsmall, hgo⟩)
      | succ k =>
        rw [chainCluster_succ] at hend
        have hword : first < 65536 := by
          unfold fat16ClusterReservedMin at hsmall
          omega
        have hk' : k < fuel := Nat.lt_of_succ_lt_succ hk
        obtain ⟨entry, stream₂, d₂, hentry, hs₂, he⟩ :=
          fat16GetFatEntry_holds hA hbytes hres hword hs₁ d₁
        rw [hentry]
        dsimp only
        rcases he with he | rfl
        · -- an entry that cannot be read counts as a reserved value
          refine fat16ScanClusters_reserved hk' ?_ stream₂ d₂
          rw [he]
          decide
        · exact ih _ k stream₂ d₂ hs₂ hk' hend

/-- The same for a listing, which only a reserved value ends. -/
theorem fat16ListClusters_completes (hA : A.Holds drive img) (hbytes : bpb.bytesPerSector = 512)
    (hres : bpb.reservedSectors < 65536) :
    ∀ (fuel first k : ℕ) (stream : DiskStream) (d : D), stream.diskId = drive → k < fuel →
      fat16ClusterReservedMin ≤ bpb.chainCluster img first k →
      ∃ r, fat16ListClusters A bpb fuel first stream d = .ok r := by
  intro fuel
  induction fuel with
  | zero => exact fun _ k _ _ _ hk => absurd hk (Nat.not_lt_zero k)
  | succ fuel ih =>
    intro first k stream d hs hk hend
    rw [fat16ListClusters]
    by_cases hsmall : first < fat16ClusterReservedMin
    swap
    · rw [if_neg hsmall]
      exact ⟨_, rfl⟩
    rw [if_pos hsmall, clusterBase_eq]
    dsimp only
    rw [diskstreamSeek_at hs]
    have hs₁ := (@fat16ListItems_keeps _ A drive (bpb.clusterSize / 32)
      ⟨bpb.clusterBase first, drive⟩ d rfl).diskId
    generalize fat16ListItems A (bpb.clusterSize / 32) ⟨bpb.clusterBase first, drive⟩ d = x
      at hs₁ ⊢
    obtain ⟨text, stream₁, d₁⟩ := x
    dsimp only at hs₁ ⊢
    cases k with
    | zero => exact absurd hend (Nat.not_le.mpr hsmall)
    | succ k =>
      rw [chainCluster_succ] at hend
      have hword : first < 65536 := by
        unfold fat16ClusterReservedMin at hsmall
        omega
      -- a lookup that fails answers `0xFFFF`, which ends the walk too
      obtain ⟨entry, stream₂, d₂, hentry, hs₂, he⟩ :=
        fat16GetFatEntry_holds hA hbytes hres hword hs₁ d₁
      have hrest : ∃ r, fat16ListClusters A bpb fuel entry stream₂ d₂ = .ok r := by
        have hk' : k < fuel := Nat.lt_of_succ_lt_succ hk
        rcases he with he | rfl
        · refine fat16ListClusters_reserved hk' ?_ stream₂ d₂
          rw [he]
          decide
        · exact ih _ k stream₂ d₂ hs₂ hk' hend
      obtain ⟨r, hrest⟩ := hrest
      rw [hentry]
      dsimp only
      rw [hrest]
      exact ⟨_, rfl⟩

/-- A search that ends completes with every number of clusters from some number on. -/
theorem SearchEnds.completes (hA : A.Holds drive img) (hbytes : bpb.bytesPerSector = 512)
    (hres : bpb.reservedSectors < 65536) (hname : (0 : UInt8) ∉ name) {cluster : ℕ}
    (h : SearchEnds bpb img cluster name) :
    ∃ N, ∀ fuel ≥ N, ∀ (stream : DiskStream) (d : D), stream.diskId = drive →
      ∃ r, fat16GetDirectoryEntry A bpb fuel cluster name stream d = .ok r := by
  -- the search of the root directory is one loop over its entries
  have hroot : ∀ fuel (stream : DiskStream) (d : D),
      ∃ r, fat16GetDirectoryEntry A bpb fuel 0 name stream d = .ok r := by
    intro fuel stream d
    unfold fat16GetDirectoryEntry
    rw [if_pos rfl]
    dsimp only
    generalize fat16ScanItems A name bpb.rootDirEntries _ d = x
    obtain ⟨r, stream', d'⟩ := x
    cases r <;> exact ⟨_, rfl⟩
  rcases h with rfl | ⟨k, hk⟩
  · exact ⟨0, fun fuel _ stream d _ => hroot fuel stream d⟩
  · refine ⟨k + 1, fun fuel hfuel stream d hs => ?_⟩
    by_cases h0 : cluster = 0
    · rw [h0]
      exact hroot fuel stream d
    · unfold fat16GetDirectoryEntry
      rw [if_neg h0]
      exact fat16ScanClusters_completes hA hbytes hres hname fuel cluster k stream d hs hfuel hk

theorem searchEnds_of_ok (hS : SectorsHold A drive 268435456 img)
    (hbytes : bpb.bytesPerSector = 512) (hres : bpb.reservedSectors < 65536)
    (hname : (0 : UInt8) ∉ name) {fuel cluster : ℕ} {stream : DiskStream}
    (hs : stream.diskId = drive) {d : D} {r : (ℤ ⊕ FatDirectoryItem) × DiskStream × D}
    (h : fat16GetDirectoryEntry A bpb fuel cluster name stream d = .ok r) :
    SearchEnds bpb img cluster name := by
  rcases (fat16GetDirectoryEntry_ok_iff hS hbytes hres hname fuel cluster hs d).mp ⟨r, h⟩ with
    h0 | ⟨k, -, hk⟩
  · exact .inl h0
  · exact .inr ⟨k, hk⟩

/-- A listing of one directory completes with `fuel` clusters iff one of these is reserved. -/
theorem fat16List_nil_ok_iff (hS : SectorsHold A drive 268435456 img)
    (hbytes : bpb.bytesPerSector = 512) (hres : bpb.reservedSectors < 65536) (fuel cluster : ℕ)
    {stream : DiskStream} (hs : stream.diskId = drive) (d : D) :
    (∃ r, fat16List A bpb fuel cluster [] stream d = .ok r) ↔
      cluster = 0 ∨ ∃ k < fuel, fat16ClusterReservedMin ≤ bpb.chainCluster img cluster k := by
  rw [fat16List]
  by_cases h0 : cluster = 0
  · rw [if_pos h0]
    exact iff_of_true ⟨_, rfl⟩ (.inl h0)
  · have hkeeps := fat16ListClusters_keeps (A := A) (b := bpb) fuel cluster d hs
    have hcut := fat16ListClusters_cut_iff hS hbytes hres fuel cluster stream d hs
    rw [if_neg h0, or_iff_right h0]
    cases hrun : fat16ListClusters A bpb fuel cluster stream d with
    | error e =>
      rw [hrun] at hkeeps hcut
      obtain rfl : e = .diverges := hkeeps
      refine iff_of_false (by rintro ⟨r, h⟩; cases h) ?_
      rintro ⟨k, hk, hend⟩
      exact hcut.mp rfl k hk hend
    | ok x =>
      rw [hrun] at hcut
      refine iff_of_true ⟨_, rfl⟩ ?_
      by_contra hgo
      cases hcut.mpr fun k hk hend => hgo ⟨k, hk, hend⟩

/-- A listing whose searches and whose chain end completes with enough clusters. -/
theorem ListEnds.completes (hA : A.Holds drive img) (hbytes : bpb.bytesPerSector = 512)
    (hres : bpb.reservedSectors < 65536) :
    ∀ {path : List CString} {cluster : ℕ}, (∀ p ∈ path, (0 : UInt8) ∉ p) →
      ListEnds bpb img cluster path →
      ∃ N, ∀ fuel ≥ N, ∀ (stream : DiskStream) (d : D), stream.diskId = drive →
        ∃ r, fat16List A bpb fuel cluster path stream d = .ok r := by
  intro path
  induction path with
  | nil =>
    intro cluster _ h
    by_cases h0 : cluster = 0
    · refine ⟨0, fun fuel _ stream d _ => ?_⟩
      rw [fat16List, if_pos h0]
      exact ⟨_, rfl⟩
    · obtain ⟨k, hk⟩ := h.resolve_left h0
      refine ⟨k + 1, fun fuel hfuel stream d hs => ?_⟩
      obtain ⟨r, hr⟩ :=
        fat16ListClusters_completes hA hbytes hres fuel cluster k stream d hs hfuel hk
      rw [fat16List, if_neg h0, hr]
      exact ⟨_, rfl⟩
  | cons part rest ih =>
    intro cluster hpath h
    obtain ⟨hsearch, hrest⟩ := h
    have hname := hpath part List.mem_cons_self
    obtain ⟨N₁, h₁⟩ := hsearch.completes hA hbytes hres hname
    -- the clusters that the rest of the path takes, if the search leads to a subdirectory
    obtain ⟨N₂, h₂⟩ : ∃ N, ∀ e, FirstLive bpb img cluster part e →
        (FatDirectoryItem.decode e).IsSubdirectory → ∀ fuel ≥ N, ∀ (stream : DiskStream) (d : D),
          stream.diskId = drive → ∃ r, fat16List A bpb fuel
            (FatDirectoryItem.decode e).low16BitsFirstCluster rest stream d = .ok r := by
      by_cases hfirst : ∃ e, FirstLive bpb img cluster part e ∧
          (FatDirectoryItem.decode e).IsSubdirectory
      · obtain ⟨e, he, hsub⟩ := hfirst
        obtain ⟨N, hN⟩ := ih (fun p hp => hpath p (List.mem_cons_of_mem _ hp)) (hrest e he hsub)
        refine ⟨N, fun e' he' _ => ?_⟩
        rw [he'.unique he]
        exact hN
      · exact ⟨0, fun e he hsub => absurd ⟨e, he, hsub⟩ hfirst⟩
    refine ⟨max N₁ N₂, fun fuel hfuel stream d hs => ?_⟩
    obtain ⟨⟨answer, stream', d'⟩, hget⟩ := h₁ fuel (le_trans (le_max_left _ _) hfuel) stream d hs
    rw [fat16List, hget]
    cases answer with
    | inl code => exact ⟨_, rfl⟩
    | inr item =>
      dsimp only
      by_cases hsub : item.IsSubdirectory
      swap
      · rw [if_neg hsub]
        exact ⟨_, rfl⟩
      rw [if_pos hsub]
      obtain ⟨hs', e, he, rfl⟩ :=
        fat16GetDirectoryEntry_found hA hbytes hres hname hs hget
      exact h₂ e he hsub fuel (le_trans (le_max_right _ _) hfuel) stream' d' hs'

/-- The searches and the chain of a listing that completes all end. -/
theorem listEnds_of_ok (hS : SectorsHold A drive 268435456 img)
    (hbytes : bpb.bytesPerSector = 512) (hres : bpb.reservedSectors < 65536) {fuel : ℕ} :
    ∀ {path : List CString} {cluster : ℕ} {stream : DiskStream} {d : D}
      {r : (ℤ × CString) × DiskStream × D}, (∀ p ∈ path, (0 : UInt8) ∉ p) → stream.diskId = drive →
      fat16List A bpb fuel cluster path stream d = .ok r → ListEnds bpb img cluster path := by
  intro path
  induction path with
  | nil =>
    intro cluster stream d r _ hs h
    rcases (fat16List_nil_ok_iff hS hbytes hres fuel cluster hs d).mp ⟨r, h⟩ with h0 | ⟨k, -, hk⟩
    · exact .inl h0
    · exact .inr ⟨k, hk⟩
  | cons part rest ih =>
    intro cluster stream d r hpath hs h
    have hname := hpath part List.mem_cons_self
    rw [fat16List] at h
    cases hget : fat16GetDirectoryEntry A bpb fuel cluster part stream d with
    | error e =>
      rw [hget] at h
      cases h
    | ok x =>
      obtain ⟨answer, stream', d'⟩ := x
      rw [hget] at h
      refine ⟨searchEnds_of_ok hS hbytes hres hname hs hget, fun e he hsub => ?_⟩
      have hans := fat16GetDirectoryEntry_of_firstLive hS hbytes hres hname hs hget he
      subst hans
      dsimp only at h
      rw [if_pos hsub] at h
      obtain ⟨hs', -⟩ := fat16GetDirectoryEntry_found hS.holds hbytes hres hname hs hget
      exact ih (fun p hp => hpath p (List.mem_cons_of_mem _ hp)) hs' h

/-- **When the walks through directories end.** On every image whose boot sector is accepted and
whose sectors can be read, from every directory: the search for a name ends iff the chain reaches a
reserved value, an end mark or the name; a listing ends iff the searches on its path do and the
chain of the directory it leads to reaches a reserved value. On a drive that holds the image they
end under the same conditions whatever reads fail. -/
theorem directory_walks_end_iff (hS : SectorsHold A drive 268435456 img) (hacc : bpb.check = none)
    (hboot : bpb = FatBootSector.decode (slice img 0 512)) (cluster : ℕ) {stream : DiskStream}
    (hs : stream.diskId = drive) (d : D) :
    (∀ name : CString, 0 ∉ name →
      ((∃ fuel r, fat16GetDirectoryEntry A bpb fuel cluster name stream d = .ok r) ↔
        SearchEnds bpb img cluster name)) ∧
    (∀ path : List CString, (∀ p ∈ path, (0 : UInt8) ∉ p) →
      ((∃ fuel r, fat16List A bpb fuel cluster path stream d = .ok r) ↔
        ListEnds bpb img cluster path)) ∧
    ∀ (D' : Type) (A' : Ata D'), A'.Holds drive img →
      (∀ name : CString, 0 ∉ name → SearchEnds bpb img cluster name → ∃ fuel, ∀ d',
        ∃ r, fat16GetDirectoryEntry A' bpb fuel cluster name stream d' = .ok r) ∧
      ∀ path : List CString, (∀ p ∈ path, (0 : UInt8) ∉ p) → ListEnds bpb img cluster path →
        ∃ fuel, ∀ d', ∃ r, fat16List A' bpb fuel cluster path stream d' = .ok r := by
  obtain ⟨-, -, hbytes, -⟩ := FatBootSector.accepted_iff.mp hacc
  have hres : bpb.reservedSectors < 65536 := by
    rw [hboot]
    exact (decode_bounds _).1
  refine ⟨fun name hname => ⟨?_, fun h => ?_⟩, fun path hpath => ⟨?_, fun h => ?_⟩,
    fun D' A' hA => ⟨fun name hname h => ?_, fun path hpath h => ?_⟩⟩
  · rintro ⟨fuel, r, h⟩
    exact searchEnds_of_ok hS hbytes hres hname hs h
  · obtain ⟨N, hN⟩ := h.completes hS.holds hbytes hres hname
    exact ⟨N, hN N le_rfl stream d hs⟩
  · rintro ⟨fuel, r, h⟩
    exact listEnds_of_ok hS hbytes hres hpath hs h
  · obtain ⟨N, hN⟩ := h.completes hS.holds hbytes hres hpath
    exact ⟨N, hN N le_rfl stream d hs⟩
  · obtain ⟨N, hN⟩ := h.completes hA hbytes hres hname
    exact ⟨N, fun d' => hN N le_rfl stream d' hs⟩
  · obtain ⟨N, hN⟩ := h.completes hA hbytes hres hpath
    exact ⟨N, fun d' => hN N le_rfl stream d' hs⟩

end Walks

/-- A disk whose cluster `2` is linked to itself and holds sixteen deleted entries. -/
def circleImage (i : ℕ) : UInt8 :=
  if i < 512 then singleFileBoot i
  else if i = 516 then 2
  else if 1536 ≤ i ∧ i < 2048 then 0xE5
  else 0

theorem circleImage_boot : singleFileBpb = FatBootSector.decode (slice circleImage 0 512) := by
  decide +kernel

/-- On the disk with the circle the walks from cluster `0` and from cluster `3` still end. -/
theorem directory_walks_end_iff_elsewhere :
    (∃ fuel r, fat16GetDirectoryEntry (imageAta circleImage) singleFileBpb fuel 3 [0x41] ⟨0, 0⟩ () =
        .ok r) ∧
      ∃ fuel r, fat16List (imageAta circleImage) singleFileBpb fuel 0 [[0x41]] ⟨0, 0⟩
        () = .ok r := by
  have hends := fun cluster => @directory_walks_end_iff _ _ 0 _ _ (imageAta_holds circleImage 0)
    (by decide) circleImage_boot cluster ⟨0, 0⟩ rfl ()
  refine ⟨((hends 3).1 [0x41] (by decide)).mpr ?_, ((hends 0).2.1 [[0x41]] (by decide)).mpr ?_⟩
  · -- the first entry of cluster `3` is an end mark
    refine .inr ⟨0, .inr (.inl ⟨slice circleImage 2048 32, ?_, by decide +kernel⟩)⟩
    decide +kernel
  · refine ⟨.inl rfl, fun e he _ => ?_⟩
    obtain ⟨blocks, hfront, hfind⟩ := he
    have hnone : DirectoryEntry.find (rootEntries singleFileBpb circleImage) [0x41] = none := by
      decide +kernel
    cases hfront with
    | root =>
      rw [List.flatten_singleton, hnone] at hfind
      cases hfind
    | sub h0 => exact absurd rfl h0

/-- Whatever number of clusters is allowed, the search for `A` from cluster `2` on and the listing
of that directory are cut off. -/
theorem circleImage_cut :
    ∀ fuel, fat16GetDirectoryEntry (imageAta circleImage) singleFileBpb fuel 2 [0x41] ⟨0, 0⟩ () =
        .error .diverges ∧
      fat16List (imageAta circleImage) singleFileBpb fuel 2 [] ⟨0, 0⟩ () = .error .diverges := by
  intro fuel
  have hlink : singleFileBpb.fatEntry circleImage 2 = 2 := by decide +kernel
  have hchain : ∀ k, singleFileBpb.chainCluster circleImage 2 k = 2 :=
    fun k => Function.iterate_fixed hlink k
  have hscan : scanEntries [0x41] (clusterEntries singleFileBpb circleImage 2) = .exhausted := by
    decide +kernel
  have hsmall : ¬ fat16ClusterReservedMin ≤ 2 := by decide
  constructor
  · unfold fat16GetDirectoryEntry
    rw [if_neg (by decide)]
    refine (fat16ScanClusters_cut_iff (imageAta_holds circleImage 0) rfl (by decide)
      (by decide) fuel 2
      ⟨0, 0⟩ () rfl).mpr fun k _ => ?_
    rw [hchain]
    exact not_or.mpr ⟨hsmall, (scanEntries_exhausted_iff _).mp hscan⟩
  · rw [fat16List, if_neg (by decide), (fat16ListClusters_cut_iff (imageAta_holds circleImage 0) rfl
      (by decide) fuel 2 ⟨0, 0⟩ () rfl).mpr fun k _ => by rw [hchain]; exact hsmall]

/-- **A circle is never left**: no number of clusters is enough for the search for `A` from cluster
`2` on, or for the listing of that directory. -/
theorem directory_walks_circle :
    (¬ ∃ fuel r, fat16GetDirectoryEntry (imageAta circleImage) singleFileBpb fuel 2
      [0x41] ⟨0, 0⟩ () = .ok r) ∧
      ¬ ∃ fuel r, fat16List (imageAta circleImage) singleFileBpb fuel 2 [] ⟨0, 0⟩ () = .ok r := by
  constructor
  · rintro ⟨fuel, r, h⟩
    rw [(circleImage_cut fuel).1] at h
    cases h
  · rintro ⟨fuel, r, h⟩
    rw [(circleImage_cut fuel).2] at h
    cases h

end VibeKernel
