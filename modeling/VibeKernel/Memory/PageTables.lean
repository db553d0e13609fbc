import VibeKernel.Kernel.HeapRoom
import VibeKernel.Memory.PagingRoom
import VibeKernel.Fs.SingleFile

/-!
# Page directories refine maps

`pagingNew4gb_wp` and `pagingSet_wp` say what the two functions do to the map a directory stands
for and to everything else; the second has one case for a table that exists and one for a
table that is allocated on the way. `paging_refines_maps` puts them together for any number of
directories: their blocks stay disjoint, so each directory goes its own way.
-/

namespace VibeKernel

open Verif

variable {H D : Type} {M : Machine H D} {E : Stop → Prop} {s : Kernel H D} {dir : ℕ} {W m : ℕ → ℕ}

/-- Only the entries of the 2^20 pages matter. -/
theorem DirRefines.congr_map (hR : DirRefines s dir W m) {m' : ℕ → ℕ}
    (h : ∀ page < 1048576, m' page = m page) : DirRefines s dir W m' where
  directory := hR.directory
  empty i hi hW j hj := by rw [h _ (by omega), hR.empty i hi hW j hj]
  table i hi hW := by
    obtain ⟨hlt, hrights, hbase, hdir, U, hU, hmU⟩ := hR.table i hi hW
    exact ⟨hlt, hrights, hbase, hdir, U, hU, fun j hj => by rw [h _ (by omega), hmU j hj]⟩
  inj := hR.inj

/-- An aligned address joined with flags that grant everything is a directory entry for it. -/
theorem dirEntry_flags {p f : ℕ} (hp : p % 4096 = 0) (hf : f < 4096) (hseven : f % 8 = 7) :
    tableBase (p ||| f) = p ∧ (p ||| f) % 8 = 7 ∧ p ||| f < p + 4096 := by
  rw [or_flags hp hf]
  unfold tableBase
  omega

/-- Flags with the present bit grant everything once the other two bits are joined. -/
theorem flags_seven {flags : ℕ} (hlt : flags < 256) (hodd : flags % 2 = 1) :
    flags ||| pagingIsWriteable ||| pagingAccessFromAll < 256 ∧
      (flags ||| pagingIsWriteable ||| pagingAccessFromAll) % 8 = 7 := by
  revert flags
  decide +kernel

/-- A new table, hung into a directory of a state reached from `s`. -/
theorem addTable_state (hA : ArenaInv M s) {p : ℕ} (h : H) (hU : Usable M s 4096 true p)
    (htop : p + 4096 ≤ identityTop) (hdir : s.store dir = some (.table W)) (U W' : ℕ → ℕ) :
    ArenaInv M (((s.withBlock h p 4096).put p (.table U)).put dir (.table W')) ∧
      PagingStep (· = dir) s
        (((s.withBlock h p 4096).put p (.table U)).put dir (.table W')) := by
  obtain ⟨hA', hF'⟩ := newObj_state (o := .table U) hA h hU htop (· = Kind.paging)
  have hnone : s.store p = none := hA.usable_store hU
  have hpdir : dir ≠ p := by
    rintro rfl
    rw [hdir] at hnone
    cases hnone
  have hdir' : ((s.withBlock h p 4096).put p (.table U)).store dir = some (.table W) := by
    rw [Kernel.put_store_ne hpdir]
    exact hdir
  refine ⟨hA'.overwrite hdir' rfl, hF'.put (MayChange.of_store hdir rfl),
    fun a ha => List.mem_cons_of_mem _ ha, fun q o' hq hne => ?_⟩
  have hqp : q ≠ p := by
    rintro rfl
    rw [hq] at hnone
    cases hnone
  rw [Kernel.put_store_ne hne, Kernel.put_store_ne hqp]
  exact hq

/-! ### `paging_set` -/

/-- The table of an index is found or made; the map does not change. -/
theorem pagingTable_wp (hE : ∀ e, e.AllocFails → E e) (hA : ArenaInv M s)
    (hR : DirRefines s dir W m) {i : ℕ} (hi : i < 1024) {Q : ℕ → Kernel H D → Prop}
    (hQ : ∀ t W', ArenaInv M t → DirRefines t dir W' m → PagingStep (Footprint dir W) s t →
      (∀ q, Footprint dir W' q → Footprint dir W q ∨ s.store q = none) → W' i ≠ 0 →
      Q (tableBase (W' i)) t) :
    wp E (pagingTable M dir i) Q s := by
  unfold pagingTable
  rw [wp_bind]
  refine readObj_wp hR.directory rfl ?_
  dsimp only
  by_cases hW : W i = 0
  · -- the table is missing
    rw [hW, Nat.zero_and, if_pos rfl, wp_bind]
    refine newObj_wp hE fun p h hp0 hU htop => ?_
    have hnone : s.store p = none := hA.usable_store hU
    have halign : p % 4096 = 0 := hU.2.1 rfl
    have hentry : p ||| pagingIsPresent ||| pagingIsWriteable |||
        pagingAccessFromAll = p ||| 7 := by
      rw [Nat.lor_assoc, Nat.lor_assoc]
      rfl
    obtain ⟨hbase, hseven, hlt⟩ := dirEntry_flags halign (by norm_num : 7 < 4096) rfl
    obtain ⟨hA', hst⟩ := addTable_state hA h hU htop hR.directory (fun _ => 0)
      (Function.update W i (p ||| 7))
    have hp4 : p ||| 7 < 4294967296 := by
      change p + 4096 ≤ identityTop at htop
      unfold identityTop at htop
      omega
    have hR' := hR.addTable hi hW hnone hp0 hbase hp4 hseven h (fun _ => 0)
    have hpdir : dir ≠ p := by
      rintro rfl
      rw [hR.directory] at hnone
      cases hnone
    rw [wp_bind, hentry]
    refine overwrite_wp (newObj_state hA h hU htop fun _ => True).1
      (w := .table W) ?_ rfl ?_
    · rw [Kernel.put_store_ne hpdir]
      exact hR.directory
    · rw [wp_pure]
      have hself : Function.update W i (p ||| 7) i = p ||| 7 := Function.update_self _ _ _
      -- an empty word and an empty table stand for the same entries
      have hmap : ∀ page < 1048576, m page = if page / 1024 = i then 0 else m page := by
        intro page _
        split
        · rename_i hpi
          have hempty := hR.empty i hi hW (page % 1024) (Nat.mod_lt _ (by norm_num))
          rw [← hpi, Nat.div_add_mod] at hempty
          exact hempty
        · rfl
      have hgrow : ∀ q, Footprint dir (Function.update W i (p ||| 7)) q →
          Footprint dir W q ∨ s.store q = none := by
        rintro q (rfl | ⟨k, hk, hWk, rfl⟩)
        · exact Or.inl (Or.inl rfl)
        · by_cases hki : k = i
          · rw [hki, hself, hbase]
            exact Or.inr hnone
          · rw [Function.update_of_ne hki] at hWk ⊢
            exact Or.inl (Or.inr ⟨k, hk, hWk, rfl⟩)
      have hfin := hQ _ (Function.update W i (p ||| 7)) hA' (hR'.congr_map hmap)
        ⟨hst.frame, hst.live, fun q o hq hF => hst.others q o hq fun h => hF (Or.inl h)⟩ hgrow
        (by rw [hself]; omega)
      rw [hself, hbase] at hfin
      exact hfin
  · obtain ⟨hlt, -, hbase, -, -⟩ := hR.table i hi hW
    have heq : W i &&& 0xFFFFF000 = tableBase (W i) := and_pageBase hlt
    rw [heq, if_neg hbase, wp_pure]
    exact hQ s W hA hR (PagingStep.refl _ s) (fun q hq => Or.inl hq) hW

/-- **`paging_set`.** With an unaligned address it returns `-1` and changes nothing; otherwise it
sets the entry of the page, and touches only blocks of its own directory and new ones. -/
theorem pagingSet_wp (hE : ∀ e, e.AllocFails → E e) (hA : ArenaInv M s)
    (hR : DirRefines s dir W m) {virt val : ℕ} (hvirt : virt < 4294967296)
    {Q : ℤ → Kernel H D → Prop} (hodd : virt % 4096 ≠ 0 → Q (-1) s)
    (hset : virt % 4096 = 0 → ∀ t W', ArenaInv M t →
      DirRefines t dir W' (Function.update m (virt / 4096) val) →
      PagingStep (Footprint dir W) s t →
      (∀ q, Footprint dir W' q → Footprint dir W q ∨ s.store q = none) → Q 0 t) :
    wp E (pagingSet M dir virt val) Q s := by
  unfold pagingSet
  by_cases halign : virt % 4096 = 0
  swap
  · rw [if_pos halign]
    exact hodd halign
  rw [if_neg (not_not.mpr halign)]
  dsimp only
  rw [(walk_index virt).1, (walk_index virt).2, wp_bind]
  have hi : virt / 4096 / 1024 < 1024 := by omega
  refine pagingTable_wp hE hA hR hi fun t W' hA' hR' hst hgrow hW' => ?_
  obtain ⟨-, -, -, -, U, hU, -⟩ := hR'.table _ hi hW'
  rw [wp_bind]
  refine readObj_wp hU rfl ?_
  rw [wp_bind]
  refine overwrite_wp hA' hU rfl ?_
  rw [wp_pure]
  refine hset halign _ W' (hA'.overwrite hU rfl) (hR'.setEntry hi hW' hU val) ?_ hgrow
  -- the table written to is one of the directory, or new
  have hput : PagingStep (Footprint dir W') t
      (t.put (tableBase (W' (virt / 4096 / 1024)))
        (.table (Function.update U (virt / 4096 % 1024) val))) := by
    refine ⟨(Frame.refl _ t).put (MayChange.of_store hU rfl), fun _ h => h, fun q o hq hF => ?_⟩
    have hne : q ≠ tableBase (W' (virt / 4096 / 1024)) := by
      rintro rfl
      exact hF (Or.inr ⟨_, hi, hW', rfl⟩)
    rw [Kernel.put_store_ne hne, hq]
  refine hst.trans hput fun q o hq hF => ?_
  rcases hgrow q hF with h | h
  · exact h
  · rw [hq] at h
    cases h

/-! ### `paging_new_4gb` -/

/-- The map with the first `n` tables of the identity map. -/
def identityUpTo (flags n page : ℕ) : ℕ :=
  if page < 1024 * n then page * 4096 ||| flags else 0

/-- The loop adds the tables of the identity map one by one. -/
theorem pagingIdentity_wp (hE : ∀ e, e.AllocFails → E e) {flags : ℕ} (hlt : flags < 256)
    (hodd : flags % 2 = 1) :
    ∀ (n i : ℕ) (s : Kernel H D) (W : ℕ → ℕ) (Q : Unit → Kernel H D → Prop), i + n = 16 →
      ArenaInv M s → DirRefines s dir W (identityUpTo flags i) →
      (∀ k, i ≤ k → W k = 0) →
      (∀ t W', ArenaInv M t → DirRefines t dir W' (identityUpTo flags 16) →
        PagingStep (· = dir) s t →
        (∀ q, Footprint dir W' q → Footprint dir W q ∨ s.store q = none) → Q () t) →
      wp E (pagingIdentity M flags dir i n) Q s := by
  intro n
  induction n with
  | zero =>
    intro i s W Q hin hA hR _ hQ
    obtain rfl : i = 16 := by omega
    exact hQ s W hA hR (PagingStep.refl _ s) fun q hq => Or.inl hq
  | succ n ih =>
    intro i s W Q hin hA hR hrest hQ
    rw [pagingIdentity, wp_bind]
    refine newObj_wp hE fun p h hp0 hU htop => ?_
    have hnone : s.store p = none := hA.usable_store hU
    have halign : p % 4096 = 0 := hU.2.1 rfl
    obtain ⟨hf, hfseven⟩ := flags_seven hlt hodd
    have hentry : p ||| flags ||| pagingIsWriteable ||| pagingAccessFromAll =
        p ||| (flags ||| pagingIsWriteable ||| pagingAccessFromAll) := by
      rw [Nat.lor_assoc, Nat.lor_assoc, Nat.lor_assoc]
    obtain ⟨hbase, hseven, hplt⟩ :=
      dirEntry_flags halign (by omega : flags ||| pagingIsWriteable ||| pagingAccessFromAll < 4096)
        hfseven
    set e := p ||| (flags ||| pagingIsWriteable ||| pagingAccessFromAll) with he
    have hpdir : dir ≠ p := by
      rintro rfl
      rw [hR.directory] at hnone
      cases hnone
    have he4 : e < 4294967296 := by
      change p + 4096 ≤ identityTop at htop
      unfold identityTop at htop
      omega
    rw [wp_bind]
    refine readObj_wp (o := .table W) ?_ rfl ?_
    · rw [Kernel.put_store_ne hpdir]
      exact hR.directory
    rw [wp_bind, hentry]
    refine overwrite_wp (newObj_state hA h hU htop fun _ => True).1 (w := .table W) ?_ rfl ?_
    · rw [Kernel.put_store_ne hpdir]
      exact hR.directory
    obtain ⟨hA', hst⟩ := addTable_state hA h hU htop hR.directory (identityTable flags i)
      (Function.update W i e)
    have hR' := hR.addTable (by omega) (hrest i le_rfl) hnone hp0 hbase he4 hseven h
      (identityTable flags i)
    -- the new table holds the entries of its 1024 pages
    have hmap : DirRefines (((s.withBlock h p 4096).put p (.table (identityTable flags i))).put dir
        (.table (Function.update W i e))) dir (Function.update W i e)
        (identityUpTo flags (i + 1)) := by
      refine hR'.congr_map fun page _ => ?_
      unfold identityUpTo identityTable
      by_cases hpi : page / 1024 = i
      · have hpage : u32 (i * 1024 * 4096 + page % 1024 * 4096) = page * 4096 := by
          rw [u32_of_lt (by omega)]
          omega
        rw [if_pos hpi, if_pos (by omega), if_pos (by omega), hpage]
      · rw [if_neg hpi]
        by_cases hlow : page < 1024 * i
        · rw [if_pos (by omega), if_pos hlow]
        · rw [if_neg (by omega), if_neg hlow]
    refine ih (i + 1) _ _ Q (by omega) hA' hmap (fun k hk => ?_) fun t W' hAt hRt hst' hgrow => ?_
    · rw [Function.update_of_ne (by omega)]
      exact hrest k (by omega)
    · refine hQ t W' hAt hRt (hst.trans hst' fun q o _ hq => hq) fun q hq => ?_
      rcases hgrow q hq with (rfl | ⟨k, hk, hWk, rfl⟩) | hfresh
      · exact Or.inl (Or.inl rfl)
      · by_cases hki : k = i
        · rw [hki, Function.update_self, hbase]
          exact Or.inr hnone
        · rw [Function.update_of_ne hki] at hWk ⊢
          exact Or.inl (Or.inr ⟨k, hk, hWk, rfl⟩)
      · refine Or.inr (hst.fresh hfresh ?_)
        rintro rfl
        exact absurd (hmap.directory.symm.trans hfresh) (by simp)

/-- **`paging_new_4gb`.** It makes a directory for the identity map with the given flags, out of
blocks that were not in use, and changes nothing else. -/
theorem pagingNew4gb_wp (hE : ∀ e, e.AllocFails → E e) (hA : ArenaInv M s) {flags : ℕ}
    (hlt : flags < 256) (hodd : flags % 2 = 1) {Q : ℕ → Kernel H D → Prop}
    (hQ : ∀ chunk t dir W, ArenaInv M t → t.store chunk = some (.chunk dir) →
      DirRefines t dir W (identityMap flags) → PagingStep (fun _ => False) s t →
      (∀ q, Footprint dir W q → s.store q = none) → s.store chunk = none → Q chunk t) :
    wp E (pagingNew4gb M flags) Q s := by
  unfold pagingNew4gb
  rw [wp_bind]
  refine newObj_wp hE fun dir h hp0 hU htop => ?_
  have hnone : s.store dir = none := hA.usable_store hU
  obtain ⟨hA₁, hF₁⟩ := newObj_state (o := .table fun _ => 0) hA h hU htop (· = Kind.paging)
  set s₁ := (s.withBlock h dir 4096).put dir (.table fun _ => 0) with hs₁
  have hstep₁ : PagingStep (fun _ => False) s s₁ := by
    refine ⟨hF₁, fun a ha => List.mem_cons_of_mem _ ha, fun q o hq _ => ?_⟩
    have hqd : q ≠ dir := by
      rintro rfl
      rw [hnone] at hq
      cases hq
    rw [hs₁, Kernel.put_store_ne hqd]
    exact hq
  have hR₁ : DirRefines s₁ dir (fun _ => 0) (identityUpTo flags 0) :=
    ⟨Kernel.put_store_self, fun i _ _ j _ => if_neg (by omega), fun i _ h0 => absurd rfl h0,
      fun i _ j _ h0 => absurd rfl h0⟩
  rw [wp_bind]
  refine pagingIdentity_wp hE hlt hodd 16 0 s₁ _ _ rfl hA₁ hR₁ (fun _ _ => rfl)
    fun t W hAt hRt hst hgrow => ?_
  have hfresh : ∀ q, Footprint dir W q → s.store q = none := by
    intro q hq
    rcases hgrow q hq with (rfl | ⟨i, _, h0, _⟩) | hq'
    · exact hnone
    · exact absurd rfl h0
    · exact hstep₁.fresh hq' False.elim
  have hst' : PagingStep (fun _ => False) s t := by
    refine hstep₁.trans hst fun q o hq hqd => ?_
    rw [show q = dir from hqd, hnone] at hq
    cases hq
  refine newObj_wp hE fun chunk h' hc0 hU' htop' => ?_
  have hchunk : t.store chunk = none := hAt.usable_store hU'
  obtain ⟨hA₂, hF₂⟩ := newObj_state (o := .chunk dir) hAt h' hU' htop' (· = Kind.paging)
  -- the chunk is a block of its own
  have hother : ∀ q o, t.store q = some o →
      ((t.withBlock h' chunk 4).put chunk (.chunk dir)).store q = some o := by
    intro q o hq
    have hqc : q ≠ chunk := by
      rintro rfl
      rw [hchunk] at hq
      cases hq
    rw [Kernel.put_store_ne hqc]
    exact hq
  refine hQ chunk _ dir W hA₂ Kernel.put_store_self ?_ ?_ hfresh ?_
  · have hmap : ∀ page < 1048576, identityMap flags page = identityUpTo flags 16 page :=
      fun _ _ => rfl
    refine (hRt.congr_map hmap).congr fun q hq => ?_
    obtain ⟨U, hUq⟩ := hRt.footprint hq
    rw [hUq]
    exact hother q _ hUq
  · exact hst'.trans ⟨hF₂, fun a ha => List.mem_cons_of_mem _ ha, fun q o hq _ => hother q o hq⟩
      fun _ _ _ h => h
  · exact hst'.fresh hchunk False.elim

/-! ### Runs over any number of directories -/

/-- The calls on page directories: a new one, or an entry of the `i`-th one made so far. -/
inductive PagingCall
  | new4gb (flags : UInt8)
  | set (i : ℕ) (virt val : UInt32)
  deriving DecidableEq, Repr

/-- One call, with the directories made so far. -/
def pagingCall (M : Machine H D) (dirs : List ℕ) : PagingCall → KM H D (ℤ × List ℕ)
  | .new4gb flags => do
    let chunk ← pagingNew4gb M flags.toNat
    let dir ← readObj Obj.asChunk chunk
    pure (0, dirs ++ [dir])
  | .set i virt val => do
    let res ← pagingSet M (dirs.getD i 0) virt.toNat val.toNat
    pure (res, dirs)

/-- What a call asks the allocator for. -/
def PagingCall.requests : PagingCall → List Request
  | .new4gb _ => newDirectoryRequests
  | .set .. => [tableRequest]

/-- The step of the kernel. -/
def pagingStep (M : Machine H D) (x : Kernel H D × List ℕ) (c : PagingCall) :
    Except Stop (ℤ × Kernel H D × List ℕ) :=
  match pagingCall M x.2 c x.1 with
  | .ok ((res, dirs), t) => .ok (res, t, dirs)
  | .error e => .error e

/-- The purpose of page directories: a map from virtual pages to entries for each, which a set
changes at one page. -/
def pageMapStep (maps : List (ℕ → ℕ)) : PagingCall → Except Empty (ℤ × List (ℕ → ℕ))
  | .new4gb flags => .ok (0, maps ++ [identityMap flags.toNat])
  | .set i virt val =>
    if virt.toNat % 4096 ≠ 0 then .ok (-1, maps)
    else
      .ok (0, maps.set i (Function.update (maps.getD i fun _ => 0) (virt.toNat / 4096) val.toNat))

/-- A new directory is present, and an entry is set in a directory that exists. -/
def PagingOk (x : Kernel H D × List ℕ) : PagingCall → Prop
  | .new4gb flags => flags.toNat % 2 = 1
  | .set i _ _ => i < x.2.length

instance (x : Kernel H D × List ℕ) (c : PagingCall) : Decidable (PagingOk x c) :=
  match c with
  | .new4gb _ => inferInstanceAs (Decidable (_ = _))
  | .set _ _ _ => inferInstanceAs (Decidable (_ < _))

/-- A directory with its words and the map it stands for. -/
abbrev Directory := ℕ × (ℕ → ℕ) × (ℕ → ℕ)

/-- The invariant: each directory stands for its map, and no two share a block. -/
structure PagingInv (M : Machine H D) (s : Kernel H D) (ds : List Directory) : Prop where
  arena : ArenaInv M s
  refines : ∀ x ∈ ds, DirRefines s x.1 x.2.1 x.2.2
  disjoint : ds.Pairwise fun x y => ∀ q, Footprint x.1 x.2.1 q → ¬ Footprint y.1 y.2.1 q

/-- A new directory shares no block with those that exist. -/
theorem PagingInv.new4gb (hI : PagingInv M s ds) {t : Kernel H D} (hA : ArenaInv M t)
    (hR : DirRefines t dir W m) (hst : PagingStep (fun _ => False) s t)
    (hfresh : ∀ q, Footprint dir W q → s.store q = none) :
    PagingInv M t (ds ++ [(dir, W, m)]) where
  arena := hA
  refines := by
    intro x hx
    rcases List.mem_append.mp hx with hx | hx
    · exact (hI.refines x hx).other hst fun q _ h => h
    · rw [List.mem_singleton.mp hx]
      exact hR
  disjoint := by
    refine List.pairwise_append.mpr ⟨hI.disjoint, List.pairwise_singleton _ _, ?_⟩
    intro x hx y hy q hq hq'
    rw [List.mem_singleton.mp hy] at hq'
    obtain ⟨U, hU⟩ := (hI.refines x hx).footprint hq
    rw [hfresh q hq'] at hU
    cases hU

/-- Setting an entry of one directory leaves the maps of the others alone. -/
theorem PagingInv.set {l₁ l₂ : List Directory}
    (hI : PagingInv M s (l₁ ++ (dir, W, m) :: l₂)) {t : Kernel H D} (hA : ArenaInv M t)
    {W' m' : ℕ → ℕ} (hR : DirRefines t dir W' m') (hst : PagingStep (Footprint dir W) s t)
    (hgrow : ∀ q, Footprint dir W' q → Footprint dir W q ∨ s.store q = none) :
    PagingInv M t (l₁ ++ (dir, W', m') :: l₂) := by
  obtain ⟨hl₁, hcons, hcross⟩ := List.pairwise_append.mp hI.disjoint
  obtain ⟨hdir, hl₂⟩ := List.pairwise_cons.mp hcons
  have hold : ∀ x ∈ l₁ ++ l₂, ∀ q, Footprint x.1 x.2.1 q → ¬ Footprint dir W q := by
    intro x hx q hq hq'
    rcases List.mem_append.mp hx with hx | hx
    · exact hcross x hx _ List.mem_cons_self q hq hq'
    · exact hdir x hx q hq' hq
  have hmem : ∀ x ∈ l₁ ++ l₂, x ∈ l₁ ++ (dir, W, m) :: l₂ := by
    intro x hx
    rcases List.mem_append.mp hx with hx | hx
    · exact List.mem_append_left _ hx
    · exact List.mem_append_right _ (List.mem_cons_of_mem _ hx)
  -- a block of the changed directory is an old one of its own, or new
  have hnew : ∀ x ∈ l₁ ++ l₂, ∀ q, Footprint x.1 x.2.1 q → ¬ Footprint dir W' q := by
    intro x hx q hq hq'
    rcases hgrow q hq' with h | h
    · exact hold x hx q hq h
    · obtain ⟨U, hU⟩ := (hI.refines x (hmem x hx)).footprint hq
      rw [h] at hU
      cases hU
  refine ⟨hA, fun x hx => ?_, List.pairwise_append.mpr ⟨hl₁, List.pairwise_cons.mpr ⟨?_, hl₂⟩, ?_⟩⟩
  · rcases List.mem_append.mp hx with hx | hx
    · exact (hI.refines x (hmem x (List.mem_append_left _ hx))).other hst
        (hold x (List.mem_append_left _ hx))
    · rcases List.mem_cons.mp hx with rfl | hx
      · exact hR
      · exact (hI.refines x (hmem x (List.mem_append_right _ hx))).other hst
          (hold x (List.mem_append_right _ hx))
  · exact fun y hy q hq hq' => hnew y (List.mem_append_right _ hy) q hq' hq
  · intro x hx y hy q hq hq'
    rcases List.mem_cons.mp hy with rfl | hy
    · exact hnew x (List.mem_append_left _ hx) q hq hq'
    · exact hcross x hx y (List.mem_cons_of_mem _ hy) q hq hq'

/-- The directories and maps of a list of directories. -/
def PagingRel (M : Machine H D) (x : Kernel H D × List ℕ) (maps : List (ℕ → ℕ)) : Prop :=
  ∃ ds : List Directory, PagingInv M x.1 ds ∧ x.2 = ds.map (·.1) ∧ maps = ds.map (·.2.2)

/-- **The step lemma.** A call is matched on the maps, or an allocation failed. -/
theorem pagingStep_refines {x : Kernel H D × List ℕ} {maps : List (ℕ → ℕ)} {c : PagingCall}
    (hx : PagingRel M x maps) (hc : PagingOk x c) :
    (∃ e, pagingStep M x c = .error e ∧ e.AllocFails) ∨
      ∃ res y maps', pagingStep M x c = .ok (res, y) ∧ pageMapStep maps c = .ok (res, maps') ∧
        PagingRel M y maps' := by
  obtain ⟨s, dirs⟩ := x
  obtain ⟨ds, hI, rfl, rfl⟩ := hx
  have hwp : wp Stop.AllocFails (pagingCall M (ds.map (·.1)) c) (fun r t => ∃ maps',
      pageMapStep (ds.map (·.2.2)) c = .ok (r.1, maps') ∧ PagingRel M (t, r.2) maps') s := by
    cases c with
    | new4gb flags =>
      unfold pagingCall
      rw [wp_bind]
      refine pagingNew4gb_wp (fun _ h => h) hI.arena flags.toNat_lt hc
        fun chunk t dir W hA hchunk hR hst hfresh _ => ?_
      rw [wp_bind]
      refine readObj_wp hchunk rfl ?_
      refine ⟨_, rfl, ds ++ [(dir, W, identityMap flags.toNat)], hI.new4gb hA hR hst hfresh, ?_, ?_⟩
      · rw [List.map_append]
        rfl
      · rw [List.map_append]
        rfl
    | set i virt val =>
      unfold pagingCall
      have hi : i < ds.length := by
        change i < (ds.map (·.1)).length at hc
        rwa [List.length_map] at hc
      -- the directory called on stands between those made before and those made after it
      obtain ⟨l₁, ⟨dir, W, m⟩, l₂, rfl, rfl⟩ :
          ∃ l₁ x l₂, ds = l₁ ++ x :: l₂ ∧ l₁.length = i :=
        ⟨ds.take i, ds[i], ds.drop (i + 1), by simp, by simp [hi.le]⟩
      have hget : ((l₁ ++ (dir, W, m) :: l₂).map fun x => x.1).getD l₁.length 0 = dir := by simp
      have hgetMap : ((l₁ ++ (dir, W, m) :: l₂).map fun x => x.2.2).getD l₁.length
          (fun _ => 0) = m := by simp
      have hset : ∀ m', ((l₁ ++ (dir, W, m) :: l₂).map fun x => x.2.2).set l₁.length m' =
          l₁.map (fun x => x.2.2) ++ m' :: l₂.map fun x => x.2.2 := by simp
      have hR := hI.refines (dir, W, m) (by simp)
      rw [wp_bind, hget]
      refine pagingSet_wp (fun _ h => h) hI.arena hR virt.toNat_lt
        (fun hodd => ⟨_, if_pos hodd, _, hI, rfl, rfl⟩) fun halign t W' hA hR' hst hgrow => ?_
      · have hspec : pageMapStep ((l₁ ++ (dir, W, m) :: l₂).map fun x => x.2.2)
            (.set l₁.length virt val) =
            .ok (0, l₁.map (fun x => x.2.2) ++
              Function.update m (virt.toNat / 4096) val.toNat :: l₂.map fun x => x.2.2) := by
          unfold pageMapStep
          dsimp only
          rw [if_neg (not_not.mpr halign), hgetMap, hset]
        refine ⟨_, hspec, _, hI.set hA hR' hst hgrow, ?_, ?_⟩
        · rw [List.map_append, List.map_append]
          rfl
        · rw [List.map_append]
          rfl
  unfold pagingStep
  cases hr : pagingCall M (ds.map (·.1)) c s with
  | error e => exact Or.inl ⟨e, rfl, hwp.error hr⟩
  | ok r =>
    obtain ⟨⟨res, dirs'⟩, t⟩ := r
    obtain ⟨maps', hmap, hrel⟩ := hwp.ok hr
    exact Or.inr ⟨res, (t, dirs'), maps', rfl, hmap, hrel⟩

/-- The walk of every address in every directory gives the entry of its map, and a page grants
exactly the rights of that entry. -/
def DirsMatch (t : Kernel H D) (dirs : List ℕ) (maps : List (ℕ → ℕ)) : Prop :=
  dirs.length = maps.length ∧
    ∀ (i dir : ℕ) (m : ℕ → ℕ), dirs[i]? = some dir → maps[i]? = some m → ∀ virt < 4294967296,
      t.walk dir virt = m (virt / 4096) ∧
      ∀ bit < 3, t.grants dir virt bit = (m (virt / 4096)).testBit bit

/-- Directories in the relation match their maps. -/
theorem PagingRel.dirsMatch {t : Kernel H D} {dirs : List ℕ} {maps : List (ℕ → ℕ)}
    (h : PagingRel M (t, dirs) maps) : DirsMatch t dirs maps := by
  obtain ⟨ds, hI, hdirs, hmaps⟩ := h
  constructor
  · rw [show dirs = ds.map (·.1) from hdirs, hmaps, List.length_map, List.length_map]
  · intro i dir m hi hm virt hvirt
    rw [show dirs = ds.map (·.1) from hdirs, List.getElem?_map] at hi
    rw [hmaps, List.getElem?_map] at hm
    obtain ⟨x, hx, rfl⟩ := Option.map_eq_some_iff.mp hi
    rw [hx] at hm
    obtain rfl : x.2.2 = m := by simpa using hm
    have hR := hI.refines x (List.mem_of_getElem? hx)
    exact ⟨hR.walk_eq hvirt, fun bit hbit => hR.grants_eq hvirt hbit⟩

/-- The cost of a call. -/
theorem pagingCall_spends (dirs : List ℕ) (c : PagingCall) :
    Spends M.room Unforced (pagingCall M dirs c) c.requests := by
  cases c with
  | new4gb flags =>
    refine (pagingNew4gb_spends unforced_clobbered _).bind_last fun chunk => ?_
    exact (readObj_spends unforced_clobbered _).bind_free fun _ => Spends.pure _ _
  | set i virt val =>
    exact (pagingSet_spends unforced_clobbered).bind_last fun _ => Spends.pure _ _

/-- With room for what it asks for, a call is matched on the maps. -/
theorem pagingStep_returns {x : Kernel H D × List ℕ} {maps : List (ℕ → ℕ)} {c : PagingCall}
    {rs : List Request} (hx : PagingRel M x maps) (hc : PagingOk x c)
    (hroom : RoomFor M (c.requests ++ rs) x.1) :
    ∃ res y maps', pagingStep M x c = .ok (res, y) ∧ pageMapStep maps c = .ok (res, maps') ∧
      PagingRel M y maps' ∧ RoomFor M rs y.1 := by
  have hspends := pagingCall_spends x.2 c rs x.1 hroom
  unfold wp at hspends
  rcases pagingStep_refines hx hc with ⟨e, he, hfails⟩ | ⟨res, y, maps', hstep, hmap, hy⟩
  · unfold pagingStep at he
    cases hrun : pagingCall M x.2 c x.1 with
    | error e' =>
      rw [hrun] at he hspends
      cases he
      exact absurd hfails hspends
    | ok r =>
      rw [hrun] at he
      cases he
  · refine ⟨res, y, maps', hstep, hmap, hy, ?_⟩
    unfold pagingStep at hstep
    cases hrun : pagingCall M x.2 c x.1 with
    | error e =>
      rw [hrun] at hstep
      cases hstep
    | ok r =>
      rw [hrun] at hstep hspends
      cases hstep
      exact hspends

/-- **Page directories refine maps.** From any state in which the live blocks are apart, every
sequence of `paging_new_4gb` with the present flag and `paging_set` on the directories made answers
like the maps, unless an allocation fails, and ends with directories that match the maps. No
allocation fails if the allocator has room for the directories and a table for each set. -/
theorem paging_refines_maps (hA : ArenaInv M s) {calls : List PagingCall}
    (hc : Meets (pagingStep M) PagingOk (s, []) calls) :
    ((∃ e, runList (pagingStep M) (s, []) calls = .error e ∧ e.AllocFails) ∨
      ∃ outs t dirs maps, runList (pagingStep M) (s, []) calls = .ok (outs, t, dirs) ∧
        runList pageMapStep [] calls = .ok (outs, maps) ∧ DirsMatch t dirs maps) ∧
      (RoomFor M (calls.flatMap PagingCall.requests) s →
        ∃ outs t dirs maps, runList (pagingStep M) (s, []) calls = .ok (outs, t, dirs) ∧
          runList pageMapStep [] calls = .ok (outs, maps) ∧ DirsMatch t dirs maps) := by
  have hinit : PagingRel M (s, []) [] :=
    ⟨[], ⟨hA, by simp, List.Pairwise.nil⟩, rfl, rfl⟩
  constructor
  · rcases runList_refines (fun _ _ _ => pagingStep_refines) hinit hc with
      herr | ⟨outs, ⟨t, dirs⟩, maps, hrun, hmap, hrel⟩
    · exact Or.inl herr
    · exact Or.inr ⟨outs, t, dirs, maps, hrun, hmap, hrel.dirsMatch⟩
  · intro hroom
    have hstep : ∀ (x : Kernel H D × List ℕ) (maps : List (ℕ → ℕ)) (c : PagingCall)
        (rs : List Request), PagingRel M x maps → PagingOk x c →
        (M.room.comap Prod.fst).Has (c.requests ++ rs) x →
        ∃ res y maps', pagingStep M x c = .ok (res, y) ∧ pageMapStep maps c = .ok (res, maps') ∧
          PagingRel M y maps' ∧ (M.room.comap Prod.fst).Has rs y :=
      fun _ _ _ _ hR hok hhas => pagingStep_returns hR hok hhas
    obtain ⟨outs, ⟨t, dirs⟩, maps, hrun, hmap, hrel⟩ := runList_within hstep hinit hc hroom
    exact ⟨outs, t, dirs, maps, hrun, hmap, hrel.dirsMatch⟩

/-- Two directories, a page in a table of the identity map, a page in a new table and an unaligned
address, in a heap that has room for all of them. -/
theorem paging_refines_maps_two :
    let M : Machine KHeap Unit := ⟨kheap, imageAta fun _ => 0, 0x10000, 0⟩
    let calls : List PagingCall := [.new4gb 0b11, .set 0 0xB8000 0xB8007, .set 0 0x4000000 0x200007,
      .new4gb 0b111, .set 1 0x1001 0x7, .set 1 0xFFFFF000 0x300005]
    ∃ outs t dirs maps, runList (pagingStep M) (Kernel.boot (KHeap.init 0x10000) (), []) calls =
        .ok (outs, t, dirs) ∧
      runList pageMapStep [] calls = .ok (outs, maps) ∧ outs = [0, 0, 0, 0, -1, 0] ∧
      DirsMatch t dirs maps := by
  intro M calls
  have hroom : RoomFor M (calls.flatMap PagingCall.requests)
      (Kernel.boot (KHeap.init 0x10000) ()) :=
    RoomFor.boot kheapView rfl (by decide +kernel) (by decide +kernel) ()
  obtain ⟨outs, t, dirs, maps, hrun, hmap, hmatch⟩ := (paging_refines_maps (ArenaInv.boot _ _)
    (meets_of_checkRun (fun x c => decide (PagingOk x c)) (fun _ _ => of_decide_eq_true)
      (by decide +kernel))).2 hroom
  have houts : (runList pageMapStep [] calls).toOption.map Prod.fst = some [0, 0, 0, 0, -1, 0] := by
    decide +kernel
  rw [hmap] at houts
  exact ⟨outs, t, dirs, maps, hrun, hmap, Option.some.inj houts, hmatch⟩

end VibeKernel
