import VibeKernel.Kernel.Arena

/-!
# Page directories

`src/memory/paging/paging.c`. A directory and a table are blocks of 1024 words. `paging_new_4gb`
makes a directory whose first 16 tables map the first 64 MiB to themselves; `paging_set` writes the
entry of one page and makes the table when it is missing.

The processor's two-level walk is `Kernel.walk`, and what it permits is `Kernel.grants`: a right
holds of a page if both the directory entry and the table entry grant it.
-/

namespace VibeKernel

open Verif

variable {H D : Type}

/-- `PAGING_IS_PRESENT`. -/
def pagingIsPresent : ℕ := 0b00000001

/-- `PAGING_IS_WRITEABLE`. -/
def pagingIsWriteable : ℕ := 0b00000010

/-- `PAGING_ACCESS_FROM_ALL`. -/
def pagingAccessFromAll : ℕ := 0b00000100

/-- The table number `i` of the identity map. -/
def identityTable (flags i : ℕ) : ℕ → ℕ := fun b =>
  if b < 1024 then u32 (i * 1024 * 4096 + b * 4096) ||| flags else 0

/-- The loop of `paging_new_4gb` over `n` tables from number `i` on. -/
def pagingIdentity (M : Machine H D) (flags directory : ℕ) : ℕ → ℕ → KM H D Unit
  | _, 0 => pure ()
  | i, n + 1 => do
    let table ← newObj M true (.table (identityTable flags i))
    let words ← readObj Obj.asTable directory
    writeObj directory (.table (Function.update words i
      (table ||| flags ||| pagingIsWriteable ||| pagingAccessFromAll)))
    pagingIdentity M flags directory (i + 1) n

/-- `paging_new_4gb`: the address of the chunk. -/
def pagingNew4gb (M : Machine H D) (flags : ℕ) : KM H D ℕ := do
  let directory ← newObj M true (.table fun _ => 0)
  pagingIdentity M flags directory 0 16
  newObj M false (.chunk directory)

/-- The part of `paging_set` that finds the table or allocates a new one. -/
def pagingTable (M : Machine H D) (directory directoryIndex : ℕ) : KM H D ℕ := do
  let words ← readObj Obj.asTable directory
  let table := words directoryIndex &&& 0xFFFFF000
  if table = 0 then do
    let table ← newObj M true (.table fun _ => 0)
    writeObj directory (.table (Function.update words directoryIndex
      (table ||| pagingIsPresent ||| pagingIsWriteable ||| pagingAccessFromAll)))
    pure table
  else pure table

/-- `paging_set`. -/
def pagingSet (M : Machine H D) (directory virt val : ℕ) : KM H D ℤ :=
  if virt % 4096 ≠ 0 then pure (-1)
  else do
    let directoryIndex := virt >>> 22
    let tableIndex := (virt >>> 12) &&& 0x3FF
    let table ← pagingTable M directory directoryIndex
    let entries ← readObj Obj.asTable table
    writeObj table (.table (Function.update entries tableIndex val))
    pure 0

/-- The directory entry of an address. -/
def Kernel.directoryEntry (s : Kernel H D) (directory virt : ℕ) : ℕ :=
  match (s.store directory).bind Obj.asTable with
  | none => 0
  | some words => words (virt >>> 22)

/-- The table entry the two-level walk of an address reaches; `0` where there is no table. -/
def Kernel.walk (s : Kernel H D) (directory virt : ℕ) : ℕ :=
  let table := s.directoryEntry directory virt &&& 0xFFFFF000
  if table = 0 then 0
  else
    match (s.store table).bind Obj.asTable with
    | none => 0
    | some entries => entries ((virt >>> 12) &&& 0x3FF)

/-- The right with this bit (present, write, user) is granted on both levels. -/
def Kernel.grants (s : Kernel H D) (directory virt bit : ℕ) : Bool :=
  (s.directoryEntry directory virt).testBit bit && (s.walk directory virt).testBit bit

/-! ### Refinement of a map from pages to entries -/

/-- The address of the table in a directory entry. -/
def tableBase (entry : ℕ) : ℕ := entry - entry % 4096

/-- The directory at `dir`, with the words `W`, stands for the map `m` from virtual pages to
entries: an empty word stands for 1024 empty entries, any other points at a table of its own and
grants every right. -/
structure DirRefines (s : Kernel H D) (dir : ℕ) (W m : ℕ → ℕ) : Prop where
  directory : s.store dir = some (.table W)
  empty : ∀ i < 1024, W i = 0 → ∀ j < 1024, m (1024 * i + j) = 0
  table : ∀ i < 1024, W i ≠ 0 → W i < 4294967296 ∧ W i % 8 = 7 ∧ tableBase (W i) ≠ 0 ∧
    tableBase (W i) ≠ dir ∧
    ∃ U, s.store (tableBase (W i)) = some (.table U) ∧ ∀ j < 1024, m (1024 * i + j) = U j
  inj : ∀ i < 1024, ∀ j < 1024, W i ≠ 0 → W j ≠ 0 → tableBase (W i) = tableBase (W j) → i = j

/-- The blocks of a directory: itself and its tables. -/
def Footprint (dir : ℕ) (W : ℕ → ℕ) (q : ℕ) : Prop :=
  q = dir ∨ ∃ i < 1024, W i ≠ 0 ∧ q = tableBase (W i)

/-- The map of a new directory. -/
def identityMap (flags page : ℕ) : ℕ := if page < 16384 then page * 4096 ||| flags else 0

/-- What a paging operation leaves alone: structures of other parts, every structure outside `F`,
and all live blocks. -/
structure PagingStep (F : ℕ → Prop) (s t : Kernel H D) : Prop where
  frame : Frame (· = .paging) s t
  live : ∀ a ∈ s.live, a ∈ t.live
  others : ∀ q o, s.store q = some o → ¬ F q → t.store q = some o

theorem PagingStep.refl (F : ℕ → Prop) (s : Kernel H D) : PagingStep F s s :=
  ⟨Frame.refl _ s, fun _ h => h, fun _ _ h _ => h⟩

/-- Steps that stay in `F`, or touch only what the first state did not use. -/
theorem PagingStep.trans {F G : ℕ → Prop} {s t u : Kernel H D} (h₁ : PagingStep F s t)
    (h₂ : PagingStep G t u) (hG : ∀ q o, s.store q = some o → G q → F q) : PagingStep F s u where
  frame := h₁.frame.trans h₂.frame
  live a ha := h₂.live a (h₁.live a ha)
  others q o hq hF := h₂.others q o (h₁.others q o hq hF) fun hg => hF (hG q o hq hg)

/-- What is not in use after a step was not in use before it. -/
theorem PagingStep.fresh {F : ℕ → Prop} {s t : Kernel H D} (h : PagingStep F s t) {q : ℕ}
    (hq : t.store q = none) (hF : F q → s.store q = none) : s.store q = none := by
  by_contra hne
  obtain ⟨o, ho⟩ := Option.ne_none_iff_exists'.mp hne
  have hkept := h.others q o ho fun hf => hne (hF hf)
  rw [hq] at hkept
  cases hkept

section Walk

variable {s t : Kernel H D} {dir virt : ℕ} {W m : ℕ → ℕ}

/-- The index arithmetic of the walk. -/
theorem walk_index (virt : ℕ) :
    virt >>> 22 = virt / 4096 / 1024 ∧ (virt >>> 12) &&& 0x3FF = virt / 4096 % 1024 := by
  constructor
  · rw [Nat.shiftRight_eq_div_pow, Nat.div_div_eq_div_mul]
  · rw [Nat.shiftRight_eq_div_pow]
    exact Nat.and_two_pow_sub_one_eq_mod _ 10

theorem DirRefines.directoryEntry_eq (hR : DirRefines s dir W m) (virt : ℕ) :
    s.directoryEntry dir virt = W (virt / 4096 / 1024) := by
  unfold Kernel.directoryEntry
  rw [hR.directory, (walk_index virt).1]
  rfl

/-- The walk of an address reaches the entry of its page. -/
theorem DirRefines.walk_eq (hR : DirRefines s dir W m) (hvirt : virt < 4294967296) :
    s.walk dir virt = m (virt / 4096) := by
  have hi : virt / 4096 / 1024 < 1024 := by omega
  have hj : virt / 4096 % 1024 < 1024 := Nat.mod_lt _ (by norm_num)
  have hpage : 1024 * (virt / 4096 / 1024) + virt / 4096 % 1024 = virt / 4096 :=
    Nat.div_add_mod _ _
  unfold Kernel.walk
  rw [hR.directoryEntry_eq]
  by_cases hW : W (virt / 4096 / 1024) = 0
  · rw [hW, ← hpage, hR.empty _ hi hW _ hj]
    rfl
  · obtain ⟨hlt, -, hbase, -, U, hU, hmU⟩ := hR.table _ hi hW
    rw [and_pageBase hlt]
    unfold tableBase at hbase hU
    dsimp only
    rw [if_neg hbase, hU, (walk_index virt).2, ← hpage, hmU _ hj, hpage]
    rfl

/-- The directory level never restricts access: a page grants what its table entry grants. -/
theorem DirRefines.grants_eq (hR : DirRefines s dir W m) (hvirt : virt < 4294967296) {bit : ℕ}
    (hbit : bit < 3) : s.grants dir virt bit = (m (virt / 4096)).testBit bit := by
  have hi : virt / 4096 / 1024 < 1024 := by omega
  unfold Kernel.grants
  rw [hR.walk_eq hvirt, hR.directoryEntry_eq]
  by_cases hW : W (virt / 4096 / 1024) = 0
  · have hm := hR.empty _ hi hW _ (Nat.mod_lt (virt / 4096) (by norm_num : 0 < 1024))
    rw [Nat.div_add_mod] at hm
    rw [hm, Nat.zero_testBit, Bool.and_false]
  · -- the low three bits of a used word are set
    have hseven := (hR.table _ hi hW).2.1
    have hset : (W (virt / 4096 / 1024)).testBit bit = true := by
      have hmod : (W (virt / 4096 / 1024) % 2 ^ 3).testBit bit = true := by
        rw [show (2 : ℕ) ^ 3 = 8 by norm_num, hseven]
        interval_cases bit <;> rfl
      rw [Nat.testBit_mod_two_pow] at hmod
      exact (Bool.and_eq_true_iff.mp hmod).2
    rw [hset, Bool.true_and]

/-- A directory whose blocks are unchanged stands for the same map. -/
theorem DirRefines.congr (hR : DirRefines s dir W m)
    (h : ∀ q, Footprint dir W q → t.store q = s.store q) : DirRefines t dir W m where
  directory := by rw [h dir (Or.inl rfl), hR.directory]
  empty := hR.empty
  table i hi hW := by
    obtain ⟨hlt, hrights, hbase, hdir, U, hU, hmU⟩ := hR.table i hi hW
    exact ⟨hlt, hrights, hbase, hdir, U, by rw [h _ (Or.inr ⟨i, hi, hW, rfl⟩), hU], hmU⟩
  inj := hR.inj

/-- The blocks of a directory hold tables. -/
theorem DirRefines.footprint (hR : DirRefines s dir W m) {q : ℕ} (hq : Footprint dir W q) :
    ∃ U, s.store q = some (.table U) := by
  rcases hq with rfl | ⟨i, hi, hW, rfl⟩
  · exact ⟨W, hR.directory⟩
  · obtain ⟨-, -, -, -, U, hU, -⟩ := hR.table i hi hW
    exact ⟨U, hU⟩

/-- A paging operation on other blocks leaves a directory alone. -/
theorem DirRefines.other (hR : DirRefines s dir W m) {F : ℕ → Prop} (hst : PagingStep F s t)
    (hF : ∀ q, Footprint dir W q → ¬ F q) : DirRefines t dir W m := by
  refine hR.congr fun q hq => ?_
  obtain ⟨U, hU⟩ := hR.footprint hq
  rw [hU, hst.others q _ hU (hF q hq)]

/-- Writing one entry of an existing table. -/
theorem DirRefines.setEntry (hR : DirRefines s dir W m) {page : ℕ} (hpage : page / 1024 < 1024)
    (hW : W (page / 1024) ≠ 0) {U : ℕ → ℕ}
    (hU : s.store (tableBase (W (page / 1024))) = some (.table U)) (val : ℕ) :
    DirRefines (s.put (tableBase (W (page / 1024))) (.table (Function.update U (page % 1024) val)))
      dir W (Function.update m page val) where
  directory := by
    rw [Kernel.put_store_ne (hR.table _ hpage hW).2.2.2.1.symm, hR.directory]
  empty := by
    intro i hi hWi j hj
    have hne : 1024 * i + j ≠ page := by
      rintro rfl
      rw [show (1024 * i + j) / 1024 = i by omega] at hW
      exact hW hWi
    rw [Function.update_of_ne hne, hR.empty i hi hWi j hj]
  table := by
    intro i hi hWi
    obtain ⟨hlt, hrights, hbase, hdir, V, hV, hmV⟩ := hR.table i hi hWi
    by_cases hip : i = page / 1024
    · -- this is the table written to
      subst hip
      have hVU : V = U := by
        rw [hU] at hV
        cases hV
        rfl
      subst hVU
      refine ⟨hlt, hrights, hbase, hdir, _, Kernel.put_store_self, fun j hj => ?_⟩
      by_cases hjp : j = page % 1024
      · rw [hjp, Nat.div_add_mod, Function.update_self, Function.update_self]
      · rw [Function.update_of_ne hjp, Function.update_of_ne (by omega), hmV j hj]
    · have hne : tableBase (W i) ≠ tableBase (W (page / 1024)) :=
        fun h => hip (hR.inj i hi _ hpage hWi hW h)
      refine ⟨hlt, hrights, hbase, hdir, V, by rw [Kernel.put_store_ne hne, hV], fun j hj => ?_⟩
      rw [Function.update_of_ne (by omega), hmV j hj]
  inj := hR.inj

/-- Adding a table at an address that was not in use. -/
theorem DirRefines.addTable (hR : DirRefines s dir W m) {i p e : ℕ} (hi : i < 1024) (hW : W i = 0)
    (hp : s.store p = none) (hp0 : p ≠ 0) (hbase : tableBase e = p) (he : e < 4294967296)
    (hrights : e % 8 = 7) (h : H) (U : ℕ → ℕ) :
    DirRefines (((s.withBlock h p 4096).put p (.table U)).put dir (.table (Function.update W i e)))
      dir (Function.update W i e) (fun page => if page / 1024 = i then U (page % 1024) else m page)
    where
  directory := Kernel.put_store_self
  empty := by
    intro k hk hWk j hj
    have hki : k ≠ i := by
      rintro rfl
      rw [Function.update_self] at hWk
      omega
    rw [Function.update_of_ne hki] at hWk
    rw [if_neg (by omega), hR.empty k hk hWk j hj]
  table := by
    have hpdir : p ≠ dir := by
      rintro rfl
      rw [hR.directory] at hp
      cases hp
    intro k hk hWk
    by_cases hki : k = i
    · subst hki
      rw [Function.update_self, hbase]
      refine ⟨he, hrights, hp0, hpdir, U, ?_, fun j hj => ?_⟩
      · rw [Kernel.put_store_ne hpdir, Kernel.put_store_self]
      · rw [if_pos (by omega), show (1024 * k + j) % 1024 = j by omega]
    · rw [Function.update_of_ne hki] at hWk ⊢
      obtain ⟨hlt, hr, hb, hdir, V, hV, hmV⟩ := hR.table k hk hWk
      have hne : tableBase (W k) ≠ p := by
        intro hbp
        rw [hbp, hp] at hV
        cases hV
      refine ⟨hlt, hr, hb, hdir, V, ?_, fun j hj => ?_⟩
      · rw [Kernel.put_store_ne hdir, Kernel.put_store_ne hne]
        exact hV
      · rw [if_neg (by omega), hmV j hj]
  inj := by
    -- the new table is none of the old ones
    have hnew : ∀ k < 1024, W k ≠ 0 → tableBase (W k) ≠ p := by
      intro k hk hWk hbp
      obtain ⟨-, -, -, -, V, hV, -⟩ := hR.table k hk hWk
      rw [hbp, hp] at hV
      cases hV
    intro j hj k hk hWj hWk hjk
    by_cases hji : j = i
    · by_cases hki : k = i
      · rw [hji, hki]
      · rw [hji, Function.update_self, hbase, Function.update_of_ne hki] at hjk
        rw [Function.update_of_ne hki] at hWk
        exact absurd hjk.symm (hnew k hk hWk)
    · by_cases hki : k = i
      · rw [hki, Function.update_self, hbase, Function.update_of_ne hji] at hjk
        rw [Function.update_of_ne hji] at hWj
        exact absurd hjk (hnew j hj hWj)
      · rw [Function.update_of_ne hji] at hWj hjk
        rw [Function.update_of_ne hki] at hWk hjk
        exact hR.inj j hj k hk hWj hWk hjk

end Walk

end VibeKernel
