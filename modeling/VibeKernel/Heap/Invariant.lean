import VibeKernel.Heap.Kheap
import VibeKernel.Lib.Chain
import VibeKernel.Lib.Span

/-!
# The heap invariant

`HeapInv e h l` ties the allocator state `h` to the list `l` of blocks reachable from
`global_base`: the carved blocks lie between `e` and the placement address without overlap, in
the order they were carved, each header carries one of the two magic numbers, and `l` is the chain
through the `next` fields, a sub-list of the carved blocks in carving order.

`l` may be shorter than the list of carved blocks: `request_space` overwrites the successor of the
block `find_free_block` left in `last`, and for a page-aligned request this need not be the end of
the list. What one call can do is said once, in `kmallocInt_cases`: it reuses a block of `l`, or it
carves a block at `carvePoint` and cuts the list behind `last`. `HeapInv` survives the first always
(`HeapInv.reuse`) and the second when the rounding did not move the placement address down
(`HeapInv.carve`).
-/

namespace VibeKernel

open Verif

variable {e size : ℕ} {align : Bool} {h h' : KHeap} {l : List ℕ}

namespace KHeap

/-! ### What the single writes do -/

section Writes

variable (h : KHeap) (b c : ℕ) (m : BlockMeta)

@[simp] theorem setBlock_placement : (h.setBlock b m).placementAddress = h.placementAddress := rfl
@[simp] theorem setBlock_base : (h.setBlock b m).globalBase = h.globalBase := rfl
@[simp] theorem setBlock_carved : (h.setBlock b m).carved = h.carved := rfl

@[simp] theorem setBlock_self : (h.setBlock b m).block b = m := Function.update_self _ _ _

theorem setBlock_ne {b c : ℕ} (hne : c ≠ b) : (h.setBlock b m).block c = h.block c :=
  Function.update_of_ne hne _ _

end Writes

/-- The span of a block: header and payload. -/
def span (h : KHeap) (b : ℕ) : Span := ⟨b, 16 + (h.block b).size⟩

/-- Where a request that carves puts its block, in exact arithmetic. -/
def carvePoint (h : KHeap) (align : Bool) : ℕ :=
  if align = true ∧ (h.placementAddress + 16) % 4096 ≠ 0 then
    h.placementAddress - h.placementAddress % 4096 + 4080
  else h.placementAddress

/-- The block a request reuses (`0` if it carves) and the block a carved one is hung behind. -/
def selectBlock (h : KHeap) (size : ℕ) (align : Bool) : Option (ℕ × ℕ) :=
  if h.globalBase = 0 then some (0, 0)
  else
    (h.findFreeBlock size chainFuel h.globalBase h.globalBase).map fun (found, last) =>
      (if align ∧ u32 (found + 16) &&& 0xFFF ≠ 0 then 0 else found, last)

/-- The request is served by carving a new block. -/
def Carves (h : KHeap) (size : ℕ) (align : Bool) : Prop :=
  ∃ last, h.selectBlock size align = some (0, last)

/-- The heap after reusing the block `b`. -/
def reuse (h : KHeap) (b : ℕ) : KHeap :=
  h.setBlock b { h.block b with free := false, magic := magicReused }

/-- The heap after carving a block at `q` behind `last`, in exact arithmetic. -/
def carveAt (h : KHeap) (q last size : ℕ) : KHeap :=
  { ((if last ≠ 0 then h.setBlock last { h.block last with next := q } else h).setBlock q
      ⟨size, 0, false, magicCarved⟩) with
    placementAddress := q + 16 + size
    carved := q :: h.carved
    globalBase := if h.globalBase = 0 then q else h.globalBase }

theorem carvePoint_false (h : KHeap) : h.carvePoint false = h.placementAddress := by
  unfold carvePoint
  rw [if_neg (by simp)]

/-- Where the carved payload starts: page-aligned if the request asked for it. -/
theorem carvePoint_aligned (h : KHeap) : (h.carvePoint true + 16) % 4096 = 0 := by
  unfold carvePoint
  split
  · omega
  · next hc =>
    have h0 : (h.placementAddress + 16) % 4096 = 0 := by
      by_contra hne
      exact hc ⟨rfl, hne⟩
    exact h0

/-- Rounding moves the placement address down exactly when its offset in the page lies in the last
fifteen bytes. -/
theorem le_carvePoint_iff (h : KHeap) (align : Bool) :
    h.placementAddress ≤ h.carvePoint align ↔
      (align = true → h.placementAddress % 4096 ≤ 4080) := by
  unfold carvePoint
  split
  · next hc =>
    constructor
    · intro hle _
      omega
    · intro hr
      have := hr hc.1
      omega
  · next hc =>
    refine ⟨fun _ ha => ?_, fun _ => le_refl _⟩
    have h0 : (h.placementAddress + 16) % 4096 = 0 := by
      by_contra hne
      exact hc ⟨ha, hne⟩
    omega

/-- The rounding code computes `carvePoint` as long as the new block does not wrap. -/
theorem roundFor_eq (hp : h.placementAddress < 4294967296)
    (hw : h.carvePoint align + 16 + size < 4294967296) :
    h.roundFor align = { h with placementAddress := h.carvePoint align } := by
  have hmod : u32 (h.placementAddress + 16) &&& 0xFFF = (h.placementAddress + 16) % 4096 := by
    rw [and_pageOffset, u32_eq]
    omega
  unfold roundFor carvePoint at *
  cases align with
  | false => simp
  | true =>
    simp only [true_and, if_true] at hw ⊢
    unfold roundPlacement
    rw [hmod, and_pageBase hp]
    split
    · next hc =>
      rw [if_pos hc] at hw
      have hsum : u32 (h.placementAddress - h.placementAddress % 4096 + 0x1000) =
          h.placementAddress - h.placementAddress % 4096 + 4096 := u32_of_lt (by omega)
      rw [hsum, u32Sub_of_le (by omega) (by omega)]
      congr 1
    · rfl

/-- `kfree` takes no space back. -/
theorem kfree_placement (h : KHeap) (p : ℕ) :
    (h.kfree p).placementAddress = h.placementAddress := by
  unfold KHeap.kfree
  split
  · rfl
  · dsimp only
    split <;> rfl

end KHeap

/-! ### The invariant -/

/-- The allocator state `h`, whose blocks start at `e` and whose list from `global_base` is `l`. -/
structure HeapInv (e : ℕ) (h : KHeap) (l : List ℕ) : Prop where
  start_pos : 0 < e
  placement_lt : h.placementAddress < 4294967296
  /-- Every carved block lies between `e` and the placement address. -/
  within : ∀ b ∈ h.carved, e ≤ b ∧ b + 16 + (h.block b).size ≤ h.placementAddress
  /-- A block lies behind all blocks carved before it. -/
  order : h.carved.Pairwise (fun b c => c + 16 + (h.block c).size ≤ b)
  magic : ∀ b ∈ h.carved, (h.block b).magic = magicCarved ∨ (h.block b).magic = magicReused
  chain : Chain h.next 0 h.globalBase l
  sub : l.Sublist h.carved.reverse
  nonempty : l = [] → h.carved = []
  /-- The block carved last ends at the placement address. -/
  top : ∀ b ∈ h.carved.head?, b + 16 + (h.block b).size = h.placementAddress
  /-- Every block takes at least its header. -/
  room : e + 16 * h.carved.length ≤ h.placementAddress

namespace HeapInv

theorem initial {e : ℕ} (he : 0 < e) (he' : e < 4294967296) : HeapInv e (KHeap.init e) [] where
  start_pos := he
  placement_lt := he'
  within := by simp [KHeap.init]
  order := List.Pairwise.nil
  magic := by simp [KHeap.init]
  chain := chain_nil.mpr rfl
  sub := List.nil_sublist _
  nonempty := fun _ => rfl
  top := by simp [KHeap.init]
  room := by simp [KHeap.init]

theorem mem_carved (hI : HeapInv e h l) {b : ℕ} (hb : b ∈ l) : b ∈ h.carved :=
  List.mem_reverse.mp (hI.sub.subset hb)

theorem pos (hI : HeapInv e h l) {b : ℕ} (hb : b ∈ h.carved) : 0 < b := by
  have := (hI.within b hb).1
  have := hI.start_pos
  omega

theorem add_lt (hI : HeapInv e h l) {b : ℕ} (hb : b ∈ h.carved) : b + 16 < 4294967296 := by
  have := (hI.within b hb).2
  have := hI.placement_lt
  omega

theorem carved_nodup (hI : HeapInv e h l) : h.carved.Nodup := by
  refine hI.order.imp ?_
  intro b c hbc heq
  omega

theorem nodup (hI : HeapInv e h l) : l.Nodup :=
  hI.sub.nodup (List.nodup_reverse.mpr hI.carved_nodup)

/-- The spans of two carved blocks are apart. -/
theorem apart (hI : HeapInv e h l) {b c : ℕ} (hb : b ∈ h.carved) (hc : c ∈ h.carved)
    (hne : b ≠ c) : (h.span b).Apart (h.span c) := by
  refine Span.apart_of_mem (hI.order.imp ?_) hb hc hne
  intro x y hxy
  right
  simp only [Span.stop, KHeap.span]
  omega

/-- The list is shorter than the walk bound. -/
theorem length_lt (hI : HeapInv e h l) : l.length < chainFuel := by
  have hle : l.length ≤ h.carved.length := by
    simpa using hI.sub.length_le
  have := hI.room
  have := hI.placement_lt
  unfold chainFuel
  omega

theorem base_eq_zero_iff (hI : HeapInv e h l) : h.globalBase = 0 ↔ l = [] := by
  constructor
  · intro h0
    cases l with
    | nil => rfl
    | cons b l' =>
      have hb := chain_cons.mp hI.chain
      exact absurd (hb.1.symm.trans h0) hb.2.1
  · rintro rfl
    exact chain_nil.mp hI.chain

/-- The invariant reads the headers of the carved blocks only through size, successor and magic
number. -/
theorem congr (hI : HeapInv e h l) (hp : h'.placementAddress = h.placementAddress)
    (hb : h'.globalBase = h.globalBase) (hc : h'.carved = h.carved)
    (hsize : ∀ b ∈ h.carved, (h'.block b).size = (h.block b).size)
    (hnext : ∀ b ∈ h.carved, h'.next b = h.next b)
    (hmagic : ∀ b ∈ h.carved, (h'.block b).magic = magicCarved ∨ (h'.block b).magic = magicReused) :
    HeapInv e h' l where
  start_pos := hI.start_pos
  placement_lt := hp ▸ hI.placement_lt
  within := by
    intro b hm
    rw [hc] at hm
    rw [hsize b hm, hp]
    exact hI.within b hm
  order := by
    rw [hc]
    refine hI.order.imp_of_mem ?_
    intro b c _ hcm hbc
    rw [hsize c hcm]
    exact hbc
  magic := hc ▸ hmagic
  chain := by
    rw [hb]
    exact hI.chain.congr fun b hm => hnext b (hI.mem_carved hm)
  sub := hc ▸ hI.sub
  nonempty := hc ▸ hI.nonempty
  top := by
    intro b hb
    rw [hc] at hb
    rw [hsize b (List.mem_of_mem_head? hb), hp]
    exact hI.top b hb
  room := by
    rw [hc, hp]
    exact hI.room

/-- Rewriting the free flag and the magic number of one block keeps the invariant. -/
theorem setFree (hI : HeapInv e h l) (b : ℕ) (f : Bool) {k : ℕ}
    (hk : b ∈ h.carved → k = magicCarved ∨ k = magicReused) :
    HeapInv e (h.setBlock b { h.block b with free := f, magic := k }) l := by
  refine hI.congr rfl rfl rfl (fun c _ => ?_) (fun c _ => ?_) (fun c hc => ?_)
  · by_cases hcb : c = b
    · rw [hcb, KHeap.setBlock_self]
    · rw [KHeap.setBlock_ne _ _ hcb]
  · unfold KHeap.next
    by_cases hcb : c = b
    · rw [hcb, KHeap.setBlock_self]
    · rw [KHeap.setBlock_ne _ _ hcb]
  · by_cases hcb : c = b
    · subst hcb
      rw [KHeap.setBlock_self]
      exact hk hc
    · rw [KHeap.setBlock_ne _ _ hcb]
      exact hI.magic c hc

theorem reuse (hI : HeapInv e h l) (b : ℕ) : HeapInv e (h.reuse b) l :=
  hI.setFree b false fun _ => Or.inr rfl

/-! ### Carving -/

/-- A header away from the carved block and from the block it is hung behind is untouched. -/
theorem carveAt_ne {q last size b : ℕ} (hq : b ≠ q) (hlast : b ≠ last) :
    (h.carveAt q last size).block b = h.block b := by
  unfold KHeap.carveAt
  dsimp only
  rw [KHeap.setBlock_ne _ _ hq]
  split
  · rw [KHeap.setBlock_ne _ _ hlast]
  · rfl

/-- Carving changes an older header in its successor at most. -/
theorem carveAt_old {q last size b : ℕ} (hq : b ≠ q) :
    ∃ n, (h.carveAt q last size).block b = { h.block b with next := n } := by
  by_cases hlast : b = last
  · subst hlast
    unfold KHeap.carveAt
    dsimp only
    rw [KHeap.setBlock_ne _ _ hq]
    split
    · exact ⟨q, KHeap.setBlock_self _ _ _⟩
    · exact ⟨(h.block b).next, rfl⟩
  · exact ⟨(h.block b).next, carveAt_ne hq hlast⟩

@[simp] theorem carveAt_self {q last size : ℕ} :
    (h.carveAt q last size).block q = ⟨size, 0, false, magicCarved⟩ := by
  unfold KHeap.carveAt
  exact KHeap.setBlock_self _ _ _

/-- The successor of the block the new one is hung behind. -/
theorem carveAt_next_last {q last size : ℕ} (h0 : last ≠ 0) (hq : last ≠ q) :
    (h.carveAt q last size).next last = q := by
  unfold KHeap.carveAt KHeap.next
  dsimp only
  rw [KHeap.setBlock_ne _ _ hq, if_pos h0, KHeap.setBlock_self]

/-- **Carving keeps the invariant.** The block is put at `q`, not below the old placement address,
and hung behind a member `c` of the list, whose tail `post` is dropped. -/
theorem carve (hI : HeapInv e h l) {pre post : List ℕ} {q c size : ℕ}
    (hl : l = pre ++ c :: post) (hq : h.placementAddress ≤ q) (hw : q + 16 + size < 4294967296) :
    HeapInv e (h.carveAt q c size) (pre ++ [c, q]) := by
  -- no block is at the new place, and the old ones keep their sizes
  have hold : ∀ b ∈ h.carved, b ≠ q := by
    intro b hb
    have := (hI.within b hb).2
    omega
  have hsize : ∀ b ∈ h.carved, ((h.carveAt q c size).block b).size = (h.block b).size := by
    intro b hb
    obtain ⟨n, hn⟩ := carveAt_old (hold b hb)
    rw [hn]
  have hcl : c ∈ h.carved := hI.mem_carved (by rw [hl]; simp)
  have hc0 : c ≠ 0 := (hI.pos hcl).ne'
  have hbase : h.globalBase ≠ 0 := by
    rw [Ne, hI.base_eq_zero_iff, hl]
    simp
  have hnd : (pre ++ c :: post).Nodup := hl ▸ hI.nodup
  refine
    { start_pos := hI.start_pos, placement_lt := hw, within := ?_, order := ?_, magic := ?_,
      chain := ?_, sub := ?_, nonempty := by simp, top := ?_, room := ?_ }
  · -- the new block is behind all others, up to the new placement address
    intro b hb
    rcases List.mem_cons.mp hb with rfl | hb
    · rw [carveAt_self]
      refine ⟨?_, le_refl _⟩
      have := hI.room
      omega
    · rw [hsize b hb]
      have := hI.within b hb
      exact ⟨this.1, this.2.trans (by change h.placementAddress ≤ q + 16 + size; omega)⟩
  · change (q :: h.carved).Pairwise _
    rw [List.pairwise_cons]
    constructor
    · intro b hb
      rw [hsize b hb]
      exact (hI.within b hb).2.trans hq
    · refine hI.order.imp_of_mem ?_
      intro b d _ hd hbd
      rw [hsize d hd]
      exact hbd
  · -- it has the magic number of a carved block
    intro b hb
    rcases List.mem_cons.mp hb with rfl | hb
    · rw [carveAt_self]
      exact Or.inl rfl
    · obtain ⟨n, hn⟩ := carveAt_old (hold b hb)
      rw [hn]
      exact hI.magic b hb
  · -- behind `c` the list now consists of the new block alone
    have hgb : (h.carveAt q c size).globalBase = h.globalBase := if_neg hbase
    rw [hgb]
    refine (hl ▸ hI.chain).redirect ?_ ?_
    · intro b hb
      have hbc : b ≠ c := by
        rintro rfl
        exact (List.nodup_append.mp hnd).2.2 b hb b List.mem_cons_self rfl
      have hbl : b ∈ l := hl ▸ List.mem_append_left _ hb
      unfold KHeap.next
      rw [carveAt_ne (hold b (hI.mem_carved hbl)) hbc]
    · rw [carveAt_next_last hc0 (hold c hcl)]
      refine chain_cons.mpr ⟨rfl, ?_, chain_nil.mpr ?_⟩
      · have := hI.start_pos
        have := hI.room
        omega
      · unfold KHeap.next
        rw [carveAt_self]
  · -- the list is still in the order of carving
    change (pre ++ [c, q]).Sublist (q :: h.carved).reverse
    rw [List.reverse_cons, show pre ++ [c, q] = (pre ++ [c]) ++ [q] by simp]
    refine List.Sublist.append_right ?_ _
    refine List.Sublist.trans ?_ (hl ▸ hI.sub)
    exact List.Sublist.append_left (List.singleton_sublist.mpr List.mem_cons_self) _
  · rintro b ⟨rfl⟩
    rw [carveAt_self]
    rfl
  · -- the headers fit, as the new one does
    have := hI.room
    change e + 16 * (q :: h.carved).length ≤ q + 16 + size
    rw [List.length_cons]
    omega

/-- The first block of an empty heap. -/
theorem carve_first (hI : HeapInv e h []) {q size : ℕ} (hq : h.placementAddress ≤ q)
    (hw : q + 16 + size < 4294967296) : HeapInv e (h.carveAt q 0 size) [q] := by
  have hnil : h.carved = [] := hI.nonempty rfl
  have hbase : h.globalBase = 0 := hI.base_eq_zero_iff.mpr rfl
  have hroom := hI.room
  rw [hnil, List.length_nil] at hroom
  have hcarved : (h.carveAt q 0 size).carved = [q] := by
    change q :: h.carved = [q]
    rw [hnil]
  refine
    { start_pos := hI.start_pos, placement_lt := hw, within := ?_, order := ?_, magic := ?_,
      chain := ?_, sub := ?_, nonempty := by simp, top := ?_, room := ?_ }
  · intro b hb
    rw [hcarved, List.mem_singleton] at hb
    subst hb
    rw [carveAt_self]
    exact ⟨by omega, le_refl _⟩
  · rw [hcarved]
    exact List.pairwise_singleton _ _
  · intro b hb
    rw [hcarved, List.mem_singleton] at hb
    subst hb
    rw [carveAt_self]
    exact Or.inl rfl
  · have hgb : (h.carveAt q 0 size).globalBase = q := if_pos hbase
    rw [hgb]
    refine chain_cons.mpr ⟨rfl, ?_, chain_nil.mpr ?_⟩
    · have := hI.start_pos
      omega
    · unfold KHeap.next
      rw [carveAt_self]
  · rw [hcarved]
    exact List.Sublist.refl _
  · rintro b ⟨rfl⟩
    rw [carveAt_self]
    rfl
  · rw [hcarved]
    change e + 16 * 1 ≤ q + 16 + size
    omega

/-- `kfree` keeps the invariant for every argument: it writes a flag behind a magic number. -/
theorem kfree_any (hI : HeapInv e h l) (p : ℕ) : HeapInv e (h.kfree p) l := by
  unfold KHeap.kfree
  split
  · exact hI
  · dsimp only
    split
    · exact hI
    · next hmagic =>
      refine hI.setFree (u32Sub p 16) true fun _ => ?_
      by_contra hne
      exact hmagic (not_or.mp hne)

end HeapInv

/-! ### What one call can do -/

/-- **First fit.** The search walks over the blocks that do not fit; it returns the next one, or
`0` at the end of the list, and leaves the last block it walked over in `last`. -/
theorem findFreeBlock_spec (size : ℕ) :
    ∀ {l : List ℕ} {n p : ℕ} (last : ℕ), Chain h.next 0 p l → l.length < n →
      ∃ pre post, l = pre ++ post ∧ (∀ b ∈ pre, ¬ h.Fits size b) ∧
        (∀ b post', post = b :: post' → h.Fits size b) ∧
        h.findFreeBlock size n last p = some (post.headD 0, pre.getLastD last)
  | [], n + 1, p, last, hc, _ => by
    have hp : p = 0 := chain_nil.mp hc
    refine ⟨[], [], rfl, by simp, by simp, ?_⟩
    rw [KHeap.findFreeBlock, if_neg (by simp [hp])]
    simp [hp]
  | b :: l, n + 1, p, last, hc, hn => by
    obtain ⟨rfl, hb, hc'⟩ := chain_cons.mp hc
    by_cases hf : h.Fits size p
    · refine ⟨[], p :: l, rfl, by simp, ?_, ?_⟩
      · rintro b post' ⟨rfl, rfl⟩
        exact hf
      · rw [KHeap.findFreeBlock, if_neg (fun hc => hc.2 hf)]
        rfl
    · obtain ⟨pre, post, hl, hpre, hpost, hfind⟩ :=
        findFreeBlock_spec size p hc' (Nat.lt_of_succ_lt_succ hn)
      refine ⟨p :: pre, post, by rw [hl]; rfl, ?_, hpost, ?_⟩
      · intro b hbm
        rcases List.mem_cons.mp hbm with rfl | hbm
        · exact hf
        · exact hpre b hbm
      · rw [KHeap.findFreeBlock, if_pos ⟨hb, hf⟩, hfind]
        cases pre <;> rfl

/-- The block a request works on. Either a fitting block of the list is reused, or the heap is
still empty, or a block is carved and hung behind a member `c` of the list. For a request without
alignment `c` is the last member and no member fits. -/
theorem selectBlock_cases (hI : HeapInv e h l) (size : ℕ) (align : Bool) :
    (∃ b last, b ∈ l ∧ h.Fits size b ∧ (align = true → (b + 16) % 4096 = 0) ∧
      h.selectBlock size align = some (b, last)) ∨
    (l = [] ∧ h.selectBlock size align = some (0, 0)) ∨
    (∃ pre c post, l = pre ++ c :: post ∧ h.selectBlock size align = some (0, c) ∧
      (align = false → post = [] ∧ ∀ b ∈ l, ¬ h.Fits size b)) := by
  by_cases hnil : l = []
  · right; left
    refine ⟨hnil, ?_⟩
    unfold KHeap.selectBlock
    rw [if_pos (hI.base_eq_zero_iff.mpr hnil)]
  have hbase : h.globalBase ≠ 0 := fun h0 => hnil (hI.base_eq_zero_iff.mp h0)
  obtain ⟨l', hl'⟩ := hI.chain.head hbase
  obtain ⟨pre, post, hl, hpre, hpost, hfind⟩ :=
    findFreeBlock_spec size h.globalBase hI.chain hI.length_lt
  have hsel : h.selectBlock size align =
      some (if align ∧ u32 (post.headD 0 + 16) &&& 0xFFF ≠ 0 then 0 else post.headD 0,
        pre.getLastD h.globalBase) := by
    unfold KHeap.selectBlock
    rw [if_neg hbase, hfind]
    rfl
  cases post with
  | nil =>
    -- no block fits, so the walk ends behind the last one
    right; right
    rw [List.append_nil] at hl
    subst hl
    obtain ⟨pre', c, hc⟩ : ∃ pre' c, l = pre' ++ [c] :=
      ⟨_, _, (List.dropLast_append_getLast hnil).symm⟩
    refine ⟨pre', c, [], hc, ?_, fun _ => ⟨rfl, hpre⟩⟩
    rw [hsel, hc]
    simp
  | cons b post' =>
    have hbl : b ∈ l := by rw [hl]; simp
    have hfit := hpost b post' rfl
    have hmask : u32 (b + 16) &&& 0xFFF = (b + 16) % 4096 := by
      rw [and_pageOffset, u32_of_lt (hI.add_lt (hI.mem_carved hbl))]
    rw [List.headD_cons, hmask] at hsel
    by_cases hal : align = true ∧ (b + 16) % 4096 ≠ 0
    · -- `b` fits but is rejected: what is carved hangs behind the block in front of it
      right; right
      rw [if_pos hal] at hsel
      have hfalse : align = false → post' = [] ∧ ∀ b ∈ l, ¬ h.Fits size b := by
        intro ha
        rw [ha] at hal
        exact absurd hal.1 (by simp)
      rcases List.eq_nil_or_concat pre with rfl | ⟨pre', c, rfl⟩
      · refine ⟨[], b, post', hl, ?_, hfalse⟩
        rw [hsel]
        have hgb : h.globalBase = b := by
          have := hI.chain
          rw [hl] at this
          exact this.1.1
        simp [hgb]
      · refine ⟨pre', c, b :: post', by rw [hl]; simp, ?_, fun ha => absurd ha ?_⟩
        · rw [hsel]
          simp
        · rw [hal.1]
          simp
    · left
      rw [if_neg hal] at hsel
      refine ⟨b, _, hbl, hfit, fun ha => ?_, hsel⟩
      by_contra hne
      exact hal ⟨ha, hne⟩

/-- `kmalloc_int` in terms of the block it selects. -/
theorem kmallocInt_eq (hs : size ≠ 0) :
    h.kmallocInt size align =
      match h.selectBlock size align with
      | none => none
      | some (b, last) =>
        if b = 0 then
          let (q, h₁) := (h.roundFor align).requestSpace last size
          if q = 0 then some (0, h₁)
          else some (u32 (q + 16),
            if h.globalBase = 0 then { h₁ with globalBase := q } else h₁)
        else some (u32 (b + 16), h.reuse b) := by
  unfold KHeap.kmallocInt KHeap.selectBlock
  rw [if_neg hs]
  by_cases hb : h.globalBase = 0
  · simp only [hb, if_true]
  · simp only [hb, if_false]
    cases h.findFreeBlock size chainFuel h.globalBase h.globalBase with
    | none => rfl
    | some r => rfl

/-- A carving call, in exact arithmetic. -/
theorem requestSpace_eq (hp : h.placementAddress < 4294967296) {last : ℕ}
    (hw : h.carvePoint align + 16 + size < 4294967296) (hq : h.carvePoint align ≠ 0) :
    (let (q, h₁) := (h.roundFor align).requestSpace last size
      if q = 0 then some (0, h₁)
      else some (u32 (q + 16), if h.globalBase = 0 then { h₁ with globalBase := q } else h₁)) =
    some (h.carvePoint align + 16, h.carveAt (h.carvePoint align) last size) := by
  have hsum : u32 (h.carvePoint align + u32 (size + 16)) = h.carvePoint align + 16 + size := by
    rw [u32_of_lt (by omega : size + 16 < 4294967296), u32_of_lt (by omega)]
    omega
  rw [KHeap.roundFor_eq hp hw]
  unfold KHeap.requestSpace
  dsimp only
  rw [if_neg hq, u32_of_lt (by omega), hsum]
  congr 2
  unfold KHeap.carveAt
  split <;> split <;> rfl

/-- **What one call can do.** A request of positive size, which wraps around no address if it
carves, returns: it reuses a fitting block of the list, aligned if asked for, or it carves a block
at `carvePoint`, as the first one or behind a member `c` of the list. -/
theorem kmallocInt_cases (hI : HeapInv e h l) (hs : 0 < size)
    (hw : h.Carves size align → h.carvePoint align + 16 + size < 4294967296) :
    (¬ h.Carves size align ∧ ∃ b ∈ l, h.Fits size b ∧ (align = true → (b + 16) % 4096 = 0) ∧
      h.kmallocInt size align = some (b + 16, h.reuse b)) ∨
    (h.Carves size align ∧ l = [] ∧ h.kmallocInt size align =
      some (h.carvePoint align + 16, h.carveAt (h.carvePoint align) 0 size)) ∨
    (h.Carves size align ∧ ∃ pre c post, l = pre ++ c :: post ∧
      h.selectBlock size align = some (0, c) ∧
      (align = false → post = [] ∧ ∀ b ∈ l, ¬ h.Fits size b) ∧
      h.kmallocInt size align =
        some (h.carvePoint align + 16, h.carveAt (h.carvePoint align) c size)) := by
  have hq : h.carvePoint align ≠ 0 := by
    have := hI.start_pos
    have := hI.room
    unfold KHeap.carvePoint
    split <;> omega
  rcases selectBlock_cases hI size align with
    ⟨b, last, hb, hfit, hal, hsel⟩ | ⟨hnil, hsel⟩ | ⟨pre, c, post, hl, hsel, hal⟩
  · left
    have hb0 : b ≠ 0 := (hI.pos (hI.mem_carved hb)).ne'
    refine ⟨?_, b, hb, hfit, hal, ?_⟩
    · rintro ⟨last', hsel'⟩
      rw [hsel] at hsel'
      simp only [Option.some.injEq, Prod.mk.injEq] at hsel'
      exact hb0 hsel'.1
    · rw [kmallocInt_eq hs.ne', hsel]
      dsimp only
      rw [if_neg hb0, u32_of_lt (hI.add_lt (hI.mem_carved hb))]
  · right; left
    have hcarves : h.Carves size align := ⟨0, hsel⟩
    refine ⟨hcarves, hnil, ?_⟩
    rw [kmallocInt_eq hs.ne', hsel]
    exact requestSpace_eq hI.placement_lt (hw hcarves) hq
  · right; right
    have hcarves : h.Carves size align := ⟨c, hsel⟩
    refine ⟨hcarves, pre, c, post, hl, hsel, hal, ?_⟩
    rw [kmallocInt_eq hs.ne', hsel]
    exact requestSpace_eq hI.placement_lt (hw hcarves) hq

end VibeKernel
