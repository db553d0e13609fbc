import VibeKernel.Heap.Invariant
import VibeKernel.Kernel.State

/-!
# The heap of the kernel in its memory

An allocator of the kernel works on heaps that lie in the identity-mapped memory, and the kernel
stops when a block leaves it. A `LowHeap` is such a heap, with a proof of it. On these `kmalloc_int`
answers `NULL` to an empty request only: there is no way to run out of memory but to leave it.
-/

namespace VibeKernel

open Verif

/-- The placement address and the headers of the list lie in the identity-mapped memory. -/
structure KHeap.Low (h : KHeap) : Prop where
  placement_pos : 0 < h.placementAddress
  placement_le : h.placementAddress ≤ identityTop
  base_le : h.globalBase ≤ identityTop
  next_le : ∀ b, (h.block b).next ≤ identityTop

namespace KHeap.Low

variable {h : KHeap} {n p : ℕ} {align : Bool}

/-- The search stays in the list. -/
theorem findFreeBlock_le (hL : h.Low) :
    ∀ {k last current found last' : ℕ}, current ≤ identityTop →
      h.findFreeBlock n k last current = some (found, last') → found ≤ identityTop := by
  intro k
  induction k with
  | zero => exact fun _ hfind => by cases hfind
  | succ k ih =>
    intro last current found last' hcur hfind
    rw [KHeap.findFreeBlock] at hfind
    split at hfind
    · exact ih (hL.next_le current) hfind
    · cases hfind
      exact hcur

theorem selectBlock_le (hL : h.Low) {b last : ℕ} (hsel : h.selectBlock n align = some (b, last)) :
    b ≤ identityTop := by
  unfold KHeap.selectBlock at hsel
  split at hsel
  · cases hsel
    exact Nat.zero_le _
  · obtain ⟨r, hfind, hr⟩ := Option.map_eq_some_iff.mp hsel
    obtain ⟨found, last'⟩ := r
    have hle := hL.findFreeBlock_le hL.base_le hfind
    cases hr
    split
    · exact Nat.zero_le _
    · exact hle

/-- The rounding moves the placement address by less than a page and nothing else. -/
theorem roundFor_spec (hL : h.Low) (align : Bool) : ∃ q, 0 < q ∧ q ≤ identityTop + 4096 ∧
    h.roundFor align = { h with placementAddress := q } := by
  have hpos := hL.placement_pos
  have hle := hL.placement_le
  unfold identityTop at hle ⊢
  cases align with
  | false => exact ⟨h.placementAddress, hpos, by omega, rfl⟩
  | true =>
    unfold KHeap.roundFor KHeap.roundPlacement
    rw [if_pos rfl]
    split
    · refine ⟨_, ?_, ?_, rfl⟩
      all_goals
        rw [and_pageBase (by omega), u32_of_lt (by omega), u32Sub_of_le (by omega) (by omega)]
        omega
    · exact ⟨h.placementAddress, hpos, by omega, rfl⟩

/-- Changing a header without its successor. -/
theorem setBlock (hL : h.Low) {b : ℕ} {m : BlockMeta} (hm : m.next = (h.block b).next) :
    (h.setBlock b m).Low where
  placement_pos := hL.placement_pos
  placement_le := hL.placement_le
  base_le := hL.base_le
  next_le c := by
    by_cases hcb : c = b
    · subst hcb
      rw [KHeap.setBlock_self, hm]
      exact hL.next_le c
    · rw [KHeap.setBlock_ne _ _ hcb]
      exact hL.next_le c

/-- Carving a block that stays in the memory. -/
theorem carve (hL : h.Low) {q last : ℕ} (hq : q + 16 + n ≤ identityTop) :
    ({ h with placementAddress := q }.requestSpace last n).2.Low := by
  have hsum : u32 (q + u32 (n + 16)) = q + 16 + n := by
    unfold identityTop at hq
    rw [u32_of_lt (by omega : n + 16 < 4294967296), u32_of_lt (by omega)]
    omega
  -- the block is hung behind `last`, if there is one, and then written
  have hhung : ∀ b, ((if last ≠ 0 then { h with placementAddress := q }.setBlock last
      { h.block last with next := q } else { h with placementAddress := q }).block b).next ≤
        identityTop := by
    intro b
    split
    · by_cases hbl : b = last
      · subst hbl
        rw [KHeap.setBlock_self]
        change q ≤ identityTop
        omega
      · rw [KHeap.setBlock_ne _ _ hbl]
        exact hL.next_le b
    · exact hL.next_le b
  refine ⟨?_, ?_, ?_, fun b => ?_⟩
  · change 0 < u32 (q + u32 (n + 16))
    omega
  · change u32 (q + u32 (n + 16)) ≤ identityTop
    omega
  · unfold KHeap.requestSpace
    dsimp only
    rw [KHeap.setBlock_base]
    split
    · exact hL.base_le
    · exact hL.base_le
  · unfold KHeap.requestSpace
    dsimp only
    by_cases hbq : b = q
    · subst hbq
      rw [KHeap.setBlock_self]
      exact Nat.zero_le _
    · rw [KHeap.setBlock_ne _ _ hbq]
      exact hhung b

/-- **A request that is not empty is never answered by `NULL`**, and the heap stays in the memory as
long as the blocks do. -/
theorem kmallocInt (hL : h.Low) {h' : KHeap} (hn : n ≠ 0)
    (hans : h.kmallocInt n align = some (p, h')) :
    p ≠ 0 ∧ (p + n ≤ identityTop → h'.Low) := by
  rw [kmallocInt_eq hn] at hans
  cases hsel : h.selectBlock n align with
  | none =>
    rw [hsel] at hans
    cases hans
  | some r =>
    obtain ⟨b, last⟩ := r
    have hble := hL.selectBlock_le hsel
    rw [hsel] at hans
    dsimp only at hans
    by_cases hb : b = 0
    · obtain ⟨q, hq, hqle, hround⟩ := hL.roundFor_spec align
      rw [if_pos hb, hround] at hans
      have hreq : ({ h with placementAddress := q }.requestSpace last n).1 = q := rfl
      rw [hreq, if_neg hq.ne'] at hans
      unfold identityTop at hqle
      have hp : p = q + 16 := by
        rw [← u32_of_lt (by omega : q + 16 < 4294967296)]
        exact (Prod.mk.inj (Option.some.inj hans)).1.symm
      have hh := (Prod.mk.inj (Option.some.inj hans)).2
      refine ⟨by omega, fun hle => ?_⟩
      rw [hp] at hle
      rw [← hh]
      by_cases hbase : h.globalBase = 0
      · rw [if_pos hbase]
        have hcarved := @carve h n hL q last hle
        exact ⟨hcarved.placement_pos, hcarved.placement_le, by dsimp only; omega, hcarved.next_le⟩
      · rw [if_neg hbase]
        exact hL.carve hle
    · rw [if_neg hb] at hans
      unfold identityTop at hble
      cases hans
      rw [u32_of_lt (by omega)]
      exact ⟨by omega, fun _ => hL.setBlock rfl⟩

theorem kfree (hL : h.Low) (p : ℕ) : (h.kfree p).Low := by
  unfold KHeap.kfree
  split
  · exact hL
  · dsimp only
    split
    · exact hL
    · exact hL.setBlock rfl

end KHeap.Low

/-- A heap in the identity-mapped memory. -/
abbrev LowHeap := { h : KHeap // h.Low }

/-- The first heap of a kernel. -/
def LowHeap.init (e : ℕ) (he : 0 < e ∧ e ≤ identityTop) : LowHeap :=
  ⟨KHeap.init e, he.1, he.2, Nat.zero_le _, fun _ => Nat.zero_le _⟩

/-- `kmalloc_int` on a heap in the identity-mapped memory. The heap behind a block that leaves the
memory is not wanted, since the kernel stops there. -/
def LowHeap.kmallocInt (n : ℕ) (align : Bool) (h : LowHeap) : Option (ℕ × LowHeap) :=
  match hans : h.1.kmallocInt n align with
  | none => none
  | some (p, h') =>
    if hn : n = 0 then some (p, h)
    else if hp : p + n ≤ identityTop then some (p, ⟨h', (h.2.kmallocInt hn hans).2 hp⟩)
    else some (p, h)

/-- The allocator of the kernel, on heaps in the identity-mapped memory. -/
def lowKheap : Allocator LowHeap where
  kmallocInt := LowHeap.kmallocInt
  kfree p h := ⟨h.1.kfree p, h.2.kfree p⟩
  blockSize p h := h.1.blockSize p

/-- Only an empty request is answered by `NULL`. -/
theorem lowKheap_null {n : ℕ} {align : Bool} {h h' : LowHeap}
    (hans : lowKheap.kmallocInt n align h = some (0, h')) : n = 0 := by
  change LowHeap.kmallocInt n align h = _ at hans
  by_contra hn
  unfold LowHeap.kmallocInt at hans
  split at hans
  · cases hans
  · rename_i p h'' hk
    have hp := (h.2.kmallocInt hn hk).1
    rw [dif_neg hn] at hans
    split at hans
    · exact hp (Prod.mk.inj (Option.some.inj hans)).1
    · exact hp (Prod.mk.inj (Option.some.inj hans)).1

end VibeKernel
