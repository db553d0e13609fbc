import Mathlib.Data.List.Basic
import Mathlib.Tactic

/-!
# Ring buffers

A ring of `N` cells with an index `head` where the next element goes and an index `tail` of the
oldest one; equal indices mean that the ring is empty, so one cell always stays free. `ringHeld` is
the queue that the indices stand for. Filling the cell at `head` appends to it (`ringHeld_push`),
and moving `tail` on removes its front (`ringHeld_front`); neither depends on the cells outside of
the queue.
-/

namespace Verif

variable {α : Type} {N : ℕ}

/-- How many elements the ring holds. -/
def ringCount (N head tail : ℕ) : ℕ := (head + N - tail) % N

/-- The elements that the ring holds, the oldest first. -/
def ringHeld (N : ℕ) (cells : ℕ → α) (head tail : ℕ) : List α :=
  (List.range (ringCount N head tail)).map fun i => cells ((tail + i) % N)

@[simp] theorem ringHeld_length (cells : ℕ → α) (head tail : ℕ) :
    (ringHeld N cells head tail).length = ringCount N head tail := by
  unfold ringHeld
  rw [List.length_map, List.length_range]

/-- An index below twice the size, taken into the ring. -/
theorem mod_ring {i : ℕ} (h : i < N + N) : i % N = if i < N then i else i - N := by
  split_ifs with hlt
  · exact Nat.mod_eq_of_lt hlt
  · rw [Nat.mod_eq_sub_mod (Nat.not_lt.mp hlt), Nat.mod_eq_of_lt (by omega)]

section Indices

variable {head tail : ℕ}

theorem ringCount_eq (hhead : head < N) (htail : tail < N) :
    ringCount N head tail = if tail ≤ head then head - tail else head + N - tail := by
  unfold ringCount
  rw [mod_ring (by omega)]
  split_ifs <;> omega

theorem ringCount_lt (hhead : head < N) (htail : tail < N) : ringCount N head tail < N := by
  rw [ringCount_eq hhead htail]
  split_ifs <;> omega

/-- Equal indices mean that nothing is held. -/
theorem ringCount_eq_zero (hhead : head < N) (htail : tail < N) :
    ringCount N head tail = 0 ↔ head = tail := by
  rw [ringCount_eq hhead htail]
  split_ifs <;> omega

/-- Only one free cell is left if the head would catch up with the tail. -/
theorem ringCount_eq_full (hhead : head < N) (htail : tail < N) :
    ringCount N head tail + 1 = N ↔ (head + 1) % N = tail := by
  rw [ringCount_eq hhead htail, mod_ring (by omega)]
  split_ifs <;> omega

theorem ringCount_push (hhead : head < N) (htail : tail < N) (hspace : (head + 1) % N ≠ tail) :
    ringCount N ((head + 1) % N) tail = ringCount N head tail + 1 := by
  rw [mod_ring (by omega)] at hspace ⊢
  rw [ringCount_eq hhead htail, ringCount_eq (by split_ifs <;> omega) htail]
  split_ifs at hspace ⊢ <;> omega

theorem ringCount_pop (hhead : head < N) (htail : tail < N) (hne : head ≠ tail) :
    ringCount N head tail = ringCount N head ((tail + 1) % N) + 1 := by
  rw [mod_ring (by omega), ringCount_eq hhead htail, ringCount_eq hhead (by split_ifs <;> omega)]
  split_ifs <;> omega

/-- A cell of the queue is none that is filled next. -/
theorem ring_ne_head (hhead : head < N) (htail : tail < N) {i : ℕ}
    (hi : i < ringCount N head tail) :
    (tail + i) % N ≠ head := by
  rw [ringCount_eq hhead htail] at hi
  rw [mod_ring (by split_ifs at hi <;> omega)]
  split_ifs at hi ⊢ <;> omega

/-- The cell behind the queue is the one that is filled next. -/
theorem ring_head (hhead : head < N) (htail : tail < N) :
    (tail + ringCount N head tail) % N = head := by
  rw [ringCount_eq hhead htail, mod_ring (by split_ifs <;> omega)]
  split_ifs <;> omega

/-- **Filling the free cell at the head** appends an element. -/
theorem ringHeld_push {cells : ℕ → α} (hhead : head < N) (htail : tail < N)
    (hspace : (head + 1) % N ≠ tail) (x : α) :
    ringHeld N (Function.update cells head x) ((head + 1) % N) tail =
      ringHeld N cells head tail ++ [x] := by
  unfold ringHeld
  rw [ringCount_push hhead htail hspace, List.range_succ, List.map_append, List.map_singleton,
    ring_head hhead htail, Function.update_self]
  refine congrArg (· ++ [x]) (List.map_congr_left fun i hi => ?_)
  exact Function.update_of_ne (ring_ne_head hhead htail (List.mem_range.mp hi)) _ _

/-- **Moving the tail on** removes the oldest element. -/
theorem ringHeld_front {cells : ℕ → α} (hhead : head < N) (htail : tail < N) (hne : head ≠ tail) :
    ringHeld N cells head tail = cells tail :: ringHeld N cells head ((tail + 1) % N) := by
  unfold ringHeld
  rw [ringCount_pop hhead htail hne, List.range_succ_eq_map, List.map_cons, List.map_map,
    Nat.add_zero, Nat.mod_eq_of_lt htail]
  refine congrArg _ (List.map_congr_left fun i _ => ?_)
  change cells ((tail + (i + 1)) % N) = cells (((tail + 1) % N + i) % N)
  rw [Nat.mod_add_mod, Nat.add_assoc, Nat.add_comm 1 i]

/-- A ring whose indices are equal holds nothing. -/
theorem ringHeld_empty {cells : ℕ → α} (hhead : head < N) : ringHeld N cells head head = [] := by
  unfold ringHeld
  rw [(ringCount_eq_zero hhead hhead).mpr rfl]
  rfl

end Indices

end Verif
