import Mathlib.Data.List.Basic
import Mathlib.Tactic

/-!
# Slices of a byte store

A random-access store of cells is a function `f : ℕ → α`; `slice f a n` is the list of the `n`
cells from `a` on. Reading a slice piece by piece appends slices (`slice_add`), and a string that
is scattered over blocks of one size is put together again by `blocks`: the block numbered `k`
starts at `base k`, and cell `i` of the string lies at `base (i / size) + i % size`
(`blocks_eq_slice`).
-/

namespace Verif

variable {α : Type}

/-- The `n` cells of `f` from `a` on. -/
def slice (f : ℕ → α) (a n : ℕ) : List α := (List.range n).map fun i => f (a + i)

@[simp] theorem slice_zero (f : ℕ → α) (a : ℕ) : slice f a 0 = [] := rfl

@[simp] theorem slice_length (f : ℕ → α) (a n : ℕ) : (slice f a n).length = n := by
  simp [slice]

theorem slice_getElem? (f : ℕ → α) {a n i : ℕ} (hi : i < n) :
    (slice f a n)[i]? = some (f (a + i)) := by
  simp [slice, hi]

/-- Two stores that agree on the cells of a slice have the same slice. -/
theorem slice_congr {f g : ℕ → α} {a b n : ℕ} (h : ∀ i < n, f (a + i) = g (b + i)) :
    slice f a n = slice g b n :=
  List.map_congr_left fun i hi => h i (List.mem_range.mp hi)

/-- A slice is read in two pieces. -/
theorem slice_add (f : ℕ → α) (a m n : ℕ) :
    slice f a (m + n) = slice f a m ++ slice f (a + m) n := by
  unfold slice
  rw [List.range_add, List.map_append, List.map_map]
  refine congrArg _ (List.map_congr_left fun i _ => ?_)
  change f (a + (m + i)) = f (a + m + i)
  rw [Nat.add_assoc]

/-- A prefix of a slice. -/
theorem slice_take (f : ℕ → α) (a : ℕ) {m n : ℕ} (h : m ≤ n) :
    (slice f a n).take m = slice f a m := by
  obtain ⟨k, rfl⟩ := Nat.exists_eq_add_of_le h
  rw [slice_add, List.take_left' (slice_length f a m)]

/-- A part of a slice. -/
theorem slice_drop_take (f : ℕ → α) {a m k n : ℕ} (h : m + k ≤ n) :
    ((slice f a n).drop m).take k = slice f (a + m) k := by
  obtain ⟨j, rfl⟩ := Nat.exists_eq_add_of_le h
  rw [Nat.add_assoc, slice_add, List.drop_left' (slice_length f a m), slice_take f _ (by omega)]

/-- The blocks of `size` cells that start at the given bases, one after the other. -/
def blocks (f : ℕ → α) (size : ℕ) (bases : List ℕ) : List α :=
  bases.flatMap fun b => slice f b size

/-- Blocks put together form one slice, whose cells are found by division. -/
theorem blocks_eq_slice (f : ℕ → α) {size : ℕ} (hsize : 0 < size) :
    ∀ bases : List ℕ, blocks f size bases =
      slice (fun i => f (bases.getD (i / size) 0 + i % size)) 0 (bases.length * size) := by
  intro bases
  induction bases with
  | nil => simp [blocks]
  | cons b bases ih =>
    have hhead : slice f b size =
        slice (fun i => f ((b :: bases).getD (i / size) 0 + i % size)) 0 size := by
      refine slice_congr fun i hi => ?_
      rw [Nat.zero_add, Nat.div_eq_of_lt hi, Nat.mod_eq_of_lt hi, List.getD_cons_zero]
    have htail : slice (fun i => f (bases.getD (i / size) 0 + i % size)) 0 (bases.length * size) =
        slice (fun i => f ((b :: bases).getD (i / size) 0 + i % size)) (0 + size)
          (bases.length * size) := by
      refine slice_congr fun i _ => ?_
      rw [Nat.zero_add, Nat.zero_add, Nat.add_div_left i hsize, Nat.add_mod_left,
        List.getD_cons_succ]
    calc blocks f size (b :: bases)
        = slice f b size ++ blocks f size bases := rfl
      _ = _ := by rw [ih, hhead, htail, ← slice_add, List.length_cons]; congr 1; ring

/-- A position between two multiples of `m` has the quotient and remainder of the first. -/
theorem div_mod_between {p k m : ℕ} (h₁ : k * m ≤ p) (h₂ : p < k * m + m) :
    p / m = k ∧ p % m = p - k * m := by
  have hdiv : p / m = k := by
    rw [Nat.div_eq_of_lt_le h₁]
    calc p < k * m + m := h₂
      _ = (k + 1) * m := by ring
  refine ⟨hdiv, ?_⟩
  have hsplit := Nat.div_add_mod p m
  rw [hdiv, Nat.mul_comm] at hsplit
  omega

end Verif
