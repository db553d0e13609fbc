import Mathlib.Data.List.Pairwise
import Mathlib.Tactic

/-!
# Address ranges

A `Span` is the half-open range of `size` addresses from `start`. Two spans are `Apart` when one
ends before the other begins. The relation is symmetric, passes to sub-ranges, and a family of
pairwise apart non-empty spans has no common address.
-/

namespace Verif

/-- The addresses `start, …, start + size - 1`. -/
structure Span where
  start : ℕ
  size : ℕ
  deriving DecidableEq, Repr

namespace Span

/-- The first address after the span. -/
def stop (s : Span) : ℕ := s.start + s.size

/-- `a` is an address of the span. -/
def Has (s : Span) (a : ℕ) : Prop := s.start ≤ a ∧ a < s.stop

/-- One span ends before the other begins. -/
def Apart (s t : Span) : Prop := s.stop ≤ t.start ∨ t.stop ≤ s.start

/-- Every address of `s` lies between the ends of `t`. -/
def Within (s t : Span) : Prop := t.start ≤ s.start ∧ s.stop ≤ t.stop

instance (s t : Span) : Decidable (s.Apart t) := inferInstanceAs (Decidable (_ ∨ _))
instance (s t : Span) : Decidable (s.Within t) := inferInstanceAs (Decidable (_ ∧ _))
instance (s : Span) (a : ℕ) : Decidable (s.Has a) := inferInstanceAs (Decidable (_ ∧ _))

theorem Apart.symm {s t : Span} (h : s.Apart t) : t.Apart s := Or.symm h

theorem Apart.within {s t u : Span} (h : s.Apart t) (hu : u.Within t) : s.Apart u := by
  unfold Apart Within at *
  omega

theorem Within.trans {s t u : Span} (h : s.Within t) (h' : t.Within u) : s.Within u := by
  unfold Within at *
  omega

/-- Apart spans have no common address. -/
theorem Apart.not_has {s t : Span} (h : s.Apart t) {a : ℕ} (hs : s.Has a) : ¬ t.Has a := by
  unfold Apart Has at *
  omega

/-- Distinct members of a pairwise apart list are apart. -/
theorem apart_of_mem {α : Type} {f : α → Span} {l : List α}
    (hp : l.Pairwise (fun a b => (f a).Apart (f b))) {a b : α} (ha : a ∈ l) (hb : b ∈ l)
    (hne : a ≠ b) : (f a).Apart (f b) :=
  haveI : Std.Symm (fun a b => (f a).Apart (f b)) := ⟨fun _ _ h => h.symm⟩
  hp.forall ha hb hne

/-- The range number `k` of a row of ranges of one size. -/
def slot (base size k : ℕ) : Span := ⟨base + k * size, size⟩

theorem slot_apart {base size j k : ℕ} (h : j ≠ k) :
    (slot base size j).Apart (slot base size k) := by
  have hstop : ∀ {j k : ℕ}, j < k → (slot base size j).stop ≤ (slot base size k).start := by
    intro j k hjk
    have hmul : (j + 1) * size ≤ k * size := Nat.mul_le_mul_right size hjk
    unfold slot stop
    dsimp only
    rw [Nat.succ_mul] at hmul
    omega
  rcases Nat.lt_or_gt_of_ne h with h | h
  · exact Or.inl (hstop h)
  · exact Or.inr (hstop h)

/-- What ends in front of the row is apart from all of it. -/
theorem apart_slot {s : Span} {base size : ℕ} (h : s.stop ≤ base) (k : ℕ) :
    s.Apart (slot base size k) :=
  Or.inl (h.trans (Nat.le_add_right _ _))

end Span

end Verif
