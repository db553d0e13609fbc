import Mathlib.Data.List.GetD
import VibeKernel.Lib.Slice
import VibeKernel.Lib.Span

/-!
# Writes to a byte store

A `Write` puts a string of cells at an address; `applyWrites` performs a list of them in order. A
cell outside all writes keeps its value (`applyWrites_other`), and when the ranges of the writes are
pairwise apart, each of them is found in the result (`slice_applyWrites`).
-/

namespace Verif

variable {α : Type}

/-- The cells `data` at address `pos`. -/
structure Write (α : Type) where
  pos : ℕ
  data : List α

/-- The addresses of a write. -/
def Write.span (w : Write α) : Span := ⟨w.pos, w.data.length⟩

/-- One write. -/
def applyWrite (f : ℕ → α) (w : Write α) : ℕ → α := fun a =>
  if w.pos ≤ a then w.data.getD (a - w.pos) (f a) else f a

/-- A list of writes, in order. -/
def applyWrites (f : ℕ → α) (ws : List (Write α)) : ℕ → α := ws.foldl applyWrite f

theorem applyWrite_other {f : ℕ → α} {w : Write α} {a : ℕ} (h : ¬ w.span.Has a) :
    applyWrite f w a = f a := by
  unfold applyWrite
  by_cases hle : w.pos ≤ a
  · rw [if_pos hle, List.getD_eq_default]
    unfold Write.span Span.Has Span.stop at h
    dsimp only at h
    omega
  · rw [if_neg hle]

theorem applyWrite_self {f : ℕ → α} {w : Write α} {i : ℕ} (h : i < w.data.length) :
    applyWrite f w (w.pos + i) = w.data[i] := by
  unfold applyWrite
  rw [if_pos (Nat.le_add_right _ _), Nat.add_sub_cancel_left, List.getD_eq_getElem _ _ h]

/-- Writing nothing. -/
@[simp] theorem applyWrite_nil (f : ℕ → α) (pos : ℕ) : applyWrite f ⟨pos, []⟩ = f := by
  funext a
  unfold applyWrite
  rw [List.getD_nil, ite_self]

/-- Two writes, the second behind the first, are one. -/
theorem applyWrite_append (f : ℕ → α) (pos : ℕ) (a b : List α) :
    applyWrite (applyWrite f ⟨pos, a⟩) ⟨pos + a.length, b⟩ = applyWrite f ⟨pos, a ++ b⟩ := by
  funext x
  unfold applyWrite
  dsimp only
  by_cases hx : pos + a.length ≤ x
  · rw [if_pos hx, if_pos (by omega), if_pos (by omega), List.getD_append_right _ _ _ _ (by omega),
      List.getD_eq_default a _ (by omega), Nat.sub_sub]
  · rw [if_neg hx]
    split_ifs with hpos
    · rw [List.getD_append _ _ _ _ (by omega), List.getD_eq_getElem _ _ (by omega)]
    · rfl

/-- Of a write that is written over only the rest is left. -/
theorem applyWrite_over (f : ℕ → α) (pos : ℕ) (a b : List α) :
    applyWrite (applyWrite f ⟨pos, a⟩) ⟨pos, b⟩ = applyWrite f ⟨pos, b ++ a.drop b.length⟩ := by
  rw [← applyWrite_append f pos b]
  funext x
  unfold applyWrite
  dsimp only
  by_cases hx : pos + b.length ≤ x
  · rw [if_pos (by omega), if_pos (by omega), if_pos hx, if_pos (by omega),
      List.getD_eq_default b _ (by omega), List.getD_eq_default b _ (by omega)]
    simp only [List.getD_eq_getElem?_getD, List.getElem?_drop]
    rw [show b.length + (x - (pos + b.length)) = x - pos by omega]
  · rw [if_neg hx]
    split_ifs with hpos
    · rw [List.getD_eq_getElem _ _ (by omega), List.getD_eq_getElem _ _ (by omega)]
    · rfl

theorem applyWrites_cons (f : ℕ → α) (w : Write α) (ws : List (Write α)) :
    applyWrites f (w :: ws) = applyWrites (applyWrite f w) ws := rfl

theorem applyWrites_append (f : ℕ → α) (ws ws' : List (Write α)) :
    applyWrites f (ws ++ ws') = applyWrites (applyWrites f ws) ws' := List.foldl_append

/-- A cell outside all writes is left alone. -/
theorem applyWrites_other : ∀ {ws : List (Write α)} {f : ℕ → α} {a : ℕ},
    (∀ w ∈ ws, ¬ w.span.Has a) → applyWrites f ws a = f a
  | [], _, _, _ => rfl
  | w :: ws, f, a, h => by
    change applyWrites (applyWrite f w) ws a = f a
    rw [applyWrites_other fun w' hw' => h w' (List.mem_cons_of_mem _ hw')]
    exact applyWrite_other (h w List.mem_cons_self)

/-- **Each of several writes apart from each other is found in the result.** -/
theorem applyWrites_self : ∀ {ws : List (Write α)} {f : ℕ → α} {w : Write α} {i : ℕ},
    ws.Pairwise (fun w w' => w.span.Apart w'.span) → w ∈ ws → (h : i < w.data.length) →
      applyWrites f ws (w.pos + i) = w.data[i]
  | w' :: ws, f, w, i, hp, hw, h => by
    obtain ⟨hfirst, hrest⟩ := List.pairwise_cons.mp hp
    change applyWrites (applyWrite f w') ws (w.pos + i) = _
    rcases List.mem_cons.mp hw with rfl | hw
    · -- no later write touches it
      have hhas : w.span.Has (w.pos + i) :=
        ⟨Nat.le_add_right _ _, Nat.add_lt_add_left h _⟩
      rw [applyWrites_other fun w' hw' => (hfirst w' hw').not_has hhas]
      exact applyWrite_self h
    · exact applyWrites_self hrest hw h

/-- A stretch outside all writes. -/
theorem slice_applyWrites_other {ws : List (Write α)} {f : ℕ → α} {a n : ℕ}
    (h : ∀ w ∈ ws, w.span.Apart ⟨a, n⟩) : slice (applyWrites f ws) a n = slice f a n := by
  refine slice_congr fun i hi => applyWrites_other fun w hw => ?_
  exact (h w hw).symm.not_has ⟨Nat.le_add_right _ _, Nat.add_lt_add_left hi _⟩

/-- The stretch of a write. -/
theorem slice_applyWrites {ws : List (Write α)} {f : ℕ → α} {w : Write α}
    (hp : ws.Pairwise fun w w' => w.span.Apart w'.span) (hw : w ∈ ws) :
    slice (applyWrites f ws) w.pos w.data.length = w.data := by
  refine List.ext_getElem (slice_length _ _ _) fun i hi hi' => ?_
  have hget := slice_getElem? (applyWrites f ws) (a := w.pos) hi'
  rw [applyWrites_self hp hw hi'] at hget
  rw [List.getElem?_eq_getElem hi] at hget
  exact Option.some.inj hget

end Verif
