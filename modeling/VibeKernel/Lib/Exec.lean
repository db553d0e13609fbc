import Mathlib.Tactic

/-!
# Computations on a state that may stop

`Exec ε σ α` is a computation on a state of type `σ` that answers with an `α` or stops with an
error. `wp E x Q s` is its weakest precondition: run from `s`, the computation `x` completes with an
answer and a state in `Q`, or stops for a reason in `E`.

A specification of an operation is proved once in this form, and the specification of a
sequence is put together from those of its parts with `wp_bind` and `wp_seq`.
-/

namespace Verif

/-- A computation on a state that may stop with an error. -/
abbrev Exec (ε σ α : Type) := StateT σ (Except ε) α

variable {ε σ α β : Type}

namespace Exec

/-- Stop with an error. -/
def stop (e : ε) : Exec ε σ α := fun _ => .error e

/-- A value computed from the state. -/
def gets (f : σ → α) : Exec ε σ α := fun s => .ok (f s, s)

/-- Change the state. -/
def modify (f : σ → σ) : Exec ε σ Unit := fun s => .ok ((), f s)

end Exec

/-- The computation completes with an answer and a state in `Q`, or stops for a reason in `E`. -/
def wp (E : ε → Prop) (x : Exec ε σ α) (Q : α → σ → Prop) (s : σ) : Prop :=
  match x s with
  | .ok (a, t) => Q a t
  | .error e => E e

section Rules

variable {E : ε → Prop} {x : Exec ε σ α} {f : α → Exec ε σ β} {s : σ}

/-- A sequence runs its first part and then the rest from there, unless the first part stops. -/
theorem Exec.bind_apply :
    (x >>= f) s = match x s with
      | .ok r => f r.1 r.2
      | .error e => .error e := by
  change (StateT.bind x f) s = _
  unfold StateT.bind
  change Except.bind (x s) _ = _
  cases x s <;> rfl

@[simp] theorem wp_pure (a : α) (Q : α → σ → Prop) :
    wp E (pure a : Exec ε σ α) Q s ↔ Q a s := Iff.rfl

@[simp] theorem wp_stop (e : ε) (Q : α → σ → Prop) :
    wp E (Exec.stop e : Exec ε σ α) Q s ↔ E e := Iff.rfl

@[simp] theorem wp_gets (g : σ → α) (Q : α → σ → Prop) :
    wp E (Exec.gets g : Exec ε σ α) Q s ↔ Q (g s) s := Iff.rfl

@[simp] theorem wp_modify (g : σ → σ) (Q : Unit → σ → Prop) :
    wp E (Exec.modify g : Exec ε σ Unit) Q s ↔ Q () (g s) := Iff.rfl

/-- A sequence meets `Q` if its first part leads to states from which the rest does. -/
@[simp] theorem wp_bind (Q : β → σ → Prop) :
    wp E (x >>= f) Q s ↔ wp E x (fun a t => wp E (f a) Q t) s := by
  unfold wp
  rw [Exec.bind_apply]
  cases x s <;> rfl

@[simp] theorem wp_map (g : α → β) (Q : β → σ → Prop) :
    wp E (g <$> x) Q s ↔ wp E x (fun a t => Q (g a) t) s := by
  rw [map_eq_pure_bind, wp_bind]
  rfl

/-- The rule of consequence. -/
theorem wp.mono {P Q : α → σ → Prop} (h : wp E x P s) (hPQ : ∀ a t, P a t → Q a t) :
    wp E x Q s := by
  unfold wp at h ⊢
  cases hx : x s with
  | error e =>
    rw [hx] at h
    exact h
  | ok r =>
    rw [hx] at h
    exact hPQ _ _ h

/-- The rule of conjunction. -/
theorem wp.and {P Q : α → σ → Prop} (h : wp E x P s) (h' : wp E x Q s) :
    wp E x (fun a t => P a t ∧ Q a t) s := by
  unfold wp at h h' ⊢
  cases hx : x s with
  | error e =>
    rw [hx] at h
    exact h
  | ok r =>
    rw [hx] at h h'
    exact ⟨h, h'⟩

/-- The reasons to stop can be told apart from the rest of a specification. -/
theorem wp_of_ok {Q : α → σ → Prop} (h : wp (fun _ => True) x Q s)
    (hE : ∀ e, x s = .error e → E e) : wp E x Q s := by
  unfold wp at h ⊢
  cases hx : x s with
  | error e => exact hE e hx
  | ok r =>
    rw [hx] at h
    exact h

/-- Every computation meets the specification that asks for nothing. -/
theorem wp_true (x : Exec ε σ α) (s : σ) : wp (fun _ => True) x (fun _ _ => True) s := by
  unfold wp
  cases x s <;> trivial

/-- The rule of sequence: a specification of the first part, then of the rest from there. -/
theorem wp_seq {P : α → σ → Prop} {Q : β → σ → Prop} (h : wp E x P s)
    (hf : ∀ a t, P a t → wp E (f a) Q t) : wp E (x >>= f) Q s :=
  (wp_bind Q).mpr (h.mono hf)

/-- What a specification says of a completed computation. -/
theorem wp.ok {Q : α → σ → Prop} (h : wp E x Q s) {a : α} {t : σ} (hx : x s = .ok (a, t)) :
    Q a t := by
  unfold wp at h
  rw [hx] at h
  exact h

/-- What a specification says of a computation that stops. -/
theorem wp.error {Q : α → σ → Prop} (h : wp E x Q s) {e : ε} (hx : x s = .error e) : E e := by
  unfold wp at h
  rw [hx] at h
  exact h

/-- A specification may rely on how the computation ends. -/
theorem wp_of_run {Q : α → σ → Prop} (h : wp E x (fun a t => x s = .ok (a, t) → Q a t) s) :
    wp E x Q s := by
  unfold wp at h ⊢
  cases hx : x s with
  | error e =>
    rw [hx] at h
    exact h
  | ok r =>
    rw [hx] at h
    exact h rfl

/-- A computation that does not stop completes. -/
theorem wp.total {Q : α → σ → Prop} (h : wp (fun _ => False) x Q s) :
    ∃ a t, x s = .ok (a, t) ∧ Q a t := by
  unfold wp at h
  cases hx : x s with
  | error e =>
    rw [hx] at h
    exact h.elim
  | ok r =>
    rw [hx] at h
    exact ⟨r.1, r.2, rfl, h⟩

/-- A completed sequence is a completed first part and a completed rest. -/
theorem Exec.bind_ok {b : β} {u : σ} (h : (x >>= f) s = .ok (b, u)) :
    ∃ a t, x s = .ok (a, t) ∧ f a t = .ok (b, u) := by
  rw [Exec.bind_apply] at h
  cases hx : x s with
  | error e =>
    rw [hx] at h
    cases h
  | ok r =>
    rw [hx] at h
    exact ⟨r.1, r.2, rfl, h⟩

/-- A sequence after a completed first part. -/
theorem Exec.bind_of_ok {a : α} {t : σ} (hx : x s = .ok (a, t)) : (x >>= f) s = f a t := by
  rw [Exec.bind_apply, hx]

end Rules

end Verif
