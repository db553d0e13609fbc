import VibeKernel.Lib.Exec
import VibeKernel.Lib.Run

/-!
# Computations with a budget

A budget is a property of a state that depends on a list of resources: `Has rs s` says that the
state `s` has the resources `rs`, to be used in this order. A computation that is started with its
cost in front of other resources leaves these others behind. Resources need not be used, so a
computation that costs less costs more as well.

The cost of a sequence is put together from those of its parts with `Spends.bind`, and that of a run
of a machine from those of its operations with `runList_within`.
-/

namespace Verif

/-- What resources a state has. They can be given up from the front. -/
structure Budget (ρ σ : Type) where
  Has : List ρ → σ → Prop
  skip : ∀ {r : ρ} {rs : List ρ} {s : σ}, Has (r :: rs) s → Has rs s

variable {ρ σ ε α β : Type} {B : Budget ρ σ} {E E' : ε → Prop} {rs c d : List ρ} {s : σ}

/-- Several resources are given up. -/
theorem Budget.skips : ∀ {c : List ρ}, B.Has (c ++ rs) s → B.Has rs s := by
  intro c
  induction c with
  | nil => exact fun h => h
  | cons r c ih => exact fun h => ih (B.skip h)

/-- The budget of a part of a state. -/
def Budget.comap {τ : Type} (B : Budget ρ σ) (f : τ → σ) : Budget ρ τ where
  Has rs t := B.Has rs (f t)
  skip := B.skip

/-- Every answer of the computation is in `P`. -/
def Exec.Answers (x : Exec ε σ α) (P : α → Prop) : Prop := ∀ s a t, x s = .ok (a, t) → P a

/-- What is known of the answers of a computation joins its specification. -/
theorem wp.and_answers {P : α → Prop} {Q : α → σ → Prop} {x : Exec ε σ α} (h : wp E x Q s)
    (hP : Exec.Answers x P) : wp E x (fun a t => Q a t ∧ P a) s := by
  unfold wp at h ⊢
  cases hx : x s with
  | error e =>
    rw [hx] at h
    exact h
  | ok r =>
    rw [hx] at h
    exact ⟨h, hP s _ _ hx⟩

/-- The computation completes with the resources behind its cost, or stops for a reason in `E`. -/
def Spends (B : Budget ρ σ) (E : ε → Prop) (x : Exec ε σ α) (c : List ρ) : Prop :=
  ∀ rs s, B.Has (c ++ rs) s → wp E x (fun _ t => B.Has rs t) s

namespace Spends

variable {x : Exec ε σ α} {f : α → Exec ε σ β}

theorem pure (a : α) (c : List ρ) : Spends B E (Pure.pure a) c := fun _ _ h => B.skips h

theorem stop {e : ε} (h : E e) (c : List ρ) : Spends B E (Exec.stop e : Exec ε σ α) c :=
  fun _ _ _ => h

/-- A sequence whose first part stops. -/
theorem stop_bind {e : ε} (h : E e) (c : List ρ) :
    Spends B E ((Exec.stop e : Exec ε σ α) >>= f) c := fun _ _ _ => h

theorem gets (g : σ → α) (c : List ρ) : Spends B E (Exec.gets g) c := fun _ _ h => B.skips h

/-- A change of the state that does not touch the resources. -/
theorem modify {g : σ → σ} (hg : ∀ rs s, B.Has rs s → B.Has rs (g s)) :
    Spends B E (Exec.modify g) ([] : List ρ) := fun _ _ h => hg _ _ h

theorem mono (h : Spends B E x c) (hE : ∀ e, E e → E' e) : Spends B E' x c := by
  intro rs s hs
  have hx := h rs s hs
  unfold wp at hx ⊢
  cases hrun : x s with
  | ok r =>
    rw [hrun] at hx
    exact hx
  | error e =>
    rw [hrun] at hx
    exact hE e hx

/-- The cost of a sequence. -/
theorem bind (hx : Spends B E x c) (hf : ∀ a, Spends B E (f a) d) :
    Spends B E (x >>= f) (c ++ d) := by
  intro rs s hs
  rw [List.append_assoc] at hs
  exact wp_seq (hx _ s hs) fun a t ht => hf a rs t ht

/-- The cost of a sequence whose rest can rely on what the first part answers. -/
theorem bind_answer {P : α → Prop} (hx : Spends B E x c) (hP : Exec.Answers x P)
    (hf : ∀ a, P a → Spends B E (f a) d) : Spends B E (x >>= f) (c ++ d) := by
  intro rs s hs
  rw [List.append_assoc] at hs
  exact wp_seq ((hx _ s hs).and_answers hP) fun a t ht => hf a ht.2 rs t ht.1

/-- A first part that costs nothing. -/
theorem bind_free (hx : Spends B E x ([] : List ρ)) (hf : ∀ a, Spends B E (f a) c) :
    Spends B E (x >>= f) c := hx.bind hf

/-- The value of a state is looked at first. -/
theorem bind_gets {g : σ → α} (hf : ∀ a, Spends B E (f a) c) :
    Spends B E (Exec.gets g >>= f) c := (gets g []).bind_free hf

/-- A rest that costs nothing. -/
theorem bind_last (hx : Spends B E x c) (hf : ∀ a, Spends B E (f a) ([] : List ρ)) :
    Spends B E (x >>= f) c := by
  have h := hx.bind hf
  rw [List.append_nil] at h
  exact h

/-- Resources may be left over in front. -/
theorem more (h : Spends B E x c) (rs : List ρ) : Spends B E x (rs ++ c) := by
  intro rest s hs
  rw [List.append_assoc] at hs
  exact h rest s (B.skips hs)

/-- Resources may be left over behind. -/
theorem more_behind (h : Spends B E x c) (rs : List ρ) : Spends B E x (c ++ rs) := by
  intro rest s hs
  rw [List.append_assoc] at hs
  exact (h _ s hs).mono fun _ _ ht => B.skips ht

/-- Nothing is spent, so anything can be. -/
theorem of_free (h : Spends B E x ([] : List ρ)) (c : List ρ) : Spends B E x c :=
  h.more_behind c

theorem ite {p : Prop} [Decidable p] {y : Exec ε σ α} (hx : p → Spends B E x c)
    (hy : ¬ p → Spends B E y c) : Spends B E (if p then x else y) c := by
  by_cases h : p
  · rw [if_pos h]
    exact hx h
  · rw [if_neg h]
    exact hy h

end Spends

/-- A specification of completed computations joins one that says why the computation stops. -/
theorem wp.and_completed {P Q : α → σ → Prop} {x : Exec ε σ α} (h : wp E x P s)
    (h' : wp (fun _ => True) x Q s) : wp E x (fun a t => P a t ∧ Q a t) s :=
  h.and (wp_of_ok h' fun _ he => h.error he)

/-- Two specifications that leave different reasons to stop: the computation completes. -/
theorem wp.total_of_and {x : Exec ε σ α} {P Q : α → σ → Prop} (h : wp E x P s) (h' : wp E' x Q s)
    (hE : ∀ e, E e → ¬ E' e) : ∃ a t, x s = .ok (a, t) ∧ P a t ∧ Q a t := by
  unfold wp at h h'
  cases hx : x s with
  | error e =>
    rw [hx] at h h'
    exact absurd h' (hE e h)
  | ok r =>
    rw [hx] at h h'
    exact ⟨r.1, r.2, rfl, h, h'⟩

/-- **The budget rule for runs.** If every admitted step from related states completes on both sides
with the cost of its operation, and leaves what is behind it, every admitted run completes with the
costs of its operations. -/
theorem runList_within {τ ι ο ε' : Type} {step : σ → ι → Except ε (ο × σ)}
    {step' : τ → ι → Except ε' (ο × τ)} {ok : σ → ι → Prop} {R : σ → τ → Prop} {cost : ι → List ρ}
    (hstep : ∀ s a i rs, R s a → ok s i → B.Has (cost i ++ rs) s →
      ∃ o t b, step s i = .ok (o, t) ∧ step' a i = .ok (o, b) ∧ R t b ∧ B.Has rs t) :
    ∀ {s : σ} {a : τ} {is : List ι}, R s a → Meets step ok s is → B.Has (is.flatMap cost) s →
      ∃ os t b, runList step s is = .ok (os, t) ∧ runList step' a is = .ok (os, b) ∧ R t b := by
  intro s a is
  induction is generalizing s a with
  | nil => exact fun hR _ _ => ⟨[], s, a, rfl, rfl, hR⟩
  | cons i is ih =>
    intro hR hm hB
    rw [List.flatMap_cons] at hB
    obtain ⟨o, t, b, hs, ha, hR', hB'⟩ := hstep s a i _ hR hm.1 hB
    obtain ⟨os, t', b', hrs, hra, hR''⟩ := ih hR' (hm.2 o t hs) hB'
    refine ⟨o :: os, t', b', ?_, ?_, hR''⟩
    · exact runList_cons_ok.mpr ⟨o, t, os, hs, hrs, rfl⟩
    · exact runList_cons_ok.mpr ⟨o, b, os, ha, hra, rfl⟩

end Verif
