import Mathlib.Data.List.Basic
import Mathlib.Tactic

/-!
# Runs of a deterministic machine

A machine is a step function `step : σ → ι → Except ε (ο × σ)`: in state `s` the operation `i`
either answers with an output and a next state or stops the machine with an error. `runList` feeds
it a list of operations. `Meets step ok s is` says that the side condition `ok` holds at every
operation of the run, in the state where the operation is issued.

Three rules about runs carry the rest:

* `runList_invariant`: an invariant kept by each step whose side condition holds is kept by a run;
under a progress hypothesis the run also completes.
* `runList_simulates`: **refinement**. If every admitted step of a machine is matched by a step of a
second machine with the same output, so is every run.
* `runList_filter`: **unwinding**. If the operations of one owner depend on and change a view of the
state only through that view, and the operations of everybody else leave the view alone, then the
owner's outputs in any interleaving are those of the run of its own operations.
-/

namespace Verif

variable {σ ι ο ε : Type}

/-- Run a list of operations, collecting the outputs. -/
def runList (step : σ → ι → Except ε (ο × σ)) : σ → List ι → Except ε (List ο × σ)
  | s, [] => .ok ([], s)
  | s, i :: is =>
    match step s i with
    | .error e => .error e
    | .ok (o, t) =>
      match runList step t is with
      | .error e => .error e
      | .ok (os, u) => .ok (o :: os, u)

/-- The side condition `ok` holds at each operation of the run, where it is issued. -/
def Meets (step : σ → ι → Except ε (ο × σ)) (ok : σ → ι → Prop) : σ → List ι → Prop
  | _, [] => True
  | s, i :: is => ok s i ∧ ∀ o t, step s i = .ok (o, t) → Meets step ok t is

section Basic

variable {step : σ → ι → Except ε (ο × σ)} {ok : σ → ι → Prop}

@[simp] theorem runList_nil (s : σ) : runList step s [] = .ok ([], s) := rfl

/-- A completed run of `i :: is` is a completed step followed by a completed run. -/
theorem runList_cons_ok {s u : σ} {i : ι} {is : List ι} {os : List ο} :
    runList step s (i :: is) = .ok (os, u) ↔
      ∃ o t os', step s i = .ok (o, t) ∧ runList step t is = .ok (os', u) ∧ os = o :: os' := by
  rw [runList]
  constructor
  · intro h
    cases hs : step s i with
    | error e =>
      rw [hs] at h
      cases h
    | ok r =>
      obtain ⟨o, t⟩ := r
      rw [hs] at h
      dsimp only at h
      cases hr : runList step t is with
      | error e =>
        rw [hr] at h
        cases h
      | ok r' =>
        obtain ⟨os', u'⟩ := r'
        rw [hr] at h
        cases h
        exact ⟨o, t, os', rfl, hr, rfl⟩
  · rintro ⟨o, t, os', hs, hr, rfl⟩
    rw [hs]
    dsimp only
    rw [hr]

/-- One run after another. -/
theorem runList_append {s t u : σ} {is js : List ι} {os os' : List ο}
    (h : runList step s is = .ok (os, t)) (h' : runList step t js = .ok (os', u)) :
    runList step s (is ++ js) = .ok (os ++ os', u) := by
  induction is generalizing s os with
  | nil =>
    cases h
    exact h'
  | cons i is ih =>
    obtain ⟨o, v, os₁, hs, hr, rfl⟩ := runList_cons_ok.mp h
    exact runList_cons_ok.mpr ⟨o, v, os₁ ++ os', hs, ih hr, rfl⟩

/-- A side condition along one run after another. -/
theorem meets_append {s : σ} {is js : List ι} (h : Meets step ok s is)
    (h' : ∀ os t, runList step s is = .ok (os, t) → Meets step ok t js) :
    Meets step ok s (is ++ js) := by
  induction is generalizing s with
  | nil => exact h' [] s rfl
  | cons i is ih =>
    refine ⟨h.1, fun o t hs => ih (h.2 o t hs) fun os u hr => ?_⟩
    exact h' (o :: os) u (runList_cons_ok.mpr ⟨o, t, os, hs, hr, rfl⟩)

/-- A run with no side condition meets it. -/
theorem meets_true : ∀ (s : σ) (is : List ι), Meets step (fun _ _ => True) s is
  | _, [] => trivial
  | _, _ :: is => ⟨trivial, fun _ t _ => meets_true t is⟩

/-- A side condition that implies another one. -/
theorem Meets.mono {ok' : σ → ι → Prop} (himp : ∀ s i, ok s i → ok' s i) :
    ∀ {s : σ} {is : List ι}, Meets step ok s is → Meets step ok' s is
  | _, [], _ => trivial
  | s, i :: _, ⟨h, hr⟩ => ⟨himp s i h, fun o t ht => (hr o t ht).mono himp⟩

/-- **The invariant rule.** What each admitted step keeps, a completed run keeps. -/
theorem runList_invariant {Inv : σ → Prop}
    (hstep : ∀ s i o t, Inv s → ok s i → step s i = .ok (o, t) → Inv t) :
    ∀ {s u : σ} {is : List ι} {os : List ο}, Inv s → Meets step ok s is →
      runList step s is = .ok (os, u) → Inv u := by
  intro s u is
  induction is generalizing s with
  | nil =>
    intro os hI _ hr
    simp only [runList_nil, Except.ok.injEq, Prod.mk.injEq] at hr
    exact hr.2 ▸ hI
  | cons i is ih =>
    intro os hI hm hr
    obtain ⟨o, t, os', hs, hr', -⟩ := runList_cons_ok.mp hr
    exact ih (hstep s i o t hI hm.1 hs) (hm.2 o t hs) hr'

/-- **The history rule.** What each step keeps of a state and the outputs so far, a completed run
keeps. -/
theorem runList_history {Inv : List ο → σ → Prop}
    (hstep : ∀ os s i o t, Inv os s → step s i = .ok (o, t) → Inv (os ++ [o]) t) :
    ∀ {os₀ : List ο} {s u : σ} {is : List ι} {os : List ο}, Inv os₀ s →
      runList step s is = .ok (os, u) → Inv (os₀ ++ os) u := by
  intro os₀ s u is
  induction is generalizing os₀ s with
  | nil =>
    intro os hI hr
    cases hr
    rwa [List.append_nil]
  | cons i is ih =>
    intro os hI hr
    obtain ⟨o, t, os', hs, hr', rfl⟩ := runList_cons_ok.mp hr
    have hrest := ih (hstep os₀ s i o t hI hs) hr'
    rwa [List.append_assoc] at hrest

/-- **The switching rule.** An invariant that is kept as long as `ok` holds, and one that is kept
after the first operation at which it does not. -/
theorem runList_switch {A B : List ο → σ → Prop}
    (hA : ∀ os s i o t, A os s → ok s i → step s i = .ok (o, t) → A (os ++ [o]) t)
    (hAB : ∀ os s i o t, A os s → ¬ ok s i → step s i = .ok (o, t) → B (os ++ [o]) t)
    (hB : ∀ os s i o t, B os s → step s i = .ok (o, t) → B (os ++ [o]) t) :
    ∀ {is : List ι} {os₀ os : List ο} {s u : σ}, A os₀ s → runList step s is = .ok (os, u) →
      (Meets step ok s is ∧ A (os₀ ++ os) u) ∨ (¬ Meets step ok s is ∧ B (os₀ ++ os) u) := by
  intro is
  induction is with
  | nil =>
    intro os₀ os s u hs hr
    cases hr
    rw [List.append_nil]
    exact Or.inl ⟨trivial, hs⟩
  | cons i is ih =>
    intro os₀ os s u hs hr
    obtain ⟨o, t, os', hstep, hr', rfl⟩ := runList_cons_ok.mp hr
    by_cases hok : ok s i
    · have hrest := ih (hA os₀ s i o t hs hok hstep) hr'
      rw [List.append_assoc] at hrest
      refine hrest.imp (fun ⟨hm, hu⟩ => ⟨⟨hok, fun o' t' hs' => ?_⟩, hu⟩)
        fun ⟨hm, hu⟩ => ⟨fun hm' => ?_, hu⟩
      · cases hstep.symm.trans hs'
        exact hm
      · exact hm (hm'.2 o t hstep)
    · have hrest := runList_history hB (hAB os₀ s i o t hs hok hstep) hr'
      rw [List.append_assoc] at hrest
      exact Or.inr ⟨fun hm => hok hm.1, hrest⟩

/-- **The progress rule.** If every admitted step from an invariant state completes and keeps the
invariant, so does every run. -/
theorem runList_progress {Inv : σ → Prop}
    (hstep : ∀ s i, Inv s → ok s i → ∃ o t, step s i = .ok (o, t) ∧ Inv t) :
    ∀ {s : σ} {is : List ι}, Inv s → Meets step ok s is →
      ∃ os u, runList step s is = .ok (os, u) ∧ Inv u := by
  intro s is
  induction is generalizing s with
  | nil => exact fun hI _ => ⟨[], s, rfl, hI⟩
  | cons i is ih =>
    intro hI hm
    obtain ⟨o, t, hs, ht⟩ := hstep s i hI hm.1
    obtain ⟨os, u, hr, hu⟩ := ih ht (hm.2 o t hs)
    exact ⟨o :: os, u, runList_cons_ok.mpr ⟨o, t, os, hs, hr, rfl⟩, hu⟩

/-- A machine that never stops completes every run. -/
theorem runList_total (hstep : ∀ s i, ∃ o t, step s i = .ok (o, t)) :
    ∀ (s : σ) (is : List ι), ∃ os u, runList step s is = .ok (os, u)
  | s, [] => ⟨[], s, rfl⟩
  | s, i :: is => by
    obtain ⟨o, t, hs⟩ := hstep s i
    obtain ⟨os, u, hr⟩ := runList_total hstep t is
    exact ⟨o :: os, u, runList_cons_ok.mpr ⟨o, t, os, hs, hr, rfl⟩⟩

/-- **The exact rule.** If a step from an invariant state has a good output exactly if `ok` holds,
and then keeps the invariant, the outputs of a run are good exactly if `ok` holds at every
operation. -/
theorem runList_outputs_iff {Inv : σ → Prop} {Good : ο → Prop} {dom : ι → Prop}
    (hstep : ∀ s i, Inv s → dom i → ∃ o t, step s i = .ok (o, t) ∧ (Good o ↔ ok s i) ∧
      (ok s i → Inv t)) (htotal : ∀ s i, ∃ o t, step s i = .ok (o, t)) :
    ∀ {s : σ} {is : List ι}, Inv s → (∀ i ∈ is, dom i) →
      ∃ os u, runList step s is = .ok (os, u) ∧ ((∀ o ∈ os, Good o) ↔ Meets step ok s is) := by
  intro s is
  induction is generalizing s with
  | nil =>
    exact fun _ _ => ⟨[], s, rfl, iff_of_true (fun o ho => absurd ho List.not_mem_nil) trivial⟩
  | cons i is ih =>
    intro hI hdom
    obtain ⟨o, t, hs, hiff, hinv⟩ := hstep s i hI (hdom i List.mem_cons_self)
    obtain ⟨os, u, hr⟩ := runList_total htotal t is
    refine ⟨o :: os, u, runList_cons_ok.mpr ⟨o, t, os, hs, hr, rfl⟩, ?_⟩
    -- the rest of a run whose first step is admitted
    have hrest : ok s i → ((∀ o ∈ os, Good o) ↔ Meets step ok t is) := fun hok => by
      obtain ⟨os', u', hr', hiff'⟩ := ih (hinv hok) fun j hj => hdom j (List.mem_cons_of_mem _ hj)
      cases hr.symm.trans hr'
      exact hiff'
    rw [List.forall_mem_cons, hiff]
    constructor
    · rintro ⟨hok, hgood⟩
      refine ⟨hok, fun o' t' hs' => ?_⟩
      cases hs.symm.trans hs'
      exact (hrest hok).mp hgood
    · rintro ⟨hok, hm⟩
      exact ⟨hok, (hrest hok).mpr (hm o t hs)⟩

/-- **The postcondition rule.** If every admitted step from an invariant state completes, meets
`Post` and keeps the invariant, every step of an admitted run completes and meets `Post`. -/
theorem meets_of_progress {Inv : σ → Prop} {Post : σ → ι → ο → σ → Prop}
    (hstep : ∀ s i, Inv s → ok s i → ∃ o t, step s i = .ok (o, t) ∧ Post s i o t ∧ Inv t) :
    ∀ {s : σ} {is : List ι}, Inv s → Meets step ok s is →
      Meets step (fun s i => ∃ o t, step s i = .ok (o, t) ∧ Post s i o t) s is := by
  intro s is
  induction is generalizing s with
  | nil => exact fun _ _ => trivial
  | cons i is ih =>
    intro hI hm
    obtain ⟨o, t, hs, hpost, ht⟩ := hstep s i hI hm.1
    refine ⟨⟨o, t, hs, hpost⟩, fun o' t' hs' => ?_⟩
    obtain ⟨rfl, rfl⟩ : o' = o ∧ t' = t := by
      rw [hs] at hs'
      simpa [eq_comm] using hs'
    exact ih ht (hm.2 o' t' hs')

/-- **The refinement rule.** If every admitted step from related states completes on both sides,
with the same output and related successors, every admitted run does. -/
theorem runList_simulates {τ ε' : Type} {step' : τ → ι → Except ε' (ο × τ)} {R : σ → τ → Prop}
    (hstep : ∀ s a i, R s a → ok s i →
      ∃ o t b, step s i = .ok (o, t) ∧ step' a i = .ok (o, b) ∧ R t b) :
    ∀ {s : σ} {a : τ} {is : List ι}, R s a → Meets step ok s is →
      ∃ os t b, runList step s is = .ok (os, t) ∧ runList step' a is = .ok (os, b) ∧ R t b := by
  intro s a is
  induction is generalizing s a with
  | nil => exact fun hR _ => ⟨[], s, a, rfl, rfl, hR⟩
  | cons i is ih =>
    intro hR hm
    obtain ⟨o, t, b, hs, ha, hR'⟩ := hstep s a i hR hm.1
    obtain ⟨os, t', b', hrs, hra, hR''⟩ := ih hR' (hm.2 o t hs)
    refine ⟨o :: os, t', b', ?_, ?_, hR''⟩
    · exact runList_cons_ok.mpr ⟨o, t, os, hs, hrs, rfl⟩
    · exact runList_cons_ok.mpr ⟨o, b, os, ha, hra, rfl⟩

/-- **The agreement rule.** If two machines do the same in every invariant state, and one of them
keeps the invariant, they do the same in every run. -/
theorem runList_congr {step' : σ → ι → Except ε (ο × σ)} {Inv : σ → Prop}
    (hsame : ∀ s i, Inv s → step s i = step' s i)
    (hstep : ∀ s i o t, Inv s → step' s i = .ok (o, t) → Inv t) :
    ∀ {s : σ} {is : List ι}, Inv s → runList step s is = runList step' s is := by
  intro s is
  induction is generalizing s with
  | nil => exact fun _ => rfl
  | cons i is ih =>
    intro hI
    rw [runList, runList, hsame s i hI]
    cases hs : step' s i with
    | error e => rfl
    | ok r =>
      dsimp only
      rw [ih (hstep s i r.1 r.2 hI hs)]

/-- The refinement rule for a machine that may stop: every admitted run is matched, or it stops for
a reason an admitted step from related states can stop for. -/
theorem runList_refines {τ ε' : Type} {step' : τ → ι → Except ε' (ο × τ)} {R : σ → τ → Prop}
    {E : ε → Prop}
    (hstep : ∀ s a i, R s a → ok s i →
      (∃ e, step s i = .error e ∧ E e) ∨
        ∃ o t b, step s i = .ok (o, t) ∧ step' a i = .ok (o, b) ∧ R t b) :
    ∀ {s : σ} {a : τ} {is : List ι}, R s a → Meets step ok s is →
      (∃ e, runList step s is = .error e ∧ E e) ∨
        ∃ os t b, runList step s is = .ok (os, t) ∧ runList step' a is = .ok (os, b) ∧ R t b := by
  intro s a is
  induction is generalizing s a with
  | nil => exact fun hR _ => Or.inr ⟨[], s, a, rfl, rfl, hR⟩
  | cons i is ih =>
    intro hR hm
    rcases hstep s a i hR hm.1 with ⟨e, hs, hE⟩ | ⟨o, t, b, hs, ha, hR'⟩
    · refine Or.inl ⟨e, ?_, hE⟩
      rw [runList, hs]
    · rcases ih hR' (hm.2 o t hs) with ⟨e, hrs, hE⟩ | ⟨os, t', b', hrs, hra, hR''⟩
      · refine Or.inl ⟨e, ?_, hE⟩
        rw [runList, hs]
        dsimp only
        rw [hrs]
      · refine Or.inr ⟨o :: os, t', b', ?_, ?_, hR''⟩
        · exact runList_cons_ok.mpr ⟨o, t, os, hs, hrs, rfl⟩
        · exact runList_cons_ok.mpr ⟨o, b, os, ha, hra, rfl⟩

/-- The invariant rule for a machine that may stop: an admitted run stops for a reason in `E`, or it
completes and keeps the invariant, if that is so of every admitted step. -/
theorem runList_either {Inv : σ → Prop} {E : ε → Prop}
    (hstep : ∀ s i, Inv s → ok s i → (∃ e, step s i = .error e ∧ E e) ∨
      ∃ o t, step s i = .ok (o, t) ∧ Inv t) {s : σ} {is : List ι} (hs : Inv s)
    (hm : Meets step ok s is) : (∃ e, runList step s is = .error e ∧ E e) ∨
      ∃ os u, runList step s is = .ok (os, u) ∧ Inv u := by
  have hself : ∀ s a i, s = a ∧ Inv s → ok s i → (∃ e, step s i = .error e ∧ E e) ∨
      ∃ o t b, step s i = .ok (o, t) ∧ step a i = .ok (o, b) ∧ t = b ∧ Inv t := by
    rintro s _ i ⟨rfl, hI⟩ hok
    refine (hstep s i hI hok).imp_right ?_
    rintro ⟨o, t, ht, hI'⟩
    exact ⟨o, t, t, ht, ht, rfl, hI'⟩
  refine (runList_refines hself ⟨rfl, hs⟩ hm).imp_right ?_
  rintro ⟨os, u, v, hu, -, -, hI⟩
  exact ⟨os, u, hu, hI⟩

/-- What every admitted step keeps holds at every operation of an admitted run. -/
theorem meets_of_invariant {Inv : σ → Prop} {ok' : σ → ι → Prop}
    (hstep : ∀ s i o t, Inv s → ok s i → step s i = .ok (o, t) → Inv t)
    (hok : ∀ s i, Inv s → ok s i → ok' s i) :
    ∀ {s : σ} {is : List ι}, Inv s → Meets step ok s is → Meets step ok' s is
  | _, [], _, _ => trivial
  | s, i :: _, hI, ⟨h, hr⟩ =>
    ⟨hok s i hI h, fun o t ht => meets_of_invariant hstep hok (hstep s i o t hI h ht) (hr o t ht)⟩

/-- What holds after each operation of a run holds at the end of it. -/
theorem meets_last {Post : σ → Prop} :
    ∀ {s u : σ} {is : List ι} {os : List ο},
      Meets step (fun s i => ∀ o t, step s i = .ok (o, t) → Post t) s is →
        runList step s is = .ok (os, u) → is ≠ [] → Post u
  | _, _, [], _, _, _, hne => absurd rfl hne
  | _, _, i :: is, _, ⟨h, hm⟩, hr, _ => by
    obtain ⟨o, t, os', hs, hr', -⟩ := runList_cons_ok.mp hr
    cases is with
    | nil =>
      cases hr'
      exact h o _ hs
    | cons j is => exact meets_last (hm o t hs) hr' (List.cons_ne_nil j is)

/-- **The exact rule for side conditions.** If in an invariant state an admitted operation is good
exactly if `cond` holds, and then keeps the invariant, all operations of an admitted run are good
exactly if `cond` holds at all of them. -/
theorem meets_iff {Inv : σ → Prop} {good cond : σ → ι → Prop}
    (hiff : ∀ s i, Inv s → ok s i → (good s i ↔ cond s i))
    (hstep : ∀ s i o t, Inv s → ok s i → cond s i → step s i = .ok (o, t) → Inv t) :
    ∀ {s : σ} {is : List ι}, Inv s → Meets step ok s is →
      (Meets step good s is ↔ Meets step cond s is)
  | _, [], _, _ => Iff.rfl
  | s, i :: _, hI, ⟨h, hr⟩ => by
    have hrest : cond s i → ∀ o t, step s i = .ok (o, t) →
        (Meets step good t _ ↔ Meets step cond t _) :=
      fun hc o t ht => meets_iff hiff hstep (hstep s i o t hI h hc ht) (hr o t ht)
    constructor
    · rintro ⟨hg, hgr⟩
      have hc := (hiff s i hI h).mp hg
      exact ⟨hc, fun o t ht => (hrest hc o t ht).mp (hgr o t ht)⟩
    · rintro ⟨hc, hcr⟩
      exact ⟨(hiff s i hI h).mpr hc, fun o t ht => (hrest hc o t ht).mpr (hcr o t ht)⟩

/-- What stops a run stops one of its operations in an invariant state. -/
theorem runList_stops {Inv : σ → Prop} {E : ι → ε → Prop}
    (hstep : ∀ s i, Inv s → (∃ e, step s i = .error e ∧ E i e) ∨
      ∃ o t, step s i = .ok (o, t) ∧ Inv t) :
    ∀ {s : σ} {is : List ι} {e : ε}, Inv s → runList step s is = .error e → ∃ i ∈ is, E i e := by
  intro s is
  induction is generalizing s with
  | nil => exact fun _ h => by cases h
  | cons i is ih =>
    intro e hI h
    rw [runList] at h
    rcases hstep s i hI with ⟨e', hs, hE⟩ | ⟨o, t, hs, ht⟩
    · rw [hs] at h
      cases h
      exact ⟨i, List.mem_cons_self, hE⟩
    · rw [hs] at h
      dsimp only at h
      cases hr : runList step t is with
      | error e' =>
        rw [hr] at h
        cases h
        obtain ⟨j, hj, hE⟩ := ih ht hr
        exact ⟨j, List.mem_cons_of_mem _ hj, hE⟩
      | ok r =>
        rw [hr] at h
        cases h

/-! ### Unwinding -/

/-- Of the outputs of a run, those of the operations in `own`. -/
def ownOutputs (own : ι → Prop) [DecidablePred own] : List ι → List ο → List ο
  | i :: is, o :: os => if own i then o :: ownOutputs own is os else ownOutputs own is os
  | _, _ => []

section Unwinding

variable {V : Type} {own : ι → Prop} {view : σ → V} {vstep : V → ι → Except ε (ο × V)}
  {Inv : σ → Prop}

/-- A run of own operations is a run on the view. -/
theorem runList_of_view
    (hown : ∀ s i, Inv s → own i → (∃ e, step s i = .error e ∧ vstep (view s) i = .error e) ∨
      ∃ o t, step s i = .ok (o, t) ∧ vstep (view s) i = .ok (o, view t) ∧ Inv t) :
    ∀ {s : σ} {is : List ι} {os : List ο} {v : V}, Inv s → (∀ i ∈ is, own i) →
      runList vstep (view s) is = .ok (os, v) →
      ∃ u, runList step s is = .ok (os, u) ∧ view u = v := by
  intro s is
  induction is generalizing s with
  | nil =>
    intro os v _ _ h
    cases h
    exact ⟨s, rfl, rfl⟩
  | cons i is ih =>
    intro os v hI hall h
    obtain ⟨o, w, os', hs, hr, rfl⟩ := runList_cons_ok.mp h
    rcases hown s i hI (hall i List.mem_cons_self) with ⟨e, -, he⟩ | ⟨o', t, hst, hvt, ht⟩
    · rw [hs] at he
      cases he
    · rw [hs] at hvt
      cases hvt
      obtain ⟨u, hu, hv⟩ := ih ht (fun j hj => hall j (List.mem_cons_of_mem _ hj)) hr
      exact ⟨u, runList_cons_ok.mpr ⟨o, t, os', hst, hu, rfl⟩, hv⟩

/-- In any run the own operations are a run on the view. -/
theorem runList_view [DecidablePred own]
    (hown : ∀ s i, Inv s → own i → (∃ e, step s i = .error e ∧ vstep (view s) i = .error e) ∨
      ∃ o t, step s i = .ok (o, t) ∧ vstep (view s) i = .ok (o, view t) ∧ Inv t)
    (hother : ∀ s i o t, Inv s → ¬ own i → ok s i → step s i = .ok (o, t) →
      Inv t ∧ view t = view s) :
    ∀ {s u : σ} {is : List ι} {os : List ο}, Inv s → Meets step ok s is →
      runList step s is = .ok (os, u) →
      runList vstep (view s) (is.filter own) = .ok (ownOutputs own is os, view u) := by
  intro s u is
  induction is generalizing s with
  | nil =>
    intro os _ _ h
    cases h
    rfl
  | cons i is ih =>
    intro os hI hm h
    obtain ⟨o, t, os', hs, hr, rfl⟩ := runList_cons_ok.mp h
    by_cases hi : own i
    · rw [List.filter_cons, if_pos (decide_eq_true hi), ownOutputs, if_pos hi]
      rcases hown s i hI hi with ⟨e, he, -⟩ | ⟨o', t', hs', hv, ht⟩
      · rw [hs] at he
        cases he
      · rw [hs] at hs'
        cases hs'
        exact runList_cons_ok.mpr ⟨o, view t, _, hv, ih ht (hm.2 o t hs) hr, rfl⟩
    · rw [List.filter_cons, if_neg fun h => hi (of_decide_eq_true h), ownOutputs, if_neg hi]
      obtain ⟨ht, hview⟩ := hother s i o t hI hi hm.1 hs
      rw [← hview]
      exact ih ht (hm.2 o t hs) hr

/-- **The unwinding rule.** If the own operations depend on a view of the state only, and change
nothing else of it that they see, and all others leave the view alone, then in any run the own
operations answer as in the run of the own operations. -/
theorem runList_filter [DecidablePred own]
    (hown : ∀ s i, Inv s → own i → (∃ e, step s i = .error e ∧ vstep (view s) i = .error e) ∨
      ∃ o t, step s i = .ok (o, t) ∧ vstep (view s) i = .ok (o, view t) ∧ Inv t)
    (hother : ∀ s i o t, Inv s → ¬ own i → ok s i → step s i = .ok (o, t) →
      Inv t ∧ view t = view s) {s u : σ} {is : List ι} {os : List ο} (hI : Inv s)
    (hm : Meets step ok s is) (hr : runList step s is = .ok (os, u)) :
    ∃ v, runList step s (is.filter own) = .ok (ownOutputs own is os, v) := by
  have hview := runList_view hown hother hI hm hr
  obtain ⟨v, hv, -⟩ := runList_of_view hown hI
    (fun i hi => of_decide_eq_true (List.mem_filter.mp hi).2) hview
  exact ⟨v, hv⟩

end Unwinding

/-- A decidable check of a side condition along a run. -/
def checkRun (step : σ → ι → Except ε (ο × σ)) (check : σ → ι → Bool) : σ → List ι → Bool
  | _, [] => true
  | s, i :: is =>
    check s i &&
      match step s i with
      | .error _ => true
      | .ok (_, t) => checkRun step check t is

/-- A run that passes a check meets every side condition the check implies. -/
theorem meets_of_checkRun (check : σ → ι → Bool) (himp : ∀ s i, check s i = true → ok s i) :
    ∀ {s : σ} {is : List ι}, checkRun step check s is = true → Meets step ok s is
  | _, [], _ => trivial
  | s, i :: is, h => by
    rw [checkRun, Bool.and_eq_true] at h
    refine ⟨himp s i h.1, fun o t ht => ?_⟩
    have hrest := h.2
    rw [ht] at hrest
    exact meets_of_checkRun check himp hrest

end Basic

end Verif
