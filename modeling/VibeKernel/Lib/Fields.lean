import Mathlib.Data.List.Pairwise
import Mathlib.Tactic

/-!
# Fields of a line

The positions `0, …, n - 1` of a line, some of which are blank. A *field* is a maximal non-empty
range without blanks. `FieldsFrom blank n p ts` says that `ts` lists the fields that begin at `p` or
behind, in their order. A scanner finds them one after the other (`FieldsFrom.cons`): it skips
blanks up to a position that has none, and from there all positions up to the next blank or the end.

`scan` is the loop that both of its parts are: go on while a condition holds. It has fuel, and
`scan_stops` says how much is enough.

The fields of a list, where some elements separate them, are its `words` (`FieldsFrom.words_eq`).
-/

namespace Verif

/-! ### Scanning -/

/-- The first position from `p` on that does not satisfy `f`, if it is found in fewer than `n`
steps. -/
def scan (f : ℕ → Bool) : ℕ → ℕ → Option ℕ
  | 0, _ => none
  | n + 1, p => if f p then scan f n (p + 1) else some p

/-- A scan that stops at `r` at the latest ends at the first position that stops it. -/
theorem scan_stops {f : ℕ → Bool} {r : ℕ} (hr : f r = false) :
    ∀ {n p : ℕ}, p ≤ r → r - p < n →
      ∃ q, scan f n p = some q ∧ p ≤ q ∧ q ≤ r ∧ (∀ k, p ≤ k → k < q → f k = true) ∧
        f q = false := by
  intro n
  induction n with
  | zero => exact fun _ hn => absurd hn (Nat.not_lt_zero _)
  | succ n ih =>
    intro p hp hn
    cases hf : f p with
    | false =>
      refine ⟨p, ?_, le_refl _, hp, fun k hk hk' => absurd hk (Nat.not_le.mpr hk'), hf⟩
      rw [scan, hf]
      rfl
    | true =>
      have hne : p ≠ r := fun h => by rw [h, hr] at hf; cases hf
      obtain ⟨q, hq, hpq, hqr, hbefore, hstop⟩ := ih (by omega : p + 1 ≤ r) (by omega)
      refine ⟨q, ?_, by omega, hqr, fun k hk hkq => ?_, hstop⟩
      · rw [scan, hf, if_pos rfl, hq]
      · rcases Nat.eq_or_lt_of_le hk with rfl | hlt
        · exact hf
        · exact hbefore k hlt hkq

/-! ### Fields -/

/-- The range `[i, j)` is a maximal non-empty range without blanks. -/
structure IsField (blank : ℕ → Prop) (n i j : ℕ) : Prop where
  nonempty : i < j
  inside : j ≤ n
  solid : ∀ k, i ≤ k → k < j → ¬ blank k
  left : i = 0 ∨ blank (i - 1)
  right : j = n ∨ blank j

/-- The fields that begin at `p` or behind, in their order. -/
structure FieldsFrom (blank : ℕ → Prop) (n p : ℕ) (ts : List (ℕ × ℕ)) : Prop where
  sorted : ts.Pairwise fun s t => s.2 ≤ t.1
  mem_iff : ∀ t, t ∈ ts ↔ IsField blank n t.1 t.2 ∧ p ≤ t.1

variable {blank : ℕ → Prop} {n p : ℕ}

/-- Two fields that begin at the same position are the same. -/
theorem IsField.stop_unique {i j j' : ℕ} (h : IsField blank n i j) (h' : IsField blank n i j') :
    j = j' := by
  have hle : ∀ {x y : ℕ}, IsField blank n i x → IsField blank n i y → x ≤ y := by
    intro x y hx hy
    by_contra hlt
    -- the first would go on where the second ends
    rcases hy.right with heq | hb
    · exact absurd hx.inside (by omega)
    · exact hx.solid y (le_of_lt hy.nonempty) (Nat.lt_of_not_le hlt) hb
  exact le_antisymm (hle h h') (hle h' h)

/-- No field begins at a blank. -/
theorem IsField.not_blank {i j : ℕ} (h : IsField blank n i j) : ¬ blank i :=
  h.solid i (le_refl _) h.nonempty

/-- There is none behind the last position that is not blank. -/
theorem FieldsFrom.nil (h : ∀ k, p ≤ k → k < n → blank k) : FieldsFrom blank n p [] where
  sorted := List.Pairwise.nil
  mem_iff t := by
    refine iff_of_false List.not_mem_nil fun ⟨ht, hp⟩ => ?_
    exact ht.not_blank (h _ hp (ht.nonempty.trans_le ht.inside))

/-- The first field behind `p`: blanks up to `i`, none up to `j`, and blanks from there to `q`. -/
theorem FieldsFrom.cons {i j q : ℕ} {ts : List (ℕ × ℕ)} (hp : p = 0 ∨ blank (p - 1))
    (hpi : p ≤ i) (hblank : ∀ k, p ≤ k → k < i → blank k) (hij : i < j) (hjn : j ≤ n)
    (hsolid : ∀ k, i ≤ k → k < j → ¬ blank k) (hright : j = n ∨ blank j) (hjq : j ≤ q)
    (hgap : ∀ k, j ≤ k → k < q → blank k) (h : FieldsFrom blank n q ts) :
    FieldsFrom blank n p ((i, j) :: ts) where
  sorted := by
    refine List.pairwise_cons.mpr ⟨fun t ht => ?_, h.sorted⟩
    exact hjq.trans ((h.mem_iff t).mp ht).2
  mem_iff t := by
    have hfield : IsField blank n i j := by
      refine ⟨hij, hjn, hsolid, ?_, hright⟩
      rcases Nat.eq_or_lt_of_le hpi with heq | hlt
      · exact heq ▸ hp
      · exact Or.inr (hblank (i - 1) (by omega) (by omega))
    rw [List.mem_cons, h.mem_iff]
    constructor
    · rintro (rfl | ⟨ht, hq⟩)
      · exact ⟨hfield, hpi⟩
      · exact ⟨ht, by omega⟩
    · rintro ⟨ht, hpt⟩
      -- where does it begin?
      by_cases hti : t.1 < i
      · exact absurd (hblank _ hpt hti) ht.not_blank
      by_cases heq : t.1 = i
      · refine Or.inl (Prod.ext heq ?_)
        exact (heq ▸ ht).stop_unique hfield
      by_cases htj : t.1 < j
      · rcases ht.left with h0 | hb
        · omega
        · exact absurd hb (hsolid _ (by omega) (by omega))
      · refine Or.inr ⟨ht, ?_⟩
        by_contra hlt
        exact ht.not_blank (hgap _ (by omega) (by omega))

/-- The fields can be listed from the start and from every blank on. -/
theorem exists_fieldsFrom (hp : p = 0 ∨ blank (p - 1)) : ∃ ts, FieldsFrom blank n p ts := by
  classical
  induction hd : n - p using Nat.strong_induction_on generalizing p with
  | _ d ih =>
    by_cases hall : ∀ k, p ≤ k → k < n → blank k
    · exact ⟨[], FieldsFrom.nil hall⟩
    push Not at hall
    obtain ⟨k, hpk, hkn, hk⟩ := hall
    -- the first position without a blank, and the first blank behind it
    obtain ⟨i, -, hpi, hik, hblank, hi⟩ := @scan_stops (fun k => decide (blank k)) k
      (decide_eq_false hk) (n + 1) p hpk (by omega)
    obtain ⟨j, -, hij, hjn, hsolid, hj⟩ := @scan_stops (fun k => decide (k < n ∧ ¬ blank k)) n
      (decide_eq_false fun h => absurd h.1 (lt_irrefl n)) (n + 1) i (by omega) (by omega)
    have hi' : ¬ blank i := of_decide_eq_false hi
    have hj' : j = n ∨ blank j := by
      by_contra hcon
      push Not at hcon
      exact of_decide_eq_false hj ⟨by omega, hcon.2⟩
    have hlt : i < j := by
      refine lt_of_le_of_ne hij ?_
      rintro rfl
      rcases hj' with rfl | h
      · omega
      · exact hi' h
    have hblank' : ∀ k, p ≤ k → k < i → blank k := fun k h h' => of_decide_eq_true (hblank k h h')
    have hsolid' : ∀ k, i ≤ k → k < j → ¬ blank k := fun k h h' =>
      (of_decide_eq_true (hsolid k h h')).2
    by_cases hend : j = n
    · refine ⟨_, FieldsFrom.cons hp hpi hblank' hlt hjn hsolid' hj' (le_refl _)
        (fun k h h' => absurd h (Nat.not_le.mpr h')) (FieldsFrom.nil fun k h h' => ?_)⟩
      omega
    · have hbj : blank j := hj'.resolve_left hend
      obtain ⟨ts, hts⟩ := ih (n - (j + 1)) (by omega) (p := j + 1)
        (Or.inr (by rwa [Nat.add_sub_cancel])) rfl
      refine ⟨_, FieldsFrom.cons hp hpi hblank' hlt hjn hsolid' hj'
        (Nat.le_succ j) (fun k h h' => ?_) hts⟩
      rwa [show k = j by omega]

/-! ### Words -/

section Words

variable {α : Type} {l : List α} {stop : α → Bool} {ts : List (ℕ × ℕ)}

/-- The words of a list: what is left of it between the elements that separate them. -/
def words (stop : α → Bool) (l : List α) : List (List α) :=
  (l.splitOnP stop).filter fun w => !w.isEmpty

/-- The positions of the separating elements. -/
def Blank (stop : α → Bool) (l : List α) (k : ℕ) : Prop := ∃ x, l[k]? = some x ∧ stop x = true

/-- The elements in a range. -/
def rangeOf (l : List α) (t : ℕ × ℕ) : List α := (l.drop t.1).take (t.2 - t.1)

theorem words_nil (stop : α → Bool) : words stop [] = [] := by
  unfold words
  rw [List.splitOnP_nil]
  rfl

theorem words_stop {x : α} (h : stop x = true) (l : List α) :
    words stop (x :: l) = words stop l := by
  unfold words
  rw [List.splitOnP_cons_eq_if_modifyHead, if_pos h]
  rfl

/-- A word ends with the list or at a separating element. -/
theorem words_append {w : List α} (hne : w ≠ []) (h : ∀ x ∈ w, stop x = false) {rest : List α}
    (hrest : ∀ x, rest.head? = some x → stop x = true) :
    words stop (w ++ rest) = w :: words stop rest := by
  have hkeep : (!w.isEmpty) = true := by
    rw [Bool.not_eq_true', List.isEmpty_eq_false_iff]
    exact hne
  cases rest with
  | nil =>
    rw [List.append_nil, words_nil]
    unfold words
    rw [List.splitOnP_eq_singleton h, List.filter_cons, if_pos hkeep]
    rfl
  | cons x rest =>
    have hx := hrest x rfl
    rw [words_stop hx]
    unfold words
    rw [List.splitOnP_append_cons_of_forall_mem h x hx, List.filter_cons, if_pos hkeep]

/-- A field begins at a position that is not blank, behind a blank or at the start. -/
theorem exists_isField (hp : p = 0 ∨ blank (p - 1)) (hpn : p < n) (hsolid : ¬ blank p) :
    ∃ j, IsField blank n p j := by
  classical
  obtain ⟨j, -, hpj, hjn, hbefore, hj⟩ := @scan_stops (fun k => decide (k < n ∧ ¬ blank k)) n
    (decide_eq_false fun h => absurd h.1 (lt_irrefl n)) (n + 1) p (le_of_lt hpn) (by omega)
  have hright : j = n ∨ blank j := by
    by_contra hcon
    push Not at hcon
    exact of_decide_eq_false hj ⟨by omega, hcon.2⟩
  refine ⟨j, lt_of_le_of_ne hpj ?_, hjn, fun k hk hkj => ?_, hp, hright⟩
  · rintro rfl
    exact hright.elim (ne_of_lt hpn) hsolid
  · exact (of_decide_eq_true (hbefore k hk hkj)).2

/-- No field begins behind the end. -/
theorem FieldsFrom.eq_nil (h : FieldsFrom blank n p ts) (hp : n ≤ p) : ts = [] := by
  rw [List.eq_nil_iff_forall_not_mem]
  intro t ht
  obtain ⟨hfield, hpt⟩ := (h.mem_iff t).mp ht
  have hlt := hfield.nonempty
  have hin := hfield.inside
  omega

/-- A blank is skipped. -/
theorem FieldsFrom.skip (h : FieldsFrom blank n p ts) (hp : blank p) :
    FieldsFrom blank n (p + 1) ts := by
  refine ⟨h.sorted, fun t => (h.mem_iff t).trans (and_congr_right fun ht => ?_)⟩
  have hne : t.1 ≠ p := fun heq => ht.not_blank (heq ▸ hp)
  omega

/-- The field that begins at `p` is the first one. -/
theorem FieldsFrom.head {j : ℕ} (h : FieldsFrom blank n p ts) (hfield : IsField blank n p j) :
    ∃ ts', ts = (p, j) :: ts' ∧ FieldsFrom blank n j ts' := by
  have hmem : (p, j) ∈ ts := (h.mem_iff (p, j)).mpr ⟨hfield, le_refl p⟩
  cases ts with
  | nil => exact absurd hmem List.not_mem_nil
  | cons t ts' =>
    obtain ⟨hbefore, hsorted⟩ := List.pairwise_cons.mp h.sorted
    have ht := (h.mem_iff t).mp List.mem_cons_self
    -- nothing lies in front of it
    have heq : t = (p, j) := by
      rcases List.mem_cons.mp hmem with heq | hlater
      · exact heq.symm
      · have hle : t.2 ≤ p := hbefore _ hlater
        have hlt := ht.1.nonempty
        have hge := ht.2
        omega
    subst heq
    refine ⟨ts', rfl, hsorted, fun u => ⟨fun hu => ?_, fun hu => ?_⟩⟩
    · exact ⟨((h.mem_iff u).mp (List.mem_cons_of_mem _ hu)).1, hbefore u hu⟩
    · have hju : j ≤ u.1 := hu.2
      have hpj := hfield.nonempty
      rcases List.mem_cons.mp ((h.mem_iff u).mpr ⟨hu.1, by omega⟩) with rfl | hu'
      · exact absurd hju (Nat.not_le.mpr hpj)
      · exact hu'

theorem blank_iff {k : ℕ} (hk : k < l.length) : Blank stop l k ↔ stop l[k] = true := by
  unfold Blank
  rw [List.getElem?_eq_getElem hk]
  constructor
  · rintro ⟨x, hx, h⟩
    rwa [Option.some.inj hx]
  · exact fun h => ⟨_, rfl, h⟩

theorem words_blank (hp : Blank stop l p) :
    words stop (l.drop p) = words stop (l.drop (p + 1)) := by
  obtain ⟨x, hx, hstop⟩ := hp
  obtain ⟨hlt, rfl⟩ := List.getElem?_eq_some_iff.mp hx
  rw [List.drop_eq_getElem_cons hlt, words_stop hstop]

/-- An element of a range has a position in it. -/
theorem mem_rangeOf {x : α} {i j : ℕ} (hx : x ∈ rangeOf l (i, j)) :
    ∃ k, i ≤ k ∧ k < j ∧ l[k]? = some x := by
  obtain ⟨m, hm⟩ := List.mem_iff_getElem?.mp hx
  unfold rangeOf at hm
  rw [List.getElem?_take] at hm
  split_ifs at hm with hlt
  rw [List.getElem?_drop] at hm
  exact ⟨i + m, Nat.le_add_right i m, by omega, hm⟩

/-- A field is a word. -/
theorem IsField.words_eq {i j : ℕ} (h : IsField (Blank stop l) l.length i j) :
    words stop (l.drop i) = rangeOf l (i, j) :: words stop (l.drop j) := by
  have hij := h.nonempty
  have hjn := h.inside
  have hsplit : l.drop i = rangeOf l (i, j) ++ l.drop j := by
    have hdrop : l.drop j = (l.drop i).drop (j - i) := by
      rw [List.drop_drop, Nat.add_sub_cancel' (le_of_lt hij)]
    rw [hdrop]
    exact (List.take_append_drop _ _).symm
  have hlen : (rangeOf l (i, j)).length = j - i := by
    unfold rangeOf
    rw [List.length_take, List.length_drop]
    exact Nat.min_eq_left (Nat.sub_le_sub_right hjn i)
  rw [hsplit]
  refine words_append (fun hnil => ?_) (fun x hx => ?_) fun x hx => ?_
  · rw [hnil, List.length_nil] at hlen
    omega
  · obtain ⟨k, hik, hkj, hk⟩ := mem_rangeOf hx
    exact Bool.not_eq_true _ ▸ fun hstop => h.solid k hik hkj ⟨x, hk, hstop⟩
  · rw [List.head?_drop] at hx
    rcases h.right with heq | ⟨y, hy, hstop⟩
    · rw [heq, List.getElem?_eq_none (le_refl _)] at hx
      cases hx
    · rw [hx] at hy
      cases hy
      exact hstop

/-- **The fields of a list are its words.** -/
theorem FieldsFrom.words_eq (hp : p = 0 ∨ Blank stop l (p - 1))
    (h : FieldsFrom (Blank stop l) l.length p ts) :
    ts.map (rangeOf l) = words stop (l.drop p) := by
  induction hd : l.length - p using Nat.strong_induction_on generalizing p ts with
  | _ d ih =>
    have hnone : ∀ {q : ℕ} {us : List (ℕ × ℕ)},
        FieldsFrom (Blank stop l) l.length q us → l.length ≤ q →
        us.map (rangeOf l) = words stop (l.drop q) := fun hus hq => by
      rw [hus.eq_nil hq, List.drop_eq_nil_of_le hq, words_nil]
      rfl
    by_cases hend : l.length ≤ p
    · exact hnone h hend
    by_cases hblank : Blank stop l p
    · rw [words_blank hblank]
      exact ih _ (by omega) (Or.inr (by rwa [Nat.add_sub_cancel])) (h.skip hblank) rfl
    obtain ⟨j, hfield⟩ := exists_isField hp (Nat.not_le.mp hend) hblank
    obtain ⟨ts', rfl, hts'⟩ := h.head hfield
    have hpj := hfield.nonempty
    rw [hfield.words_eq, List.map_cons]
    refine congrArg _ ?_
    rcases hfield.right with hjn | hb
    · exact hnone hts' (le_of_eq hjn.symm)
    · rw [words_blank hb]
      exact ih _ (by omega) (Or.inr (by rwa [Nat.add_sub_cancel])) (hts'.skip hb) rfl

end Words

end Verif
