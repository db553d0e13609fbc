import Mathlib.Data.List.Basic
import Mathlib.Tactic

/-!
# Singly linked lists in a store

A linked list is a store of successors `next : α → α` together with a null value.
`Chain next nil p l` says that following `next` from `p` visits exactly the members of `l`, in
order, and then reaches `nil`. `Seg next p l q` is the list segment: it stops at `q` instead.

The edits a program makes to such a list are local: overwriting the successor of one member keeps
the part in front of it, and what comes behind is whatever the new successor leads to
(`Chain.redirect`). Appending at the end (`Chain.append`) and taking a member out (`Chain.unlink`)
are its instances.

`Linked next prev nil head tail l` is the doubly linked list: a chain in both directions.
-/

namespace Verif

variable {α : Type}

/-- Following `next` from `p` visits `l` and then stands at `q`. -/
def Seg (next : α → α) : α → List α → α → Prop
  | p, [], q => p = q
  | p, b :: l, q => p = b ∧ Seg next (next b) l q

/-- Following `next` from `p` visits `l`, none of them `nil`, and ends at `nil`. -/
def Chain (next : α → α) (nil : α) (p : α) (l : List α) : Prop :=
  Seg next p l nil ∧ nil ∉ l

@[simp] theorem seg_nil {next : α → α} {p q : α} : Seg next p [] q ↔ p = q := Iff.rfl

@[simp] theorem seg_cons {next : α → α} {p q b : α} {l : List α} :
    Seg next p (b :: l) q ↔ p = b ∧ Seg next (next b) l q := Iff.rfl

/-- A segment over a concatenation splits at the seam. -/
theorem seg_append {next : α → α} {q : α} :
    ∀ {p : α} {l₁ l₂ : List α},
      Seg next p (l₁ ++ l₂) q ↔ ∃ r, Seg next p l₁ r ∧ Seg next r l₂ q
  | p, [], l₂ => by simp
  | p, b :: l₁, l₂ => by
    simp only [List.cons_append, seg_cons, seg_append]
    constructor
    · rintro ⟨hb, r, h₁, h₂⟩
      exact ⟨r, ⟨hb, h₁⟩, h₂⟩
    · rintro ⟨r, ⟨hb, h₁⟩, h₂⟩
      exact ⟨hb, r, h₁, h₂⟩

/-- A segment reads only the successors of its own members. -/
theorem Seg.congr {next next' : α → α} {q : α} :
    ∀ {p : α} {l : List α}, Seg next p l q → (∀ b ∈ l, next' b = next b) → Seg next' p l q
  | _, [], h, _ => h
  | _, b :: l, ⟨hb, h⟩, hn => by
    refine ⟨hb, ?_⟩
    rw [hn b List.mem_cons_self]
    exact Seg.congr h fun c hc => hn c (List.mem_cons_of_mem _ hc)

/-- Two segments from one address are equal if they run up to the first stop. -/
theorem Seg.unique {next : α → α} {stop : α → Prop} {q q' : α} (hq : stop q) (hq' : stop q') :
    ∀ {p : α} {l l' : List α}, Seg next p l q → Seg next p l' q' → (∀ b ∈ l, ¬ stop b) →
      (∀ b ∈ l', ¬ stop b) → l = l'
  | _, [], [], _, _, _, _ => rfl
  | _, [], b :: l', h, h', _, hl' => by
    have hpq : b = q := h'.1.symm.trans h
    exact absurd (hpq ▸ hq) (hl' b List.mem_cons_self)
  | _, b :: l, [], h, h', hl, _ => by
    have hpq : b = q' := h.1.symm.trans h'
    exact absurd (hpq ▸ hq') (hl b List.mem_cons_self)
  | _, b :: l, c :: l', h, h', hl, hl' => by
    obtain rfl : b = c := h.1.symm.trans h'.1
    rw [Seg.unique hq hq' h.2 h'.2 (fun x hx => hl x (List.mem_cons_of_mem _ hx))
      fun x hx => hl' x (List.mem_cons_of_mem _ hx)]

/-- A segment up to the first stop visits no address twice: from the second visit on it would be
as long as from the first. -/
theorem Seg.nodup {next : α → α} {stop : α → Prop} {q : α} (hq : stop q) :
    ∀ {p : α} {l : List α}, Seg next p l q → (∀ b ∈ l, ¬ stop b) → l.Nodup
  | _, [], _, _ => List.nodup_nil
  | p, b :: l, h, hl => by
    have hrest : ∀ x ∈ l, ¬ stop x := fun x hx => hl x (List.mem_cons_of_mem _ hx)
    refine List.nodup_cons.mpr ⟨fun hmem => ?_, Seg.nodup hq h.2 hrest⟩
    obtain ⟨l₁, l₂, rfl⟩ := List.append_of_mem hmem
    obtain ⟨r, -, hr⟩ := seg_append.mp h.2
    have hagain : b :: l₂ = b :: (l₁ ++ b :: l₂) := by
      refine Seg.unique hq hq (p := b) ⟨rfl, hr.2⟩ ⟨rfl, h.2⟩ (fun x hx => ?_) fun x hx => ?_
      · refine hl x (List.mem_cons_of_mem _ (List.mem_append_right _ hx))
      · rw [← h.1] at hx
        exact hl x (h.1 ▸ hx)
    have hlen := congrArg List.length hagain
    simp only [List.length_cons, List.length_append] at hlen
    omega

/-- The members of a segment, and the address at its end, are the iterates of `next`. -/
theorem Seg.iterate {next : α → α} {q : α} :
    ∀ {p : α} {l : List α}, Seg next p l q →
      (∀ k < l.length, l[k]? = some (next^[k] p)) ∧ next^[l.length] p = q
  | _, [], h => ⟨fun _ hk => absurd hk (Nat.not_lt_zero _), h⟩
  | p, b :: l, ⟨hb, h⟩ => by
    obtain ⟨hmem, hend⟩ := Seg.iterate h
    subst hb
    refine ⟨fun k hk => ?_, hend⟩
    cases k with
    | zero => rfl
    | succ k => exact hmem k (Nat.lt_of_succ_lt_succ hk)

/-- Of two segments from one address one is a prefix of the other. -/
theorem Seg.prefix_or {next : α → α} {q q' : α} :
    ∀ {p : α} {l l' : List α}, Seg next p l q → Seg next p l' q' →
      (∃ m, l' = l ++ m ∧ Seg next q m q') ∨ ∃ m, l = l' ++ m ∧ Seg next q' m q
  | _, [], l', h, h' => .inl ⟨l', rfl, h ▸ h'⟩
  | _, l, [], h, h' => .inr ⟨l, rfl, h' ▸ h⟩
  | _, b :: l, c :: l', h, h' => by
    obtain rfl : b = c := h.1.symm.trans h'.1
    rcases Seg.prefix_or h.2 h'.2 with ⟨m, rfl, hm⟩ | ⟨m, rfl, hm⟩
    · exact .inl ⟨m, rfl, hm⟩
    · exact .inr ⟨m, rfl, hm⟩

/-- Two chains from one address are equal. -/
theorem Chain.unique {next : α → α} {nil : α} :
    ∀ {p : α} {l l' : List α}, Chain next nil p l → Chain next nil p l' → l = l'
  | _, [], [], _, _ => rfl
  | _, [], b :: l', h, h' => by
    have hp : nil = b := h.1.symm.trans h'.1.1
    exact absurd (hp ▸ List.mem_cons_self) h'.2
  | _, b :: l, [], h, h' => by
    have hp : nil = b := h'.1.symm.trans h.1.1
    exact absurd (hp ▸ List.mem_cons_self) h.2
  | _, b :: l, c :: l', h, h' => by
    obtain rfl : b = c := h.1.1.symm.trans h'.1.1
    have htail : Chain next nil (next b) l := ⟨h.1.2, fun hm => h.2 (List.mem_cons_of_mem _ hm)⟩
    have htail' : Chain next nil (next b) l' :=
      ⟨h'.1.2, fun hm => h'.2 (List.mem_cons_of_mem _ hm)⟩
    rw [htail.unique htail']

theorem chain_nil {next : α → α} {nil p : α} : Chain next nil p [] ↔ p = nil := by
  simp [Chain]

theorem chain_cons {next : α → α} {nil p b : α} {l : List α} :
    Chain next nil p (b :: l) ↔ p = b ∧ b ≠ nil ∧ Chain next nil (next b) l := by
  simp only [Chain, seg_cons, List.mem_cons, not_or]
  constructor
  · rintro ⟨⟨hb, hs⟩, hn, hl⟩
    exact ⟨hb, Ne.symm hn, hs, hl⟩
  · rintro ⟨hb, hn, hs, hl⟩
    exact ⟨⟨hb, hs⟩, Ne.symm hn, hl⟩

/-- The only chain from `nil` is empty. -/
theorem Chain.eq_nil {next : α → α} {nil : α} {l : List α} (h : Chain next nil nil l) : l = [] :=
  h.unique (chain_nil.mpr rfl)

theorem Chain.congr {next next' : α → α} {nil p : α} {l : List α} (h : Chain next nil p l)
    (hn : ∀ b ∈ l, next' b = next b) : Chain next' nil p l :=
  ⟨h.1.congr hn, h.2⟩

/-- The head of a non-empty chain is its start, and is not `nil`. -/
theorem Chain.head {next : α → α} {nil p : α} {l : List α} (h : Chain next nil p l)
    (hp : p ≠ nil) : ∃ l', l = p :: l' := by
  cases l with
  | nil => exact absurd h.1 hp
  | cons b l' => exact ⟨l', by rw [h.1.1]⟩

/-- The successor of the last member of a chain is `nil`. -/
theorem Chain.next_last {next : α → α} {nil p c : α} {pre : List α}
    (h : Chain next nil p (pre ++ [c])) : next c = nil := by
  obtain ⟨r, -, hr⟩ := seg_append.mp h.1
  exact hr.2

/-- **Redirecting a successor.** Let `c` be a member of the chain `pre ++ c :: post` and let the
store change at `c` (and at addresses outside `pre`) so that the new successor of `c` starts a
chain `l`. Then the whole list is `pre ++ c :: l`. -/
theorem Chain.redirect {next next' : α → α} {nil p c : α} {pre post l : List α}
    (h : Chain next nil p (pre ++ c :: post)) (hpre : ∀ b ∈ pre, next' b = next b)
    (hl : Chain next' nil (next' c) l) : Chain next' nil p (pre ++ c :: l) := by
  obtain ⟨r, hseg, hr, -⟩ := seg_append.mp h.1
  have hnil : nil ∉ pre ++ c :: post := h.2
  rw [List.mem_append, List.mem_cons] at hnil
  push Not at hnil
  refine ⟨seg_append.mpr ⟨r, hseg.congr hpre, hr, hl.1⟩, ?_⟩
  rw [List.mem_append, List.mem_cons]
  push Not
  exact ⟨hnil.1, hnil.2.1, hl.2⟩

/-- A chain visits no address twice. -/
theorem Chain.nodup {next : α → α} {nil p : α} {l : List α} (h : Chain next nil p l) : l.Nodup :=
  @Seg.nodup α next (· = nil) nil rfl p l h.1 fun _ hb hn => h.2 (hn ▸ hb)

/-- A chain starts at its first member. -/
theorem Chain.start {next : α → α} {nil p : α} {l : List α} (h : Chain next nil p l) :
    p = l.head?.getD nil := by
  cases l with
  | nil => exact h.1
  | cons b l => exact h.1.1

/-- The successor of a member is the member behind it. -/
theorem Chain.next_eq {next : α → α} {nil p c : α} {l₁ l₂ : List α}
    (h : Chain next nil p (l₁ ++ c :: l₂)) : next c = l₂.head?.getD nil := by
  obtain ⟨r, -, -, hseg⟩ := seg_append.mp h.1
  have hnil : nil ∉ l₂ := fun hm => h.2 (List.mem_append_right _ (List.mem_cons_of_mem _ hm))
  exact Chain.start (⟨hseg, hnil⟩ : Chain next nil (next c) l₂)

/-- What follows a member is a chain. -/
theorem Chain.behind {next : α → α} {nil p c : α} {l₁ l₂ : List α}
    (h : Chain next nil p (l₁ ++ c :: l₂)) : Chain next nil (next c) l₂ := by
  obtain ⟨r, -, -, hseg⟩ := seg_append.mp h.1
  exact ⟨hseg, fun hm => h.2 (List.mem_append_right _ (List.mem_cons_of_mem _ hm))⟩

/-- A chain is empty exactly if it starts at `nil`. -/
theorem Chain.start_eq_nil {next : α → α} {nil p : α} {l : List α} (h : Chain next nil p l) :
    p = nil ↔ l = [] := by
  constructor
  · rintro rfl
    exact h.eq_nil
  · rintro rfl
    exact h.1

/-- **Appending** a member: the last one gets a successor. -/
theorem Chain.append [DecidableEq α] {next next' : α → α} {nil p c : α} {l : List α}
    (h : Chain next nil p l) (hc : c ≠ nil)
    (hother : ∀ b ∈ l, l.getLast? ≠ some b → next' b = next b)
    (hlast : ∀ b, l.getLast? = some b → next' b = c) (hnext : next' c = nil) :
    Chain next' nil (if p = nil then c else p) (l ++ [c]) := by
  have hone : Chain next' nil c [c] := chain_cons.mpr ⟨rfl, hc, chain_nil.mpr hnext⟩
  rcases List.eq_nil_or_concat l with rfl | ⟨pre, b, rfl⟩
  · rw [if_pos (chain_nil.mp h)]
    exact hone
  have hp : p ≠ nil := fun hp => absurd (h.start_eq_nil.mp hp) (by simp)
  have hnd := h.nodup
  rw [List.concat_eq_append] at h hother hlast hnd ⊢
  rw [if_neg hp, List.append_assoc]
  refine h.redirect (fun x hx => hother x (List.mem_append_left _ hx) ?_) ?_
  · rw [List.getLast?_concat]
    rintro ⟨⟩
    exact absurd hx ((List.nodup_append.mp hnd).2.2 b · b (List.mem_singleton.mpr rfl) rfl)
  · rw [hlast b List.getLast?_concat]
    exact hone

/-- **Taking a member out**: the one in front of it gets its successor. -/
theorem Chain.unlink [DecidableEq α] {next next' : α → α} {nil p c : α} {l₁ l₂ : List α}
    (h : Chain next nil p (l₁ ++ c :: l₂))
    (hother : ∀ b ∈ l₁ ++ l₂, l₁.getLast? ≠ some b → next' b = next b)
    (hpred : ∀ b, l₁.getLast? = some b → next' b = next c) :
    Chain next' nil (if p = c then next c else p) (l₁ ++ l₂) := by
  have hnd := h.nodup
  rcases List.eq_nil_or_concat l₁ with rfl | ⟨pre, a, rfl⟩
  · rw [if_pos h.1.1]
    exact h.behind.congr fun b hb => hother b hb fun hn => nomatch hn
  rw [List.concat_eq_append] at h hother hpred hnd ⊢
  have hdisj := (List.nodup_append.mp hnd).2.2
  have hp : p ≠ c := by
    rintro rfl
    have hstart := h.start
    refine hdisj p ?_ p List.mem_cons_self rfl
    cases pre with
    | nil => exact hstart ▸ List.mem_cons_self
    | cons b pre => exact hstart ▸ List.mem_cons_self
  have hmem : a ∈ pre ++ [a] := List.mem_append_right _ List.mem_cons_self
  rw [if_neg hp, List.append_assoc]
  have h' : Chain next nil p (pre ++ a :: c :: l₂) := by
    rwa [List.append_assoc] at h
  refine h'.redirect (fun x hx => hother x ?_ ?_) ?_
  · exact List.mem_append_left _ (List.mem_append_left _ hx)
  · rw [List.getLast?_concat]
    rintro ⟨⟩
    exact (List.nodup_append.mp (List.nodup_append.mp hnd).1).2.2 a hx a List.mem_cons_self rfl
  · rw [hpred a List.getLast?_concat]
    refine h.behind.congr fun x hx => hother x (List.mem_append_right _ hx) ?_
    rw [List.getLast?_concat]
    rintro ⟨⟩
    exact hdisj a hmem a (List.mem_cons_of_mem _ hx) rfl

/-! ### Doubly linked lists -/

/-- A list with successors and predecessors: the members in both directions. -/
structure Linked (next prev : α → α) (nil head tail : α) (l : List α) : Prop where
  forth : Chain next nil head l
  back : Chain prev nil tail l.reverse

section Linked

variable {next prev next' prev' : α → α} {nil head tail c : α} {l : List α}

theorem Linked.tail_eq (h : Linked next prev nil head tail l) : tail = l.getLast?.getD nil := by
  rw [h.back.start, List.head?_reverse]

theorem Linked.empty_iff (h : Linked next prev nil head tail l) :
    (head = nil ↔ l = []) ∧ (tail = nil ↔ l = []) :=
  ⟨h.forth.start_eq_nil, h.back.start_eq_nil.trans List.reverse_eq_nil_iff⟩

theorem linked_nil (next prev : α → α) (nil : α) : Linked next prev nil nil nil [] :=
  ⟨chain_nil.mpr rfl, chain_nil.mpr rfl⟩

/-- The head of a list that is not empty is a member. -/
theorem Linked.head_mem (h : Linked next prev nil head tail l) (hl : l ≠ []) : head ∈ l := by
  obtain ⟨b, l', rfl⟩ := List.exists_cons_of_ne_nil hl
  exact (chain_cons.mp h.forth).1 ▸ List.mem_cons_self

/-- The tail of a list that is not empty is a member. -/
theorem Linked.tail_mem (h : Linked next prev nil head tail l) (hl : l ≠ []) : tail ∈ l := by
  obtain ⟨b, l', hb⟩ := List.exists_cons_of_ne_nil fun h0 => hl (List.reverse_eq_nil_iff.mp h0)
  have hback := h.back
  rw [hb] at hback
  exact List.mem_reverse.mp (hb ▸ (chain_cons.mp hback).1 ▸ List.mem_cons_self)

/-- The predecessor of a member is the member in front of it. -/
theorem Linked.prev_eq {l₁ l₂ : List α} (h : Linked next prev nil head tail (l₁ ++ c :: l₂)) :
    prev c = l₁.getLast?.getD nil := by
  have hback := h.back
  rw [List.reverse_append, List.reverse_cons, List.append_assoc] at hback
  have hprev := @Chain.next_eq α prev nil tail c l₂.reverse l₁.reverse hback
  rwa [List.head?_reverse] at hprev

/-- The neighbours of a member are other members. -/
theorem Linked.neighbours (h : Linked next prev nil head tail l) (hc : c ∈ l) :
    (prev c ≠ nil → prev c ∈ l ∧ prev c ≠ c) ∧ (next c ≠ nil → next c ∈ l ∧ next c ≠ c) := by
  obtain ⟨l₁, l₂, rfl⟩ := List.append_of_mem hc
  have hnd := h.forth.nodup
  have hc₁ : c ∉ l₁ := fun hm => (List.nodup_append.mp hnd).2.2 c hm c List.mem_cons_self rfl
  have hc₂ : c ∉ l₂ := (List.nodup_cons.mp (List.nodup_append.mp hnd).2.1).1
  rw [h.prev_eq, h.forth.next_eq]
  constructor
  · intro hne
    cases hlast : l₁.getLast? with
    | none => exact absurd (by rw [hlast]; rfl) hne
    | some b =>
      have hb := List.mem_of_getLast? hlast
      exact ⟨List.mem_append_left _ hb, fun heq => hc₁ (heq ▸ hb)⟩
  · intro hne
    cases hfirst : l₂.head? with
    | none => exact absurd (by rw [hfirst]; rfl) hne
    | some b =>
      have hb := List.mem_of_head? hfirst
      exact ⟨List.mem_append_right _ (List.mem_cons_of_mem _ hb), fun heq => hc₂ (heq ▸ hb)⟩

/-- A member is pushed to the end of the list. -/
theorem Linked.append [DecidableEq α] (h : Linked next prev nil head tail l) (hc : c ≠ nil)
    (hother : ∀ b ∈ l, b ≠ tail → next' b = next b) (hlast : tail ≠ nil → next' tail = c)
    (hnext : next' c = nil) (hprev : prev' c = tail) (hback : ∀ b ∈ l, prev' b = prev b) :
    Linked next' prev' nil (if head = nil then c else head) c (l ++ [c]) where
  forth := by
    have htail := h.tail_eq
    refine h.forth.append hc (fun b hb hn => hother b hb ?_) (fun b hb => ?_) hnext
    · rintro rfl
      -- the tail of a list with members is its last one
      obtain ⟨d, hd⟩ := Option.ne_none_iff_exists'.mp
        (fun hnone => List.ne_nil_of_mem hb (List.getLast?_eq_none_iff.mp hnone))
      rw [hd] at htail hn
      exact hn (congrArg some htail.symm)
    · rw [hb, Option.getD_some] at htail
      subst htail
      refine hlast ?_
      rintro rfl
      exact h.forth.2 (List.mem_of_getLast? hb)
  back := by
    rw [List.reverse_append]
    refine chain_cons.mpr ⟨rfl, hc, ?_⟩
    rw [hprev]
    exact h.back.congr fun b hb => hback b (List.mem_reverse.mp hb)

/-- A member is taken out of the list: its neighbours become neighbours. -/
theorem Linked.unlink [DecidableEq α] (h : Linked next prev nil head tail l) (hc : c ∈ l)
    (hnext : ∀ b ∈ l, b ≠ c → b ≠ prev c → next' b = next b)
    (hprev : ∀ b ∈ l, b ≠ c → b ≠ next c → prev' b = prev b)
    (hnext' : prev c ≠ nil → next' (prev c) = next c)
    (hprev' : next c ≠ nil → prev' (next c) = prev c) :
    Linked next' prev' nil (if head = c then next c else head) (if tail = c then prev c else tail)
      (l.erase c) := by
  obtain ⟨l₁, l₂, rfl⟩ := List.append_of_mem hc
  have hnil : nil ∉ l₁ ++ c :: l₂ := h.forth.2
  have hnd := h.forth.nodup
  have hsucc : next c = l₂.head?.getD nil := h.forth.next_eq
  have hpred : prev c = l₁.getLast?.getD nil := h.prev_eq
  have hc₁ : c ∉ l₁ := fun hm => (List.nodup_append.mp hnd).2.2 c hm c List.mem_cons_self rfl
  have hc₂ : c ∉ l₂ := (List.nodup_cons.mp (List.nodup_append.mp hnd).2.1).1
  have herase : (l₁ ++ c :: l₂).erase c = l₁ ++ l₂ := by
    rw [List.erase_append_right _ hc₁, List.erase_cons_head]
  -- a member of the rest is an old member, not `c` and not `nil`
  have hmem : ∀ b ∈ l₁ ++ l₂, b ∈ l₁ ++ c :: l₂ ∧ b ≠ c ∧ b ≠ nil := by
    intro b hb
    have hb' : b ∈ l₁ ++ c :: l₂ := by
      rcases List.mem_append.mp hb with hb | hb
      · exact List.mem_append_left _ hb
      · exact List.mem_append_right _ (List.mem_cons_of_mem _ hb)
    refine ⟨hb', ?_, fun h0 => hnil (h0 ▸ hb')⟩
    rintro rfl
    exact (List.mem_append.mp hb).elim hc₁ hc₂
  have hgetD : ∀ {o : Option α} {b : α}, o ≠ some b → b ≠ nil → b ≠ o.getD nil := by
    rintro (_ | d) b ho hb rfl
    · exact hb rfl
    · exact ho rfl
  rw [herase]
  constructor
  · refine h.forth.unlink (fun b hb hlast => ?_) fun b hb => ?_
    · obtain ⟨hb', hbc, hb0⟩ := hmem b hb
      exact hnext b hb' hbc (hpred ▸ hgetD hlast hb0)
    · rw [hb, Option.getD_some] at hpred
      subst hpred
      refine hnext' fun h0 => hnil ?_
      exact h0 ▸ List.mem_append_left _ (List.mem_of_getLast? hb)
  · have hback := h.back
    rw [List.reverse_append, List.reverse_cons, List.append_assoc] at hback
    rw [List.reverse_append]
    refine Chain.unlink hback (fun b hb hlast => ?_) fun b hb => ?_
    · rw [List.getLast?_reverse] at hlast
      rw [← List.reverse_append, List.mem_reverse] at hb
      obtain ⟨hb', hbc, hb0⟩ := hmem b hb
      exact hprev b hb' hbc (hsucc ▸ hgetD hlast hb0)
    · rw [List.getLast?_reverse] at hb
      rw [hb, Option.getD_some] at hsucc
      subst hsucc
      refine hprev' fun h0 => hnil ?_
      exact h0 ▸ List.mem_append_right _ (List.mem_cons_of_mem _ (List.mem_of_head? hb))

end Linked

end Verif
