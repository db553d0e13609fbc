import Mathlib.Tactic

/-!
# Strings of the kernel library

The functions of `src/string/string.c` that the file system calls. A C string is the list of its
bytes without the terminating `NUL`; reading past the list yields the `NUL`.
-/

namespace VibeKernel

/-- A C string without its terminating `NUL`. -/
abbrev CString := List UInt8

/-- The byte a string pointer points at, the `NUL` at the end. -/
def CString.at0 (s : CString) : UInt8 := s.headD 0

/-- `isdigit`. -/
def isdigit (c : UInt8) : Bool := 0x30 ≤ c && c ≤ 0x39

/-- `toupper`. -/
def toupper (c : UInt8) : UInt8 := if 0x61 ≤ c ∧ c ≤ 0x7A then c - 32 else c

/-- `strncmp`. -/
def strncmp : ℕ → CString → CString → ℤ
  | 0, _, _ => 0
  | n + 1, s, t =>
    if s.at0 ≠ t.at0 then (s.at0.toNat : ℤ) - t.at0.toNat
    else if s.at0 = 0 then 0
    else strncmp n s.tail t.tail

/-- `strncasecmp`. -/
def strncasecmp : ℕ → CString → CString → ℤ
  | 0, _, _ => 0
  | n + 1, s, t =>
    if toupper s.at0 = toupper t.at0 then
      if n = 0 ∨ s.at0 = 0 then 0 else strncasecmp n s.tail t.tail
    else ((toupper s.at0).toNat : ℤ) - (toupper t.at0).toNat

/-- `strcmp`. -/
def strcmp : CString → CString → ℤ
  | [], t => 0 - (t.at0.toNat : ℤ)
  | b :: s, t => if b ≠ 0 ∧ b = t.at0 then strcmp s t.tail else (b.toNat : ℤ) - t.at0.toNat

/-- The same name, in any letter case. -/
def SameName (s t : CString) : Prop := s.map toupper = t.map toupper

instance (s t : CString) : Decidable (SameName s t) :=
  inferInstanceAs (Decidable (_ = _))

theorem toupper_eq_zero (c : UInt8) : toupper c = 0 ↔ c = 0 := by
  unfold toupper
  by_cases h : 0x61 ≤ c ∧ c ≤ 0x7A
  · rw [if_pos h]
    refine iff_of_false (fun h0 => ?_) ?_
    · have hc : c = 32 := by
        rw [← UInt8.sub_add_cancel c 32, h0]
        rfl
      rw [hc] at h
      exact absurd h.1 (by decide)
    · rintro rfl
      exact absurd h.1 (by decide)
  · rw [if_neg h]

/-- Comparing more characters than the first string has compares the strings. -/
theorem strncasecmp_eq_zero_iff : ∀ {n : ℕ} {s t : CString}, s.length < n → 0 ∉ s → 0 ∉ t →
    (strncasecmp n s t = 0 ↔ SameName s t) := by
  intro n
  induction n with
  | zero => exact fun hlen => absurd hlen (Nat.not_lt_zero _)
  | succ n ih =>
    intro s t hlen hs ht
    rw [strncasecmp]
    cases s with
    | nil =>
      cases t with
      | nil => simp [CString.at0, SameName]
      | cons c t =>
        -- the second string is longer
        have hc : c ≠ 0 := fun h => ht (h ▸ List.mem_cons_self)
        have hne : toupper (CString.at0 []) ≠ toupper (CString.at0 (c :: t)) := fun h =>
          hc ((toupper_eq_zero c).mp h.symm)
        rw [if_neg hne]
        refine iff_of_false (fun h => hne ?_) (by simp [SameName])
        exact UInt8.toNat_inj.mp (by omega)
    | cons b s =>
      have hb : b ≠ 0 := fun h => hs (h ▸ List.mem_cons_self)
      by_cases heq : toupper (CString.at0 (b :: s)) = toupper t.at0
      · rw [if_pos heq]
        have hstop : ¬ (n = 0 ∨ CString.at0 (b :: s) = 0) := by
          rintro (h | h)
          · rw [h, List.length_cons] at hlen
            omega
          · exact hb h
        rw [if_neg hstop]
        cases t with
        | nil => exact absurd ((toupper_eq_zero b).mp heq) hb
        | cons c t =>
          rw [List.tail_cons, List.tail_cons,
            ih (by rw [List.length_cons] at hlen; omega) (fun h => hs (List.mem_cons_of_mem _ h))
              fun h => ht (List.mem_cons_of_mem _ h)]
          unfold SameName
          rw [List.map_cons, List.map_cons, List.cons.injEq]
          exact (and_iff_right heq).symm
      · rw [if_neg heq]
        refine iff_of_false (fun h => heq (UInt8.toNat_inj.mp (by omega))) fun h => ?_
        unfold SameName at h
        cases t with
        | nil => cases h
        | cons c t =>
          rw [List.map_cons, List.map_cons] at h
          exact heq (List.cons.inj h).1

/-- `strcmp` tells whether two strings are the same. -/
theorem strcmp_eq_zero_iff : ∀ {s t : CString}, 0 ∉ s → 0 ∉ t → (strcmp s t = 0 ↔ s = t) := by
  intro s
  induction s with
  | nil =>
    intro t _ ht
    rw [strcmp]
    cases t with
    | nil => exact iff_of_true rfl rfl
    | cons c t =>
      refine iff_of_false (fun h => ht ?_) (by simp)
      -- the first character of the second string would be its end
      have hc : c = 0 :=
        UInt8.toNat_inj.mp (by change (0 : ℤ) - c.toNat = 0 at h; simp at h ⊢; omega)
      exact hc ▸ List.mem_cons_self
  | cons b s ih =>
    intro t hs ht
    have hb : b ≠ 0 := fun h => hs (h ▸ List.mem_cons_self)
    rw [strcmp]
    cases t with
    | nil =>
      rw [if_neg fun h => hb h.2]
      refine iff_of_false (fun h => hb (UInt8.toNat_inj.mp ?_)) (by simp)
      change (b.toNat : ℤ) - 0 = 0 at h
      simp at h ⊢
      omega
    | cons c t =>
      by_cases heq : b = c
      · subst heq
        rw [if_pos ⟨hb, rfl⟩, List.tail_cons,
          ih (fun h => hs (List.mem_cons_of_mem _ h)) fun h => ht (List.mem_cons_of_mem _ h)]
        exact ⟨fun h => by rw [h], fun h => (List.cons.inj h).2⟩
      · rw [if_neg fun h => heq h.2]
        refine iff_of_false (fun h => heq (UInt8.toNat_inj.mp ?_)) fun h => heq (List.cons.inj h).1
        change (b.toNat : ℤ) - c.toNat = 0 at h
        omega

end VibeKernel
