import VibeKernel.Lib.Fields
import VibeKernel.String.CString

/-!
# The command line

`src/kernel/command.c`. `command_run` gets a line in a buffer, cuts it into arguments where it lies
and calls the handler of the command that the first argument names. The memory is a function from
addresses to bytes, and the loops of the parser, which end at the `NUL` of the line, have fuel.

The purpose is said by `RunsLine`: the arguments are the first ten fields of the line, where the
blanks are the spaces, and at most one handler is called. `commandRun_spec` says that every run
meets it.
-/

namespace VibeKernel

open Verif

variable {α : Type}

/-! ### Strings in memory -/

/-- The bytes of the string at `p`. -/
def bytesAt (mem : ℕ → UInt8) (p n : ℕ) : CString := (List.range n).map fun i => mem (p + i)

/-- `strlen`. -/
def strlen (mem : ℕ → UInt8) (fuel p : ℕ) : Option ℕ :=
  (scan (fun q => mem q ≠ 0) fuel p).map fun q => q - p

/-- The string that a function called with the pointer `p` reads. -/
def stringAt (mem : ℕ → UInt8) (fuel p : ℕ) : Option CString :=
  (strlen mem fuel p).map fun n => bytesAt mem p n

/-- The memory holds a string at `a`. -/
structure HoldsString (mem : ℕ → UInt8) (a : ℕ) (s : CString) : Prop where
  byte : ∀ i (h : i < s.length), mem (a + i) = s[i]
  stop : mem (a + s.length) = 0
  string : 0 ∉ s

/-! ### Commands -/

/-- `struct command`, without the description that only `help_handler` reads. -/
structure Command (α : Type) where
  name : CString
  handler : α
  name_string : 0 ∉ name

/-- `MAX_COMMANDS`. -/
def maxCommands : ℕ := 50

/-- `MAX_ARGS`. -/
def maxArgs : ℕ := 10

/-- `command_register`, on the used part of `commands`. -/
def commandRegister (commands : List (Command α)) (c : Command α) : List (Command α) :=
  if commands.length < maxCommands then commands ++ [c] else commands

/-- What `command_run` does besides writing into the line. -/
inductive CommandEvent (α : Type)
  /-- A handler is called. -/
  | call (handler : α) (argc : ℕ) (argv : List ℕ)
  /-- `print_string`. -/
  | print (text : CString)
  deriving DecidableEq, Repr

/-- The end of a run of `command_run`. -/
structure CommandRun (α : Type) where
  mem : ℕ → UInt8
  argv : List ℕ
  events : List (CommandEvent α)

/-- `"Unknown command: "`. -/
def unknownCommand : CString :=
  [0x55, 0x6E, 0x6B, 0x6E, 0x6F, 0x77, 0x6E, 0x20, 0x63, 0x6F, 0x6D, 0x6D, 0x61, 0x6E, 0x64, 0x3A,
    0x20]

/-- `while (*p == ' ') p++`. -/
def skipBlanks (mem : ℕ → UInt8) (fuel p : ℕ) : Option ℕ := scan (fun q => mem q = 0x20) fuel p

/-- `while (*p && *p != ' ') p++`. -/
def tokenEnd (mem : ℕ → UInt8) (fuel p : ℕ) : Option ℕ :=
  scan (fun q => mem q ≠ 0 ∧ mem q ≠ 0x20) fuel p

/-- The parser of `command_run`, with the number of arguments that still have a place in `argv`. It
answers with the memory and the arguments. -/
def parseArgs (fuel : ℕ) : ℕ → (ℕ → UInt8) → ℕ → Option ((ℕ → UInt8) × List ℕ)
  | 0, mem, _ => some (mem, [])
  | n + 1, mem, p =>
    if mem p = 0 then some (mem, [])
    else do
      let p ← skipBlanks mem fuel p
      if mem p = 0 then some (mem, [])
      else do
        let q ← tokenEnd mem fuel p
        let r ← if mem q ≠ 0 then parseArgs fuel n (Function.update mem q 0) (q + 1)
          else parseArgs fuel n mem q
        some (r.1, p :: r.2)

/-- The end of `command_run`: the first command with the name that is asked for is called. -/
def dispatch (arg0 : CString) (argv : List ℕ) : List (Command α) → List (CommandEvent α)
  | [] => [.print unknownCommand, .print arg0, .print [0x0A]]
  | c :: cs =>
    if strcmp arg0 c.name = 0 then [.call c.handler argv.length argv] else dispatch arg0 argv cs

/-- `command_run`. -/
def commandRun (commands : List (Command α)) (fuel : ℕ) (mem : ℕ → UInt8) (input : ℕ) :
    Option (CommandRun α) := do
  let len ← strlen mem fuel input
  if len = 0 then some ⟨mem, [], []⟩
  else do
    let (mem, argv) ← parseArgs fuel maxArgs mem input
    match argv with
    | [] => some ⟨mem, [], []⟩
    | arg0 :: _ => do
      let name ← stringAt mem fuel arg0
      some ⟨mem, argv, dispatch name argv commands⟩

/-! ### The purpose of the command line -/

/-- The line has a space there. -/
def IsBlank (s : CString) (k : ℕ) : Prop := s[k]? = some 0x20

instance (s : CString) (k : ℕ) : Decidable (IsBlank s k) :=
  inferInstanceAs (Decidable (_ = _))

/-- The text of a field. -/
def fieldText (line : CString) (t : ℕ × ℕ) : CString := (line.drop t.1).take (t.2 - t.1)

/-- What a run is for, where `ts` are the fields of the line at `a`: the first ten of them are the
arguments, each a string where it lies in the line, nothing but their terminators is written, and
the first command that the first field names is called once with all arguments. -/
structure RunsLine (commands : List (Command α)) (mem : ℕ → UInt8) (a : ℕ) (line : CString)
    (ts : List (ℕ × ℕ)) (r : CommandRun α) : Prop where
  fields : FieldsFrom (IsBlank line) line.length 0 ts
  argv : r.argv = (ts.take maxArgs).map fun t => a + t.1
  strings : ∀ t ∈ ts.take maxArgs, HoldsString r.mem (a + t.1) (fieldText line t)
  frame : ∀ q, (∀ t ∈ ts.take maxArgs, q ≠ a + t.2) → r.mem q = mem q
  none : ts = [] → r.events = []
  call : ∀ t c, ts.head? = some t →
    commands.find? (fun c => decide (c.name = fieldText line t)) = some c →
      r.events = [.call c.handler (min maxArgs ts.length) r.argv]
  unknown : ∀ t, ts.head? = some t → (∀ c ∈ commands, c.name ≠ fieldText line t) →
    r.events = [.print unknownCommand, .print (fieldText line t), .print [0x0A]]

/-! ### Reading strings -/

section Strings

variable {mem : ℕ → UInt8} {a fuel : ℕ} {s : CString}

@[simp] theorem bytesAt_length (mem : ℕ → UInt8) (p n : ℕ) : (bytesAt mem p n).length = n := by
  unfold bytesAt
  rw [List.length_map, List.length_range]

theorem HoldsString.ne_zero (h : HoldsString mem a s) {i : ℕ} (hi : i < s.length) :
    mem (a + i) ≠ 0 := by
  rw [h.byte i hi]
  exact fun h0 => h.string (h0 ▸ List.getElem_mem hi)

theorem HoldsString.blank_iff (h : HoldsString mem a s) {i : ℕ} (hi : i ≤ s.length) :
    mem (a + i) = 0x20 ↔ IsBlank s i := by
  unfold IsBlank
  rcases Nat.eq_or_lt_of_le hi with rfl | hlt
  · rw [h.stop, List.getElem?_eq_none (le_refl _)]
    exact ⟨fun h0 => absurd h0 (by decide), fun h0 => nomatch h0⟩
  · rw [h.byte i hlt, List.getElem?_eq_getElem hlt, Option.some.injEq]

theorem bytesAt_getElem {mem : ℕ → UInt8} {p n i : ℕ} (h : i < (bytesAt mem p n).length) :
    (bytesAt mem p n)[i] = mem (p + i) := by
  simp [bytesAt]

theorem HoldsString.bytesAt_eq (h : HoldsString mem a s) : bytesAt mem a s.length = s := by
  refine List.ext_getElem (bytesAt_length _ _ _) fun i hi hi' => ?_
  rw [bytesAt_getElem hi, h.byte i hi']

/-- `strlen` of a string in memory. -/
theorem HoldsString.strlen_eq (h : HoldsString mem a s) (hfuel : s.length < fuel) :
    strlen mem fuel a = some s.length := by
  obtain ⟨q, hq, haq, hqr, -, hstop⟩ := @scan_stops (fun q => mem q ≠ 0) (a + s.length)
    (decide_eq_false (by rw [h.stop]; exact fun h0 => h0 rfl)) fuel a (Nat.le_add_right _ _)
    (by omega)
  have hend : q = a + s.length := by
    by_contra hne
    refine of_decide_eq_false hstop ?_
    have := h.ne_zero (by omega : q - a < s.length)
    rwa [Nat.add_sub_cancel' haq] at this
  unfold strlen
  rw [hq, hend, Option.map_some, Nat.add_sub_cancel_left]

/-- What a function reads that gets a pointer to a string. -/
theorem HoldsString.stringAt_eq (h : HoldsString mem a s) (hfuel : s.length < fuel) :
    stringAt mem fuel a = some s := by
  unfold stringAt
  rw [h.strlen_eq hfuel, Option.map_some, h.bytesAt_eq]

theorem fieldText_length {t : ℕ × ℕ} (h : t.2 ≤ s.length) : (fieldText s t).length = t.2 - t.1 := by
  unfold fieldText
  rw [List.length_take, List.length_drop]
  omega

theorem fieldText_getElem {t : ℕ × ℕ} {i : ℕ} (h : i < (fieldText s t).length)
    (h' : t.1 + i < s.length) : (fieldText s t)[i] = s[t.1 + i] := by
  simp [fieldText]

/-- A field is a string if its end is terminated and its bytes are those of the line. -/
theorem HoldsString.field (h : HoldsString mem a s) {mem' : ℕ → UInt8} {t : ℕ × ℕ}
    (ht : IsField (IsBlank s) s.length t.1 t.2) (hend : mem' (a + t.2) = 0)
    (hsame : ∀ k, t.1 ≤ k → k < t.2 → mem' (a + k) = mem (a + k)) :
    HoldsString mem' (a + t.1) (fieldText s t) := by
  have hlt := ht.nonempty
  have hin := ht.inside
  have hlen := fieldText_length hin
  constructor
  · intro i hi
    have hi' : t.1 + i < s.length := by omega
    rw [fieldText_getElem hi hi', ← h.byte _ hi', Nat.add_assoc]
    exact hsame _ (Nat.le_add_right _ _) (by omega)
  · rw [hlen, Nat.add_assoc, Nat.add_sub_cancel' (le_of_lt hlt)]
    exact hend
  · exact fun h0 => h.string (List.mem_of_mem_drop (List.mem_of_mem_take h0))

end Strings

/-! ### Commands -/

/-- A command that is registered later does not replace one of the same name. -/
theorem commandRegister_find {commands : List (Command α)} {c d : Command α} {name : CString}
    (h : commands.find? (fun c => decide (c.name = name)) = some d) :
    (commandRegister commands c).find? (fun c => decide (c.name = name)) = some d := by
  unfold commandRegister
  split_ifs
  · rw [List.find?_append, h, Option.some_or]
  · exact h

/-- The first command of the name is called, if there is one. -/
theorem dispatch_eq {arg0 : CString} (h0 : 0 ∉ arg0) (argv : List ℕ) :
    ∀ commands : List (Command α), dispatch arg0 argv commands =
      match commands.find? fun c => decide (c.name = arg0) with
      | some c => [.call c.handler argv.length argv]
      | none => [.print unknownCommand, .print arg0, .print [0x0A]]
  | [] => rfl
  | c :: cs => by
    rw [dispatch, List.find?_cons]
    by_cases hname : arg0 = c.name
    · rw [if_pos ((strcmp_eq_zero_iff h0 c.name_string).mpr hname), decide_eq_true hname.symm]
    · rw [if_neg fun h => hname ((strcmp_eq_zero_iff h0 c.name_string).mp h),
        decide_eq_false fun h => hname h.symm, dispatch_eq h0 argv cs]

/-! ### Parsing -/

/-- Between the memory before and after, the ends of the fields were terminated and nothing else was
written. -/
structure Terminated (a : ℕ) (mem mem' : ℕ → UInt8) (ts : List (ℕ × ℕ)) : Prop where
  stop : ∀ t ∈ ts, mem' (a + t.2) = 0
  frame : ∀ q, (∀ t ∈ ts, q ≠ a + t.2) → mem' q = mem q

theorem Terminated.nil (a : ℕ) (mem : ℕ → UInt8) : Terminated a mem mem [] where
  stop _ h := absurd h List.not_mem_nil
  frame _ _ := rfl

/-- A field that ends before those behind it. -/
theorem Terminated.cons {a i j : ℕ} {mem mem₁ mem' : ℕ → UInt8} {ts : List (ℕ × ℕ)}
    (h : Terminated a mem₁ mem' ts) (hts : ∀ t ∈ ts, j < t.2) (hj : mem₁ (a + j) = 0)
    (hframe : ∀ q, q ≠ a + j → mem₁ q = mem q) : Terminated a mem mem' ((i, j) :: ts) where
  stop t ht := by
    rcases List.mem_cons.mp ht with rfl | ht
    · rw [h.frame _ fun t ht => ?_, hj]
      have := hts t ht
      omega
    · exact h.stop t ht
  frame q hq := by
    rw [h.frame q fun t ht => hq t (List.mem_cons_of_mem _ ht)]
    exact hframe q (hq _ List.mem_cons_self)

section Parsing

variable {mem₀ mem : ℕ → UInt8} {a fuel p : ℕ} {line : CString}

/-- The loop over the blanks ends at the next position that has none. -/
theorem skipBlanks_spec (hline : HoldsString mem₀ a line) (hfuel : line.length < fuel)
    (hmem : ∀ k, p ≤ k → mem (a + k) = mem₀ (a + k)) (hp : p ≤ line.length) :
    ∃ i, skipBlanks mem fuel (a + p) = some (a + i) ∧ p ≤ i ∧ i ≤ line.length ∧
      (∀ k, p ≤ k → k < i → IsBlank line k) ∧ ¬ IsBlank line i := by
  have hend : decide (mem (a + line.length) = 0x20) = false := by
    rw [hmem _ hp, hline.stop]
    rfl
  obtain ⟨i', hskip, hpi, hin, hblank, hi⟩ := @scan_stops (fun q => mem q = 0x20)
    (a + line.length) hend fuel (a + p) (by omega) (by omega)
  obtain ⟨i, rfl⟩ : ∃ i, i' = a + i := ⟨i' - a, by omega⟩
  refine ⟨i, hskip, by omega, by omega, fun k hk hki => ?_, fun hb => ?_⟩
  · have hk' := of_decide_eq_true (hblank (a + k) (by omega) (by omega))
    rw [hmem k hk] at hk'
    exact (hline.blank_iff (by omega)).mp hk'
  · refine of_decide_eq_false hi ?_
    rw [hmem i (by omega)]
    exact (hline.blank_iff (by omega)).mpr hb

/-- The loop over a field ends at the next blank, or at the end of the line. -/
theorem tokenEnd_spec (hline : HoldsString mem₀ a line) (hfuel : line.length < fuel)
    (hmem : ∀ k, p ≤ k → mem (a + k) = mem₀ (a + k)) (hp : p < line.length)
    (hsolid : ¬ IsBlank line p) :
    ∃ j, tokenEnd mem fuel (a + p) = some (a + j) ∧ p < j ∧ j ≤ line.length ∧
      (∀ k, p ≤ k → k < j → ¬ IsBlank line k) ∧ (j = line.length ∨ IsBlank line j) := by
  have hend : decide (mem (a + line.length) ≠ 0 ∧ mem (a + line.length) ≠ 0x20) = false := by
    rw [hmem _ (le_of_lt hp), hline.stop]
    rfl
  obtain ⟨j', htoken, hpj, hjn, hbefore, hj⟩ :=
    @scan_stops (fun q => mem q ≠ 0 ∧ mem q ≠ 0x20) (a + line.length) hend fuel (a + p)
      (by omega) (by omega)
  obtain ⟨j, rfl⟩ : ∃ j, j' = a + j := ⟨j' - a, by omega⟩
  have hright : j = line.length ∨ IsBlank line j := by
    by_contra hcon
    push Not at hcon
    refine of_decide_eq_false hj ?_
    rw [hmem j (by omega)]
    exact ⟨hline.ne_zero (by omega), fun h => hcon.2 ((hline.blank_iff (by omega)).mp h)⟩
  refine ⟨j, htoken, ?_, by omega, fun k hk hkj hb => ?_, hright⟩
  · -- the field is not empty
    refine lt_of_le_of_ne (by omega) ?_
    rintro rfl
    rcases hright with h | h
    · exact absurd h (ne_of_lt hp)
    · exact hsolid h
  · have hk' := of_decide_eq_true (hbefore (a + k) (by omega) (by omega))
    rw [hmem k hk] at hk'
    exact hk'.2 ((hline.blank_iff (by omega)).mpr hb)

/-- The parser from `p` on finds the next fields, as many as there is room for. -/
theorem parseArgs_spec (hline : HoldsString mem₀ a line) (hfuel : line.length < fuel) :
    ∀ (n : ℕ) {p : ℕ} {mem : ℕ → UInt8}, (∀ k, p ≤ k → mem (a + k) = mem₀ (a + k)) →
      p ≤ line.length → (p = line.length ∨ p = 0 ∨ IsBlank line (p - 1)) →
      ∃ ts mem', FieldsFrom (IsBlank line) line.length p ts ∧
        parseArgs fuel n mem (a + p) = some (mem', (ts.take n).map fun t => a + t.1) ∧
        Terminated a mem mem' (ts.take n) := by
  intro n
  induction n with
  | zero =>
    intro p mem _ hp hbound
    have hex : ∃ ts, FieldsFrom (IsBlank line) line.length p ts := by
      rcases hbound with rfl | hbound
      · exact ⟨[], FieldsFrom.nil fun k h h' => absurd h (Nat.not_le.mpr h')⟩
      · exact exists_fieldsFrom hbound
    obtain ⟨ts, hts⟩ := hex
    exact ⟨ts, mem, hts, rfl, Terminated.nil a mem⟩
  | succ n ih =>
    intro p mem hmem hp hbound
    rw [parseArgs]
    by_cases hend : p = line.length
    · rw [if_pos (by rw [hmem p (le_refl _), hend, hline.stop])]
      exact ⟨[], mem, FieldsFrom.nil fun k h h' => by omega, rfl, Terminated.nil a mem⟩
    rw [if_neg (by rw [hmem p (le_refl _)]; exact hline.ne_zero (by omega))]
    obtain ⟨i, hskip, hpi, hin, hblank, hi⟩ := skipBlanks_spec hline hfuel hmem hp
    rw [hskip, Option.bind_eq_bind, Option.bind_some]
    by_cases hiend : i = line.length
    · -- only blanks were left
      rw [if_pos (by rw [hmem i hpi, hiend, hline.stop])]
      exact ⟨[], mem, FieldsFrom.nil fun k h h' => hblank k h (by omega), rfl, Terminated.nil a mem⟩
    have hmem' : ∀ k, i ≤ k → mem (a + k) = mem₀ (a + k) := fun k hk => hmem k (hpi.trans hk)
    rw [if_neg (by rw [hmem i hpi]; exact hline.ne_zero (by omega))]
    obtain ⟨j, htoken, hij, hjn, hsolid, hright⟩ :=
      tokenEnd_spec hline hfuel hmem' (by omega) hi
    have hleft := hbound.resolve_left hend
    rw [htoken, Option.bind_some]
    by_cases hjend : j = line.length
    · -- the last field ends with the line
      have hzero : mem (a + j) = 0 := by rw [hmem j (by omega), hjend, hline.stop]
      obtain ⟨ts, mem', hts, hparse, hterm⟩ := @ih j mem (fun k hk => hmem k (by omega)) hjn
        (Or.inl hjend)
      rw [if_neg (fun h => h hzero), hparse, Option.bind_eq_bind, Option.bind_some]
      refine ⟨(i, j) :: ts, mem', ?_, rfl, ?_⟩
      · exact hts.cons hleft hpi hblank hij hjn hsolid hright (le_refl _)
          fun k h h' => absurd h (Nat.not_le.mpr h')
      · refine hterm.cons (fun t ht => ?_) hzero fun _ _ => rfl
        have := (hts.mem_iff t).mp (List.mem_of_mem_take ht)
        exact this.2.trans_lt this.1.nonempty
    · have hjb : IsBlank line j := hright.resolve_left hjend
      have hne : mem (a + j) ≠ 0 := by
        rw [hmem j (by omega)]
        exact hline.ne_zero (by omega)
      have hmem₁ : ∀ k, j + 1 ≤ k → Function.update mem (a + j) 0 (a + k) = mem₀ (a + k) := by
        intro k hk
        rw [Function.update_of_ne (by omega)]
        exact hmem k (by omega)
      obtain ⟨ts, mem', hts, hparse, hterm⟩ := ih hmem₁ (by omega)
        (Or.inr (Or.inr (by rwa [Nat.add_sub_cancel])))
      rw [if_pos hne, Nat.add_assoc, hparse, Option.bind_eq_bind, Option.bind_some]
      refine ⟨(i, j) :: ts, mem', ?_, rfl, ?_⟩
      · refine hts.cons hleft hpi hblank hij hjn hsolid hright (Nat.le_succ j) ?_
        intro k h h'
        rwa [show k = j by omega]
      · refine hterm.cons (fun t ht => ?_) (Function.update_self _ _ _) fun q hq =>
          Function.update_of_ne hq _ _
        have := (hts.mem_iff t).mp (List.mem_of_mem_take ht)
        exact (Nat.lt_of_succ_le this.2).trans this.1.nonempty

/-- What the parser leaves at a field that it found is the text of the field. -/
theorem Terminated.field (hline : HoldsString mem₀ a line) {mem' : ℕ → UInt8} {ts : List (ℕ × ℕ)}
    (h : Terminated a mem₀ mem' ts) (hts : ∀ t ∈ ts, IsField (IsBlank line) line.length t.1 t.2)
    {t : ℕ × ℕ} (ht : t ∈ ts) : HoldsString mem' (a + t.1) (fieldText line t) := by
  refine hline.field (hts t ht) (h.stop t ht) fun k hk hkt => h.frame _ fun u hu heq => ?_
  -- fields end at blanks, or at the end of the line
  have hk' : k = u.2 := Nat.add_left_cancel heq
  have hin := (hts t ht).inside
  rcases (hts u hu).right with hend | hb
  · omega
  · exact (hts t ht).solid k hk hkt (hk' ▸ hb)

end Parsing

/-- The parser finds the fields of the line, and the search the command that the first of them
names. -/
theorem HoldsString.commandRun_runs {mem : ℕ → UInt8} {a fuel : ℕ} {line : CString}
    (hline : HoldsString mem a line) (hfuel : line.length < fuel) (commands : List (Command α)) :
    ∃ ts r, commandRun commands fuel mem a = some r ∧ RunsLine commands mem a line ts r := by
  unfold commandRun
  rw [hline.strlen_eq hfuel, Option.bind_eq_bind, Option.bind_some]
  by_cases hlen : line.length = 0
  · -- an empty line runs nothing
    rw [if_pos hlen]
    refine ⟨[], _, rfl, FieldsFrom.nil fun k _ h => by omega, rfl, ?_, fun _ _ => rfl, fun _ => rfl,
      ?_, ?_⟩
    · exact fun t ht => absurd ht List.not_mem_nil
    · exact fun t c h => nomatch h
    · exact fun t h => nomatch h
  rw [if_neg hlen]
  -- the separators behind the first fields are overwritten by terminators
  obtain ⟨ts, mem', hts, hparse, hterm⟩ := @parseArgs_spec mem a fuel line hline hfuel maxArgs 0 mem
    (fun _ _ => rfl) (Nat.zero_le _) (Or.inr (Or.inl rfl))
  have hstrings : ∀ t ∈ ts.take maxArgs, HoldsString mem' (a + t.1) (fieldText line t) :=
    fun t ht => hterm.field hline
      (fun u hu => ((hts.mem_iff u).mp (List.mem_of_mem_take hu)).1) ht
  rw [Nat.add_zero] at hparse
  rw [hparse, Option.bind_eq_bind, Option.bind_some]
  -- a line of blanks has no field
  cases ts with
  | nil =>
    refine ⟨[], _, rfl, hts, rfl, hstrings, hterm.frame, fun _ => rfl, ?_, ?_⟩
    · exact fun t c h => nomatch h
    · exact fun t h => nomatch h
  | cons t ts =>
    have hfirst : t ∈ (t :: ts).take maxArgs := List.mem_cons_self
    have hs := hstrings t hfirst
    have hshort : (fieldText line t).length < fuel := by
      rw [fieldText_length ((hts.mem_iff t).mp List.mem_cons_self).1.inside]
      have := ((hts.mem_iff t).mp List.mem_cons_self).1.inside
      omega
    refine ⟨t :: ts, ⟨mem', ((t :: ts).take maxArgs).map fun t => a + t.1,
      dispatch (fieldText line t) (((t :: ts).take maxArgs).map fun t => a + t.1) commands⟩, ?_, ?_⟩
    · change (stringAt mem' fuel (a + t.1)).bind _ = _
      rw [hs.stringAt_eq hshort, Option.bind_some]
    refine ⟨hts, rfl, hstrings, hterm.frame, (fun h => nomatch h), fun u c hu hc => ?_,
      fun u hu hc => ?_⟩
    · cases hu
      change dispatch _ _ _ = _
      rw [dispatch_eq hs.string, hc, List.length_map, List.length_take]
    · cases hu
      change dispatch _ _ _ = _
      rw [dispatch_eq hs.string, List.find?_eq_none.mpr fun c hc' => by simpa using hc c hc']

/-- **Tokenizing and dispatch.** On every line that its buffer holds, `command_run` takes the first
ten fields of the line as arguments, terminates them in the line, and calls the first command that
the first of them names, once and with all of them. -/
theorem commandRun_spec (commands : List (Command α)) {mem : ℕ → UInt8} {a fuel : ℕ}
    {line : CString} (hline : HoldsString mem a line) (hfuel : line.length < fuel) :
    ∃ ts r, commandRun commands fuel mem a = some r ∧ RunsLine commands mem a line ts r :=
  hline.commandRun_runs hfuel commands

/-- `echo hi` at 100, with a command of that name: it is called with the words at 100 and 105, and
the space between them has become a terminator. -/
theorem commandRun_echo :
    ∃ ts r, commandRun [⟨[0x65, 0x63, 0x68, 0x6F], (), by decide⟩] 8
        (fun q => ([0x65, 0x63, 0x68, 0x6F, 0x20, 0x68, 0x69] : CString).getD (q - 100) 0) 100 =
        some r ∧
      (r.argv = [100, 105] ∧ r.events = [.call () 2 [100, 105]] ∧ r.mem 104 = 0) ∧
      RunsLine [⟨[0x65, 0x63, 0x68, 0x6F], (), by decide⟩]
        (fun q => ([0x65, 0x63, 0x68, 0x6F, 0x20, 0x68, 0x69] : CString).getD (q - 100) 0) 100
        [0x65, 0x63, 0x68, 0x6F, 0x20, 0x68, 0x69] ts r := by
  obtain ⟨ts, r, hr, hruns⟩ := @commandRun_spec _ [⟨[0x65, 0x63, 0x68, 0x6F], (), by decide⟩]
    (fun q => ([0x65, 0x63, 0x68, 0x6F, 0x20, 0x68, 0x69] : CString).getD (q - 100) 0) 100 8
    [0x65, 0x63, 0x68, 0x6F, 0x20, 0x68, 0x69] ⟨by decide, rfl, by decide⟩ (by decide)
  have hval : ((commandRun [⟨[0x65, 0x63, 0x68, 0x6F], (), by decide⟩] 8
      (fun q => ([0x65, 0x63, 0x68, 0x6F, 0x20, 0x68, 0x69] : CString).getD (q - 100) 0) 100).map
        fun r => (r.argv, r.events, r.mem 104)) =
      some ([100, 105], [.call () 2 [100, 105]], 0) := by
    decide
  rw [hr] at hval
  have h := Option.some.inj hval
  simp only [Prod.mk.injEq] at h
  exact ⟨ts, r, hr, h, hruns⟩

end VibeKernel
