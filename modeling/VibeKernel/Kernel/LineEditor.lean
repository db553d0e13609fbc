import VibeKernel.Drivers.Screen
import VibeKernel.Kernel.Command

/-!
# The line editor

The inner loop of `main` in `src/kernel/kernel.c`: the characters of a line are collected in
`cmd_buf` and echoed to the screen, until a newline ends the line and `command_run` gets the buffer.

The abstract editor is a list of at most 127 characters. `line_editor` says that the buffer holds
that list, and that the screen shows it from the end of the prompt on.
-/

namespace VibeKernel

open Verif

/-! ### The loop of the source -/

/-- `sizeof(cmd_buf)`. -/
def cmdBufSize : ℕ := 128

/-- The variables of `main` in the loop, and the screen. -/
structure LineState where
  cmdBuf : ℕ → UInt8
  cmdIdx : ℕ
  screen : Screen

/-- `print_string`. -/
def LineState.print (s : LineState) (message : CString) : LineState :=
  { s with screen := s.screen.after (printString message s.screen) }

/-- The statements in front of the inner loop: the prompt, and the buffer is cleared. -/
def startLine (screen : Screen) : LineState :=
  LineState.print ⟨fun _ => 0, 0, screen⟩ [0x3E, 0x20]

/-- A character that is no newline. -/
def lineKey (s : LineState) (c : UInt8) : LineState :=
  if c = 0x08 ∨ c = 0x7F then
    if 0 < s.cmdIdx then LineState.print { s with cmdIdx := s.cmdIdx - 1 } [0x08, 0x20, 0x08] else s
  else if s.cmdIdx < cmdBufSize - 1 then
    LineState.print
      { s with cmdBuf := Function.update s.cmdBuf s.cmdIdx c, cmdIdx := s.cmdIdx + 1 }
      (if c = 0 then [] else [c])
  else s

/-- A newline: the string in the buffer is terminated. -/
def endLine (s : LineState) : LineState :=
  let s := s.print [0x0A]
  { s with cmdBuf := Function.update s.cmdBuf s.cmdIdx 0 }

/-- The inner loop on the characters that `keyboard_getc` returns. It answers with the state at its
end, where `command_run` is called, and the characters behind the line; without a newline it waits
for more. -/
def readLine : List UInt8 → LineState → Option (LineState × List UInt8)
  | [], _ => none
  | c :: cs, s => if c = 0x0A then some (endLine s, cs) else readLine cs (lineKey s c)

/-! ### The purpose of the editor -/

/-- The abstract editor: a character on the line so far. -/
def editKey (held : CString) (c : UInt8) : CString :=
  if c = 0x08 ∨ c = 0x7F then held.dropLast
  else if held.length < 127 then held ++ [c] else held

/-- The line that characters make. -/
def edited (keys : List UInt8) : CString := keys.foldl editKey []

/-- The state after characters without a newline. -/
def typed (s : LineState) (keys : List UInt8) : LineState := keys.foldl lineKey s

/-- The line had a character at `i` at some time. -/
def Reached (keys : List UInt8) (i : ℕ) : Prop := ∃ ks, ks <+: keys ∧ i < (edited ks).length

/-- The address of the cell at `i`, counted from the cursor of the screen `s₀`. -/
def cellAddr (s₀ : Screen) (i : ℕ) : ℤ := videoAddress + s₀.cursorOffset + 2 * i

/-- The screen `t` shows the line behind the prompt that ends at the cursor of `s₀`. -/
structure ShowsLine (s₀ t : Screen) (keys : List UInt8) : Prop where
  cursor : t.cursorOffset = s₀.cursorOffset + 2 * (edited keys).length
  cells : ∀ i (h : i < (edited keys).length), t.memory (cellAddr s₀ i) = (edited keys)[i]
  erased : ∀ i, (edited keys).length ≤ i → Reached keys i → t.memory (cellAddr s₀ i) = 0x20
  frame : ∀ a, (∀ i, Reached keys i → a ≠ cellAddr s₀ i ∧ a ≠ cellAddr s₀ i + 1) →
    t.memory a = s₀.memory a

/-! ### Echoing a character -/

section Echo

variable {s : Screen} {c : UInt8}

/-- A string is printed character by character. -/
theorem printString_cons (s : Screen) (c : UInt8) (cs : CString) :
    s.after (printString (c :: cs) s) =
      (s.after (printChar c (-1) (-1) s.screenColor s)).after
        (printString cs (s.after (printChar c (-1) (-1) s.screenColor s))) := by
  change s.after (printLoop (-1) (-1) (c :: cs) s) = _
  rw [printLoop, Screen.after_append, Screen.after_cons]
  rfl

theorem printString_visible (hn : c ≠ 0x0A) (hb : c ≠ 0x08) :
    s.after (printString [c] s) =
      { s.putCell s.cursorOffset c s.attr with cursorOffset := s.cursorOffset + 2 } := by
  rw [printString_cons, printChar_visible (by decide) hn hb]
  rfl

/-- `"\b \b"` clears the cell before the cursor. -/
theorem printString_erase (h : 2 ≤ s.cursorOffset) :
    s.after (printString [0x08, 0x20, 0x08] s) =
      { s.putCell (s.cursorOffset - 2) 0x20 s.attr with cursorOffset := s.cursorOffset - 2 } := by
  have hback : ∀ t : Screen, 0 < t.cursorOffset →
      t.after (printChar 0x08 (-1) (-1) t.screenColor t) =
        { t with cursorOffset := t.cursorOffset - 2 } := fun t ht => by
    rw [printChar_backspace (by decide), if_pos ht]
    rfl
  rw [printString_cons, hback s (by omega), printString_cons,
    printChar_visible (by decide) (by decide) (by decide), printString_cons, hback]
  · change ({ s.putCell (s.cursorOffset - 2) 0x20 s.attr with
      cursorOffset := s.cursorOffset - 2 + 2 - 2 } : Screen) = _
    rw [Int.add_sub_cancel]
  · change 0 < s.cursorOffset - 2 + 2
    omega

end Echo

/-! ### One key -/

section Keys

variable {s₀ : Screen} {keys : List UInt8} {c : UInt8} {i : ℕ}

@[simp] theorem edited_concat : edited (keys ++ [c]) = editKey (edited keys) c := by
  unfold edited
  rw [List.foldl_concat]

@[simp] theorem typed_concat (s : LineState) :
    typed s (keys ++ [c]) = lineKey (typed s keys) c := by
  unfold typed
  rw [List.foldl_concat]

/-- The line never holds more than 127 characters. -/
theorem editKey_length {held : CString} (h : held.length ≤ 127) :
    (editKey held c).length ≤ 127 := by
  unfold editKey
  split_ifs with hb hlt
  · rw [List.length_dropLast]
    exact (Nat.sub_le _ _).trans h
  · rw [List.length_append]
    exact hlt
  · exact h

/-- What a character does not reach was reached before. -/
theorem reached_concat :
    Reached (keys ++ [c]) i ↔ Reached keys i ∨ i < (edited (keys ++ [c])).length := by
  constructor
  · rintro ⟨ks, hks, hi⟩
    rcases List.prefix_concat_iff.mp hks with rfl | hks
    · exact Or.inr hi
    · exact Or.inl ⟨ks, hks, hi⟩
  · rintro (⟨ks, hks, hi⟩ | hi)
    · exact ⟨ks, hks.trans (List.prefix_append _ _), hi⟩
    · exact ⟨_, List.prefix_rfl, hi⟩

/-- What the buffer, the index and the screen are after the characters of a line. -/
structure LineInv (s₀ : Screen) (keys : List UInt8) (s : LineState) : Prop where
  idx : s.cmdIdx = (edited keys).length
  short : (edited keys).length ≤ 127
  buf : ∀ i (h : i < (edited keys).length), s.cmdBuf i = (edited keys)[i]
  string : 0 ∉ edited keys
  shows : ShowsLine s₀ s.screen keys

/-- A key that changes nothing. -/
theorem LineInv.ignore {s : LineState} (h : LineInv s₀ keys s)
    (hsame : editKey (edited keys) c = edited keys) : LineInv s₀ (keys ++ [c]) s := by
  have hreach : ∀ i, Reached (keys ++ [c]) i ↔ Reached keys i := fun i => by
    rw [reached_concat, edited_concat, hsame]
    exact or_iff_left_of_imp fun hi => ⟨keys, List.prefix_rfl, hi⟩
  have hed : edited (keys ++ [c]) = edited keys := edited_concat.trans hsame
  refine ⟨?_, ?_, ?_, ?_, ?_, ?_, ?_, ?_⟩
  · rw [hed, h.idx]
  · rw [hed]
    exact h.short
  · simpa only [hed] using h.buf
  · rw [hed]
    exact h.string
  · rw [hed]
    exact h.shows.cursor
  · simpa only [hed] using h.shows.cells
  · intro i hi hr
    rw [hed] at hi
    exact h.shows.erased i hi ((hreach i).mp hr)
  · exact fun a ha => h.shows.frame a fun i hi => ha i ((hreach i).mpr hi)

/-- Two cells of the line do not overlap. -/
theorem cellAddr_ne {j : ℕ} (h : i ≠ j) :
    cellAddr s₀ i ≠ cellAddr s₀ j ∧ cellAddr s₀ i ≠ cellAddr s₀ j + 1 := by
  unfold cellAddr
  omega

/-- A character behind the line. -/
theorem LineInv.append {s : LineState} (h : LineInv s₀ keys s) (h0 : c ≠ 0) (hn : c ≠ 0x0A)
    (hb : c ≠ 0x08) (hlt : (edited keys).length < 127)
    (hed : edited (keys ++ [c]) = edited keys ++ [c]) :
    LineInv s₀ (keys ++ [c]) (LineState.print
      { s with cmdBuf := Function.update s.cmdBuf s.cmdIdx c, cmdIdx := s.cmdIdx + 1 } [c]) := by
  have hlen : (edited (keys ++ [c])).length = (edited keys).length + 1 := by
    rw [hed, List.length_append]
    rfl
  -- the character goes to the cell behind the line
  have hcursor : videoAddress + s.screen.cursorOffset = cellAddr s₀ (edited keys).length := by
    rw [h.shows.cursor]
    unfold cellAddr
    ring
  unfold LineState.print
  dsimp only
  rw [printString_visible hn hb]
  refine ⟨?_, ?_, ?_, ?_, ?_, ?_, ?_, ?_⟩
  · rw [hlen, ← h.idx]
  · rw [hlen]
    exact hlt
  · -- the buffer has it at the old index
    intro i hi
    simp only [hed]
    by_cases heq : i = (edited keys).length
    · subst heq
      rw [h.idx, Function.update_self, List.getElem_concat_length rfl]
    · rw [Function.update_of_ne (by rw [h.idx]; exact heq), List.getElem_append_left (by omega)]
      exact h.buf i (by omega)
  · rw [hed, List.mem_append, List.mem_singleton]
    exact fun hm => hm.elim h.string fun h' => h0 h'.symm
  · change s.screen.cursorOffset + 2 = _
    rw [hlen, h.shows.cursor]
    push_cast
    ring
  · -- so does the screen
    intro i hi
    simp only [hed]
    by_cases heq : i = (edited keys).length
    · subst heq
      rw [List.getElem_concat_length rfl, ← hcursor]
      exact Screen.putCell_char _ _ _ _
    · rw [List.getElem_append_left (by omega)]
      have hne := @cellAddr_ne s₀ i _ heq
      rw [← hcursor] at hne
      exact (Screen.putCell_memory hne.1 hne.2).trans (h.shows.cells i (by omega))
  · -- what was erased before lies behind it
    intro i hi hr
    have hr' : Reached keys i := by
      rcases reached_concat.mp hr with hr | hr
      · exact hr
      · exact absurd hr (Nat.not_lt.mpr hi)
    have hne := @cellAddr_ne s₀ i (edited keys).length (by omega)
    rw [← hcursor] at hne
    exact (Screen.putCell_memory hne.1 hne.2).trans (h.shows.erased i (by omega) hr')
  · intro a ha
    have hcell := ha (edited keys).length (reached_concat.mpr (Or.inr (by omega)))
    rw [← hcursor] at hcell
    refine (Screen.putCell_memory hcell.1 hcell.2).trans (h.shows.frame a fun i hi => ?_)
    exact ha i (reached_concat.mpr (Or.inl hi))

/-- The last character of the line is erased. -/
theorem LineInv.erase {s : LineState} (h : LineInv s₀ keys s) (hs₀ : 0 ≤ s₀.cursorOffset)
    (hpos : 0 < (edited keys).length) (hed : edited (keys ++ [c]) = (edited keys).dropLast) :
    LineInv s₀ (keys ++ [c])
      (LineState.print { s with cmdIdx := s.cmdIdx - 1 } [0x08, 0x20, 0x08]) := by
  have hlen : (edited (keys ++ [c])).length = (edited keys).length - 1 := by
    rw [hed, List.length_dropLast]
  have hcur := h.shows.cursor
  -- the blank goes to the cell of the last character
  have hcursor : videoAddress + (s.screen.cursorOffset - 2) =
      cellAddr s₀ ((edited keys).length - 1) := by
    rw [hcur]
    unfold cellAddr
    omega
  unfold LineState.print
  dsimp only
  rw [printString_erase (by omega)]
  refine ⟨?_, ?_, ?_, ?_, ?_, ?_, ?_, ?_⟩
  · rw [hlen, ← h.idx]
  · rw [hlen]
    exact (Nat.sub_le _ _).trans h.short
  · intro i hi
    simp only [hed, List.getElem_dropLast]
    exact h.buf i (by omega)
  · rw [hed]
    exact fun hm => h.string (List.mem_of_mem_dropLast hm)
  · change s.screen.cursorOffset - 2 = _
    rw [hlen, hcur]
    omega
  · intro i hi
    simp only [hed, List.getElem_dropLast]
    have hne := @cellAddr_ne s₀ i ((edited keys).length - 1) (by omega)
    rw [← hcursor] at hne
    exact (Screen.putCell_memory hne.1 hne.2).trans (h.shows.cells i (by omega))
  · -- that cell is erased now, and the others as before
    intro i hi hr
    by_cases heq : i = (edited keys).length - 1
    · rw [heq, ← hcursor]
      exact Screen.putCell_char _ _ _ _
    · have hr' : Reached keys i := by
        rcases reached_concat.mp hr with hr | hr
        · exact hr
        · exact absurd hr (Nat.not_lt.mpr hi)
      have hne := @cellAddr_ne s₀ i _ heq
      rw [← hcursor] at hne
      exact (Screen.putCell_memory hne.1 hne.2).trans (h.shows.erased i (by omega) hr')
  · intro a ha
    have hcell := ha ((edited keys).length - 1)
      (reached_concat.mpr (Or.inl ⟨keys, List.prefix_rfl, by omega⟩))
    rw [← hcursor] at hcell
    refine (Screen.putCell_memory hcell.1 hcell.2).trans (h.shows.frame a fun i hi => ?_)
    exact ha i (reached_concat.mpr (Or.inl hi))

/-- **One key.** -/
theorem LineInv.key {s : LineState} (h : LineInv s₀ keys s) (hs₀ : 0 ≤ s₀.cursorOffset)
    (h0 : c ≠ 0) (hn : c ≠ 0x0A) : LineInv s₀ (keys ++ [c]) (lineKey s c) := by
  unfold lineKey
  by_cases hb : c = 0x08 ∨ c = 0x7F
  · have hedit : editKey (edited keys) c = (edited keys).dropLast := by
      unfold editKey
      rw [if_pos hb]
    rw [if_pos hb, h.idx]
    by_cases hpos : 0 < (edited keys).length
    · rw [if_pos hpos, ← h.idx]
      exact h.erase hs₀ hpos (edited_concat.trans hedit)
    · rw [if_neg hpos]
      refine h.ignore ?_
      rw [hedit, List.length_eq_zero_iff.mp (Nat.eq_zero_of_not_pos hpos)]
      rfl
  · have hedit : editKey (edited keys) c =
        if (edited keys).length < 127 then edited keys ++ [c] else edited keys := by
      unfold editKey
      rw [if_neg hb]
    rw [if_neg hb, if_neg h0]
    by_cases hlt : s.cmdIdx < cmdBufSize - 1
    · rw [if_pos hlt]
      have hlt' : (edited keys).length < 127 := h.idx ▸ hlt
      rw [if_pos hlt'] at hedit
      exact h.append h0 hn (fun h8 => hb (Or.inl h8)) hlt' (edited_concat.trans hedit)
    · rw [if_neg hlt]
      refine h.ignore ?_
      rw [hedit, if_neg (h.idx ▸ hlt)]

end Keys

/-! ### A line -/

/-- The prompt. -/
theorem startLine_inv (s : Screen) : LineInv (startLine s).screen [] (startLine s) := by
  refine ⟨rfl, Nat.zero_le _, ?_, List.not_mem_nil, ?_, ?_, ?_, fun a _ => rfl⟩
  · exact fun i h => absurd h (Nat.not_lt_zero _)
  · exact (Int.add_zero _).symm
  · exact fun i h => absurd h (Nat.not_lt_zero _)
  · rintro i - ⟨ks, hks, hi⟩
    rw [List.prefix_nil.mp hks] at hi
    exact absurd hi (Nat.not_lt_zero _)

theorem startLine_cursor {s : Screen} (h : 0 ≤ s.cursorOffset) :
    0 ≤ (startLine s).screen.cursorOffset := by
  have hcursor : (startLine s).screen.cursorOffset = s.cursorOffset + 2 + 2 := by
    unfold startLine LineState.print
    dsimp only
    rw [printString_cons, printChar_visible (by decide) (by decide) (by decide),
      printString_visible (by decide) (by decide)]
    rfl
  omega

/-- Characters that are neither `NUL` nor a newline keep the buffer and the screen together. -/
theorem typed_inv {s₀ : Screen} {s : LineState} (hs₀ : 0 ≤ s₀.cursorOffset) (h : LineInv s₀ [] s)
    (keys : List UInt8) : (∀ c ∈ keys, c ≠ 0 ∧ c ≠ 0x0A) → LineInv s₀ keys (typed s keys) := by
  induction keys using List.reverseRecOn with
  | nil => exact fun _ => h
  | append_singleton keys c ih =>
    intro hkeys
    rw [typed_concat]
    obtain ⟨h0, hn⟩ := hkeys c (List.mem_append_right _ List.mem_cons_self)
    exact (ih fun d hd => hkeys d (List.mem_append_left _ hd)).key hs₀ h0 hn

/-- The loop runs up to the first newline. -/
theorem readLine_eq (keys rest : List UInt8) :
    ∀ s : LineState, (∀ c ∈ keys, c ≠ 0x0A) →
      readLine (keys ++ 0x0A :: rest) s = some (endLine (typed s keys), rest) := by
  induction keys with
  | nil => exact fun s _ => rfl
  | cons c cs ih =>
    intro s hkeys
    rw [List.cons_append, readLine, if_neg (hkeys c List.mem_cons_self)]
    exact ih _ fun d hd => hkeys d (List.mem_cons_of_mem _ hd)

/-- **The line editor.** On any characters up to the first newline, `command_run` gets the string of
the abstract editor, the index stays in the buffer, and before the newline the screen shows that
string behind the prompt. -/
theorem line_editor {screen : Screen} (hscreen : 0 ≤ screen.cursorOffset) {keys : List UInt8}
    (hkeys : ∀ c ∈ keys, c ≠ 0 ∧ c ≠ 0x0A) (rest : List UInt8) :
    (∀ ks, ks <+: keys → (typed (startLine screen) ks).cmdIdx ≤ 127) ∧
      ShowsLine (startLine screen).screen (typed (startLine screen) keys).screen keys ∧
      ∃ u, readLine (keys ++ 0x0A :: rest) (startLine screen) = some (u, rest) ∧
        HoldsString u.cmdBuf 0 (edited keys) := by
  have hinv : ∀ ks, ks <+: keys →
      LineInv (startLine screen).screen ks (typed (startLine screen) ks) :=
    fun ks hks => typed_inv (startLine_cursor hscreen) (startLine_inv screen) ks
      fun c hc => hkeys c (hks.subset hc)
  have h := hinv keys List.prefix_rfl
  refine ⟨fun ks hks => ?_, h.shows, _, readLine_eq keys rest _ fun c hc => (hkeys c hc).2, ?_⟩
  · rw [(hinv ks hks).idx]
    exact (hinv ks hks).short
  · -- the terminator goes behind the last character
    unfold endLine LineState.print
    dsimp only
    rw [h.idx]
    constructor
    · intro i hi
      rw [Nat.zero_add, Function.update_of_ne (ne_of_lt hi)]
      exact h.buf i hi
    · rw [Nat.zero_add, Function.update_self]
    · exact h.string

/-- `ab`, with the second character corrected to `c`. -/
theorem line_editor_corrected :
    let keys : List UInt8 := [0x61, 0x62, 0x08, 0x63]
    let start := startLine (Screen.boot fun _ => 0)
    start.screen.cursorOffset = 4 ∧ (typed start keys).cmdIdx = 2 ∧
      (typed start keys).screen.cursorOffset = 8 ∧
      (typed start keys).screen.memory 0xB8004 = 0x61 ∧
      (typed start keys).screen.memory 0xB8006 = 0x63 ∧
      ∃ u, readLine (keys ++ 0x0A :: []) start = some (u, []) ∧
      HoldsString u.cmdBuf 0 [0x61, 0x63] := by
  intro keys start
  have hedited : edited keys = [0x61, 0x63] := by decide
  obtain ⟨-, hshows, u, hread, hholds⟩ :=
    @line_editor (Screen.boot fun _ => 0) (le_refl _) keys (by decide +kernel) []
  have hcursor : start.screen.cursorOffset = 4 := by decide +kernel
  have hcell : ∀ (i : ℕ) (h : i < 2), (typed start keys).screen.memory (0xB8004 + 2 * i) =
      ([0x61, 0x63] : List UInt8)[i] := by
    intro i h
    have hi := hshows.cells i (by rw [hedited]; exact h)
    unfold cellAddr at hi
    rw [hcursor] at hi
    rw [show (0xB8004 : ℤ) = videoAddress + 4 from rfl]
    simpa only [hedited] using hi
  rw [hedited] at hholds
  refine ⟨hcursor, by decide +kernel, ?_, hcell 0 (by norm_num), hcell 1 (by norm_num), u, hread,
    hholds⟩
  rw [hshows.cursor, hcursor, hedited]
  rfl

end VibeKernel
