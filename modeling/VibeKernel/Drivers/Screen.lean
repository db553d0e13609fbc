import VibeKernel.Lib.Run
import VibeKernel.String.CString

/-!
# The screen

`src/drivers/screen.c`. The functions write to the video memory, assign to `cursor_offset` and write
to the ports of the controller. Each is modelled by the list of these events, and the state after it
is what the events make of the state before.

There is no scrolling: behind the last row the cursor goes on. Counted in cells, `advance` says what
a character printed at the cursor does to it, and `Fits` that only backspaces are printed behind the
last cell. `screen_calls_stay` says that this is what keeps all writes and the cursor on the screen.
-/

namespace VibeKernel

open Verif

/-! ### The functions of the source -/

/-- `VIDEO_ADDRESS`. -/
def videoAddress : ℤ := 0xB8000

/-- `MAX_ROWS`. -/
def maxRows : ℕ := 25

/-- `MAX_COLS`. -/
def maxCols : ℕ := 80

/-- `WHITE_ON_BLACK`. -/
def whiteOnBlack : UInt8 := 0x0F

/-- The global variables and the memory that is written through `VIDEO_ADDRESS`. -/
structure Screen where
  cursorOffset : ℤ
  screenColor : UInt8
  memory : ℤ → UInt8

/-- The screen before the first call. -/
def Screen.boot (memory : ℤ → UInt8) : Screen where
  cursorOffset := 0
  screenColor := 0x0F
  memory := memory

/-- What a function does, in its order. -/
inductive ScreenEvent
  /-- A byte is written to the memory. -/
  | write (addr : ℤ) (byte : UInt8)
  /-- An assignment to `cursor_offset`. -/
  | cursor (offset : ℤ)
  /-- An assignment to `screen_color`. -/
  | color (color : UInt8)
  /-- `port_byte_out`. -/
  | out (port : ℕ) (value : UInt8)
  deriving DecidableEq, Repr

/-- An event changes the state. -/
def Screen.apply (s : Screen) : ScreenEvent → Screen
  | .write addr byte => { s with memory := Function.update s.memory addr byte }
  | .cursor offset => { s with cursorOffset := offset }
  | .color color => { s with screenColor := color }
  | .out _ _ => s

/-- The state after events. -/
def Screen.after (s : Screen) (es : List ScreenEvent) : Screen := es.foldl Screen.apply s

/-- `get_offset`. -/
def getOffset (col row : ℤ) : ℤ := 2 * (row * maxCols + col)

/-- `set_cursor_offset`. -/
def setCursorOffset (offset : ℤ) : List ScreenEvent :=
  let cell := offset.tdiv 2
  [.out 0x3D4 14, .out 0x3D5 (UInt8.ofInt (cell >>> (8 : ℕ))),
    .out 0x3D4 15, .out 0x3D5 (UInt8.ofInt cell)]

/-- `print_char`. -/
def printChar (c : UInt8) (col row : ℤ) (attr : UInt8) (s : Screen) : List ScreenEvent :=
  let attr := if attr = 0 then whiteOnBlack else attr
  let place := if 0 ≤ col ∧ 0 ≤ row then [.cursor (getOffset col row)] else []
  let i := (s.after place).cursorOffset
  let put :=
    if c = 0x0A then [.cursor (getOffset 0 (i.tdiv (2 * maxCols) + 1))]
    else if c = 0x08 then if 0 < i then [.cursor (i - 2)] else []
    else [.write (videoAddress + i) c, .write (videoAddress + i + 1) attr, .cursor (i + 2)]
  place ++ put ++ setCursorOffset (s.after (place ++ put)).cursorOffset

/-- The loop of `print_at`, with the assignment of what `print_char` returns. -/
def printLoop (col row : ℤ) : CString → Screen → List ScreenEvent
  | [], _ => []
  | c :: cs, s =>
    let es := printChar c col row s.screenColor s
    let t := s.after es
    es ++ .cursor t.cursorOffset :: printLoop col row cs t

/-- `print_at`. -/
def printAt (message : CString) (col row : ℤ) (s : Screen) : List ScreenEvent :=
  let place := if 0 ≤ col ∧ 0 ≤ row then [.cursor (getOffset col row)] else []
  place ++ printLoop col row message (s.after place)

/-- `print_string`. -/
def printString (message : CString) (s : Screen) : List ScreenEvent := printAt message (-1) (-1) s

/-- `print_set_colour`. -/
def printSetColour (color : UInt8) : List ScreenEvent := [.color color]

/-- `clear_screen`. -/
def clearScreen : List ScreenEvent :=
  ((List.range (maxCols * maxRows)).flatMap fun i =>
    [.write (videoAddress + i * 2) 0x20, .write (videoAddress + i * 2 + 1) whiteOnBlack]) ++
  .cursor 0 :: setCursorOffset 0

/-! ### Calls -/

/-- The calls that other files make. -/
inductive ScreenCall
  | clearScreen
  | printSetColour (color : UInt8)
  | printString (message : CString)
  | printAt (message : CString) (col row : ℤ)
  deriving DecidableEq, Repr

/-- The events of a call. -/
def ScreenCall.events (s : Screen) : ScreenCall → List ScreenEvent
  | .clearScreen => VibeKernel.clearScreen
  | .printSetColour color => VibeKernel.printSetColour color
  | .printString message => VibeKernel.printString message s
  | .printAt message col row => VibeKernel.printAt message col row s

/-- A call answers with its events. -/
def screenStep (s : Screen) (call : ScreenCall) : Except Empty (List ScreenEvent × Screen) :=
  .ok (call.events s, s.after (call.events s))

/-- A position is given by a column and a row of the screen, or not at all. -/
def ScreenCall.Admitted : ScreenCall → Prop
  | .printAt _ col row => (0 ≤ col ∧ col < maxCols ∧ 0 ≤ row ∧ row < maxRows) ∨ (col < 0 ∧ row < 0)
  | _ => True

instance : DecidablePred ScreenCall.Admitted
  | .printAt _ _ _ => inferInstanceAs (Decidable (_ ∨ _))
  | .clearScreen | .printSetColour _ | .printString _ => inferInstanceAs (Decidable True)

/-! ### The purpose of the screen -/

/-- The number of cells. -/
def screenCells : ℕ := maxCols * maxRows

/-- A write goes to the screen, and the cursor is at a cell of it or just behind the last. -/
def ScreenEvent.OnScreen : ScreenEvent → Prop
  | .write addr _ => videoAddress ≤ addr ∧ addr < videoAddress + 2 * screenCells
  | .cursor offset => 0 ≤ offset ∧ offset ≤ 2 * screenCells ∧ offset % 2 = 0
  | _ => True

instance : DecidablePred ScreenEvent.OnScreen
  | .write _ _ => inferInstanceAs (Decidable (_ ∧ _))
  | .cursor _ => inferInstanceAs (Decidable (_ ∧ _))
  | .color _ | .out _ _ => inferInstanceAs (Decidable True)

/-- The cell of the cursor after a character is printed at a cell. -/
def advance (pos : ℕ) (c : UInt8) : ℕ :=
  if c = 0x0A then (pos / maxCols + 1) * maxCols else if c = 0x08 then pos - 1 else pos + 1

/-- Printing the text at a cell puts only backspaces behind the last cell. -/
def FitsAt : ℕ → CString → Prop
  | _, [] => True
  | pos, c :: cs => (c ≠ 0x08 → pos < screenCells) ∧ FitsAt (advance pos c) cs

instance : ∀ pos cs, Decidable (FitsAt pos cs)
  | _, [] => inferInstanceAs (Decidable True)
  | _, _ :: cs => @instDecidableAnd _ _ inferInstance (instDecidableFitsAt _ cs)

/-- What is printed at the cursor fits there. -/
def ScreenCall.Fits (s : Screen) : ScreenCall → Prop
  | .printString message => FitsAt (s.cursorOffset / 2).toNat message
  | .printAt message col row => col < 0 ∧ row < 0 → FitsAt (s.cursorOffset / 2).toNat message
  | _ => True

instance (s : Screen) : DecidablePred (ScreenCall.Fits s)
  | .printString message => inferInstanceAs (Decidable (FitsAt (s.cursorOffset / 2).toNat message))
  | .printAt message col row =>
    inferInstanceAs (Decidable (col < 0 ∧ row < 0 → FitsAt (s.cursorOffset / 2).toNat message))
  | .clearScreen | .printSetColour _ => inferInstanceAs (Decidable True)

/-! ### Events -/

section Events

variable {s : Screen} {col row : ℤ} {attr c : UInt8}

@[simp] theorem Screen.after_nil (s : Screen) : s.after [] = s := rfl

@[simp] theorem Screen.after_cons (s : Screen) (e : ScreenEvent) (es : List ScreenEvent) :
    s.after (e :: es) = (s.apply e).after es := rfl

@[simp] theorem Screen.after_append (s : Screen) (es es' : List ScreenEvent) :
    s.after (es ++ es') = (s.after es).after es' := List.foldl_append

@[simp] theorem Screen.after_setCursorOffset (s : Screen) (offset : ℤ) :
    s.after (setCursorOffset offset) = s := rfl

/-- The ports are no part of the screen. -/
theorem setCursorOffset_onScreen {offset : ℤ} {e : ScreenEvent} (h : e ∈ setCursorOffset offset) :
    e.OnScreen := by
  unfold setCursorOffset at h
  simp only [List.mem_cons, List.not_mem_nil, or_false] at h
  rcases h with rfl | rfl | rfl | rfl <;> trivial

/-- A character printed at a place is printed at the cursor, which is put there first. -/
theorem printChar_placed (h : 0 ≤ col ∧ 0 ≤ row) :
    printChar c col row attr s = .cursor (getOffset col row) ::
      printChar c (-1) (-1) attr (s.apply (.cursor (getOffset col row))) := by
  have hcursor : ¬ ((0 : ℤ) ≤ -1 ∧ (0 : ℤ) ≤ -1) := by decide
  unfold printChar
  rw [if_pos h, if_neg hcursor]
  rfl

theorem printChar_visible (h : ¬ (0 ≤ col ∧ 0 ≤ row)) (hn : c ≠ 0x0A) (hb : c ≠ 0x08) :
    printChar c col row attr s =
      [.write (videoAddress + s.cursorOffset) c,
        .write (videoAddress + s.cursorOffset + 1) (if attr = 0 then whiteOnBlack else attr),
        .cursor (s.cursorOffset + 2)] ++ setCursorOffset (s.cursorOffset + 2) := by
  unfold printChar
  rw [if_neg h]
  dsimp only
  rw [if_neg hn, if_neg hb]
  rfl

theorem printChar_newline (h : ¬ (0 ≤ col ∧ 0 ≤ row)) :
    printChar 0x0A col row attr s =
      .cursor (getOffset 0 (s.cursorOffset.tdiv (2 * maxCols) + 1)) ::
        setCursorOffset (getOffset 0 (s.cursorOffset.tdiv (2 * maxCols) + 1)) := by
  unfold printChar
  rw [if_neg h]
  rfl

theorem printChar_backspace (h : ¬ (0 ≤ col ∧ 0 ≤ row)) :
    printChar 0x08 col row attr s =
      if 0 < s.cursorOffset then
        .cursor (s.cursorOffset - 2) :: setCursorOffset (s.cursorOffset - 2)
      else setCursorOffset s.cursorOffset := by
  unfold printChar
  rw [if_neg h]
  dsimp only
  rw [if_neg (by decide), if_pos rfl, Screen.after_nil]
  split_ifs <;> rfl

end Events

/-! ### Cells -/

section Cells

variable {s : Screen} {c : UInt8} {offset : ℤ}

/-- The screen with a character in the cell at an offset. -/
def Screen.putCell (s : Screen) (offset : ℤ) (c attr : UInt8) : Screen :=
  let memory := Function.update s.memory (videoAddress + offset) c
  { s with memory := Function.update memory (videoAddress + offset + 1) attr }

/-- The attribute that characters are printed with. -/
def Screen.attr (s : Screen) : UInt8 := if s.screenColor = 0 then whiteOnBlack else s.screenColor

theorem Screen.putCell_memory {a : ℤ} {attr : UInt8} (h : a ≠ videoAddress + offset)
    (h' : a ≠ videoAddress + offset + 1) : (s.putCell offset c attr).memory a = s.memory a := by
  unfold Screen.putCell
  dsimp only
  rw [Function.update_of_ne h', Function.update_of_ne h]

theorem Screen.putCell_char (s : Screen) (offset : ℤ) (c attr : UInt8) :
    (s.putCell offset c attr).memory (videoAddress + offset) = c := by
  unfold Screen.putCell
  dsimp only
  rw [Function.update_of_ne (by omega), Function.update_self]

/-- The last character of a cell is the one that is left. -/
theorem Screen.putCell_putCell (s : Screen) (offset : ℤ) (c d attr : UInt8) :
    (s.putCell offset c attr).putCell offset d attr = s.putCell offset d attr := by
  have hne : videoAddress + offset ≠ videoAddress + offset + 1 := by omega
  unfold Screen.putCell
  dsimp only
  rw [Function.update_comm hne, Function.update_idem, Function.update_comm hne.symm,
    Function.update_idem]

end Cells

/-! ### Staying on the screen -/

/-- The cursor is at a cell. -/
def Screen.At (s : Screen) (pos : ℕ) : Prop := s.cursorOffset = 2 * (pos : ℤ)

/-- A character that fits leaves the cursor on the screen. -/
theorem advance_le {pos : ℕ} {c : UInt8} (h : c ≠ 0x08 → pos < screenCells)
    (hpos : pos ≤ screenCells) : advance pos c ≤ screenCells := by
  have hcells : screenCells = 2000 := rfl
  unfold advance maxCols
  split_ifs with hn hb
  · have hlt := h (by rw [hn]; decide)
    omega
  · omega
  · exact h hb

section Stay

variable {s : Screen} {col row : ℤ} {attr c : UInt8} {pos : ℕ}

/-- A character moves the cursor from cell to cell. -/
theorem printChar_moves (hcr : ¬ (0 ≤ col ∧ 0 ≤ row)) (hs : s.At pos) :
    (s.after (printChar c col row attr s)).At (advance pos c) := by
  unfold Screen.At at hs ⊢
  by_cases hn : c = 0x0A
  · subst hn
    rw [printChar_newline hcr, Screen.after_cons, Screen.after_setCursorOffset]
    change getOffset 0 (s.cursorOffset.tdiv (2 * maxCols) + 1) = _
    rw [hs, Int.tdiv_eq_ediv_of_nonneg (by omega)]
    unfold getOffset advance maxCols
    rw [if_pos rfl]
    push_cast
    omega
  by_cases hb : c = 0x08
  · subst hb
    have hadv : advance pos 0x08 = pos - 1 := rfl
    rw [printChar_backspace hcr, hadv]
    split_ifs
    · rw [Screen.after_cons, Screen.after_setCursorOffset]
      change s.cursorOffset - 2 = _
      omega
    · rw [Screen.after_setCursorOffset]
      omega
  have hadv : advance pos c = pos + 1 := by
    unfold advance
    rw [if_neg hn, if_neg hb]
  rw [printChar_visible hcr hn hb, hadv]
  change s.cursorOffset + 2 = _
  push_cast
  omega

/-- **One character at the cursor.** -/
theorem printChar_step (hcr : ¬ (0 ≤ col ∧ 0 ≤ row)) (hs : s.At pos) (hpos : pos ≤ screenCells) :
    (s.after (printChar c col row attr s)).At (advance pos c) ∧
      ((∀ e ∈ printChar c col row attr s, e.OnScreen) ↔ (c ≠ 0x08 → pos < screenCells)) := by
  have hmoves := @printChar_moves s col row attr c pos hcr hs
  refine ⟨hmoves, ?_⟩
  have hcells : (screenCells : ℤ) = 2000 := rfl
  unfold Screen.At at hs hmoves
  by_cases hn : c = 0x0A
  · subst hn
    -- the offset that is written is the one behind the newline
    rw [printChar_newline hcr] at hmoves ⊢
    rw [Screen.after_cons, Screen.after_setCursorOffset] at hmoves
    have hrow : getOffset 0 (s.cursorOffset.tdiv (2 * maxCols) + 1) = 2 * (advance pos 0x0A : ℕ) :=
      hmoves
    rw [hrow, List.forall_mem_cons]
    have hports := @setCursorOffset_onScreen (2 * (advance pos 0x0A : ℕ))
    constructor
    · rintro ⟨h, -⟩ -
      unfold ScreenEvent.OnScreen advance maxCols at h
      rw [if_pos rfl] at h
      push_cast at h
      omega
    · intro h
      refine ⟨?_, fun e he => hports he⟩
      have hle := advance_le h hpos
      unfold ScreenEvent.OnScreen
      omega
  by_cases hb : c = 0x08
  · subst hb
    rw [printChar_backspace hcr]
    refine iff_of_true ?_ fun h => absurd rfl h
    split_ifs with h0
    · rw [List.forall_mem_cons]
      refine ⟨?_, fun e he => setCursorOffset_onScreen he⟩
      unfold ScreenEvent.OnScreen
      omega
    · exact fun e he => setCursorOffset_onScreen he
  rw [printChar_visible hcr hn hb]
  refine ⟨fun h _ => ?_, fun h => ?_⟩
  · have hw := h _ List.mem_cons_self
    unfold ScreenEvent.OnScreen at hw
    omega
  · have hlt := h hb
    intro e he
    rcases List.mem_append.mp he with he | he
    · simp only [List.mem_cons, List.not_mem_nil, or_false] at he
      rcases he with rfl | rfl | rfl <;> unfold ScreenEvent.OnScreen <;> omega
    · exact setCursorOffset_onScreen he

/-- **A text at the cursor** stays on the screen if and only if it fits. -/
theorem printLoop_step (hcr : ¬ (0 ≤ col ∧ 0 ≤ row)) :
    ∀ {m : CString} {s : Screen} {pos : ℕ}, s.At pos → pos ≤ screenCells →
      ((∀ e ∈ printLoop col row m s, e.OnScreen) ↔ FitsAt pos m) ∧
        (FitsAt pos m → ∃ pos' ≤ screenCells, (s.after (printLoop col row m s)).At pos') := by
  intro m
  induction m with
  | nil =>
    intro s pos hs hpos
    exact ⟨iff_of_true (fun e he => absurd he List.not_mem_nil) trivial, fun _ => ⟨pos, hpos, hs⟩⟩
  | cons c cs ih =>
    intro s pos hs hpos
    obtain ⟨hat, hiff⟩ := @printChar_step s col row s.screenColor c pos hcr hs hpos
    rw [printLoop, FitsAt]
    generalize printChar c col row s.screenColor s = es at hat hiff ⊢
    constructor
    · rw [List.forall_mem_append, List.forall_mem_cons]
      constructor
      · rintro ⟨hes, -, hrest⟩
        have hfit := hiff.mp hes
        exact ⟨hfit, (ih hat (advance_le hfit hpos)).1.mp hrest⟩
      · rintro ⟨hfit, hrest⟩
        have hle := advance_le hfit hpos
        refine ⟨hiff.mpr hfit, ?_, (ih hat hle).1.mpr hrest⟩
        unfold Screen.At at hat
        unfold ScreenEvent.OnScreen
        omega
    · rintro ⟨hfit, hrest⟩
      have h := (ih hat (advance_le hfit hpos)).2 hrest
      rwa [Screen.after_append, Screen.after_cons]

/-- A text at a place of the screen stays there: the cursor is put back before each character. -/
theorem printLoop_placed (hcol : 0 ≤ col ∧ col < maxCols) (hrow : 0 ≤ row ∧ row < maxRows) :
    ∀ {m : CString} {s : Screen} {pos : ℕ}, s.At pos → pos ≤ screenCells →
      (∀ e ∈ printLoop col row m s, e.OnScreen) ∧
        ∃ pos' ≤ screenCells, (s.after (printLoop col row m s)).At pos' := by
  have hcells : screenCells = 2000 := rfl
  have hcols : (maxCols : ℤ) = 80 := rfl
  have hrows : (maxRows : ℤ) = 25 := rfl
  obtain ⟨place, hplace, hlt⟩ : ∃ place : ℕ, getOffset col row = 2 * (place : ℤ) ∧
      place < screenCells := by
    have hmul : row * (maxCols : ℤ) = row * 80 := by rw [hcols]
    refine ⟨(row * maxCols + col).toNat, ?_, ?_⟩
    · unfold getOffset
      omega
    · omega
  intro m
  induction m with
  | nil => exact fun hs hpos => ⟨fun e he => absurd he List.not_mem_nil, _, hpos, hs⟩
  | cons c cs ih =>
    intro s pos _ _
    have hs' : (s.apply (.cursor (getOffset col row))).At place := hplace
    obtain ⟨hat, hiff⟩ := @printChar_step _ (-1) (-1) s.screenColor c place (by decide) hs'
      (le_of_lt hlt)
    have hle : advance place c ≤ screenCells := advance_le (fun _ => hlt) (le_of_lt hlt)
    obtain ⟨hrest, hend⟩ := ih hat hle
    have hput : (s.after (printChar c col row s.screenColor s)) =
        (s.apply (.cursor (getOffset col row))).after
          (printChar c (-1) (-1) s.screenColor (s.apply (.cursor (getOffset col row)))) := by
      rw [printChar_placed ⟨hcol.1, hrow.1⟩, Screen.after_cons]
    rw [printLoop, Screen.after_append, Screen.after_cons, hput, List.forall_mem_append,
      List.forall_mem_cons]
    refine ⟨⟨?_, ?_, hrest⟩, hend⟩
    · rw [printChar_placed ⟨hcol.1, hrow.1⟩, List.forall_mem_cons]
      refine ⟨?_, hiff.mpr fun _ => hlt⟩
      unfold ScreenEvent.OnScreen
      omega
    · unfold Screen.At at hat
      unfold ScreenEvent.OnScreen
      omega

end Stay

/-! ### Runs -/

/-- The cursor is at a cell of the screen or just behind the last. -/
def Screen.Good (s : Screen) : Prop := ∃ pos ≤ screenCells, s.At pos

theorem Screen.At.cell {s : Screen} {pos : ℕ} (h : s.At pos) :
    (s.cursorOffset / 2).toNat = pos := by
  unfold Screen.At at h
  omega

theorem clearScreen_onScreen {e : ScreenEvent} (h : e ∈ clearScreen) : e.OnScreen := by
  have hcells : (screenCells : ℤ) = 2000 := rfl
  unfold clearScreen at h
  rcases List.mem_append.mp h with h | h
  · obtain ⟨i, hi, he⟩ := List.mem_flatMap.mp h
    have hi' : i < 2000 := List.mem_range.mp hi
    simp only [List.mem_cons, List.not_mem_nil, or_false] at he
    rcases he with rfl | rfl <;> unfold ScreenEvent.OnScreen <;> omega
  · rcases List.mem_cons.mp h with rfl | h
    · decide
    · exact setCursorOffset_onScreen h

theorem clearScreen_at (s : Screen) : (s.after clearScreen).At 0 := by
  unfold clearScreen
  rw [Screen.after_append, Screen.after_cons, Screen.after_setCursorOffset]
  rfl

/-- A text at a place or at the cursor. -/
theorem printAt_step {s : Screen} {pos : ℕ} {message : CString} {col row : ℤ} (hat : s.At pos)
    (hpos : pos ≤ screenCells) (hcall : (ScreenCall.printAt message col row).Admitted) :
    ((∀ e ∈ printAt message col row s, e.OnScreen) ↔ (col < 0 ∧ row < 0 → FitsAt pos message)) ∧
      ((col < 0 ∧ row < 0 → FitsAt pos message) → (s.after (printAt message col row s)).Good) := by
  unfold printAt
  dsimp only
  rcases hcall with ⟨hcol, hcol', hrow, hrow'⟩ | hneg
  · -- the place is on the screen
    have hcells : (screenCells : ℤ) = 2000 := rfl
    have hcols : (maxCols : ℤ) = 80 := rfl
    have hrows : (maxRows : ℤ) = 25 := rfl
    have hmul : row * (maxCols : ℤ) = row * 80 := by rw [hcols]
    have hat' : (s.apply (.cursor (getOffset col row))).At (row * maxCols + col).toNat := by
      change getOffset col row = _
      unfold getOffset
      omega
    obtain ⟨hon, hend⟩ := @printLoop_placed col row ⟨hcol, hcol'⟩ ⟨hrow, hrow'⟩ message _ _ hat'
      (by omega)
    rw [if_pos ⟨hcol, hrow⟩]
    refine ⟨iff_of_true ?_ fun h => absurd h.1 (not_lt.mpr hcol), fun _ => hend⟩
    rw [List.singleton_append, List.forall_mem_cons]
    refine ⟨?_, hon⟩
    unfold ScreenEvent.OnScreen getOffset
    omega
  · have hcr : ¬ (0 ≤ col ∧ 0 ≤ row) := fun h => absurd h.1 (not_le.mpr hneg.1)
    rw [if_neg hcr, List.nil_append, Screen.after_nil]
    have hstep := @printLoop_step col row hcr message s pos hat hpos
    exact ⟨hstep.1.trans ⟨fun h _ => h, fun h => h hneg⟩, fun h => hstep.2 (h hneg)⟩

/-- **One call.** It stays on the screen if and only if what it prints at the cursor fits. -/
theorem screenCall_step {s : Screen} {call : ScreenCall} (hs : s.Good) (hcall : call.Admitted) :
    ((∀ e ∈ call.events s, e.OnScreen) ↔ call.Fits s) ∧
      (call.Fits s → (s.after (call.events s)).Good) := by
  obtain ⟨pos, hpos, hat⟩ := hs
  cases call with
  | clearScreen =>
    exact ⟨iff_of_true (fun e he => clearScreen_onScreen he) trivial,
      fun _ => ⟨0, Nat.zero_le _, clearScreen_at s⟩⟩
  | printSetColour color =>
    refine ⟨iff_of_true (fun e he => ?_) trivial, fun _ => ⟨pos, hpos, hat⟩⟩
    cases List.mem_singleton.mp he
    trivial
  | printString message =>
    change ((∀ e ∈ printLoop (-1) (-1) message s, _) ↔ FitsAt _ message) ∧ (FitsAt _ message → _)
    rw [hat.cell]
    exact printLoop_step (by decide) hat hpos
  | printAt message col row =>
    have hfits : (ScreenCall.printAt message col row).Fits s ↔
        (col < 0 ∧ row < 0 → FitsAt pos message) := by
      unfold ScreenCall.Fits
      rw [hat.cell]
    rw [hfits]
    exact printAt_step hat hpos hcall

/-- **Staying on the screen.** In a sequence of calls, all writes and the cursor stay on the screen
if and only if only backspaces are printed while the cursor is behind the last cell. -/
theorem screen_calls_stay (memory : ℤ → UInt8) (calls : List ScreenCall)
    (hcalls : ∀ call ∈ calls, call.Admitted) :
    ∃ os u, runList screenStep (Screen.boot memory) calls = .ok (os, u) ∧
      ((∀ es ∈ os, ∀ e ∈ es, e.OnScreen) ↔
        Meets screenStep (fun s call => call.Fits s) (Screen.boot memory) calls) := by
  have hstep : ∀ (s : Screen) (call : ScreenCall), s.Good → call.Admitted → ∃ es t,
      screenStep s call = .ok (es, t) ∧ ((∀ e ∈ es, e.OnScreen) ↔ call.Fits s) ∧
        (call.Fits s → t.Good) :=
    fun s call hs hcall => ⟨_, _, rfl, screenCall_step hs hcall⟩
  exact runList_outputs_iff hstep (fun _ _ => ⟨_, _, rfl⟩) ⟨0, Nat.zero_le _, rfl⟩ hcalls

/-- A character in the last cell, behind which the cursor is, and a backspace that brings it
back. -/
theorem screen_calls_stay_bottom :
    ∃ os u, runList screenStep (Screen.boot fun _ => 0) [.printAt [0x78] 79 24,
      .printString [0x08]] = .ok (os, u) ∧
      ScreenEvent.write 0xB8F9E 0x78 ∈ os.flatten ∧ ScreenEvent.cursor 4000 ∈ os.flatten ∧
      u.cursorOffset = 3998 ∧ ∀ es ∈ os, ∀ e ∈ es, e.OnScreen := by
  obtain ⟨os, u, hrun, hiff⟩ := screen_calls_stay (fun _ => 0)
    [.printAt [0x78] 79 24, .printString [0x08]] (by decide)
  have hvals : ((runList screenStep (Screen.boot fun _ => 0)
      [.printAt [0x78] 79 24, .printString [0x08]]).toOption.map fun r =>
        (decide (ScreenEvent.write 0xB8F9E 0x78 ∈ r.1.flatten),
          decide (ScreenEvent.cursor 4000 ∈ r.1.flatten), r.2.cursorOffset)) =
      some (true, true, 3998) := by
    decide +kernel
  rw [hrun] at hvals
  simp only [Except.toOption, Option.map_some, Option.some.injEq, Prod.mk.injEq,
    decide_eq_true_eq] at hvals
  obtain ⟨hwrite, hcursor, hend⟩ := hvals
  refine ⟨os, u, hrun, hwrite, hcursor, hend, hiff.mpr ?_⟩
  exact meets_of_checkRun (fun s call => decide (call.Fits s)) (fun _ _ h => of_decide_eq_true h)
    (by decide +kernel)

/-- A character after 25 lines is written behind the video memory. -/
theorem print_leaves_screen :
    ¬ ∀ (memory : ℤ → UInt8) (calls : List ScreenCall), (∀ call ∈ calls, call.Admitted) →
      ∀ os u, runList screenStep (Screen.boot memory) calls = .ok (os, u) →
        ∀ es ∈ os, ∀ e ∈ es, e.OnScreen := by
  intro h
  have hfit := h (fun _ => 0) [.printString (List.replicate 25 0x0A ++ [0x78])] (by decide) _ _ rfl
  have hwrite := hfit _ List.mem_cons_self (.write 0xB8FA0 0x78) (by decide +kernel)
  exact absurd hwrite (by decide)

end VibeKernel
