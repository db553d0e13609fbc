import VibeKernel.Drivers.Screen

/-!
# Printing at a place

`print_at` puts the cursor at its place, and hands the place on to `print_char`, which puts the
cursor there again in front of every character. So all characters go to one cell, and the last one
is left in it (`printLoop_last`). `printedAt_iff` says which strings are shown nevertheless: those
of one character, and the empty one.
-/

namespace VibeKernel

/-- The screen `t` is `s` with a string in the cells from an offset on, and the cursor behind it. -/
structure PrintedAt (s t : Screen) (message : CString) (offset : ℤ) : Prop where
  cells : ∀ i (h : i < message.length), t.memory (videoAddress + offset + 2 * i) = message[i]
  cursor : t.cursorOffset = offset + 2 * message.length
  frame : ∀ a, a < videoAddress + offset ∨ videoAddress + offset + 2 * message.length ≤ a →
    t.memory a = s.memory a

section Positioned

variable {s : Screen} {col row : ℤ} {message : CString}

/-- One character at a place. -/
theorem printChar_at (h : 0 ≤ col ∧ 0 ≤ row) {c : UInt8} (hc : c ≠ 0x0A ∧ c ≠ 0x08) (s : Screen) :
    s.after (printChar c col row s.screenColor s) =
      { s.putCell (getOffset col row) c s.attr with cursorOffset := getOffset col row + 2 } := by
  rw [printChar_placed h, Screen.after_cons, printChar_visible (by decide) hc.1 hc.2]
  rfl

/-- **The characters go to one cell.** Only the last one is left in it. -/
theorem printLoop_last (h : 0 ≤ col ∧ 0 ≤ row) {c : UInt8} (hc : c ≠ 0x0A ∧ c ≠ 0x08) :
    ∀ {cs : CString} {s : Screen}, (∀ d ∈ cs, d ≠ 0x0A ∧ d ≠ 0x08) →
      s.after (printLoop col row (cs ++ [c]) s) =
        { s.putCell (getOffset col row) c s.attr with cursorOffset := getOffset col row + 2 }
  | [], s, _ => by
    rw [List.nil_append, printLoop, Screen.after_append, Screen.after_cons, printChar_at h hc]
    rfl
  | d :: cs, s, hcs => by
    obtain ⟨hd, hcs⟩ := List.forall_mem_cons.mp hcs
    rw [List.cons_append, printLoop, Screen.after_append, Screen.after_cons, printChar_at h hd]
    -- the rest begins with the character `d` in the cell, and writes over it
    change Screen.after { s.putCell (getOffset col row) d s.attr
      with cursorOffset := getOffset col row + 2 }
      (printLoop col row (cs ++ [c])
        { s.putCell (getOffset col row) d s.attr with cursorOffset := getOffset col row + 2 }) = _
    rw [printLoop_last h hc hcs]
    change { (s.putCell (getOffset col row) d s.attr).putCell (getOffset col row) c s.attr with
      cursorOffset := getOffset col row + 2 } = _
    rw [Screen.putCell_putCell]

/-- **When a string is shown at its place.** A string without newlines and backspaces is in the
cells from its place on, with the cursor behind it and all other cells as they were, exactly if it
has at most one character. -/
theorem printedAt_iff (h : 0 ≤ col ∧ 0 ≤ row) (hmessage : ∀ c ∈ message, c ≠ 0x0A ∧ c ≠ 0x08) :
    PrintedAt s (s.after (printAt message col row s)) message (getOffset col row) ↔
      message.length ≤ 1 := by
  have hplace : ∀ m : CString, s.after (printAt m col row s) =
      Screen.after { s with cursorOffset := getOffset col row }
        (printLoop col row m { s with cursorOffset := getOffset col row }) := by
    intro m
    unfold printAt
    rw [if_pos h]
    rfl
  rw [hplace]
  -- every character is printed at the same place, so the last one decides
  rcases List.eq_nil_or_concat' message with rfl | ⟨cs, c, rfl⟩
  · refine iff_of_true ⟨fun i hi => absurd hi (Nat.not_lt_zero i), ?_, fun a _ => rfl⟩
      (Nat.zero_le 1)
    exact (Int.add_zero _).symm
  · obtain ⟨hcs, hc⟩ := List.forall_mem_append.mp hmessage
    rw [printLoop_last h (hc c List.mem_cons_self) hcs]
    constructor
    · intro hshown
      -- the cursor is behind one cell, not behind the whole message
      have hcursor := hshown.cursor
      dsimp only at hcursor
      rw [List.length_append, List.length_singleton] at *
      omega
    · intro hlen
      rw [List.length_append, List.length_singleton] at hlen
      obtain rfl : cs = [] := List.eq_nil_of_length_eq_zero (by omega)
      refine ⟨fun i hi => ?_, rfl, fun a ha => ?_⟩
      · obtain rfl : i = 0 := Nat.lt_one_iff.mp hi
        dsimp only
        rw [Nat.cast_zero, Int.mul_zero, Int.add_zero]
        exact Screen.putCell_char _ _ _ _
      · refine Screen.putCell_memory ?_ ?_
        · rintro rfl
          rcases ha with ha | ha
          · omega
          · change _ + 2 * ((1 : ℕ) : ℤ) ≤ _ at ha
            omega
        · rintro rfl
          rcases ha with ha | ha
          · omega
          · change _ + 2 * ((1 : ℕ) : ℤ) ≤ _ at ha
            omega

/-- One character in the last cell. -/
theorem printedAt_corner : PrintedAt (Screen.boot fun _ => 0)
    ((Screen.boot fun _ => 0).after (printAt [0x78] 79 24 (Screen.boot fun _ => 0))) [0x78] 3998 :=
  (@printedAt_iff (Screen.boot fun _ => 0) 79 24 [0x78] (by decide)
    (by decide +kernel)).mpr (le_refl 1)

/-- Of `ab` only the `b` is shown, in the cell of the `a`. -/
theorem printed_over :
    ((Screen.boot fun _ => 0).after
        (printAt [0x61, 0x62] 0 0 (Screen.boot fun _ => 0))).memory 0xB8000 = 0x62 ∧
      ((Screen.boot fun _ => 0).after
        (printAt [0x61, 0x62] 0 0 (Screen.boot fun _ => 0))).memory 0xB8002 = 0 ∧
      ((Screen.boot fun _ => 0).after
        (printAt [0x61, 0x62] 0 0 (Screen.boot fun _ => 0))).cursorOffset = 2 ∧
      ¬ PrintedAt (Screen.boot fun _ => 0)
        ((Screen.boot fun _ => 0).after (printAt [0x61, 0x62] 0 0 (Screen.boot fun _ => 0)))
        [0x61, 0x62] 0 := by
  have hcursor : ((Screen.boot fun _ => 0).after
      (printAt [0x61, 0x62] 0 0 (Screen.boot fun _ => 0))).cursorOffset = 2 := by decide +kernel
  refine ⟨by decide +kernel, by decide +kernel, hcursor, fun h => ?_⟩
  exact absurd (hcursor.symm.trans h.cursor) (by decide)

end Positioned

end VibeKernel
