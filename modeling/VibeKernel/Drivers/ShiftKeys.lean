import VibeKernel.Drivers.Keyboard

/-!
# The shift keys

`keyboard_handler` keeps one flag for the two shift keys. It is set when one of them is pressed and
cleared when one of them is released, so it says what the last event of a shift key was
(`shiftActive_eq`), while a shift key is held if the last event of that key was a press.

The two are the same until one shift key is released with the other one held. From then on, the keys
that are pressed are read from the plain table. `shift_decoding` says that these are all the
characters that are read from the wrong table.
-/

namespace VibeKernel

open Verif

/-! ### Keys that are held -/

/-- The event presses or releases the key with this code. -/
def KeyEvent.pressOf (key : UInt8) : KeyEvent → Option Bool
  | .interrupt code =>
    if code = key then some true else if code = key ||| 0x80 then some false else none
  | _ => none

/-- The last event of the key is a press. -/
def heldAfter (key : UInt8) (is : List KeyEvent) : Bool :=
  is.foldl (fun held i => (i.pressOf key).getD held) false

/-- A shift key is held. -/
def shiftHeld (is : List KeyEvent) : Bool := heldAfter lshift is || heldAfter rshift is

/-- The event presses or releases a shift key. -/
def KeyEvent.shiftPress (i : KeyEvent) : Option Bool := (i.pressOf lshift).or (i.pressOf rshift)

/-- The last event of a shift key is a press. -/
def lastShiftPressed (is : List KeyEvent) : Bool :=
  is.foldl (fun pressed i => i.shiftPress.getD pressed) false

/-- The character of a key, from the shifted or the plain table. -/
def tableChar (shifted : Bool) (code : UInt8) : UInt8 :=
  if shifted then scancodeAsciiShift.getD code.toNat 0 else scancodeAscii.getD code.toNat 0

/-- The next free cell is not the last one of the ring. -/
def Keyboard.RoomFor (k : Keyboard) : Prop := (k.bufferHead + 1) % bufferSize ≠ k.bufferTail

/-- If the interrupt with this code comes after the events, a character that it puts into the buffer
is from the shifted table if a shift key is held, and from the plain table otherwise. -/
def Decodes (is : List KeyEvent) (code : UInt8) : Prop :=
  ∀ os k c, runList keyboardStep Keyboard.boot is = .ok (os, k) →
    (keyboardHandler k code).1 = .accepted c → c = tableChar (shiftHeld is) code

/-- One shift key is held, and the other one was released after it was pressed. -/
def ShiftForgotten (is : List KeyEvent) : Prop := shiftHeld is = true ∧ lastShiftPressed is = false

section Shift

variable {k t : Keyboard} {is : List KeyEvent} {os : List KeyOut} {code c : UInt8}

/-! ### The flag -/

theorem addToBuffer_shift (k : Keyboard) (c : UInt8) :
    (addToBuffer k c).2.shiftActive = k.shiftActive := by
  unfold addToBuffer
  dsimp only
  split_ifs <;> rfl

theorem forall_code {P : UInt8 → Prop} (h : ∀ n < 256, P (UInt8.ofNat n))
    (code : UInt8) : P code := by
  have hcode := h code.toNat code.toNat_lt
  rwa [UInt8.ofNat_toNat] at hcode

/-- A code is that of a press or a release of a shift key, or it is neither. -/
theorem shiftPress_interrupt (code : UInt8) : (KeyEvent.interrupt code).shiftPress =
    if code &&& 0x80 ≠ 0 then
      if code &&& 0x7F = lshift ∨ code &&& 0x7F = rshift then some false else none
    else if code = lshift ∨ code = rshift then some true else none := by
  revert code
  exact forall_code (by decide +kernel)

/-- **The handler keeps the last event of a shift key in the flag.** -/
theorem keyboardHandler_shift (k : Keyboard) (code : UInt8) :
    (keyboardHandler k code).2.shiftActive =
      (KeyEvent.interrupt code).shiftPress.getD k.shiftActive := by
  rw [shiftPress_interrupt]
  unfold keyboardHandler
  dsimp only
  split_ifs
  all_goals first | rfl | exact addToBuffer_shift _ _

/-- No other event changes the flag. -/
theorem keyboardStep_shift {i : KeyEvent} {o : KeyOut} (hs : keyboardStep k i = .ok (o, t)) :
    t.shiftActive = i.shiftPress.getD k.shiftActive := by
  cases i with
  | interrupt code =>
    have hkey := keyboardHandler_shift k code
    rw [keyboardStep] at hs
    rwa [Except.ok.inj hs] at hkey
  | push c =>
    rw [keyboardStep] at hs
    split_ifs at hs
    have hkey : (keyboardPush k c).2.shiftActive = k.shiftActive := by
      unfold keyboardPush
      split_ifs
      · rfl
      · exact addToBuffer_shift k c
    rwa [Except.ok.inj hs] at hkey
  | call =>
    rw [keyboardStep] at hs
    split_ifs at hs
    rw [← (Prod.mk.inj (Except.ok.inj hs)).2]
    rfl
  | next =>
    rw [keyboardStep] at hs
    unfold keyboardGetc at hs
    split at hs
    · cases hs
    all_goals
      rw [← (Prod.mk.inj (Except.ok.inj hs)).2]
      rfl

/-- What the flag is after a run. -/
theorem runList_shift : ∀ {is : List KeyEvent} {k t : Keyboard} {os : List KeyOut},
    runList keyboardStep k is = .ok (os, t) →
      t.shiftActive = is.foldl (fun pressed i => i.shiftPress.getD pressed) k.shiftActive
  | [], _, _, _, hr => by
    cases hr
    rfl
  | i :: is, k, t, os, hr => by
    obtain ⟨o, u, os', hs, hr', -⟩ := runList_cons_ok.mp hr
    rw [List.foldl_cons, ← keyboardStep_shift hs]
    exact runList_shift hr'

/-- **The flag is the last event of a shift key.** -/
theorem shiftActive_eq (hr : runList keyboardStep Keyboard.boot is = .ok (os, k)) :
    k.shiftActive = lastShiftPressed is := runList_shift hr

/-- If the last event of a shift key is a press, this key is held. -/
theorem shiftHeld_of_lastShiftPressed (h : lastShiftPressed is = true) : shiftHeld is = true := by
  have hstep : ∀ (i : KeyEvent) (l r p : Bool), (p = true → (l || r) = true) →
      i.shiftPress.getD p = true →
        ((i.pressOf lshift).getD l || (i.pressOf rshift).getD r) = true := by
    intro i l r p hp hpress
    unfold KeyEvent.shiftPress at hpress
    cases hl : i.pressOf lshift with
    | some b =>
      rw [hl] at hpress
      change b = true at hpress
      rw [hpress]
      rfl
    | none =>
      rw [hl] at hpress
      cases hright : i.pressOf rshift with
      | some b =>
        rw [hright] at hpress
        change b = true at hpress
        rw [hpress]
        exact Bool.or_true _
      | none =>
        rw [hright] at hpress
        exact hp hpress
  have hfold : ∀ (is : List KeyEvent) (l r p : Bool), (p = true → (l || r) = true) →
      is.foldl (fun pressed i => i.shiftPress.getD pressed) p = true →
        (is.foldl (fun held i => (i.pressOf lshift).getD held) l ||
          is.foldl (fun held i => (i.pressOf rshift).getD held) r) = true := by
    intro is
    induction is with
    | nil => exact fun l r p hp h => hp h
    | cons i is ih => exact fun l r p hp h => ih _ _ _ (hstep i l r p hp) h
  exact hfold is false false false (fun h => h) h

/-! ### The characters -/

/-- A code with two characters is that of a key, and neither character is missing. -/
theorem tableChar_differ (h : tableChar true code ≠ tableChar false code) :
    code &&& 0x80 = 0 ∧ ¬ (code = lshift ∨ code = rshift) ∧ code.toNat < scancodeAscii.length ∧
      ∀ shifted, tableChar shifted code ≠ 0 := by
  revert code
  apply forall_code
  decide +kernel

theorem addToBuffer_accepted (h : (addToBuffer k c).1 = .accepted code) : code = c ∧ k.RoomFor := by
  unfold addToBuffer at h
  dsimp only at h
  split_ifs at h with hroom
  cases h
  exact ⟨rfl, hroom⟩

/-- A character of the handler is from the table that the flag says. -/
theorem keyboardHandler_accepted (h : (keyboardHandler k code).1 = .accepted c) :
    c = tableChar k.shiftActive code ∧ k.RoomFor := by
  unfold keyboardHandler at h
  dsimp only at h
  split_ifs at h with _ _ _ _ hshift _ _
  · obtain ⟨hc, hroom⟩ := addToBuffer_accepted h
    rw [hc, tableChar, if_pos hshift]
    exact ⟨rfl, hroom⟩
  · obtain ⟨hc, hroom⟩ := addToBuffer_accepted h
    rw [hc, tableChar, if_neg hshift]
    exact ⟨rfl, hroom⟩

/-- A key with two characters puts one of them into the buffer, if there is room. -/
theorem keyboardHandler_differ (h : tableChar true code ≠ tableChar false code)
    (hroom : k.RoomFor) :
    (keyboardHandler k code).1 = .accepted (tableChar k.shiftActive code) := by
  obtain ⟨hmake, hshift, hlt, hne⟩ := tableChar_differ h
  have hchar : (if k.shiftActive = true then scancodeAsciiShift.getD code.toNat 0
      else scancodeAscii.getD code.toNat 0) = tableChar k.shiftActive code := rfl
  unfold keyboardHandler
  dsimp only
  rw [if_neg (not_not.mpr hmake), if_neg hshift, if_pos hlt, hchar, if_pos (hne _)]
  unfold addToBuffer Keyboard.RoomFor at *
  dsimp only
  rw [if_pos hroom]

/-- **When a character is read from the right table.** -/
theorem decodes_iff (is : List KeyEvent) (code : UInt8) :
    Decodes is code ↔ ∀ os k, runList keyboardStep Keyboard.boot is = .ok (os, k) → k.RoomFor →
      tableChar true code ≠ tableChar false code → ¬ ShiftForgotten is := by
  constructor
  · rintro h os k hr hroom hdiff ⟨hheld, hlast⟩
    have hc := h os k _ hr (keyboardHandler_differ hdiff hroom)
    rw [shiftActive_eq hr, hlast, hheld] at hc
    exact hdiff hc.symm
  · intro h os k c hr hacc
    obtain ⟨hc, hroom⟩ := keyboardHandler_accepted hacc
    rw [hc, shiftActive_eq hr]
    by_cases hdiff : tableChar true code = tableChar false code
    · have hany : ∀ shifted, tableChar shifted code = tableChar false code := by
        intro shifted
        cases shifted with
        | false => rfl
        | true => exact hdiff
      rw [hany, hany (shiftHeld is)]
    · have hnot := h os k hr hroom hdiff
      cases hlast : lastShiftPressed is with
      | true => rw [shiftHeld_of_lastShiftPressed hlast]
      | false => rw [Bool.eq_false_iff.mpr fun hheld => hnot ⟨hheld, hlast⟩]

/-- **Which characters are shifted.** In a sequence of interrupts and reads, every character that
the handler puts into the buffer is from the shifted table exactly if a shift key is held, if and
only if no key with two characters comes, with room in the buffer, while one shift key is held and
the last event of a shift key was the release of the other. -/
theorem shift_decoding (is : List KeyEvent) :
    (∀ before code, before ++ [.interrupt code] <+: is → Decodes before code) ↔
      ∀ before code, before ++ [.interrupt code] <+: is →
        ∀ os k, runList keyboardStep Keyboard.boot before = .ok (os, k) → k.RoomFor →
          tableChar true code ≠ tableChar false code → ¬ ShiftForgotten before :=
  forall_congr' fun before => forall_congr' fun code => imp_congr_right fun _ =>
    decodes_iff before code

/-- With the right shift key still held, `a` is read as a small letter. -/
theorem shift_forgotten :
    shiftHeld [.interrupt 0x2A, .interrupt 0x36, .interrupt 0xAA] = true ∧
      ((runList keyboardStep Keyboard.boot
        [.interrupt 0x2A, .interrupt 0x36, .interrupt 0xAA, .interrupt 0x1E]).toOption.map
          fun r => acceptedChars r.1) = some [0x61] ∧
      tableChar true 0x1E = 0x41 ∧
      ¬ Decodes [.interrupt 0x2A, .interrupt 0x36, .interrupt 0xAA] 0x1E := by
  refine ⟨by decide +kernel, by decide +kernel, by decide +kernel, fun h => ?_⟩
  have hc := h _ _ 0x61 rfl (by decide +kernel)
  exact absurd hc (by decide +kernel)

end Shift

end VibeKernel
