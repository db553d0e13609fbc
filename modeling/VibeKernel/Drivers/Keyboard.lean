import VibeKernel.Lib.Ring
import VibeKernel.Lib.Run

/-!
# The keyboard buffer

`src/drivers/keyboard.c`: the interrupt handler stores the characters of pressed keys in a ring of
256 cells, and `keyboard_getc` takes them out. The handler may run between any two statements of
`keyboard_getc`, so a call of it is modelled by its statements: an interrupt and the next statement
are events of a machine, and a run is any interleaving of them.

`keyboard_fifo` is what the buffer is for. The characters that were accepted are those returned so
far, the one that a call has taken out and not yet returned, and those in the ring, in this order.
What an event brings is said by its scan code or argument alone (`Keyboard.brings`): such a
character is accepted while fewer than 255 accepted ones wait for their release by an advance of
`buffer_tail`, and dropped if 255 do.
-/

namespace VibeKernel

open Verif

/-! ### The buffer -/

/-- `BUFFER_SIZE`. -/
def bufferSize : ℕ := 256

/-- `LSHIFT`. -/
def lshift : UInt8 := 0x2A

/-- `RSHIFT`. -/
def rshift : UInt8 := 0x36

/-- `scancode_ascii`: the set 1 codes of a US keyboard, and behind them `0x7F` for the delete
key. -/
def scancodeAscii : List UInt8 :=
  [0, 27, 0x31, 0x32, 0x33, 0x34, 0x35, 0x36, 0x37, 0x38, 0x39, 0x30, 0x2D, 0x3D, 0x08,
    0x09, 0x71, 0x77, 0x65, 0x72, 0x74, 0x79, 0x75, 0x69, 0x6F, 0x70, 0x5B, 0x5D, 0x0A,
    0, 0x61, 0x73, 0x64, 0x66, 0x67, 0x68, 0x6A, 0x6B, 0x6C, 0x3B, 0x27, 0x60, 0,
    0x5C, 0x7A, 0x78, 0x63, 0x76, 0x62, 0x6E, 0x6D, 0x2C, 0x2E, 0x2F, 0, 0x2A, 0, 0x20] ++
    List.replicate 64 0 ++ [0x7F]

/-- `scancode_ascii_shift`. -/
def scancodeAsciiShift : List UInt8 :=
  [0, 27, 0x21, 0x40, 0x23, 0x24, 0x25, 0x5E, 0x26, 0x2A, 0x28, 0x29, 0x5F, 0x2B, 0x08,
    0x09, 0x51, 0x57, 0x45, 0x52, 0x54, 0x59, 0x55, 0x49, 0x4F, 0x50, 0x7B, 0x7D, 0x0A,
    0, 0x41, 0x53, 0x44, 0x46, 0x47, 0x48, 0x4A, 0x4B, 0x4C, 0x3A, 0x22, 0x7E, 0,
    0x7C, 0x5A, 0x58, 0x43, 0x56, 0x42, 0x4E, 0x4D, 0x3C, 0x3E, 0x3F, 0, 0x2A, 0, 0x20] ++
    List.replicate 64 0 ++ [0x7F]

/-- A code that is in one table is in the other. -/
theorem scancodeAsciiShift_length : scancodeAsciiShift.length = scancodeAscii.length := by decide

/-- The statement that a call of `keyboard_getc` executes next. -/
inductive GetcAt
  /-- No call is active. -/
  | outside
  /-- The condition of the loop. -/
  | test
  /-- `hlt`. -/
  | hlt
  /-- `char c = keyboard_buffer[buffer_tail]`. -/
  | read
  /-- `buffer_tail = (buffer_tail + 1) % BUFFER_SIZE`. -/
  | advance (c : UInt8)
  /-- `return c`. -/
  | ret (c : UInt8)
  deriving DecidableEq, Repr

/-- The static variables of the driver, and where `keyboard_getc` is. -/
structure Keyboard where
  keyboardBuffer : ℕ → UInt8
  bufferHead : ℕ
  bufferTail : ℕ
  shiftActive : Bool
  getc : GetcAt

/-- The driver after boot. -/
def Keyboard.boot : Keyboard where
  keyboardBuffer _ := 0
  bufferHead := 0
  bufferTail := 0
  shiftActive := false
  getc := .outside

/-- What an event does with a character: it is put into the buffer or refused by it, its cell is
released, or it is returned. -/
inductive KeyOut
  | silent
  | accepted (c : UInt8)
  | dropped (c : UInt8)
  | released
  | returned (c : UInt8)
  deriving DecidableEq, Repr

/-! ### The functions -/

/-- The code that `keyboard_handler` and `keyboard_push` share: a character goes into the cell at
`buffer_head` unless the next index is `buffer_tail`. -/
def addToBuffer (k : Keyboard) (c : UInt8) : KeyOut × Keyboard :=
  let next := (k.bufferHead + 1) % bufferSize
  if next ≠ k.bufferTail then
    (.accepted c, { k with
      keyboardBuffer := Function.update k.keyboardBuffer k.bufferHead c
      bufferHead := next })
  else (.dropped c, k)

/-- `keyboard_handler` with the code that `ps2_read_data` reads. -/
def keyboardHandler (k : Keyboard) (scancode : UInt8) : KeyOut × Keyboard :=
  if scancode &&& 0x80 ≠ 0 then
    let releasedScancode := scancode &&& 0x7F
    if releasedScancode = lshift ∨ releasedScancode = rshift then
      (.silent, { k with shiftActive := false })
    else (.silent, k)
  else if scancode = lshift ∨ scancode = rshift then (.silent, { k with shiftActive := true })
  else if scancode.toNat < scancodeAscii.length then
    let c := if k.shiftActive then scancodeAsciiShift.getD scancode.toNat 0
      else scancodeAscii.getD scancode.toNat 0
    if c ≠ 0 then addToBuffer k c else (.silent, k)
  else (.silent, k)

/-- `keyboard_push`. -/
def keyboardPush (k : Keyboard) (c : UInt8) : KeyOut × Keyboard :=
  if c = 0 then (.silent, k) else addToBuffer k c

/-- The next statement of `keyboard_getc`; there is none outside of a call. -/
def keyboardGetc (k : Keyboard) : Except Unit (KeyOut × Keyboard) :=
  match k.getc with
  | .outside => .error ()
  | .test => .ok (.silent, { k with getc := if k.bufferHead = k.bufferTail then .hlt else .read })
  | .hlt => .ok (.silent, { k with getc := .test })
  | .read => .ok (.silent, { k with getc := .advance (k.keyboardBuffer k.bufferTail) })
  | .advance c => .ok (.released, { k with
      bufferTail := (k.bufferTail + 1) % bufferSize
      getc := .ret c })
  | .ret c => .ok (.returned c, { k with getc := .outside })

/-! ### Interleavings -/

/-- What may happen next: an interrupt with a code, a call of `keyboard_push` or `keyboard_getc`, or
the next statement of the active call of `keyboard_getc`. -/
inductive KeyEvent
  | interrupt (scancode : UInt8)
  | push (c : UInt8)
  | call
  | next
  deriving DecidableEq, Repr

/-- One event. Interrupts are possible at any time, calls only outside of `keyboard_getc`. -/
def keyboardStep (k : Keyboard) : KeyEvent → Except Unit (KeyOut × Keyboard)
  | .interrupt scancode => .ok (keyboardHandler k scancode)
  | .push c => if k.getc = .outside then .ok (keyboardPush k c) else .error ()
  | .call => if k.getc = .outside then .ok (.silent, { k with getc := .test }) else .error ()
  | .next => keyboardGetc k

/-- The characters that were put into the buffer, in their order. -/
def acceptedChars (os : List KeyOut) : List UInt8 :=
  os.filterMap fun
    | .accepted c => some c
    | _ => none

/-- The characters that `keyboard_getc` has returned, in their order. -/
def returnedChars (os : List KeyOut) : List UInt8 :=
  os.filterMap fun
    | .returned c => some c
    | _ => none

/-- How often `buffer_tail` was advanced. -/
def releases (os : List KeyOut) : ℕ := os.countP (· = .released)

namespace Keyboard

/-- The characters in the ring. -/
def held (k : Keyboard) : List UInt8 :=
  ringHeld bufferSize k.keyboardBuffer k.bufferHead k.bufferTail

/-- The character that a call has taken out of the ring and not returned yet. -/
def inTransit (k : Keyboard) : List UInt8 :=
  match k.getc with
  | .ret c => [c]
  | _ => []

/-- The character that an event brings: that of the scan code in the table that is in use, or the
one that is pushed. Break codes lie behind the tables, and the other codes without a character have
`NUL`. -/
def brings (k : Keyboard) : KeyEvent → Option UInt8
  | .interrupt scancode =>
    let c := (if k.shiftActive then scancodeAsciiShift else scancodeAscii).getD scancode.toNat 0
    if c = 0 then none else some c
  | .push c => if c = 0 then none else some c
  | .call | .next => none

/-- What is possible next: interrupts always, calls outside of `keyboard_getc`, and its statements
inside of it. -/
def Possible (k : Keyboard) : KeyEvent → Prop
  | .interrupt _ => True
  | .push _ | .call => k.getc = .outside
  | .next => k.getc ≠ .outside

/-- The driver after the events with the outputs `os`. In a call the ring is not empty from the test
of the loop to the advance, and the character that was read is still the oldest one. -/
structure Inv (os : List KeyOut) (k : Keyboard) : Prop where
  head_lt : k.bufferHead < bufferSize
  tail_lt : k.bufferTail < bufferSize
  chars : acceptedChars os = returnedChars os ++ k.inTransit ++ k.held
  count : (acceptedChars os).length = releases os + k.held.length
  reading : k.getc = .read → k.bufferHead ≠ k.bufferTail
  advancing : ∀ c, k.getc = .advance c →
    k.bufferHead ≠ k.bufferTail ∧ k.keyboardBuffer k.bufferTail = c

end Keyboard

section Buffer

variable {os : List KeyOut} {k : Keyboard}

theorem acceptedChars_append (os os' : List KeyOut) :
    acceptedChars (os ++ os') = acceptedChars os ++ acceptedChars os' := List.filterMap_append

theorem returnedChars_append (os os' : List KeyOut) :
    returnedChars (os ++ os') = returnedChars os ++ returnedChars os' := List.filterMap_append

theorem releases_append (os os' : List KeyOut) :
    releases (os ++ os') = releases os + releases os' :=
  List.countP_append

/-- An event without a character, between two statements that leave the ring alone. -/
theorem Keyboard.Inv.silent {t : Keyboard} (h : k.Inv os)
    (hbuffer : t.keyboardBuffer = k.keyboardBuffer)
    (hhead : t.bufferHead = k.bufferHead) (htail : t.bufferTail = k.bufferTail)
    (htransit : t.inTransit = k.inTransit) (hread : t.getc = .read → t.bufferHead ≠ t.bufferTail)
    (hadv : ∀ c, t.getc = .advance c →
      t.bufferHead ≠ t.bufferTail ∧ t.keyboardBuffer t.bufferTail = c) :
    t.Inv (os ++ [.silent]) := by
  have hheld : t.held = k.held := by
    unfold Keyboard.held
    rw [hbuffer, hhead, htail]
  have hsilent : acceptedChars [.silent] = [] ∧ returnedChars [.silent] = [] ∧
      releases [.silent] = 0 := ⟨rfl, rfl, rfl⟩
  exact
    { head_lt := hhead ▸ h.head_lt
      tail_lt := htail ▸ h.tail_lt
      chars := by
        rw [acceptedChars_append, returnedChars_append, hsilent.1, hsilent.2.1, List.append_nil,
          List.append_nil, htransit, hheld]
        exact h.chars
      count := by
        rw [acceptedChars_append, releases_append, hsilent.1, hsilent.2.2, List.append_nil, hheld]
        exact h.count
      reading := hread
      advancing := hadv }

/-- An event that changes neither the ring nor the call. -/
theorem Keyboard.Inv.shift (h : k.Inv os) (shift : Bool) :
    Keyboard.Inv (os ++ [.silent]) { k with shiftActive := shift } :=
  h.silent rfl rfl rfl rfl h.reading h.advancing

/-- **A character for the buffer** is appended to what the ring holds, or there are 255 characters
in it and the character is dropped. The cell that a call is reading is not touched. -/
theorem Keyboard.Inv.addToBuffer (h : k.Inv os) (c : UInt8) :
    (addToBuffer k c).2.Inv (os ++ [(addToBuffer k c).1]) ∧
      ((addToBuffer k c).1 = .accepted c ∧ k.held.length < 255 ∨
        (addToBuffer k c).1 = .dropped c ∧ k.held.length = 255) := by
  have hhead := h.head_lt
  have htail := h.tail_lt
  have hfull := ringCount_eq_full hhead htail
  have hlt := ringCount_lt hhead htail
  have hlen : k.held.length = ringCount bufferSize k.bufferHead k.bufferTail :=
    ringHeld_length _ _ _
  unfold VibeKernel.addToBuffer
  dsimp only
  by_cases hspace : (k.bufferHead + 1) % bufferSize ≠ k.bufferTail
  swap
  · -- the next head is the tail: the character is dropped, and the ring is full
    rw [if_neg hspace]
    have hdrop : acceptedChars [.dropped c] = [] ∧ returnedChars [.dropped c] = [] ∧
        releases [.dropped c] = 0 := ⟨rfl, rfl, rfl⟩
    refine ⟨{ h with chars := ?_, count := ?_ }, .inr ⟨rfl, ?_⟩⟩
    · rw [acceptedChars_append, returnedChars_append, hdrop.1, hdrop.2.1, List.append_nil,
        List.append_nil]
      exact h.chars
    · rw [acceptedChars_append, releases_append, hdrop.1, hdrop.2.2, List.append_nil]
      exact h.count
    · have := hfull.mpr (not_not.mp hspace)
      unfold bufferSize at this
      rw [hlen]
      unfold bufferSize
      omega
  -- otherwise the character goes behind those in the ring
  rw [if_pos hspace]
  have hheld := @ringHeld_push _ _ _ _ k.keyboardBuffer hhead htail hspace c
  have hacc : acceptedChars [.accepted c] = [c] ∧ returnedChars [.accepted c] = [] ∧
      releases [.accepted c] = 0 := ⟨rfl, rfl, rfl⟩
  refine ⟨?_, .inl ⟨rfl, ?_⟩⟩
  · exact
      { head_lt := Nat.mod_lt _ (by decide)
        tail_lt := htail
        chars := by
          rw [acceptedChars_append, returnedChars_append, hacc.1, hacc.2.1,
            List.append_nil, h.chars]
          unfold Keyboard.held
          rw [hheld, ← List.append_assoc]
          rfl
        count := by
          rw [acceptedChars_append, releases_append, hacc.1, hacc.2.2, List.length_append, h.count]
          unfold Keyboard.held
          rw [hheld, List.length_append]
          rfl
        -- the slot that is read next is the tail, and the one written is the old head
        reading := fun _ => hspace
        advancing := fun c' hc' => by
          obtain ⟨hne, hread⟩ := h.advancing c' hc'
          exact ⟨hspace, (Function.update_of_ne (Ne.symm hne) _ _).trans hread⟩ }
  · have := mt hfull.mp hspace
    rw [hlen]
    unfold bufferSize at *
    omega

theorem Keyboard.Inv.adds (h : k.Inv os) (c : UInt8) :
    (VibeKernel.addToBuffer k c).2.Inv (os ++ [(VibeKernel.addToBuffer k c).1]) :=
  (h.addToBuffer c).1

/-- **`keyboard_handler`**, between any two statements. -/
theorem keyboardHandler_inv (h : k.Inv os) (scancode : UInt8) :
    (keyboardHandler k scancode).2.Inv (os ++ [(keyboardHandler k scancode).1]) := by
  have hstay : k.Inv (os ++ [.silent]) := h.silent rfl rfl rfl rfl h.reading h.advancing
  unfold keyboardHandler
  dsimp only
  split_ifs
  · exact h.shift false
  · exact hstay
  · exact h.shift true
  · exact h.adds _
  · exact hstay
  · exact h.adds _
  · exact hstay
  · exact hstay

/-- **`keyboard_push`.** -/
theorem keyboardPush_inv (h : k.Inv os) (c : UInt8) :
    (keyboardPush k c).2.Inv (os ++ [(keyboardPush k c).1]) := by
  unfold keyboardPush
  split_ifs
  · exact h.silent rfl rfl rfl rfl h.reading h.advancing
  · exact h.adds c

/-- **A statement of `keyboard_getc`.** -/
theorem keyboardGetc_inv (h : k.Inv os) {r : KeyOut × Keyboard} (hr : keyboardGetc k = .ok r) :
    r.2.Inv (os ++ [r.1]) := by
  unfold keyboardGetc at hr
  cases hat : k.getc with
  | outside =>
    rw [hat] at hr
    cases hr
  | test =>
    rw [hat] at hr
    cases hr
    -- the loop is left only where the ring is not empty
    have hnone : k.inTransit = [] := by
      unfold Keyboard.inTransit
      rw [hat]
    refine h.silent rfl rfl rfl ?_ (fun hread => ?_) fun c hadv => ?_
    · rw [hnone]
      unfold Keyboard.inTransit
      dsimp only
      split_ifs <;> rfl
    · dsimp only at hread ⊢
      split_ifs at hread with hne
      exact hne
    · dsimp only at hadv
      split_ifs at hadv
  | hlt =>
    rw [hat] at hr
    cases hr
    -- after the wake-up the test is made again
    refine h.silent rfl rfl rfl ?_ (fun hread => nomatch hread) fun c hadv => nomatch hadv
    unfold Keyboard.inTransit
    rw [hat]
  | read =>
    rw [hat] at hr
    cases hr
    -- the slot at the tail is read, and kept while the tail is not advanced
    refine h.silent rfl rfl rfl ?_ (fun hread => nomatch hread) fun c hadv => ?_
    · unfold Keyboard.inTransit
      rw [hat]
    · cases hadv
      exact ⟨h.reading hat, rfl⟩
  | advance c =>
    rw [hat] at hr
    cases hr
    -- the character that was read is still the oldest one, and passes from the ring into transit
    obtain ⟨hne, hread⟩ := h.advancing c hat
    have hheld : k.held =
        c :: ringHeld bufferSize k.keyboardBuffer k.bufferHead ((k.bufferTail + 1) % bufferSize) :=
      hread ▸ ringHeld_front h.head_lt h.tail_lt hne
    have hnone : k.inTransit = [] := by
      unfold Keyboard.inTransit
      rw [hat]
    have hout : acceptedChars [.released] = [] ∧ returnedChars [.released] = [] ∧
        releases [.released] = 1 := ⟨rfl, rfl, rfl⟩
    have hchars := h.chars
    have hcount := h.count
    rw [hheld, hnone, List.append_nil] at hchars
    rw [hheld, List.length_cons] at hcount
    exact
      { head_lt := h.head_lt
        tail_lt := Nat.mod_lt _ (by decide)
        chars := by
          rw [acceptedChars_append, returnedChars_append, hout.1, hout.2.1, List.append_nil,
            List.append_nil, hchars]
          exact List.append_cons _ _ _
        count := by
          rw [acceptedChars_append, releases_append, hout.1, hout.2.2, List.append_nil, hcount]
          exact (Nat.succ_add_eq_add_succ _ _).symm
        reading := fun hread => nomatch hread
        advancing := fun _ hadv => nomatch hadv }
  | ret c =>
    rw [hat] at hr
    cases hr
    -- the character in transit becomes the last one returned
    have htransit : k.inTransit = [c] := by
      unfold Keyboard.inTransit
      rw [hat]
    have hout : acceptedChars [.returned c] = [] ∧ returnedChars [.returned c] = [c] ∧
        releases [.returned c] = 0 := ⟨rfl, rfl, rfl⟩
    have hchars := h.chars
    rw [htransit] at hchars
    exact
      { head_lt := h.head_lt
        tail_lt := h.tail_lt
        chars := by
          rw [acceptedChars_append, returnedChars_append, hout.1, hout.2.1, List.append_nil, hchars]
          exact congrArg (· ++ k.held) (List.append_nil _).symm
        count := by
          rw [acceptedChars_append, releases_append, hout.1, hout.2.2, List.append_nil]
          exact h.count
        reading := fun hread => nomatch hread
        advancing := fun _ hadv => nomatch hadv }

/-- **One event.** -/
theorem keyboardStep_inv (h : k.Inv os) {i : KeyEvent} {r : KeyOut × Keyboard}
    (hr : keyboardStep k i = .ok r) : r.2.Inv (os ++ [r.1]) := by
  unfold keyboardStep at hr
  cases i with
  | interrupt scancode =>
    cases hr
    exact keyboardHandler_inv h scancode
  | push c =>
    dsimp only at hr
    split_ifs at hr
    cases hr
    exact keyboardPush_inv h c
  | call =>
    dsimp only at hr
    split_ifs at hr with hat
    cases hr
    refine h.silent rfl rfl rfl ?_ (fun hread => nomatch hread) fun c hadv => nomatch hadv
    unfold Keyboard.inTransit
    rw [hat]
  | next => exact keyboardGetc_inv h hr

theorem Keyboard.boot_inv : Keyboard.boot.Inv [] where
  head_lt := by decide
  tail_lt := by decide
  chars := (ringHeld_empty (by decide)).symm
  count := by
    unfold Keyboard.held
    rw [ringHeld_length]
    rfl
  reading h := nomatch h
  advancing _ h := nomatch h

/-- Break codes and the codes of the shift keys have no character. -/
theorem no_char_of_code {scancode : UInt8}
    (h : scancode &&& 0x80 ≠ 0 ∨ scancode = lshift ∨ scancode = rshift) (shift : Bool) :
    (if shift then scancodeAsciiShift else scancodeAscii).getD scancode.toNat 0 = 0 := by
  have hcodes : ∀ code : Fin 256, UInt8.ofNat code &&& 0x80 ≠ 0 ∨ UInt8.ofNat code = lshift ∨
      UInt8.ofNat code = rshift → ∀ shift : Bool,
        (if shift then scancodeAsciiShift else scancodeAscii).getD code 0 = 0 := by
    decide +kernel
  have hcode := hcodes ⟨scancode.toNat, scancode.toNat_lt⟩
  rw [UInt8.ofNat_toNat] at hcode
  exact hcode h shift

/-- **What `keyboard_handler` does with the character of a code**: it goes to the buffer, and
without one nothing happens to the buffer. -/
theorem keyboardHandler_brings (k : Keyboard) (scancode : UInt8) :
    (∀ c, k.brings (.interrupt scancode) = some c →
      keyboardHandler k scancode = VibeKernel.addToBuffer k c) ∧
      (k.brings (.interrupt scancode) = none → (keyboardHandler k scancode).1 = .silent) := by
  -- where the table has no character, nothing is brought
  have hnone : ∀ {r : KeyOut × Keyboard}, r.1 = .silent →
      (if k.shiftActive then scancodeAsciiShift else scancodeAscii).getD scancode.toNat 0 = 0 →
      (∀ c, k.brings (.interrupt scancode) = some c → r = VibeKernel.addToBuffer k c) ∧
        (k.brings (.interrupt scancode) = none → r.1 = .silent) := by
    intro r hr hzero
    refine ⟨fun c hc => ?_, fun _ => hr⟩
    unfold Keyboard.brings at hc
    dsimp only at hc
    rw [if_pos hzero] at hc
    cases hc
  have htable : (if k.shiftActive then scancodeAsciiShift.getD scancode.toNat 0
      else scancodeAscii.getD scancode.toNat 0) =
        (if k.shiftActive then scancodeAsciiShift else scancodeAscii).getD scancode.toNat 0 := by
    split <;> rfl
  unfold keyboardHandler
  dsimp only
  by_cases hbreak : scancode &&& 0x80 ≠ 0
  · -- a key that is released: only the two shift keys count
    rw [if_pos hbreak]
    exact hnone (by split <;> rfl) (no_char_of_code (.inl hbreak) _)
  rw [if_neg hbreak]
  by_cases hshift : scancode = lshift ∨ scancode = rshift
  · -- a shift key that is pressed
    rw [if_pos hshift]
    exact hnone rfl (no_char_of_code (.inr hshift) _)
  rw [if_neg hshift]
  by_cases hlen : scancode.toNat < scancodeAscii.length
  · rw [if_pos hlen, htable]
    by_cases hzero :
        (if k.shiftActive then scancodeAsciiShift else scancodeAscii).getD scancode.toNat 0 = 0
    · rw [if_neg (not_not_intro hzero)]
      exact hnone rfl hzero
    · rw [if_pos hzero]
      unfold Keyboard.brings
      dsimp only
      rw [if_neg hzero]
      exact ⟨fun c hc => by rw [Option.some.inj hc], nofun⟩
  · -- the code is behind both tables, which have the same length
    rw [if_neg hlen]
    have hbehind : (if k.shiftActive then scancodeAsciiShift else scancodeAscii).length ≤
        scancode.toNat := by
      split
      · rw [scancodeAsciiShift_length]
        exact Nat.le_of_not_lt hlen
      · exact Nat.le_of_not_lt hlen
    refine hnone rfl ?_
    rw [List.getD_eq_getElem?_getD, List.getElem?_eq_none hbehind]
    rfl

/-- **What an event does with the character it brings.** Without one nothing is put into the buffer
or refused by it. -/
theorem keyboardStep_brings {i : KeyEvent} {r : KeyOut × Keyboard} (hr : keyboardStep k i = .ok r) :
    (∀ c, k.brings i = some c → r = VibeKernel.addToBuffer k c) ∧
      (k.brings i = none → ∀ c, r.1 ≠ .accepted c ∧ r.1 ≠ .dropped c) := by
  have hquiet : r.1 = .silent → ∀ c, r.1 ≠ .accepted c ∧ r.1 ≠ .dropped c := by
    intro h c
    rw [h]
    exact ⟨nofun, nofun⟩
  unfold keyboardStep at hr
  cases i with
  | interrupt scancode =>
    cases hr
    obtain ⟨hsome, hnone⟩ := keyboardHandler_brings k scancode
    exact ⟨hsome, fun h => hquiet (hnone h)⟩
  | push c =>
    dsimp only at hr
    split_ifs at hr
    cases hr
    unfold Keyboard.brings
    dsimp only
    by_cases hc : c = 0
    · rw [if_pos hc]
      refine ⟨(fun _ h => nomatch h), fun _ => hquiet ?_⟩
      unfold keyboardPush
      rw [if_pos hc]
    · rw [if_neg hc]
      refine ⟨fun c' hc' => ?_, fun h => nomatch h⟩
      unfold keyboardPush
      rw [if_neg hc, Option.some.inj hc']
  | call =>
    dsimp only at hr
    split_ifs at hr
    cases hr
    exact ⟨(fun _ h => nomatch h), fun _ => hquiet rfl⟩
  | next =>
    refine ⟨(fun _ h => nomatch h), fun _ c => ?_⟩
    unfold keyboardGetc at hr
    dsimp only at hr
    split at hr <;> cases hr <;> exact ⟨nofun, nofun⟩

/-- Every event that is possible happens. -/
theorem keyboardStep_possible {i : KeyEvent} (h : k.Possible i) :
    ∃ out t, keyboardStep k i = .ok (out, t) := by
  unfold keyboardStep
  cases i with
  | interrupt scancode => exact ⟨_, _, rfl⟩
  | push c => exact ⟨_, _, if_pos h⟩
  | call => exact ⟨_, _, if_pos h⟩
  | next =>
    dsimp only
    unfold keyboardGetc
    cases hat : k.getc with
    | outside => exact (h hat).elim
    | test => exact ⟨_, _, rfl⟩
    | hlt => exact ⟨_, _, rfl⟩
    | read => exact ⟨_, _, rfl⟩
    | advance c => exact ⟨_, _, rfl⟩
    | ret c => exact ⟨_, _, rfl⟩

/-- **The keyboard buffer is a bounded queue.** After any interleaving of interrupts, pushes and the
statements of `keyboard_getc`, both indices are in the buffer, and the accepted characters are the
returned ones, the one in transit and those in the ring, in this order: nothing is lost, duplicated
or reordered. Interrupts can always come next. The character that the next event brings is accepted
exactly if fewer than 255 accepted ones are unreleased, and dropped exactly if 255 are; without one
nothing is accepted or dropped. -/
theorem keyboard_fifo {is : List KeyEvent}
    (hr : runList keyboardStep Keyboard.boot is = .ok (os, k)) :
    k.bufferHead < 256 ∧ k.bufferTail < 256 ∧ returnedChars os <+: acceptedChars os ∧
      acceptedChars os = returnedChars os ++ k.inTransit ++ k.held ∧
      (acceptedChars os).length ≤ releases os + 255 ∧
      (∀ i, k.Possible i → ∃ out t, keyboardStep k i = .ok (out, t)) ∧
      ∀ i out t, keyboardStep k i = .ok (out, t) →
        (∀ c, k.brings i = some c →
          (out = .accepted c ↔ (acceptedChars os).length < releases os + 255) ∧
          (out = .dropped c ↔ (acceptedChars os).length = releases os + 255)) ∧
        (k.brings i = none → ∀ c, out ≠ .accepted c ∧ out ≠ .dropped c) := by
  have hinv : k.Inv os := by
    have h := @runList_history _ _ _ _ keyboardStep (fun os k => k.Inv os)
      (fun os k i o t hI hs => (keyboardStep_inv hI hs)) _ _ _ _ _ Keyboard.boot_inv hr
    rwa [List.nil_append] at h
  have hcount := hinv.count
  have hheld : k.held.length ≤ 255 := by
    have hlt := ringCount_lt hinv.head_lt hinv.tail_lt
    unfold bufferSize at hlt
    unfold Keyboard.held
    rw [ringHeld_length]
    exact Nat.le_of_lt_succ hlt
  refine ⟨hinv.head_lt, hinv.tail_lt, ⟨k.inTransit ++ k.held, ?_⟩, hinv.chars, by omega,
    fun _ => keyboardStep_possible, fun i out t hs => ?_⟩
  · rw [hinv.chars, List.append_assoc]
  · obtain ⟨hsome, hnone⟩ := keyboardStep_brings hs
    refine ⟨fun c hc => ?_, hnone⟩
    have hout : out = (VibeKernel.addToBuffer k c).1 := congrArg Prod.fst (hsome c hc)
    rcases (hinv.addToBuffer c).2 with ⟨hacc, hlt⟩ | ⟨hdrop, hfull⟩
    · rw [hout, hacc]
      exact ⟨iff_of_true rfl (by omega), iff_of_false nofun (by omega)⟩
    · rw [hout, hdrop]
      exact ⟨iff_of_false nofun (by omega), iff_of_true rfl (by omega)⟩

end Buffer

/-- Two keys, of which the second is pressed while `keyboard_getc` is about to release the first.
The next key is accepted. -/
theorem keyboard_fifo_interrupted :
    ∃ os k, runList keyboardStep Keyboard.boot [.call, .next, .next, .interrupt 0x1E, .next, .next,
        .interrupt 0x30, .next, .next] = .ok (os, k) ∧
      returnedChars os = [0x61] ∧ acceptedChars os = [0x61, 0x62] ∧ k.held = [0x62] ∧
      ∃ t, keyboardStep k (.interrupt 0x2E) = .ok (.accepted 0x63, t) := by
  have hout : ((runList keyboardStep Keyboard.boot [.call, .next, .next, .interrupt 0x1E, .next,
      .next, .interrupt 0x30, .next, .next]).toOption.map fun r =>
        (returnedChars r.1, acceptedChars r.1, releases r.1, r.2.inTransit,
          r.2.brings (.interrupt 0x2E))) =
      some ([0x61], [0x61, 0x62], 1, [], some 0x63) := by
    decide +kernel
  cases hr : runList keyboardStep Keyboard.boot [.call, .next, .next, .interrupt 0x1E, .next, .next,
      .interrupt 0x30, .next, .next] with
  | error e =>
    rw [hr] at hout
    cases hout
  | ok r =>
    obtain ⟨os, k⟩ := r
    rw [hr] at hout
    have hvals := Option.some.inj hout
    simp only [Prod.mk.injEq] at hvals
    obtain ⟨hret, hacc, hrel, htransit, hbrings⟩ := hvals
    obtain ⟨-, -, -, hchars, -, -, hnext⟩ := keyboard_fifo hr
    rw [hacc, hret, htransit] at hchars
    have hstep : ∀ code, keyboardStep k (.interrupt code) =
        .ok ((keyboardHandler k code).1, (keyboardHandler k code).2) := fun _ => rfl
    have hlen : (acceptedChars os).length = 2 := congrArg List.length hacc
    have haccepted := ((hnext (.interrupt 0x2E) _ _ (hstep 0x2E)).1 0x63 hbrings).1.mpr (by omega)
    refine ⟨os, k, rfl, hret, hacc, (List.cons.inj hchars).2.symm, (keyboardHandler k 0x2E).2, ?_⟩
    rw [hstep 0x2E, haccepted]

end VibeKernel
