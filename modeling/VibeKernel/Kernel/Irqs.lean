import VibeKernel.Kernel.Shell
import VibeKernel.Lib.Pic

/-!
# Interrupt requests

How the codes of the keyboard get to `keyboard_handler`: the keyboard controller of
`src/drivers/ps2.c`, the two interrupt controllers that `isr_install` sets up, `irq_handler` of
`src/cpu/isr.c`, and `main` from `isr_install` over `sti` and `keyboard_init` to the shell.
Everything may be interleaved: the keyboard sends codes, its controller moves them to its output
buffer and raises its line, other devices raise and lower theirs, and the processor executes the
next statement, or is interrupted in front of it.

A state is `InTime` if no code has come into the output buffer before `keyboard_init` is done, which
is behind `sti`: then every code in the buffer is asked for or about to be read. Otherwise it is
`Stuck`: the interrupt of the code was acknowledged without a handler, nobody reads it, and its line
stays up. `irqStep_keeps` says what one step does to both.
-/

namespace VibeKernel

open Verif

/-! ### The machine -/

/-- The keyboard controller: the codes that the keyboard has for it, and its output buffer. -/
structure Ps2 where
  queue : List UInt8
  output : Option UInt8
  deriving DecidableEq, Repr

/-- The handlers that are registered. -/
inductive IsrT
  | keyboardHandler
  deriving DecidableEq, Repr

/-- The next statement while an interrupt is served. -/
inductive Serving
  /-- The stub, and the test for the slave in `irq_handler`. -/
  | stub (intNo : ℕ)
  /-- `port_byte_out(0x20, 0x20)`. -/
  | eoi (intNo : ℕ)
  /-- The call through `interrupt_handlers`. -/
  | dispatch (intNo : ℕ)
  /-- `ps2_wait_read`. -/
  | wait
  /-- `port_byte_in(PS2_DATA_PORT)`. -/
  | read
  /-- The rest of `keyboard_handler`; the shell takes note here that a `hlt` has ended. -/
  | handle (scancode : UInt8)
  /-- The end of the stub. -/
  | iret
  deriving DecidableEq, Repr

/-- Where `main` is. -/
inductive MainAt
  /-- In `isr_install`, after some of its writes to the interrupt controllers. -/
  | install (k : ℕ)
  /-- In front of `sti`. -/
  | sti
  /-- In `keyboard_init`. -/
  | register
  /-- At the shell. -/
  | shell
  deriving DecidableEq, Repr

/-- The devices, `interrupt_handlers`, `main`, the interrupt that is served, and the shell. -/
structure IrqSystem where
  pics : PicPair
  ps2 : Ps2
  handlers : ℕ → Option IsrT
  main : MainAt
  serving : Option Serving
  shell : Shell

/-- In front of the writes of `isr_install`, with controllers as the BIOS has left them. -/
def IrqSystem.boot (pics : PicPair) (screen : Screen) : IrqSystem where
  pics := pics
  ps2 := ⟨[], none⟩
  handlers _ := none
  main := .install 0
  serving := none
  shell := .boot screen

/-- The writes of `isr_install` to the interrupt controllers. -/
def picWrites : List (ℕ × BitVec 8) :=
  [(0x20, 0x11), (0xA0, 0x11), (0x21, 0x20), (0xA1, 0x28), (0x21, 0x04), (0xA1, 0x02), (0x21, 0x01),
    (0xA1, 0x01), (0x21, 0xFD), (0xA1, 0xFF)]

/-- Interrupts are enabled from `sti` on, but not while one is served. -/
def MainAt.enabled : MainAt → Bool
  | .register | .shell => true
  | _ => false

/-- What may happen next: the keyboard has a code, its controller moves a code to the output buffer,
another device changes its line, or the processor executes a statement. -/
inductive IrqEvent
  | send (scancode : UInt8)
  | load
  | line (irq : ℕ) (level : Bool)
  | cpu (outcome : Outcome)
  deriving DecidableEq, Repr

/-- What a step shows. -/
inductive IrqOut
  | quiet
  | sent (scancode : UInt8)
  | vector (intNo : ℕ)
  | handled (scancode : UInt8) (out : ShellOut)
  | main (out : ShellOut)
  deriving DecidableEq, Repr

/-- `irq_handler` with the stub around it, and `keyboard_handler`. -/
def servingStep (s : IrqSystem) : Serving → Except Unit (IrqOut × IrqSystem)
  | .stub intNo =>
    -- the slave has the numbers from 40 on
    .ok (.quiet, { s with
      pics := if 40 ≤ intNo then s.pics.write 0xA0 0x20 else s.pics
      serving := some (.eoi intNo) })
  | .eoi intNo =>
    .ok (.quiet, { s with pics := s.pics.write 0x20 0x20, serving := some (.dispatch intNo) })
  | .dispatch intNo =>
    -- an entry of `interrupt_handlers` that is zero is not called
    .ok (.quiet, { s with
      serving := some (match s.handlers intNo with
        | some .keyboardHandler => .wait
        | none => .iret) })
  | .wait =>
    .ok (.quiet, { s with serving := some (if s.ps2.output.isSome then .read else .wait) })
  | .read =>
    -- the buffer is empty now, and the line goes down
    .ok (.quiet, { s with
      ps2 := { s.ps2 with output := none }
      pics := s.pics.setLine 1 false
      serving := some (.handle (s.ps2.output.getD 0)) })
  | .handle scancode =>
    match shellStep s.shell (.interrupt scancode) with
    | .error e => .error e
    | .ok (out, t) => .ok (.handled scancode out, { s with shell := t, serving := some .iret })
  | .iret => .ok (.quiet, { s with serving := none })

/-- The next statement of `main`. A program that it has started does nothing here. -/
def mainStep (s : IrqSystem) (outcome : Outcome) : Except Unit (IrqOut × IrqSystem) :=
  match s.main with
  | .install k =>
    match picWrites[k]? with
    | some (port, b) =>
        .ok (.quiet, { s with pics := s.pics.write port b, main := .install (k + 1) })
    | none => .ok (.quiet, { s with main := .sti })
  | .sti => .ok (.quiet, { s with main := .register })
  | .register =>
    -- `register_interrupt_handler(33, keyboard_handler)`
    .ok (.quiet, { s with
      handlers := Function.update s.handlers 33 (some .keyboardHandler)
      main := .shell })
  | .shell =>
    -- a task has been started, and `main` does not go on
    if s.shell.pos = .away then .ok (.quiet, s)
    else
      match shellStep s.shell (.main outcome) with
      | .error e => .error e
      | .ok (out, t) => .ok (.main out, { s with shell := t })

/-- One event. -/
def irqStep (s : IrqSystem) : IrqEvent → Except Unit (IrqOut × IrqSystem)
  | .send scancode =>
    .ok (.sent scancode, { s with ps2 := { s.ps2 with queue := s.ps2.queue ++ [scancode] } })
  | .load =>
    match s.ps2.output, s.ps2.queue with
    | none, scancode :: queue =>
      .ok (.quiet, { s with ps2 := ⟨queue, some scancode⟩, pics := s.pics.setLine 1 true })
    | _, _ => .ok (.quiet, s)
  | .line irq level =>
    -- input 1 is the line of the keyboard, and input 2 that of the slave
    if irq = 1 ∨ irq = 2 then .error ()
      else .ok (.quiet, { s with pics := s.pics.setLine irq level })
  | .cpu outcome =>
    match s.serving with
    | some x => servingStep s x
    | none =>
      -- in front of each statement the processor looks whether it is asked
      if s.main.enabled && s.pics.asks then
        .ok (.vector s.pics.ack.1,
          { s with pics := s.pics.ack.2, serving := some (.stub s.pics.ack.1) })
      else mainStep s outcome

/-- The codes that the keyboard has sent. -/
def sentCodes (os : List IrqOut) : List UInt8 :=
  os.filterMap fun
    | .sent scancode => some scancode
    | _ => none

/-- The codes that `keyboard_handler` has handled. -/
def handledCodes (os : List IrqOut) : List UInt8 :=
  os.filterMap fun
    | .handled scancode _ => some scancode
    | _ => none

/-- What the shell has shown. -/
def shellOuts (os : List IrqOut) : List ShellOut :=
  os.filterMap fun
    | .handled _ out | .main out => some out
    | _ => none

/-- The codes of the interrupts among the events of the shell. -/
def interruptCodes (events : List ShellEvent) : List UInt8 :=
  events.filterMap fun
    | .interrupt scancode => some scancode
    | .main _ => none

/-- A code comes into the output buffer only when the handler of the keyboard is registered. -/
def LoadsInTime (s : IrqSystem) (event : IrqEvent) : Prop :=
  event = .load → s.ps2.queue = [] ∨ s.main = .shell

instance (s : IrqSystem) (event : IrqEvent) : Decidable (LoadsInTime s event) :=
  inferInstanceAs (Decidable (_ → _))

/-! ### The controllers -/

section Pics

variable {m m' : Pic} {p q : PicPair} {k : ℕ}

/-- The registers of a controller other than the inputs and the requests. -/
structure SameSetting (m m' : Pic) : Prop where
  inService : m'.inService = m.inService
  masked : m'.masked = m.masked
  base : m'.base = m.base
  slaves : m'.slaves = m.slaves
  autoEnd : m'.autoEnd = m.autoEnd
  next : m'.next = m.next

/-- What the other lines leave alone: the setting of the master, and its input 1. -/
structure LineKept (p q : PicPair) : Prop where
  setting : SameSetting p.master q.master
  line : q.master.line 1 = p.master.line 1
  requested : q.master.requested 1 = p.master.requested 1

theorem LineKept.refl (p : PicPair) : LineKept p p := ⟨⟨rfl, rfl, rfl, rfl, rfl, rfl⟩, rfl, rfl⟩

/-- An input of the master other than 1. -/
theorem lineKept_setLine (p : PicPair) {i : Fin 8} (hi : i ≠ 1) (level : Bool) :
    LineKept p { p with master := p.master.setLine i level } := by
  refine ⟨⟨rfl, rfl, rfl, rfl, rfl, rfl⟩, Function.update_of_ne hi.symm _ _, ?_⟩
  change (if _ then Function.update p.master.requested i true else p.master.requested) 1 = _
  split_ifs
  · exact Function.update_of_ne hi.symm _ _
  · rfl

/-- The slave. -/
theorem lineKept_slave (p : PicPair) (slave : Pic) :
    LineKept p (PicPair.link { p with slave := slave }) := by
  have h := @lineKept_setLine ⟨p.master, slave⟩ 2 (by decide) slave.pending.isSome
  exact ⟨h.setting, h.line, h.requested⟩

theorem lineKept_line {irq : ℕ} (hirq : irq ≠ 1) (level : Bool) :
    LineKept p (p.setLine irq level) := by
  unfold PicPair.setLine
  split_ifs with h h'
  · exact lineKept_setLine p (fun hi => hirq (congrArg Fin.val hi)) level
  · -- an input of the slave may change what the slave asks for
    exact lineKept_slave p _
  · exact LineKept.refl p

/-- **The line of the keyboard.** -/
theorem setLine_one (p : PicPair) (level : Bool) :
    SameSetting p.master (p.setLine 1 level).master ∧ (p.setLine 1 level).master.line 1 = level ∧
      (p.setLine 1 level).master.requested 1 =
        (level && !p.master.line 1 || p.master.requested 1) := by
  refine ⟨⟨rfl, rfl, rfl, rfl, rfl, rfl⟩, ?_, ?_⟩
  · change Function.update p.master.line 1 level 1 = level
    exact Function.update_self ..
  change (if _ then Function.update p.master.requested 1 true else p.master.requested) 1 = _
  split_ifs with h
  · rw [Function.update_self, show (level && !p.master.line 1) = true from h, Bool.true_or]
  · rw [show (level && !p.master.line 1) = false by simpa using h, Bool.false_or]

/-- The master after some of the writes of `isr_install`. -/
structure MasterAt (k : ℕ) (m : Pic) : Prop where
  first : 1 ≤ k → k ≤ 2 → m.next = .icw2 false true
  autoEnd : 1 ≤ k → m.autoEnd = false
  base : 3 ≤ k → m.base = 32
  second : 3 ≤ k → k ≤ 4 → m.next = .icw3 true
  slaves : 5 ≤ k → m.slaves = 4
  third : 5 ≤ k → k ≤ 6 → m.next = .icw4
  last : 7 ≤ k → m.next = .ocw1
  masked : 9 ≤ k → m.masked = fun i => (0xFD : BitVec 8).getLsbD i.val

theorem MasterAt.same (h : MasterAt k m) (hm : SameSetting m m') : MasterAt k m' where
  first h₁ h₂ := hm.next.trans (h.first h₁ h₂)
  autoEnd h₁ := hm.autoEnd.trans (h.autoEnd h₁)
  base h₁ := hm.base.trans (h.base h₁)
  second h₁ h₂ := hm.next.trans (h.second h₁ h₂)
  slaves h₁ := hm.slaves.trans (h.slaves h₁)
  third h₁ h₂ := hm.next.trans (h.third h₁ h₂)
  last h₁ := hm.next.trans (h.last h₁)
  masked h₁ := hm.masked.trans (h.masked h₁)

/-- A write to the slave comes after each write to the master. -/
theorem MasterAt.slave (h : MasterAt k m) (hk : k = 1 ∨ k = 3 ∨ k = 5 ∨ k = 7 ∨ k = 9) :
    MasterAt (k + 1) m where
  first _ h₂ := h.first (by omega) (by omega)
  autoEnd _ := h.autoEnd (by omega)
  base h₁ := h.base (by omega)
  second h₁ h₂ := h.second (by omega) (by omega)
  slaves h₁ := h.slaves (by omega)
  third h₁ h₂ := h.third (by omega) (by omega)
  last h₁ := h.last (by omega)
  masked h₁ := h.masked (by omega)

/-- **A write of `isr_install`.** -/
theorem picWrite_spec (hk : k < 10) (h : MasterAt k p.master) :
    ∃ port b, picWrites[k]? = some (port, b) ∧ MasterAt (k + 1) (p.write port b).master ∧
      (p.write port b).master.inService = p.master.inService ∧
      (p.write port b).master.line 1 = p.master.line 1 ∧
      (p.write port b).master.requested 1 = (decide (0 < k) && p.master.requested 1) := by
  -- the writes to the slave
  have hslave : (k = 1 ∨ k = 3 ∨ k = 5 ∨ k = 7 ∨ k = 9) → ∀ slave : Pic,
      MasterAt (k + 1) (PicPair.link { p with slave := slave }).master ∧
      (PicPair.link { p with slave := slave }).master.inService = p.master.inService ∧
      (PicPair.link { p with slave := slave }).master.line 1 = p.master.line 1 ∧
      (PicPair.link { p with slave := slave }).master.requested 1 =
        (decide (0 < k) && p.master.requested 1) := fun hodd slave => by
    have hkept := lineKept_slave p slave
    refine ⟨(h.same hkept.setting).slave hodd, hkept.setting.inService, hkept.line, ?_⟩
    rw [hkept.requested, decide_eq_true (by omega), Bool.true_and]
  -- the words of the master
  have hdata : ∀ b, (p.write 0x21 b).master = p.master.data b := fun _ => rfl
  interval_cases k
  · -- the first word clears the requests and the masks
    refine ⟨0x20, 0x11, rfl, ⟨fun _ _ => rfl, fun _ => rfl, ?_, ?_, ?_, ?_, ?_, ?_⟩,
      rfl, rfl, rfl⟩ <;>
      exact fun h₁ => absurd h₁ (by decide)
  · exact ⟨0xA0, 0x11, rfl, hslave (by decide) _⟩
  · -- the vectors
    refine ⟨0x21, 0x20, rfl, ?_⟩
    rw [hdata]
    unfold Pic.data
    rw [h.first (by decide) (by decide)]
    refine ⟨⟨?_, fun _ => h.autoEnd (by decide), fun _ => rfl, fun _ _ => rfl, ?_, ?_, ?_,
      ?_⟩, rfl, rfl, rfl⟩
    · exact fun _ h₁ => absurd h₁ (by decide)
    all_goals exact fun h₁ => absurd h₁ (by decide)
  · exact ⟨0xA1, 0x28, rfl, hslave (by decide) _⟩
  · -- the input of the slave
    refine ⟨0x21, 0x04, rfl, ?_⟩
    rw [hdata]
    unfold Pic.data
    rw [h.second (by decide) (by decide)]
    refine ⟨⟨?_, fun _ => h.autoEnd (by decide), fun _ => h.base (by decide), ?_, fun _ => rfl,
      fun _ _ => rfl, ?_, ?_⟩, rfl, rfl, rfl⟩
    · exact fun _ h₁ => absurd h₁ (by decide)
    · exact fun _ h₁ => absurd h₁ (by decide)
    all_goals exact fun h₁ => absurd h₁ (by decide)
  · exact ⟨0xA1, 0x02, rfl, hslave (by decide) _⟩
  · -- the mode: interrupts do not end by themselves
    refine ⟨0x21, 0x01, rfl, ?_⟩
    rw [hdata]
    unfold Pic.data
    rw [h.third (by decide) (by decide)]
    refine ⟨⟨?_, fun _ => rfl, fun _ => h.base (by decide), ?_, fun _ => h.slaves (by decide), ?_,
      fun _ => rfl, ?_⟩, rfl, rfl, rfl⟩
    · exact fun _ h₁ => absurd h₁ (by decide)
    · exact fun _ h₁ => absurd h₁ (by decide)
    · exact fun _ h₁ => absurd h₁ (by decide)
    · exact fun h₁ => absurd h₁ (by decide)
  · exact ⟨0xA1, 0x01, rfl, hslave (by decide) _⟩
  · -- the masks
    refine ⟨0x21, 0xFD, rfl, ?_⟩
    rw [hdata]
    unfold Pic.data
    rw [h.last (by decide)]
    refine ⟨⟨?_, fun _ => h.autoEnd (by decide), fun _ => h.base (by decide), ?_,
      fun _ => h.slaves (by decide), ?_, fun _ => rfl, fun _ => rfl⟩, rfl, rfl, rfl⟩
    all_goals exact fun _ h₁ => absurd h₁ (by decide)
  · exact ⟨0xA1, 0xFF, rfl, hslave (by decide) _⟩

theorem picWrites_done (hk : 10 ≤ k) : picWrites[k]? = none := List.getElem?_eq_none hk

/-- Only the keyboard is not masked. -/
theorem MasterAt.others (h : MasterAt 10 m) : ∀ j : Fin 8, j ≠ 1 → m.masked j = true := by
  rw [h.masked (by decide)]
  decide

theorem MasterAt.open_one (h : MasterAt 10 m) : m.masked 1 = false := by
  rw [h.masked (by decide)]
  rfl

/-- **What the processor is asked for.** -/
theorem pending_idle (h : MasterAt 10 m) (hidle : m.inService = fun _ => false) :
    m.pending = if m.requested 1 then some 1 else none := by
  rw [Pic.pending_of_masked h.others fun j => congrFun hidle j, h.open_one, Bool.not_false,
    Bool.and_true]

/-- **The acknowledgement.** -/
theorem ack_spec (h : MasterAt 10 p.master) (hidle : p.master.inService = fun _ => false)
    (hasks : p.asks = true) :
    p.master.requested 1 = true ∧ p.ack.1 = 33 ∧ MasterAt 10 p.ack.2.master ∧
      p.ack.2.master.inService = (fun j => decide (j = 1)) ∧
      p.ack.2.master.line 1 = p.master.line 1 ∧ p.ack.2.master.requested 1 = false := by
  have hpending := pending_idle h hidle
  have hrequested : p.master.requested 1 = true := by
    unfold PicPair.asks at hasks
    rw [hpending] at hasks
    by_contra hno
    rw [if_neg hno] at hasks
    cases hasks
  rw [if_pos hrequested] at hpending
  have hack : p.master.ack = (1, { p.master with
      requested := Function.update p.master.requested 1 false
      inService := Function.update p.master.inService 1 true }) := by
    unfold Pic.ack
    rw [hpending]
    dsimp only
    rw [if_neg (by simp [h.autoEnd (by decide)])]
  have hpair : p.ack = (33, { p with master := { p.master with
      requested := Function.update p.master.requested 1 false
      inService := Function.update p.master.inService 1 true } }) := by
    unfold PicPair.ack
    rw [hack]
    dsimp only
    rw [h.slaves (by decide), if_neg (by decide), h.base (by decide)]
    rfl
  rw [hpair]
  refine ⟨hrequested, rfl, ?_, ?_, rfl, ?_⟩
  · exact ⟨h.first, h.autoEnd, h.base, h.second, h.slaves, h.third, h.last, h.masked⟩
  · change Function.update p.master.inService 1 true = _
    funext j
    by_cases hj : j = 1
    · rw [hj, Function.update_self]
      rfl
    · rw [Function.update_of_ne hj, hidle, decide_eq_false hj]
  · change Function.update p.master.requested 1 false 1 = false
    exact Function.update_self ..

/-- **The end of the interrupt.** -/
theorem eoi_spec (hservice : p.master.inService = fun j => decide (j = 1)) :
    (p.write 0x20 0x20).master = { p.master with inService := fun _ => false } := by
  have hserviced : p.master.serviced = some 1 := by
    unfold Pic.serviced
    rw [hservice]
    decide
  change p.master.command 0x20 = _
  unfold Pic.command
  rw [if_neg (by decide), if_neg (by decide), if_pos (by decide), hserviced, hservice]
  dsimp only
  congr 1
  funext j
  by_cases hj : j = 1
  · rw [hj, Function.update_self]
  · rw [Function.update_of_ne hj, decide_eq_false hj]

end Pics

/-! ### What every state keeps -/

/-- How many of the writes of `isr_install` are done. -/
def MainAt.writes : MainAt → ℕ
  | .install k => k
  | _ => 10

/-- The controller has not been told the end of the interrupt. -/
def Serving.unended : Serving → Bool
  | .stub _ | .eoi _ => true
  | _ => false

/-- The code is still in the output buffer. -/
def Serving.unread : Serving → Bool
  | .handle _ | .iret => false
  | _ => true

/-- `keyboard_handler` is being executed. -/
def Serving.inHandler : Serving → Bool
  | .wait | .read | .handle _ => true
  | _ => false

/-- The number that `irq_handler` has still to look up. -/
def Serving.intNo : Serving → Option ℕ
  | .stub intNo | .eoi intNo | .dispatch intNo => some intNo
  | _ => none

/-- The code that `keyboard_handler` has read. -/
def Serving.code : Serving → List UInt8
  | .handle scancode => [scancode]
  | _ => []

namespace IrqSystem

/-- The line of the keyboard is its output buffer, and the controllers are set up as far as `main`
has got. Only the line of the keyboard is ever served. -/
structure Core (s : IrqSystem) : Prop where
  line : s.pics.master.line 1 = s.ps2.output.isSome
  handlers : s.handlers 33 = if s.main = .shell then some .keyboardHandler else none
  setting : MasterAt s.main.writes s.pics.master
  writes : s.main.writes ≤ 10
  service : s.pics.master.inService = fun j => s.serving.any Serving.unended && decide (j = 1)
  vector : ∀ x ∈ s.serving, ∀ v ∈ x.intNo, v = 33
  disabled : s.main.enabled = false → s.serving = none

/-- No code has come too early: every code in the output buffer is asked for, or is about to be
read. -/
structure InTime (s : IrqSystem) : Prop where
  core : s.Core
  early : s.main ≠ .shell → s.ps2.output = none ∧ s.serving = none ∧
    (1 ≤ s.main.writes → s.pics.master.requested 1 = false)
  asked : s.main = .shell →
    s.pics.master.requested 1 = (s.ps2.output.isSome && !s.serving.any Serving.unread)
  unread : s.serving.any Serving.unread = true → s.ps2.output.isSome = true

/-- A code has come too early, and nobody reads it. -/
structure Stuck (s : IrqSystem) : Prop where
  core : s.Core
  full : s.ps2.output.isSome = true
  outside : s.serving.any Serving.inHandler = false
  quiet : s.main = .shell → s.serving = none ∧ s.pics.master.requested 1 = false

end IrqSystem

section Steps

variable {s t : IrqSystem} {out : IrqOut} {event : IrqEvent}

/-- What a step keeps. -/
structure StepKeeps (s : IrqSystem) (event : IrqEvent) (out : IrqOut) (t : IrqSystem) : Prop where
  core : t.Core
  vector : ∀ v, out = .vector v → v = 33
  inTime : s.InTime → LoadsInTime s event → t.InTime
  stuck : s.InTime → ¬ LoadsInTime s event → t.Stuck
  stays : s.Stuck → t.Stuck

/-- The number of the interrupt that is served from now on. -/
theorem intNo_of {x : Serving} (h : ∀ v ∈ x.intNo, v = 33) :
    ∀ z ∈ some x, ∀ v ∈ z.intNo, v = 33 := by
  rintro z ⟨⟩
  exact h

theorem loadsInTime_of_ne (h : event ≠ .load) : LoadsInTime s event := fun heq => absurd heq h

/-- A step that changes neither the output buffer nor what `main` and the processor do. -/
theorem StepKeeps.of_kept {pics : PicPair} {queue : List UInt8} {shell : Shell} (h : s.Core)
    (hpics : LineKept s.pics pics) (hvector : ∀ v, out ≠ .vector v) (hin : LoadsInTime s event) :
    StepKeeps s event out
      { s with pics := pics, ps2 := { s.ps2 with queue := queue }, shell := shell } := by
  have hcore : IrqSystem.Core
      { s with pics := pics, ps2 := { s.ps2 with queue := queue }, shell := shell } :=
    { line := hpics.line.trans h.line
      handlers := h.handlers
      setting := h.setting.same hpics.setting
      writes := h.writes
      service := hpics.setting.inService.trans h.service
      vector := h.vector
      disabled := h.disabled }
  refine ⟨hcore, fun v hv => absurd hv (hvector v),
    fun hs _ => ⟨hcore, fun hm => ?_, fun hm => ?_, hs.unread⟩,
    fun _ hno => absurd hin hno, fun hs => ⟨hcore, hs.full, hs.outside, fun hm => ?_⟩⟩
  · obtain ⟨h₁, h₂, h₃⟩ := hs.early hm
    exact ⟨h₁, h₂, fun hk => hpics.requested.trans (h₃ hk)⟩
  · exact hpics.requested.trans (hs.asked hm)
  · obtain ⟨h₁, h₂⟩ := hs.quiet hm
    exact ⟨h₁, hpics.requested.trans h₂⟩

/-- **A code comes into the output buffer.** -/
theorem StepKeeps.load (h : s.Core) {scancode : UInt8} {queue : List UInt8}
    (hempty : s.ps2.output = none) (hqueue : s.ps2.queue = scancode :: queue) :
    StepKeeps s .load .quiet
      { s with ps2 := ⟨queue, some scancode⟩, pics := s.pics.setLine 1 true } := by
  obtain ⟨hset, hline, hrequested⟩ := setLine_one s.pics true
  have hlow : s.pics.master.line 1 = false := by rw [h.line, hempty]; rfl
  have hcore : IrqSystem.Core
      { s with ps2 := ⟨queue, some scancode⟩, pics := s.pics.setLine 1 true } :=
    { line := hline
      handlers := h.handlers
      setting := h.setting.same hset
      writes := h.writes
      service := hset.inService.trans h.service
      vector := h.vector
      disabled := h.disabled }
  refine ⟨hcore, nofun, fun hs hin => ⟨hcore, fun hm => ?_, fun hm => ?_, fun _ => rfl⟩,
    fun hs hno => ?_, fun hs => ?_⟩
  · rcases hin rfl with hnil | hshell
    · rw [hqueue] at hnil
      cases hnil
    · exact absurd hshell hm
  · -- the edge is latched, and no interrupt of an earlier code is open
    have hunread : s.serving.any Serving.unread = false := by
      by_contra hu
      have := hs.unread (by simpa using hu)
      rw [hempty] at this
      cases this
    change (s.pics.setLine 1 true).master.requested 1 = (true && !s.serving.any Serving.unread)
    rw [hrequested, hlow, hunread]
    rfl
  · have hmain : s.main ≠ .shell := fun hm => hno fun _ => Or.inr hm
    obtain ⟨-, hserving, -⟩ := hs.early hmain
    refine ⟨hcore, rfl, ?_, fun hm => absurd hm hmain⟩
    change s.serving.any Serving.inHandler = false
    rw [hserving]
    rfl
  · have hfull := hs.full
    rw [hempty] at hfull
    cases hfull

/-- **The processor is interrupted.** -/
theorem StepKeeps.acknowledge (h : s.Core) (hserving : s.serving = none)
    (henabled : s.main.enabled = true) (hasks : s.pics.asks = true) {outcome : Outcome} :
    StepKeeps s (.cpu outcome) (.vector s.pics.ack.1)
      { s with pics := s.pics.ack.2, serving := some (.stub s.pics.ack.1) } := by
  have hwrites : s.main.writes = 10 := by
    cases hm : s.main with
    | install k =>
      rw [hm] at henabled
      cases henabled
    | _ => rfl
  have hset : MasterAt 10 s.pics.master := hwrites ▸ h.setting
  have hidle : s.pics.master.inService = fun _ => false := by
    rw [h.service, hserving]
    rfl
  obtain ⟨hrequested, hvector, hset', hservice, hline, hrequested'⟩ := ack_spec hset hidle hasks
  have hcore : IrqSystem.Core
      { s with pics := s.pics.ack.2, serving := some (.stub s.pics.ack.1) } :=
    { line := hline.trans h.line
      handlers := h.handlers
      setting := by
        change MasterAt s.main.writes _
        rwa [hwrites]
      writes := h.writes
      service := hservice.trans (funext fun j => (Bool.true_and _).symm)
      vector := intNo_of fun v hv => (Option.some.inj hv).symm.trans hvector
      disabled := fun hd => absurd (henabled.symm.trans hd) (by decide) }
  refine ⟨hcore, fun v hv => ?_, fun hs _ => ⟨hcore, fun hm => ?_, fun hm => ?_, fun _ => ?_⟩,
    fun _ hno => absurd (loadsInTime_of_ne (by simp)) hno,
    fun hs => ⟨hcore, hs.full, rfl, fun hm => ?_⟩⟩
  · cases hv
    exact hvector
  · -- in time, nothing is requested in front of the shell
    obtain ⟨-, -, hnone⟩ := hs.early hm
    rw [hnone (by rw [hwrites]; decide)] at hrequested
    cases hrequested
  · change s.pics.ack.2.master.requested 1 = (_ && !true)
    rw [hrequested', Bool.not_true, Bool.and_false]
  · -- what was asked for is in the buffer
    by_cases hm : s.main = .shell
    · have hasked := hs.asked hm
      rw [hrequested, hserving] at hasked
      change s.ps2.output.isSome = true
      simpa using hasked.symm
    · obtain ⟨-, -, hnone⟩ := hs.early hm
      rw [hnone (by rw [hwrites]; decide)] at hrequested
      cases hrequested
  · -- the line of a stuck code does not rise again
    have hno := (hs.quiet hm).2
    rw [hno] at hrequested
    cases hrequested

/-- **A statement while an interrupt is served** that leaves the output buffer alone. -/
theorem StepKeeps.serve (h : s.Core) {x : Serving} (hserving : s.serving = some x)
    {y : Option Serving}
    {pics : PicPair} {shell : Shell} {outcome : Outcome} (hvector : ∀ v, out ≠ .vector v)
    (hset : MasterAt s.main.writes pics.master) (hline : pics.master.line 1 = s.pics.master.line 1)
    (hrequested : pics.master.requested 1 = s.pics.master.requested 1)
    (hservice : pics.master.inService = fun j => y.any Serving.unended && decide (j = 1))
    (hintNo : ∀ z ∈ y, ∀ v ∈ z.intNo, v = 33)
    (hunread : s.main = .shell → y.any Serving.unread = x.unread)
    (hhandler : x.inHandler = false → s.main ≠ .shell → y.any Serving.inHandler = false) :
    StepKeeps s (.cpu outcome) out { s with pics := pics, serving := y, shell := shell } := by
  have hbusy : s.serving ≠ none := by simp [hserving]
  have hcore : IrqSystem.Core { s with pics := pics, serving := y, shell := shell } :=
    { line := hline.trans h.line
      handlers := h.handlers
      setting := hset
      writes := h.writes
      service := hservice
      vector := hintNo
      disabled := fun hd => absurd (h.disabled hd) hbusy }
  refine ⟨hcore, fun v hv => absurd hv (hvector v),
    fun hs _ => ⟨hcore, fun hm => ?_, fun hm => ?_, fun hu => ?_⟩,
    fun _ hno => absurd (loadsInTime_of_ne (by simp)) hno,
    fun hs => ⟨hcore, hs.full, ?_, fun hm => ?_⟩⟩
  · exact absurd (hs.early hm).2.1 hbusy
  · have hasked := hs.asked hm
    rw [hserving, Option.any_some] at hasked
    change pics.master.requested 1 = (s.ps2.output.isSome && !y.any Serving.unread)
    rw [hrequested, hasked, hunread hm]
  · by_cases hm : s.main = .shell
    · refine hs.unread ?_
      rw [hserving, Option.any_some, ← hunread hm]
      exact hu
    · exact absurd (hs.early hm).2.1 hbusy
  · have hout := hs.outside
    rw [hserving, Option.any_some] at hout
    exact hhandler hout fun hm => hbusy (hs.quiet hm).1
  · exact absurd (hs.quiet hm).1 hbusy

/-- **The code is read.** -/
theorem StepKeeps.reads (h : s.Core) (hserving : s.serving = some .read) {outcome : Outcome}
    {scancode : UInt8} :
    StepKeeps s (.cpu outcome) .quiet { s with
      ps2 := { s.ps2 with output := none }
      pics := s.pics.setLine 1 false
      serving := some (.handle scancode) } := by
  obtain ⟨hset, hline, hrequested⟩ := setLine_one s.pics false
  rw [Bool.false_and, Bool.false_or] at hrequested
  have hbusy : s.serving ≠ none := by simp [hserving]
  have hcore : IrqSystem.Core { s with
      ps2 := { s.ps2 with output := none }
      pics := s.pics.setLine 1 false
      serving := some (.handle scancode) } :=
    { line := hline
      handlers := h.handlers
      setting := h.setting.same hset
      writes := h.writes
      service := by
        change (s.pics.setLine 1 false).master.inService = _
        rw [hset.inService, h.service, hserving]
        rfl
      vector := intNo_of nofun
      disabled := fun hd => absurd (h.disabled hd) hbusy }
  refine ⟨hcore, nofun, fun hs _ => ⟨hcore, fun hm => ?_, fun hm => ?_, nofun⟩,
    fun _ hno => absurd (loadsInTime_of_ne (by simp)) hno, fun hs => ?_⟩
  · exact absurd (hs.early hm).2.1 hbusy
  · -- the edge of this code was taken back when it was acknowledged
    have hasked := hs.asked hm
    rw [hserving] at hasked
    change (s.pics.setLine 1 false).master.requested 1 = (false && _)
    rw [hrequested, hasked]
    exact Bool.and_false _
  · have hout := hs.outside
    rw [hserving] at hout
    cases hout

/-- **A statement of the handlers.** -/
theorem StepKeeps.serving (h : s.Core) {x : Serving} (hserving : s.serving = some x)
    {outcome : Outcome}
    (hstep : servingStep s x = .ok (out, t)) : StepKeeps s (.cpu outcome) out t := by
  have hservice := h.service
  rw [hserving] at hservice
  have hintNo : ∀ v ∈ x.intNo, v = 33 := h.vector x hserving
  cases x with
  | stub v =>
    cases hintNo v rfl
    cases hstep
    rw [if_neg (by decide)]
    exact StepKeeps.serve h hserving (by simp) h.setting rfl rfl hservice
      (intNo_of fun v hv => (Option.some.inj hv).symm) (fun _ => rfl) fun _ _ => rfl
  | eoi v =>
    cases hintNo v rfl
    cases hstep
    have hdone := eoi_spec (hservice.trans (funext fun j => Bool.true_and _))
    have hset : MasterAt s.main.writes (s.pics.write 0x20 0x20).master := by
      rw [hdone]
      exact ⟨h.setting.first, h.setting.autoEnd, h.setting.base, h.setting.second, h.setting.slaves,
        h.setting.third, h.setting.last, h.setting.masked⟩
    refine StepKeeps.serve h hserving (by simp) hset (by rw [hdone]) (by rw [hdone]) ?_
      (intNo_of fun v hv => (Option.some.inj hv).symm) (fun _ => rfl) fun _ _ => rfl
    rw [hdone]
    exact funext fun j => (Bool.false_and _).symm
  | dispatch v =>
    cases hintNo v rfl
    cases hstep
    rw [h.handlers]
    by_cases hm : s.main = .shell
    · -- the handler is registered, and the code is still in the buffer
      rw [if_pos hm]
      exact StepKeeps.serve h hserving (by simp) h.setting rfl rfl hservice (intNo_of nofun)
        (fun _ => rfl)
        fun _ hno => absurd hm hno
    · -- the interrupt of a code that came too early ends here
      rw [if_neg hm]
      exact StepKeeps.serve h hserving (by simp) h.setting rfl rfl hservice (intNo_of nofun)
        (fun hshell => absurd hshell hm) fun _ _ => rfl
  | wait =>
    cases hstep
    refine StepKeeps.serve h hserving (by simp) h.setting rfl rfl ?_ ?_ (fun _ => ?_) fun hno => ?_
    · split_ifs <;> exact hservice
    · rintro z hz v hv
      split_ifs at hz <;> cases hz <;> cases hv
    · split_ifs <;> rfl
    · cases hno
  | read =>
    cases hstep
    exact StepKeeps.reads h hserving
  | handle scancode =>
    cases hstep
    exact StepKeeps.serve h hserving (by simp) h.setting rfl rfl hservice (intNo_of nofun)
      (fun _ => rfl)
      fun _ _ => rfl
  | iret =>
    cases hstep
    exact StepKeeps.serve h hserving (by simp) h.setting rfl rfl hservice nofun (fun _ => rfl)
      fun _ _ => rfl

/-- `main` gets on in front of the shell. -/
theorem StepKeeps.boots (h : s.Core) (hserving : s.serving = none) {outcome : Outcome}
    {pics : PicPair} {main : MainAt} (hmain : s.main ≠ .shell) (hnext : main ≠ .shell)
    (hset : MasterAt main.writes pics.master) (hwrites : main.writes ≤ 10)
    (hservice : pics.master.inService = s.pics.master.inService)
    (hline : pics.master.line 1 = s.pics.master.line 1)
    (hrequested : (1 ≤ s.main.writes → s.pics.master.requested 1 = false) → 1 ≤ main.writes →
      pics.master.requested 1 = false) :
    StepKeeps s (.cpu outcome) .quiet { s with pics := pics, main := main } := by
  have hcore : IrqSystem.Core { s with pics := pics, main := main } :=
    { line := hline.trans h.line
      handlers := by
        change s.handlers 33 = if main = .shell then some .keyboardHandler else none
        rw [h.handlers, if_neg hmain, if_neg hnext]
      setting := hset
      writes := hwrites
      service := hservice.trans h.service
      vector := h.vector
      disabled := fun _ => hserving }
  refine ⟨hcore, nofun, fun hs _ => ⟨hcore, fun _ => ?_, fun hm => absurd hm hnext, hs.unread⟩,
    fun _ hno => absurd (loadsInTime_of_ne (by simp)) hno, fun hs => ⟨hcore, hs.full, hs.outside,
      fun hm => absurd hm hnext⟩⟩
  obtain ⟨h₁, h₂, h₃⟩ := hs.early hmain
  exact ⟨h₁, h₂, hrequested h₃⟩

/-- **The handler of the keyboard is registered.** No interrupt is asked for at this statement. -/
theorem StepKeeps.registers (h : s.Core) (hserving : s.serving = none) (hmain : s.main = .register)
    (hasks : s.pics.asks = false) {outcome : Outcome} :
    StepKeeps s (.cpu outcome) .quiet { s with
      handlers := Function.update s.handlers 33 (some .keyboardHandler)
      main := .shell } := by
  have hset : MasterAt 10 s.pics.master := by
    have hset := h.setting
    rwa [hmain] at hset
  have hidle : s.pics.master.inService = fun _ => false := by
    rw [h.service, hserving]
    rfl
  have hrequested : s.pics.master.requested 1 = false := by
    unfold PicPair.asks at hasks
    rw [pending_idle hset hidle] at hasks
    by_contra hyes
    rw [if_pos (by simpa using hyes)] at hasks
    cases hasks
  have hcore : IrqSystem.Core { s with
      handlers := Function.update s.handlers 33 (some .keyboardHandler)
      main := .shell } :=
    { line := h.line
      handlers := by
        change Function.update s.handlers 33 (some .keyboardHandler) 33 = some .keyboardHandler
        exact Function.update_self ..
      setting := hset
      writes := le_refl 10
      service := h.service
      vector := h.vector
      disabled := nofun }
  -- what was requested has been served, without a handler
  refine ⟨hcore, nofun, fun hs _ => ⟨hcore, fun hno => absurd rfl hno, fun _ => ?_, hs.unread⟩,
    fun _ hno => absurd (loadsInTime_of_ne (by simp)) hno, fun hs => ⟨hcore, hs.full, hs.outside,
      fun _ => ⟨hserving, hrequested⟩⟩⟩
  have hmain' : s.main ≠ .shell := by simp [hmain]
  change s.pics.master.requested 1 = (s.ps2.output.isSome && _)
  rw [hrequested, (hs.early hmain').1]
  rfl

/-- **A statement of `main`.** -/
theorem StepKeeps.main (h : s.Core) (hserving : s.serving = none)
    (hasks : (s.main.enabled && s.pics.asks) = false) {outcome : Outcome}
    (hstep : mainStep s outcome = .ok (out, t)) : StepKeeps s (.cpu outcome) out t := by
  unfold mainStep at hstep
  cases hmain : s.main with
  | install k =>
    have hset := h.setting
    have hwrites := h.writes
    rw [hmain] at hset hwrites hstep
    dsimp only at hstep
    have hne : s.main ≠ .shell := by simp [hmain]
    -- a write to one of the controllers, or the end of `isr_install`
    by_cases hk : k < 10
    · obtain ⟨port, b, hwrite, hset', hservice, hline, hrequested⟩ := picWrite_spec hk hset
      rw [hwrite] at hstep
      cases hstep
      refine StepKeeps.boots h hserving hne (by simp) hset' hk hservice hline fun hold _ => ?_
      rw [hrequested]
      by_cases hzero : 0 < k
      · rw [hold (by rw [hmain]; exact hzero), Bool.and_false]
      · rw [decide_eq_false hzero, Bool.false_and]
    · rw [picWrites_done (not_lt.mp hk)] at hstep
      cases hstep
      have hten : k = 10 := le_antisymm hwrites (not_lt.mp hk)
      subst hten
      exact StepKeeps.boots h hserving hne (by simp) hset (le_refl 10) rfl rfl fun hold _ =>
        hold (by rw [hmain]; decide)
  | sti =>
    have hset := h.setting
    rw [hmain] at hset hstep
    cases hstep
    exact StepKeeps.boots h hserving (by simp [hmain]) (by simp) hset (le_refl 10) rfl
      rfl fun hold _ =>
      hold (by rw [hmain]; decide)
  | register =>
    rw [hmain] at hstep hasks
    cases hstep
    -- `keyboard_init`
    exact StepKeeps.registers h hserving hmain hasks
  | shell =>
    rw [hmain] at hstep
    dsimp only at hstep
    -- asleep at the `hlt`, or a step of the shell
    split_ifs at hstep
    · cases hstep
      exact StepKeeps.of_kept h (LineKept.refl _) (by simp) (loadsInTime_of_ne (by simp))
    · cases hshell : shellStep s.shell (.main outcome) with
      | error e =>
        rw [hshell] at hstep
        cases hstep
      | ok r =>
        rw [hshell] at hstep
        cases hstep
        rw [← hmain]
        exact StepKeeps.of_kept h (LineKept.refl _) (by simp) (loadsInTime_of_ne (by simp))

/-- **One step.** -/
theorem irqStep_keeps (h : s.Core) (hstep : irqStep s event = .ok (out, t)) :
    StepKeeps s event out t := by
  cases event with
  | send scancode =>
    cases hstep
    exact StepKeeps.of_kept h (LineKept.refl _) (by simp) (loadsInTime_of_ne (by simp))
  | load =>
    unfold irqStep at hstep
    cases houtput : s.ps2.output with
    | some code =>
      rw [houtput] at hstep
      cases hstep
      -- a full output buffer is not loaded again
      refine ⟨h, nofun, fun hs _ => hs, fun hs hno => ?_, fun hs => hs⟩
      have hmain : s.main ≠ .shell := fun hm => hno fun _ => Or.inr hm
      have hempty := (hs.early hmain).1
      rw [houtput] at hempty
      cases hempty
    | none =>
      cases hqueue : s.ps2.queue with
      | nil =>
        rw [houtput, hqueue] at hstep
        cases hstep
        exact StepKeeps.of_kept h (LineKept.refl _) (by simp) fun _ => Or.inl hqueue
      | cons code queue =>
        rw [houtput, hqueue] at hstep
        cases hstep
        exact StepKeeps.load h houtput hqueue
  | line irq level =>
    unfold irqStep at hstep
    dsimp only at hstep
    split_ifs at hstep with hirq
    cases hstep
    exact StepKeeps.of_kept h (lineKept_line (fun h₁ => hirq (Or.inl h₁)) level) (by simp)
      (loadsInTime_of_ne (by simp))
  | cpu outcome =>
    unfold irqStep at hstep
    cases hserving : s.serving with
    | some x =>
      rw [hserving] at hstep
      -- the handler goes on
      exact StepKeeps.serving h hserving hstep
    | none =>
      rw [hserving] at hstep
      dsimp only at hstep
      split_ifs at hstep with hask
      · -- an interrupt is acknowledged when they are enabled
        cases hstep
        obtain ⟨henabled, hasks⟩ := Bool.and_eq_true_iff.mp hask
        exact StepKeeps.acknowledge h hserving henabled hasks
      · exact StepKeeps.main h hserving (by simpa using hask) hstep

end Steps

end VibeKernel
