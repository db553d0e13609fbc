import Mathlib.Data.Fin.Basic
import Mathlib.Data.List.FinRange
import Mathlib.Tactic

/-!
# The 8259A interrupt controller

A controller latches the rising edges of its eight inputs, and asks the processor for the one of
highest priority that is not masked, as long as none of the same or a higher priority is in service.
The processor acknowledges it and gets a vector; the end of the service is a command. Two
controllers work together when the slave is an input of the master.

The commands are those of the initialisation, the masks, and the ends of interrupts. Rotating
priorities, level triggering, and the special modes are left out.

`Pic.pending_of_masked` is what a program uses that has masked all inputs but one.
-/

namespace Verif

/-- What the data port of a controller takes next: the words of the initialisation, then the masks.
A single controller has no `icw3`, and the first word tells whether there is an `icw4`. -/
inductive PicWord
  | icw2 (single icw4 : Bool)
  | icw3 (icw4 : Bool)
  | icw4
  | ocw1
  deriving DecidableEq, Repr

/-- A controller: the levels of its inputs, the registers of requests, of interrupts in service and
of masks, the vector of input 0, the inputs with a slave, and whether interrupts end by
themselves. -/
structure Pic where
  line : Fin 8 → Bool
  requested : Fin 8 → Bool
  inService : Fin 8 → Bool
  masked : Fin 8 → Bool
  base : ℕ
  slaves : BitVec 8
  autoEnd : Bool
  next : PicWord

namespace Pic

/-- An input gets a level. A rising edge is latched. -/
def setLine (p : Pic) (i : Fin 8) (level : Bool) : Pic :=
  { p with
    line := Function.update p.line i level
    requested := if level && !p.line i then Function.update p.requested i true else p.requested }

/-- The inputs in service, the one of highest priority first. -/
def serviced (p : Pic) : Option (Fin 8) := (List.finRange 8).find? fun i => p.inService i

/-- A byte for the command port. -/
def command (p : Pic) (b : BitVec 8) : Pic :=
  if b.getLsbD 4 then
    { p with
      requested := fun _ => false
      masked := fun _ => false
      autoEnd := false
      next := .icw2 (b.getLsbD 1) (b.getLsbD 0) }
  else if b.getLsbD 3 then p
  else if b.extractLsb' 5 3 = 1 then
    -- the interrupt of highest priority ends
    match p.serviced with
    | some i => { p with inService := Function.update p.inService i false }
    | none => p
  else if b.extractLsb' 5 3 = 3 then
    { p with inService := Function.update p.inService ⟨b.toNat % 8, Nat.mod_lt _ (by
      decide)⟩ false }
  else p

/-- A byte for the data port. -/
def data (p : Pic) (b : BitVec 8) : Pic :=
  match p.next with
  | .icw2 single icw4 =>
    { p with
      base := b.toNat / 8 * 8
      next := if single then if icw4 then .icw4 else .ocw1 else .icw3 icw4 }
  | .icw3 icw4 => { p with slaves := b, next := if icw4 then .icw4 else .ocw1 }
  | .icw4 => { p with autoEnd := b.getLsbD 1, next := .ocw1 }
  | .ocw1 => { p with masked := fun i => b.getLsbD i.val }

/-- The input that the controller asks for. -/
def pending (p : Pic) : Option (Fin 8) :=
  (List.finRange 8).find? fun i =>
    p.requested i && !p.masked i && (List.finRange 8).all fun j =>
      !(decide (j ≤ i) && p.inService j)

/-- The acknowledgement: the input that is served. If there is none any more, it is the last one. -/
def ack (p : Pic) : Fin 8 × Pic :=
  match p.pending with
  | some i => (i, { p with
      requested := Function.update p.requested i false
      inService := if p.autoEnd then p.inService else Function.update p.inService i true })
  | none => (7, p)

variable {p : Pic} {i : Fin 8}

/-- **One input.** With all others masked and nothing in service, the controller asks for an input
exactly if it is requested and not masked. -/
theorem pending_of_masked (hothers : ∀ j, j ≠ i → p.masked j = true)
    (hidle : ∀ j, p.inService j = false) :
    p.pending = if p.requested i && !p.masked i then some i else none := by
  have hfree : ∀ j, ((List.finRange 8).all fun l => !(decide (l ≤ j) && p.inService l)) = true := by
    intro j
    refine List.all_eq_true.mpr fun l _ => ?_
    rw [hidle l, Bool.and_false]
    rfl
  unfold pending
  split_ifs with h
  · -- nothing in front of the input is asked for
    refine List.find?_eq_some_iff_append.mpr ⟨by rw [h, hfree]; rfl, ?_⟩
    obtain ⟨before, after, hsplit⟩ := List.append_of_mem (List.mem_finRange i)
    refine ⟨before, after, hsplit, fun j hj => ?_⟩
    have hne : j ≠ i := by
      rintro rfl
      have hnodup := List.nodup_finRange 8
      rw [hsplit] at hnodup
      exact (List.nodup_append.mp hnodup).2.2 j hj j List.mem_cons_self rfl
    rw [hothers j hne, Bool.not_true, Bool.and_false, Bool.false_and]
    rfl
  · refine List.find?_eq_none.mpr fun j _ => ?_
    by_cases hne : j = i
    · subst hne
      rw [hfree, Bool.and_true]
      exact h
    · rw [hothers j hne, Bool.not_true, Bool.and_false, Bool.false_and]
      exact Bool.false_ne_true

end Pic

/-- A master and its slave. -/
structure PicPair where
  master : Pic
  slave : Pic

namespace PicPair

/-- The slave asks at input 2 of the master. -/
def link (p : PicPair) : PicPair := { p with master := p.master.setLine 2 p.slave.pending.isSome }

/-- One of the fifteen lines gets a level. -/
def setLine (p : PicPair) (irq : ℕ) (level : Bool) : PicPair :=
  if h : irq < 8 then { p with master := p.master.setLine ⟨irq, h⟩ level }
  else if h : irq - 8 < 8 then link { p with slave := p.slave.setLine ⟨irq - 8, h⟩ level }
  else p

/-- A byte for a port. -/
def write (p : PicPair) (port : ℕ) (b : BitVec 8) : PicPair :=
  if port = 0x20 then { p with master := p.master.command b }
  else if port = 0x21 then { p with master := p.master.data b }
  else if port = 0xA0 then link { p with slave := p.slave.command b }
  else if port = 0xA1 then link { p with slave := p.slave.data b }
  else p

/-- The processor is asked. -/
def asks (p : PicPair) : Bool := p.master.pending.isSome

/-- The acknowledgement, with the vector. -/
def ack (p : PicPair) : ℕ × PicPair :=
  let r := p.master.ack
  if r.2.slaves.getLsbD r.1.val then
    let s := p.slave.ack
    (s.2.base + s.1.val, link ⟨r.2, s.2⟩)
  else (r.2.base + r.1.val, { p with master := r.2 })

end PicPair

end Verif
