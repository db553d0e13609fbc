import VibeKernel.Lib.X86

/-!
# Protection on the x86

What the processor reads from its descriptor tables, and what it checks there when a program loads a
segment register, transfers control to another segment, is interrupted, or uses a port, in 32-bit
protected mode. A table is a limit and the bytes up to it. Levels are numbers; zero has all
privileges.

A fault is an interrupt as well, and what becomes of a fault while another event is delivered is
said by `System.deliver`: the second is delivered instead of a benign first one, else a double fault
is, and if that fails the processor shuts down. Gates to tasks are left out.
-/

namespace Verif.X86

/-! ### Tables -/

/-- Bytes, and the offset of the last of them. -/
structure Table where
  limit : ℕ
  byte : ℕ → BitVec 8

/-- The eight bytes of an entry, if all of them are in the table. -/
def Table.entry (t : Table) (i : ℕ) : Option (ℕ → BitVec 8) :=
  if 8 * i + 7 ≤ t.limit then some fun j => t.byte (8 * i + j) else none

/-- Two bytes. -/
def Table.half (t : Table) (k : ℕ) : BitVec 16 := t.byte (k + 1) ++ t.byte k

/-- Four bytes. -/
def Table.word (t : Table) (k : ℕ) : BitVec 32 := t.half (k + 2) ++ t.half k

/-- A descriptor, as it is read from the bytes of an entry. -/
structure Descriptor where
  base : BitVec 32
  limit : BitVec 20
  access : BitVec 8
  flags : BitVec 4
  deriving DecidableEq

def Descriptor.ofBytes (b : ℕ → BitVec 8) : Descriptor where
  base := b 7 ++ b 4 ++ b 3 ++ b 2
  limit := (b 6).extractLsb' 0 4 ++ b 1 ++ b 0
  access := b 5
  flags := (b 6).extractLsb' 4 4

/-- The processor reads eight bytes of an entry. -/
theorem Descriptor.ofBytes_congr {b b' : ℕ → BitVec 8} (h : ∀ j < 8, b j = b' j) :
    Descriptor.ofBytes b = Descriptor.ofBytes b' := by
  unfold Descriptor.ofBytes
  rw [h 0 (by decide), h 1 (by decide), h 2 (by decide), h 3 (by decide), h 4 (by decide),
    h 5 (by decide), h 6 (by decide), h 7 (by decide)]

namespace Descriptor

variable (d : Descriptor)

def present : Bool := d.access.getLsbD 7

/-- The level of the descriptor. -/
def dpl : ℕ := (d.access.extractLsb' 5 2).toNat

/-- A code or data segment, not one of the system. -/
def isSegment : Bool := d.access.getLsbD 4

/-- The kind of a descriptor of the system. -/
def kind : ℕ := (d.access.extractLsb' 0 4).toNat

def isCode : Bool := d.isSegment && d.access.getLsbD 3

def conforming : Bool := d.isCode && d.access.getLsbD 2

def readable : Bool := d.isSegment && (!d.access.getLsbD 3 || d.access.getLsbD 1)

def writable : Bool := d.isSegment && !d.access.getLsbD 3 && d.access.getLsbD 1

end Descriptor

/-- A gate for interrupts, as it is read from the bytes of an entry. -/
structure GateEntry where
  offset : BitVec 32
  selector : BitVec 16
  access : BitVec 8
  deriving DecidableEq

def GateEntry.ofBytes (b : ℕ → BitVec 8) : GateEntry where
  offset := b 7 ++ b 6 ++ b 1 ++ b 0
  selector := b 3 ++ b 2
  access := b 5

theorem GateEntry.ofBytes_congr {b b' : ℕ → BitVec 8} (h : ∀ j < 8, b j = b' j) :
    GateEntry.ofBytes b = GateEntry.ofBytes b' := by
  unfold GateEntry.ofBytes
  rw [h 0 (by decide), h 1 (by decide), h 2 (by decide), h 3 (by decide), h 5 (by decide),
    h 6 (by decide), h 7 (by decide)]

namespace GateEntry

variable (g : GateEntry)

def present : Bool := g.access.getLsbD 7

def dpl : ℕ := (g.access.extractLsb' 5 2).toNat

/-- The kind, with the bit that a gate has clear. -/
def kind : ℕ := (g.access.extractLsb' 0 5).toNat

/-- Where it leads to. The gates of 16 bits have the lower half only. -/
def target : BitVec 32 := if g.kind = 14 ∨ g.kind = 15 then g.offset
    else (g.offset.extractLsb' 0 16).setWidth 32

end GateEntry

/-! ### Selectors -/

/-- The entry that a selector asks for. -/
def selectorIndex (sel : BitVec 16) : ℕ := sel.toNat / 8

/-- It is in the local table. -/
def selectorLocal (sel : BitVec 16) : Prop := sel.toNat / 4 % 2 = 1

instance : DecidablePred selectorLocal := fun _ => inferInstanceAs (Decidable (_ = _))

/-- The level that it asks for. -/
def selectorLevel (sel : BitVec 16) : ℕ := sel.toNat % 4

/-- It names no segment. -/
def selectorNull (sel : BitVec 16) : Prop := sel.toNat < 4

instance : DecidablePred selectorNull := fun _ => inferInstanceAs (Decidable (_ < _))

/-- The selector with another level. -/
def withLevel (sel : BitVec 16) (level : ℕ) : BitVec 16 :=
  BitVec.ofNat 16 (sel.toNat / 4 * 4 + level)

/-- The tables of the processor. -/
structure System where
  gdt : Table
  ldt : ℕ → Option Descriptor
  idt : Table
  tss : Table

/-- What is raised when a check fails. -/
inductive Fault
  | invalidOpcode
  | invalidTss
  | notPresent
  | stack
  | protection
  deriving DecidableEq, Repr

def Fault.vector : Fault → ℕ
  | .invalidOpcode => 6
  | .invalidTss => 10
  | .notPresent => 11
  | .stack => 12
  | .protection => 13

namespace System

variable (sys : System)

/-- The descriptor of a selector. -/
def find (sel : BitVec 16) : Option Descriptor :=
  if selectorLocal sel then sys.ldt (selectorIndex sel)
  else (sys.gdt.entry (selectorIndex sel)).map Descriptor.ofBytes

/-! ### Segment registers -/

/-- A selector for `ds`, `es`, `fs` or `gs`. -/
def loadData (cpl : ℕ) (sel : BitVec 16) : Except Fault Unit :=
  if selectorNull sel then .ok ()
  else match sys.find sel with
  | none => .error .protection
  | some d =>
    if d.readable = false then .error .protection
    else if d.conforming = false ∧ ¬ (selectorLevel sel ≤ d.dpl ∧ cpl ≤ d.dpl)
      then .error .protection
    else if d.present = false then .error .notPresent
    else .ok ()

/-- A selector for `ss`. -/
def loadStack (cpl : ℕ) (sel : BitVec 16) : Except Fault Unit :=
  if selectorNull sel then .error .protection
  else match sys.find sel with
  | none => .error .protection
  | some d =>
    if selectorLevel sel ≠ cpl ∨ d.writable = false ∨ d.dpl ≠ cpl then .error .protection
    else if d.present = false then .error .stack
    else .ok ()

/-! ### Other segments of code -/

/-- Where a far jump or call goes to: on in a segment of code, or to a gate or a task. -/
inductive Target
  | code (cs : BitVec 16)
  | system (d : Descriptor)
  deriving DecidableEq

/-- A far jump or call. -/
def farTransfer (cpl : ℕ) (sel : BitVec 16) : Except Fault Target :=
  if selectorNull sel then .error .protection
  else match sys.find sel with
  | none => .error .protection
  | some d =>
    if d.isSegment = false then
      if d.kind ∈ [1, 4, 5, 9, 12] ∧ cpl ≤ d.dpl ∧ selectorLevel sel ≤ d.dpl then
        if d.present = false then .error .notPresent else .ok (.system d)
      else .error .protection
    else if d.isCode = false then .error .protection
    else if d.conforming = true ∧ cpl < d.dpl then .error .protection
    else if d.conforming = false ∧ ¬ (selectorLevel sel ≤ cpl ∧ d.dpl = cpl) then .error .protection
    else if d.present = false then .error .notPresent
    else .ok (.code (withLevel sel cpl))

/-- A far return or `iret` to a selector, with the one that is behind it on the stack if the level
changes. It answers with `cs`, and with `ss` if this is loaded. -/
def farReturn (cpl : ℕ) (sel stack : BitVec 16) : Except Fault (BitVec 16 × Option (BitVec 16)) :=
  if selectorNull sel then .error .protection
  else match sys.find sel with
  | none => .error .protection
  | some d =>
    if d.isCode = false ∨ selectorLevel sel < cpl then .error .protection
    else if d.conforming = true ∧ selectorLevel sel < d.dpl then .error .protection
    else if d.conforming = false ∧ d.dpl ≠ selectorLevel sel then .error .protection
    else if d.present = false then .error .notPresent
    else if selectorLevel sel = cpl then .ok (sel, none)
    else match sys.loadStack (selectorLevel sel) stack with
    | .error e => .error e
    | .ok () => .ok (sel, some stack)

/-- What a return to a level with fewer privileges leaves in `ds`, `es`, `fs` or `gs`. -/
def kept (level : ℕ) (sel : BitVec 16) : BitVec 16 :=
  if selectorNull sel then sel
  else match sys.find sel with
  | none => 0
  | some d => if d.conforming = false ∧ d.dpl < level then 0 else sel

/-! ### Interrupts -/

/-- The entry of a handler, with a stack if the level changes. -/
structure Entry where
  cs : BitVec 16
  eip : BitVec 32
  stack : Option (BitVec 16 × BitVec 32)
  deriving DecidableEq

/-- The stack for a level, from the task state segment. -/
def innerStack (level : ℕ) : Except Fault (BitVec 16 × BitVec 32) :=
  if sys.tss.limit < 8 * level + 9 then .error .invalidTss
  else
    let ss := sys.tss.half (8 * level + 8)
    if selectorNull ss then .error .invalidTss
    else match sys.find ss with
    | none => .error .invalidTss
    | some d =>
      if selectorLevel ss ≠ level ∨ d.dpl ≠ level ∨ d.writable = false then .error .invalidTss
      else if d.present = false then .error .stack
      else .ok (ss, sys.tss.word (8 * level + 4))

/-- An interrupt through its gate, which is a gate of interrupts or traps. The level of the gate
counts for `int` only. -/
def throughGate (cpl : ℕ) (software : Bool) (vector : ℕ) : Except Fault Entry :=
  match (sys.idt.entry vector).map GateEntry.ofBytes with
  | none => .error .protection
  | some g =>
    if g.kind ∉ [6, 7, 14, 15] ∨ (software = true ∧ g.dpl < cpl) then .error .protection
    else if g.present = false then .error .notPresent
    else if selectorNull g.selector then .error .protection
    else match sys.find g.selector with
    | none => .error .protection
    | some d =>
      if d.isCode = false ∨ cpl < d.dpl then .error .protection
      else if d.present = false then .error .notPresent
      else if d.conforming = false ∧ d.dpl < cpl then
        match sys.innerStack d.dpl with
        | .error e => .error e
        | .ok stack => .ok ⟨withLevel g.selector d.dpl, g.target, some stack⟩
      else .ok ⟨withLevel g.selector cpl, g.target, none⟩

section Rules

variable {sys : System} {cpl level vector : ℕ} {software : Bool} {ss : BitVec 16} {esp : BitVec 32}
  {d : Descriptor} {g : GateEntry}

/-- A stack that passes the checks. -/
theorem innerStack_ok (hlimit : 8 * level + 9 ≤ sys.tss.limit)
    (hss : sys.tss.half (8 * level + 8) = ss)
    (hesp : sys.tss.word (8 * level + 4) = esp) (hnull : ¬ selectorNull ss)
    (hfind : sys.find ss = some d)
    (hlevel : selectorLevel ss = level) (hdpl : d.dpl = level) (hwritable : d.writable = true)
    (hpresent : d.present = true) : sys.innerStack level = .ok (ss, esp) := by
  unfold innerStack
  rw [if_neg (Nat.not_lt.mpr hlimit)]
  dsimp only
  rw [hss, if_neg hnull, hfind]
  simp [hlevel, hdpl, hwritable, hpresent, hesp]

/-- A gate that is no gate, or that a program may not use. -/
theorem throughGate_protection (hgate : (sys.idt.entry vector).map GateEntry.ofBytes = some g)
    (h : g.kind ∉ [6, 7, 14, 15] ∨ (software = true ∧ g.dpl < cpl)) :
    sys.throughGate cpl software vector = .error .protection := by
  unfold throughGate
  rw [hgate]
  exact if_pos h

/-- A gate to a segment of code with more privileges. -/
theorem throughGate_inner (hgate : (sys.idt.entry vector).map GateEntry.ofBytes = some g)
    (hkind : g.kind ∈ [6, 7, 14, 15]) (hsoftware : ¬ (software = true ∧ g.dpl < cpl))
    (hpresent : g.present = true) (hnull : ¬ selectorNull g.selector)
    (hfind : sys.find g.selector = some d) (hcode : d.isCode = true)
    (hconforming : d.conforming = false)
    (hlevel : d.dpl < cpl) (hd : d.present = true) (hstack : sys.innerStack d.dpl = .ok (ss, esp)) :
    sys.throughGate cpl software vector =
      .ok ⟨withLevel g.selector d.dpl, g.target, some (ss, esp)⟩ := by
  unfold throughGate
  rw [hgate]
  dsimp only
  rw [if_neg fun h => h.elim (fun h => h hkind) hsoftware, if_neg (by simp [hpresent]),
    if_neg hnull, hfind]
  dsimp only
  rw [if_neg (by simp [hcode, Nat.le_of_lt hlevel]), if_neg (by simp [hd]),
    if_pos ⟨hconforming, hlevel⟩, hstack]

end Rules

/-- What becomes of an event. -/
inductive Delivered
  | entered (vector : ℕ) (entry : Entry)
  | shutdown
  deriving DecidableEq

/-- A double fault. -/
def doubleFault (cpl : ℕ) : Delivered :=
  match sys.throughGate cpl false 8 with
  | .error _ => .shutdown
  | .ok entry => .entered 8 entry

/-- A fault that is contributory. -/
def raise (cpl : ℕ) (fault : Fault) : Delivered :=
  match sys.throughGate cpl false fault.vector with
  | .error _ => sys.doubleFault cpl
  | .ok entry => .entered fault.vector entry

/-- The exceptions that make a fault on their delivery a double fault. -/
def Contributory (vector : ℕ) : Prop := vector = 0 ∨ (10 ≤ vector ∧ vector ≤ 14)

instance : DecidablePred Contributory := fun _ => inferInstanceAs (Decidable (_ ∨ _))

/-- An event with its vector: `int`, or an interrupt or exception. -/
def deliver (cpl : ℕ) (software : Bool) (vector : ℕ) : Delivered :=
  match sys.throughGate cpl software vector with
  | .ok entry => .entered vector entry
  | .error fault =>
    if software = false ∧ vector = 8 then .shutdown
    else if software = false ∧ Contributory vector then sys.doubleFault cpl
    else sys.raise cpl fault

/-! ### Ports -/

/-- The level that `eflags` gives to input and output. -/
def iopl (eflags : BitVec 32) : ℕ := (eflags.extractLsb' 12 2).toNat

/-- A program may use the ports from `port` on: it has the privileges for all of them, or finds
their bits clear in the map of the task state segment, of which two bytes are read. -/
def PortsAllowed (cpl iopl port size : ℕ) : Prop :=
  cpl ≤ iopl ∨
    (103 ≤ sys.tss.limit ∧ (sys.tss.half 102).toNat + port / 8 + 1 ≤ sys.tss.limit ∧
      ∀ i < size, (sys.tss.half ((sys.tss.half 102).toNat + port / 8)).getLsbD
        (port % 8 + i) = false)

instance (cpl iopl port size : ℕ) : Decidable (sys.PortsAllowed cpl iopl port size) :=
  inferInstanceAs (Decidable (_ ∨ _))

end System

end Verif.X86
