import Mathlib.Tactic

/-!
# Interrupts on the x86

The instructions that save and restore registers, what the processor does when it delivers an
interrupt, and `iret`, in 32-bit protected mode with flat segments. A piece of code is a list of
instructions, and what it calls is given by functions on states. Where the code is is told by the
rest of the list: `eip` is set when an interrupt is delivered and on `iret` only.

The stack is seen as a list of words below a base (`Cpu.Stack`), which `push` extends and `pop`
takes apart. An address is a word, so that the stack may reach across address zero; the words are
apart as long as all of them fit in the address space.
-/

namespace Verif.X86

/-! ### Memory -/

/-- A word of the memory, the low byte first. -/
def load (m : BitVec 32 → BitVec 8) (a : BitVec 32) : BitVec 32 :=
  m (a + 3) ++ m (a + 2) ++ m (a + 1) ++ m a

/-- The memory with a word at an address. -/
def store (m : BitVec 32 → BitVec 8) (a v : BitVec 32) : BitVec 32 → BitVec 8 := fun x =>
  if x = a then v.extractLsb' 0 8
  else if x = a + 1 then v.extractLsb' 8 8
  else if x = a + 2 then v.extractLsb' 16 8
  else if x = a + 3 then v.extractLsb' 24 8
  else m x

/-- The words from an address on. -/
def Holds (m : BitVec 32 → BitVec 8) : BitVec 32 → List (BitVec 32) → Prop
  | _, [] => True
  | a, w :: ws => load m a = w ∧ Holds m (a + 4) ws

section Memory

variable {m m' : BitVec 32 → BitVec 8} {a v w : BitVec 32} {ws vs : List (BitVec 32)}

theorem load_store (m : BitVec 32 → BitVec 8) (a v : BitVec 32) : load (store m a v) a = v := by
  have hne : ∀ i : BitVec 32, i ≠ 0 → a + i ≠ a := fun i hi h => hi (by simpa using h)
  unfold load store
  simp only [hne 1 (by decide), hne 2 (by decide), hne 3 (by decide), BitVec.add_right_inj, if_true,
    if_false, BitVec.reduceEq]
  rw [BitVec.extractLsb'_append_extractLsb'_eq_extractLsb' (by rfl),
    BitVec.extractLsb'_append_extractLsb'_eq_extractLsb' (by rfl),
    BitVec.extractLsb'_append_extractLsb'_eq_extractLsb' (by rfl)]
  exact BitVec.extractLsb'_eq_self

theorem store_of_ne {x : BitVec 32} (h : ∀ j < 4, x ≠ a + BitVec.ofNat 32 j) :
    store m a v x = m x := by
  have h0 : x ≠ a := fun heq => h 0 (by norm_num) (heq.trans (BitVec.add_zero a).symm)
  unfold store
  rw [if_neg h0, if_neg (show x ≠ a + 1 from h 1 (by norm_num)),
    if_neg (show x ≠ a + 2 from h 2 (by norm_num)), if_neg (show x ≠ a + 3 from h 3 (by norm_num))]

theorem Holds.congr : ∀ {ws : List (BitVec 32)} {a : BitVec 32}, Holds m a ws →
    (∀ i < 4 * ws.length, m' (a + BitVec.ofNat 32 i) = m (a + BitVec.ofNat 32 i)) → Holds m' a ws
  | [], _, _, _ => trivial
  | w :: ws, a, ⟨hw, hws⟩, hm => by
    have hbyte : ∀ i < 4, m' (a + BitVec.ofNat 32 i) = m (a + BitVec.ofNat 32 i) := fun i hi =>
      hm i (by rw [List.length_cons]; omega)
    have h0 : m' a = m a := by simpa using hbyte 0 (by norm_num)
    refine ⟨?_, hws.congr fun i hi => ?_⟩
    · rw [← hw]
      unfold load
      rw [h0]
      exact congrArg (· ++ m a)
        (congrArg₂ _ (congrArg₂ _ (hbyte 3 (by norm_num)) (hbyte 2 (by norm_num)))
        (hbyte 1 (by norm_num)))
    · have hnext : a + 4 + BitVec.ofNat 32 i = a + BitVec.ofNat 32 (4 + i) := by
        rw [BitVec.ofNat_add, BitVec.add_assoc]
        rfl
      rw [hnext]
      exact hm (4 + i) (by rw [List.length_cons]; omega)

/-- One more word in front. -/
theorem Holds.store (h : Holds m a ws) (hlen : 4 * (ws.length + 1) ≤ 4294967296) (v : BitVec 32) :
    Holds (store m (a - 4) v) (a - 4) (v :: ws) := by
  refine ⟨load_store m (a - 4) v, ?_⟩
  rw [BitVec.sub_add_cancel]
  refine h.congr fun i hi => store_of_ne fun j hj => ?_
  bv_omega

/-- The word number `i`. -/
theorem Holds.load : ∀ {ws : List (BitVec 32)} {a : BitVec 32} {i : ℕ},
    Holds m a ws → ws[i]? = some w → load m (a + BitVec.ofNat 32 (4 * i)) = w
  | [], _, _, _, hi => nomatch hi
  | v :: ws, a, 0, h, hi => by
    rw [← Option.some.inj hi, ← h.1]
    exact congrArg (X86.load m) (BitVec.add_zero a)
  | v :: ws, a, i + 1, h, hi => by
    rw [← h.2.load hi]
    refine congrArg (X86.load m) ?_
    rw [BitVec.add_assoc, Nat.mul_succ, Nat.add_comm, BitVec.ofNat_add]
    rfl

theorem Holds.drop : ∀ {vs : List (BitVec 32)} {a : BitVec 32}, Holds m a (vs ++ ws) →
    Holds m (a + BitVec.ofNat 32 (4 * vs.length)) ws
  | [], a, h => by
    change Holds m (a + 0#32) ws
    rwa [BitVec.add_zero]
  | v :: vs, a, h => by
    have hrest := h.2.drop
    rwa [BitVec.add_assoc, show (4 : BitVec 32) + BitVec.ofNat 32 (4 * vs.length) =
      BitVec.ofNat 32 (4 * (vs.length + 1)) by
        rw [Nat.mul_succ, Nat.add_comm, BitVec.ofNat_add]; rfl] at hrest

end Memory

/-! ### The processor -/

/-- The general registers. -/
inductive Reg
  | eax | ecx | edx | ebx | esp | ebp | esi | edi
  deriving DecidableEq, Repr

/-- The order in which the general registers are on the stack after `pusha`. -/
def popOrder : List Reg := [.edi, .esi, .ebp, .esp, .ebx, .edx, .ecx, .eax]

theorem popOrder_length : popOrder.length = 8 := rfl

/-- The segment registers. -/
inductive Seg
  | cs | ss | ds | es | fs | gs
  deriving DecidableEq, Repr

structure Cpu where
  reg : Reg → BitVec 32
  seg : Seg → BitVec 16
  eip : BitVec 32
  eflags : BitVec 32
  memory : BitVec 32 → BitVec 8

/-- The stack for handlers of interrupts, from the task state segment. -/
structure Tss where
  ss0 : BitVec 16
  esp0 : BitVec 32

/-- The code segment and the address of a handler, from the descriptor table. -/
structure Gate where
  selector : BitVec 16
  offset : BitVec 32

/-- A selector in a word. -/
def selectorWord (selector : BitVec 16) : BitVec 32 := selector.zeroExtend 32

/-- The selector of a word. -/
def wordSelector (w : BitVec 32) : BitVec 16 := w.extractLsb' 0 16

/-- The privilege level that a selector asks for. -/
def rpl (selector : BitVec 16) : BitVec 16 := selector &&& 3

namespace Cpu

variable (s : Cpu)

def setReg (r : Reg) (v : BitVec 32) : Cpu := { s with reg := Function.update s.reg r v }

def setSeg (g : Seg) (v : BitVec 16) : Cpu := { s with seg := Function.update s.seg g v }

def push (v : BitVec 32) : Cpu :=
  { s.setReg .esp (s.reg .esp - 4) with memory := store s.memory (s.reg .esp - 4) v }

def pushAll (vs : List (BitVec 32)) : Cpu := vs.foldl push s

def pop (r : Reg) : Cpu := (s.setReg .esp (s.reg .esp + 4)).setReg r (load s.memory (s.reg .esp))

/-- `popa` passes over the stack pointer. -/
def popa : Cpu :=
  let low := ((s.pop .edi).pop .esi).pop .ebp
  let high := low.setReg .esp (low.reg .esp + 4)
  (((high.pop .ebx).pop .edx).pop .ecx).pop .eax

/-- The flags after an addition: carry, parity, auxiliary carry, zero, sign, overflow. -/
def addFlags (a b : BitVec 32) : BitVec 32 :=
  let r := a + b
  let flag (p : Bool) (i : ℕ) : BitVec 32 := (BitVec.ofBool p).zeroExtend 32 <<< i
  let ones := (List.range 8).countP fun i => r.getLsbD i
  (s.eflags &&& ~~~0x8D5#32) ||| flag (r < a) 0 ||| flag (ones % 2 = 0) 2 |||
    flag ((a ^^^ b ^^^ r).getLsbD 4) 4 ||| flag (r = 0) 6 ||| flag r.msb 7 |||
    flag ((~~~(a ^^^ b) &&& (a ^^^ r)).msb) 11

/-- What the processor pushes when it delivers an interrupt, the last word first. The stack of a
program with fewer privileges is replaced, and saved in front of the rest. The flags are those of
the pushed image: for a fault the processor has set `RF` in them, and `iret` takes them as they
are. -/
def frame : List (BitVec 32) :=
  [s.eip, selectorWord (s.seg .cs), s.eflags] ++
    if rpl (s.seg .cs) = 0 then [] else [s.reg .esp, selectorWord (s.seg .ss)]

/-- The processor delivers an interrupt, some of them with an error code, to a handler with all
privileges. Interrupts are disabled. -/
def interrupt (tss : Tss) (gate : Gate) (code : Option (BitVec 32)) : Cpu :=
  let inner := if rpl (s.seg .cs) = 0 then s else (s.setReg .esp tss.esp0).setSeg .ss tss.ss0
  let t := inner.pushAll (s.frame.reverse ++ code.toList)
  { t.setSeg .cs gate.selector with eip := gate.offset, eflags := t.eflags &&& ~~~0x34300#32 }

def iret : Cpu :=
  let esp := s.reg .esp
  let cs := wordSelector (load s.memory (esp + 4))
  let t := { (s.setReg .esp (esp + 12)).setSeg .cs cs with
    eip := load s.memory esp, eflags := load s.memory (esp + 8) }
  if rpl cs = rpl (s.seg .cs) then t
  else (t.setReg .esp (load s.memory (esp + 12))).setSeg .ss
    (wordSelector (load s.memory (esp + 16)))

end Cpu

/-! ### Instructions -/

/-- The instructions, with names `σ` for what is called. -/
inductive Instr (σ : Type)
  | cli
  /-- `push byte`. -/
  | pushByte (n : BitVec 8)
  | push (r : Reg)
  | pop (r : Reg)
  | pusha
  | popa
  /-- `mov` to the lower half of a register, from a segment register. -/
  | movFromSeg (r : Reg) (g : Seg)
  /-- `mov` of a number to the lower half of a register. -/
  | movLow (r : Reg) (n : BitVec 16)
  /-- `mov` to a segment register, from the lower half of a register. -/
  | movToSeg (g : Seg) (r : Reg)
  | add (r : Reg) (n : BitVec 32)
  | call (f : σ)
  | iret
  deriving DecidableEq, Repr

/-- What is linked with the instructions: the address behind each call, and what is called, from its
entry until it has returned. -/
structure Linked (σ : Type) where
  behind : σ → BitVec 32
  body : σ → Cpu → Cpu

/-- What can be observed of a run: a function is entered, and an `iret` is reached. -/
inductive Event (σ : Type)
  | entered (f : σ) (s : Cpu)
  | returning (s : Cpu)

section Run

variable {σ : Type}

def Instr.exec (link : Linked σ) (s : Cpu) : Instr σ → Cpu
  | .cli => { s with eflags := s.eflags &&& ~~~0x200#32 }
  | .pushByte n => s.push (n.signExtend 32)
  | .push r => s.push (s.reg r)
  | .pop r => s.pop r
  | .pusha => s.pushAll ([.eax, .ecx, .edx, .ebx, .esp, .ebp, .esi, .edi].map s.reg)
  | .popa => s.popa
  | .movFromSeg r g => s.setReg r ((s.reg r).extractLsb' 16 16 ++ s.seg g)
  | .movLow r n => s.setReg r ((s.reg r).extractLsb' 16 16 ++ n)
  | .movToSeg g r => s.setSeg g (wordSelector (s.reg r))
  | .add r n => { s.setReg r (s.reg r + n) with eflags := s.addFlags (s.reg r) n }
  | .call f => link.body f (s.push (link.behind f))
  | .iret => s.iret

def Instr.events (link : Linked σ) (s : Cpu) : Instr σ → List (Event σ)
  | .call f => [.entered f (s.push (link.behind f))]
  | .iret => [.returning s]
  | _ => []

/-- The instructions one after the other. -/
def run (link : Linked σ) : List (Instr σ) → Cpu → List (Event σ) × Cpu
  | [], s => ([], s)
  | i :: is, s =>
    let r := run link is (i.exec link s)
    (i.events link s ++ r.1, r.2)

theorem run_append (link : Linked σ) : ∀ (is js : List (Instr σ)) (s : Cpu),
    run link (is ++ js) s =
      ((run link is s).1 ++ (run link js (run link is s).2).1, (run link js (run link is s).2).2)
  | [], _, _ => rfl
  | i :: is, js, s => by
    rw [List.cons_append, run, run_append link is js]
    exact Prod.ext (List.append_assoc _ _ _).symm rfl

end Run

/-! ### The stack -/

/-- The stack: words that end at the base. -/
structure Cpu.Stack (s : Cpu) (base : BitVec 32) (ws : List (BitVec 32)) : Prop where
  top : s.reg .esp = base - BitVec.ofNat 32 (4 * ws.length)
  words : Holds s.memory (s.reg .esp) ws

section Stack

variable {s t : Cpu} {base v w : BitVec 32} {ws vs : List (BitVec 32)} {r : Reg}

@[simp] theorem Cpu.setReg_reg (s : Cpu) (r : Reg) (v : BitVec 32) (r' : Reg) :
    (s.setReg r v).reg r' = if r' = r then v else s.reg r' := Function.update_apply _ _ _ _

@[simp] theorem Cpu.setSeg_seg (s : Cpu) (g : Seg) (v : BitVec 16) (g' : Seg) :
    (s.setSeg g v).seg g' = if g' = g then v else s.seg g' := Function.update_apply _ _ _ _

@[simp] theorem Cpu.setReg_seg (s : Cpu) (r : Reg) (v : BitVec 32) :
    (s.setReg r v).seg = s.seg := rfl

@[simp] theorem Cpu.setReg_memory (s : Cpu) (r : Reg) (v : BitVec 32) :
    (s.setReg r v).memory = s.memory :=
  rfl

@[simp] theorem Cpu.setSeg_reg (s : Cpu) (g : Seg) (v : BitVec 16) :
    (s.setSeg g v).reg = s.reg := rfl

@[simp] theorem Cpu.setSeg_memory (s : Cpu) (g : Seg) (v : BitVec 16) :
    (s.setSeg g v).memory = s.memory :=
  rfl

/-- A stack is found again in a state with the same stack pointer and memory. -/
theorem Cpu.Stack.congr (h : s.Stack base ws) (hreg : t.reg .esp = s.reg .esp)
    (hmem : t.memory = s.memory) : t.Stack base ws :=
  ⟨hreg.trans h.top, by rw [hreg, hmem]; exact h.words⟩

theorem Cpu.Stack.push (h : s.Stack base ws) (hlen : 4 * (ws.length + 1) ≤ 4294967296)
    (v : BitVec 32) : (s.push v).Stack base (v :: ws) := by
  refine ⟨?_, h.words.store hlen v⟩
  change s.reg .esp - 4 = _
  rw [h.top, List.length_cons]
  bv_omega

/-- **`push`** of several words. -/
theorem Cpu.Stack.pushAll : ∀ {vs ws : List (BitVec 32)} {s : Cpu}, s.Stack base ws →
    4 * (ws.length + vs.length) ≤ 4294967296 → (s.pushAll vs).Stack base (vs.reverse ++ ws)
  | [], _, _, h, _ => h
  | v :: vs, ws, s, h, hlen => by
    rw [List.length_cons] at hlen
    have hrest : ((s.push v).pushAll vs).Stack base (vs.reverse ++ v :: ws) :=
      Cpu.Stack.pushAll (h.push (by omega) v) (by rw [List.length_cons]; omega)
    rw [List.reverse_cons, List.append_assoc]
    exact hrest

/-- **`pop`.** -/
theorem Cpu.Stack.pop (h : s.Stack base (w :: ws)) (hr : r ≠ .esp) :
    (s.pop r).Stack base ws ∧ (s.pop r).reg r = w := by
  have hesp : (s.pop r).reg .esp = s.reg .esp + 4 := by
    unfold Cpu.pop
    simp [hr.symm]
  refine ⟨⟨?_, ?_⟩, ?_⟩
  · rw [hesp, h.top, List.length_cons]
    bv_omega
  · rw [hesp]
    exact h.words.2
  · rw [← h.words.1]
    exact Function.update_self _ _ _

/-- Words are passed over. -/
theorem Cpu.Stack.drop (h : s.Stack base (vs ++ ws))
    (hreg : t.reg .esp = s.reg .esp + BitVec.ofNat 32 (4 * vs.length))
    (hmem : t.memory = s.memory) :
    t.Stack base ws := by
  refine ⟨?_, ?_⟩
  · rw [hreg, h.top, List.length_append]
    bv_omega
  · rw [hreg, hmem]
    exact h.words.drop

/-- `add esp, n` passes over words. -/
theorem Cpu.Stack.add {σ : Type} {link : Linked σ} {n : BitVec 32} (h : s.Stack base (vs ++ ws))
    (hn : n = BitVec.ofNat 32 (4 * vs.length)) :
      (Instr.exec link s (.add .esp n)).Stack base ws := by
  refine h.drop ?_ rfl
  change (s.setReg .esp (s.reg .esp + n)).reg .esp = _
  rw [Cpu.setReg_reg, if_pos rfl, hn]

theorem Cpu.pushAll_reg (hr : r ≠ .esp) : ∀ {vs : List (BitVec 32)} {s : Cpu},
    (s.pushAll vs).reg r = s.reg r
  | [], _ => rfl
  | v :: vs, s => (@Cpu.pushAll_reg hr vs (s.push v)).trans (Function.update_of_ne hr _ _)

theorem Cpu.pushAll_seg : ∀ {vs : List (BitVec 32)} {s : Cpu}, (s.pushAll vs).seg = s.seg
  | [], _ => rfl
  | v :: vs, s => @Cpu.pushAll_seg vs (s.push v)

theorem Cpu.pop_reg {r' : Reg} (h : r' ≠ r) (hesp : r' ≠ .esp) : (s.pop r).reg r' = s.reg r' :=
  (Function.update_of_ne h _ _).trans (Function.update_of_ne hesp _ _)

/-- **`popa`** takes back what `pusha` has pushed, but for the stack pointer. -/
theorem Cpu.Stack.popa {f : Reg → BitVec 32}
    (h : s.Stack base (popOrder.map f ++ ws)) :
    s.popa.Stack base ws ∧ s.popa.seg = s.seg ∧ ∀ r, r ≠ .esp → s.popa.reg r = f r := by
  change s.Stack base ([.edi, .esi, .ebp, .esp, .ebx, .edx, .ecx, .eax].map f ++ ws) at h
  obtain ⟨h₁, hedi⟩ := h.pop (r := .edi) (by decide)
  obtain ⟨h₂, hesi⟩ := h₁.pop (r := .esi) (by decide)
  obtain ⟨h₃, hebp⟩ := h₂.pop (r := .ebp) (by decide)
  set low := ((s.pop .edi).pop .esi).pop .ebp with hlow
  have h₃' : low.Stack base ([f .esp] ++ ([.ebx, .edx, .ecx, .eax].map f ++ ws)) := h₃
  have h₄ : (low.setReg .esp (low.reg .esp + 4)).Stack base
      ([.ebx, .edx, .ecx, .eax].map f ++ ws) :=
    h₃'.drop ((Cpu.setReg_reg _ _ _ _).trans (if_pos rfl)) rfl
  obtain ⟨h₅, hebx⟩ := h₄.pop (r := .ebx) (by decide)
  obtain ⟨h₆, hedx⟩ := h₅.pop (r := .edx) (by decide)
  obtain ⟨h₇, hecx⟩ := h₆.pop (r := .ecx) (by decide)
  obtain ⟨h₈, heax⟩ := h₇.pop (r := .eax) (by decide)
  refine ⟨h₈, rfl, fun r hr => ?_⟩
  -- a register keeps its value behind the `pop` of it
  have hkeep : ∀ {t : Cpu} {r r' : Reg}, r ≠ r' → r ≠ .esp →
      (t.pop r').reg r = t.reg r := Cpu.pop_reg
  have hhigh : ∀ {t : Cpu} {v : BitVec 32} {r : Reg}, r ≠ .esp →
      (t.setReg .esp v).reg r = t.reg r :=
    fun hr => Function.update_of_ne hr _ _
  unfold Cpu.popa
  dsimp only
  rw [← hlow]
  cases r with
  | esp => exact absurd rfl hr
  | eax => exact heax
  | ecx => rw [hkeep (by decide) hr, hecx]
  | edx => rw [hkeep (by decide) hr, hkeep (by decide) hr, hedx]
  | ebx => rw [hkeep (by decide) hr, hkeep (by decide) hr, hkeep (by decide) hr, hebx]
  | ebp =>
    rw [hkeep (by decide) hr, hkeep (by decide) hr, hkeep (by decide) hr,
      hkeep (by decide) hr, hhigh hr, hebp]
  | esi =>
    rw [hkeep (by decide) hr, hkeep (by decide) hr, hkeep (by decide) hr,
      hkeep (by decide) hr, hhigh hr, hlow, hkeep (by decide) hr, hesi]
  | edi =>
    rw [hkeep (by decide) hr, hkeep (by decide) hr, hkeep (by decide) hr,
      hkeep (by decide) hr, hhigh hr, hlow, hkeep (by decide) hr, hkeep (by decide) hr, hedi]

end Stack

/-! ### Interrupts -/

section Interrupt

variable {s t : Cpu} {tss : Tss} {gate : Gate} {code : Option (BitVec 32)}

/-- Where the stack of the handler ends. -/
def Cpu.base (s : Cpu) (tss : Tss) : BitVec 32 :=
  if rpl (s.seg .cs) = 0 then s.reg .esp else tss.esp0

/-- The program `s` goes on in the state `t`. -/
structure Cpu.Resumes (s t : Cpu) : Prop where
  eip : t.eip = s.eip
  eflags : t.eflags = s.eflags
  esp : t.reg .esp = s.reg .esp
  cs : t.seg .cs = s.seg .cs
  ss : t.seg .ss = s.seg .ss

theorem Cpu.frame_length_le (s : Cpu) : s.frame.length ≤ 5 := by
  unfold Cpu.frame
  split_ifs
  · exact (by decide : 3 ≤ 5)
  · exact le_refl 5

theorem wordSelector_selectorWord (selector : BitVec 16) :
    wordSelector (selectorWord selector) = selector := by
  unfold wordSelector selectorWord
  apply BitVec.eq_of_toNat_eq
  rw [BitVec.extractLsb'_toNat, BitVec.toNat_setWidth]
  have hlt := selector.isLt
  omega

/-- **An interrupt is delivered.** The stack of the handler holds the error code and the frame. -/
theorem Cpu.interrupt_spec (s : Cpu) (tss : Tss) (gate : Gate) (code : Option (BitVec 32)) :
    (s.interrupt tss gate code).Stack (s.base tss) (code.toList ++ s.frame) ∧
      (∀ r, r ≠ .esp → (s.interrupt tss gate code).reg r = s.reg r) ∧
      (∀ g, g ≠ .cs → g ≠ .ss → (s.interrupt tss gate code).seg g = s.seg g) ∧
      (s.interrupt tss gate code).seg .cs = gate.selector ∧
      (rpl (s.seg .cs) = 0 → (s.interrupt tss gate code).seg .ss = s.seg .ss) := by
  set inner := if rpl (s.seg .cs) = 0 then s
      else (s.setReg .esp tss.esp0).setSeg .ss tss.ss0 with hinner
  -- the stack on which the frame is pushed
  have hstack : inner.Stack (s.base tss) [] := by
    refine ⟨?_, trivial⟩
    rw [hinner]
    unfold Cpu.base
    split_ifs
    · exact (BitVec.sub_zero _).symm
    · exact (BitVec.sub_zero _).symm
  have hframe := s.frame_length_le
  have hcode : code.toList.length ≤ 1 := Option.length_toList_le
  have hlen : 4 * (([] : List (BitVec 32)).length + (s.frame.reverse ++ code.toList).length) ≤
      4294967296 := by
    rw [List.length_append, List.length_reverse, List.length_nil]
    omega
  have hpush := hstack.pushAll hlen
  have hreverse : (s.frame.reverse ++ code.toList).reverse ++ [] = code.toList ++ s.frame := by
    rw [List.reverse_append, List.reverse_reverse, List.append_nil]
    cases code <;> rfl
  rw [hreverse] at hpush
  refine ⟨hpush.congr rfl rfl, fun r hr => ?_, fun g hcs hss => ?_, ?_, fun hsame => ?_⟩
  · change (inner.pushAll _).reg r = _
    rw [Cpu.pushAll_reg hr, hinner]
    split_ifs
    · rfl
    · exact Function.update_of_ne hr _ _
  · change ((inner.pushAll _).setSeg .cs gate.selector).seg g = _
    rw [Cpu.setSeg_seg, if_neg hcs, Cpu.pushAll_seg, hinner]
    split_ifs
    · rfl
    · exact Function.update_of_ne hss _ _
  · unfold Cpu.interrupt
    simp
  · change ((inner.pushAll _).setSeg .cs gate.selector).seg .ss = _
    rw [Cpu.setSeg_seg, if_neg (by decide), Cpu.pushAll_seg, hinner, if_pos hsame]

/-- **`iret`** with the frame on the stack resumes the program. -/
theorem Cpu.Stack.iret (h : t.Stack (s.base tss) s.frame) (hcs : rpl (t.seg .cs) = 0)
    (hss : rpl (s.seg .cs) = 0 → t.seg .ss = s.seg .ss) :
    s.Resumes t.iret ∧ (∀ r, r ≠ .esp → t.iret.reg r = t.reg r) ∧
      ∀ g, g ≠ .cs → g ≠ .ss → t.iret.seg g = t.seg g := by
  -- the words of the frame, from the top
  have hword : ∀ {i : ℕ} {w : BitVec 32}, s.frame[i]? = some w →
      load t.memory (t.reg .esp + BitVec.ofNat 32 (4 * i)) = w := fun hi => h.words.load hi
  have heip : load t.memory (t.reg .esp) = s.eip := by
    have h0 := @hword 0 _ rfl
    rwa [Nat.mul_zero, BitVec.add_zero] at h0
  have hsel : wordSelector (load t.memory (t.reg .esp + 4)) = s.seg .cs :=
    (congrArg wordSelector (@hword 1 _ rfl)).trans (wordSelector_selectorWord _)
  have hflags : load t.memory (t.reg .esp + 8) = s.eflags := @hword 2 _ rfl
  by_cases hsame : rpl (s.seg .cs) = 0
  · -- without a change of privilege the stack is cut behind the three words
    have htop := h.top
    unfold Cpu.base Cpu.frame at htop
    rw [if_pos hsame, if_pos hsame] at htop
    have hiret : t.iret = { (t.setReg .esp (t.reg .esp + 12)).setSeg .cs (s.seg .cs) with
        eip := s.eip, eflags := s.eflags } := by
      unfold Cpu.iret
      dsimp only
      rw [hsel, heip, hflags, hsame, hcs, if_pos rfl]
    rw [hiret]
    refine ⟨⟨rfl, rfl, ?_, by simp, ?_⟩, fun r hr => by simp [hr], fun g hg _ => by simp [hg]⟩
    · simp only [Cpu.setSeg_reg, Cpu.setReg_reg, if_true]
      rw [htop]
      exact BitVec.sub_add_cancel _ _
    · simp [hss hsame]
  · -- otherwise the stack of the outer program is in the frame as well
    have hframe : s.frame = [s.eip, selectorWord (s.seg .cs), s.eflags, s.reg .esp,
        selectorWord (s.seg .ss)] := by
      unfold Cpu.frame
      rw [if_neg hsame]
      rfl
    have hesp : load t.memory (t.reg .esp + 12) = s.reg .esp := @hword 3 _ (by rw [hframe]; rfl)
    have hss' : wordSelector (load t.memory (t.reg .esp + 16)) = s.seg .ss :=
      (congrArg wordSelector (@hword 4 _ (by rw [hframe]; rfl))).trans (wordSelector_selectorWord _)
    have hiret : t.iret =
        Cpu.setSeg (Cpu.setReg { (t.setReg .esp (t.reg .esp + 12)).setSeg .cs (s.seg .cs) with
        eip := s.eip, eflags := s.eflags } .esp (s.reg .esp)) .ss (s.seg .ss) := by
      unfold Cpu.iret
      dsimp only
      rw [hsel, heip, hflags, hcs, if_neg hsame, hesp, hss']
    rw [hiret]
    exact ⟨⟨rfl, rfl, by simp, by simp, by simp⟩, fun r hr => by simp [hr],
      fun g hg hg' => by simp [hg, hg']⟩

end Interrupt

end Verif.X86
