import VibeKernel.Lib.X86

/-!
# Interrupts

`src/cpu/interrupt.asm`. The processor pushes the frame of the interrupted program and, for some of
the exceptions, an error code. A stub completes this to a `registers_t`: its macro pushes the number
of the interrupt, and a zero where the processor has no error code, and the common part pushes the
general registers and the data segment. A C function gets a pointer to all this, and afterwards the
common part takes it off the stack again.

The stubs save one of the four data segments, and reload all four from it. And since only the lower
half of `eax` is written before it is pushed as the data segment, the upper half of the interrupted
`eax` is in the upper half of `ds` of `registers_t`. `interrupt_transparent_iff` says that nothing
else is different for the handler, nor for the program when it goes on.
-/

namespace VibeKernel

open Verif.X86

/-! ### The stubs -/

/-- The C functions that the stubs call. -/
inductive CHandler
  | isrHandler
  | irqHandler
  deriving DecidableEq, Repr

/-- What is done before the call. -/
def saveRegisters : List (Instr CHandler) :=
  [.pusha, .movFromSeg .eax .ds, .push .eax, .movLow .eax 0x10, .movToSeg .ds .eax,
    .movToSeg .es .eax, .movToSeg .fs .eax, .movToSeg .gs .eax, .push .esp]

/-- What is done after the call. -/
def restoreRegisters : List (Instr CHandler) :=
  [.add .esp 4, .pop .eax, .movToSeg .ds .eax, .movToSeg .es .eax, .movToSeg .fs .eax,
    .movToSeg .gs .eax, .popa, .add .esp 8]

/-- `isr_common_stub`. -/
def isrCommonStub : List (Instr CHandler) :=
  saveRegisters ++ [.call .isrHandler] ++ restoreRegisters ++ [.iret]

/-- `irq_common_stub`. -/
def irqCommonStub : List (Instr CHandler) :=
  saveRegisters ++ [.call .irqHandler] ++ restoreRegisters ++ [.iret]

/-- `ISR_NOERRCODE`, with the code that it jumps to. -/
def isrNoErrcode (n : BitVec 8) : List (Instr CHandler) :=
  [.cli, .pushByte 0, .pushByte n] ++ isrCommonStub

/-- `ISR_ERRCODE`. -/
def isrErrcode (n : BitVec 8) : List (Instr CHandler) := [.cli, .pushByte n] ++ isrCommonStub

/-- `IRQ`. -/
def irq (n : BitVec 8) : List (Instr CHandler) := [.cli, .pushByte 0, .pushByte n] ++ irqCommonStub

/-- The stubs of the gates, in their order. -/
def stubs : List (List (Instr CHandler)) :=
  [isrNoErrcode 0, isrNoErrcode 1, isrNoErrcode 2, isrNoErrcode 3, isrNoErrcode 4, isrNoErrcode 5,
    isrNoErrcode 6, isrNoErrcode 7, isrErrcode 8, isrNoErrcode 9, isrErrcode 10, isrErrcode 11,
    isrErrcode 12, isrErrcode 13, isrErrcode 14, isrNoErrcode 15, isrNoErrcode 16, isrErrcode 17,
    isrNoErrcode 18, isrNoErrcode 19, isrNoErrcode 20, isrNoErrcode 21, isrNoErrcode 22,
    isrNoErrcode 23, isrNoErrcode 24, isrNoErrcode 25, isrNoErrcode 26, isrNoErrcode 27,
    isrNoErrcode 28, isrNoErrcode 29, isrNoErrcode 30, isrNoErrcode 31, irq 32, irq 33, irq 34,
    irq 35, irq 36, irq 37, irq 38, irq 39, irq 40, irq 41, irq 42, irq 43, irq 44, irq 45,
    irq 46, irq 47]

/-- `registers_t`. -/
structure RegistersT where
  ds : BitVec 32
  edi : BitVec 32
  esi : BitVec 32
  ebp : BitVec 32
  esp : BitVec 32
  ebx : BitVec 32
  edx : BitVec 32
  ecx : BitVec 32
  eax : BitVec 32
  intNo : BitVec 32
  errCode : BitVec 32
  eip : BitVec 32
  cs : BitVec 32
  eflags : BitVec 32
  useresp : BitVec 32
  ss : BitVec 32

/-- The layout of `registers_t`. -/
def RegistersT.read (m : BitVec 32 → BitVec 8) (p : BitVec 32) : RegistersT where
  ds := load m p
  edi := load m (p + 4)
  esi := load m (p + 8)
  ebp := load m (p + 12)
  esp := load m (p + 16)
  ebx := load m (p + 20)
  edx := load m (p + 24)
  ecx := load m (p + 28)
  eax := load m (p + 32)
  intNo := load m (p + 36)
  errCode := load m (p + 40)
  eip := load m (p + 44)
  cs := load m (p + 48)
  eflags := load m (p + 52)
  useresp := load m (p + 56)
  ss := load m (p + 60)

/-- `KERNEL_CS`. -/
def kernelCs : BitVec 16 := 0x08

theorem rpl_kernelCs : rpl kernelCs = 0 := by decide

/-- `sizeof(registers_t)`. -/
def sizeofRegistersT : ℕ := 64

/-! ### What the stubs are for -/

/-- What the stubs rely on of a C function: it returns with `esp` behind the return address and in
the same code and stack segment, and does not change the `registers_t` that it gets a pointer to, if
this begins behind the pointer on the stack. -/
structure Respects (f : Cpu → Cpu) : Prop where
  esp : ∀ s, (f s).reg .esp = s.reg .esp + 4
  cs : ∀ s, (f s).seg .cs = s.seg .cs
  ss : ∀ s, (f s).seg .ss = s.seg .ss
  registers : ∀ s, load s.memory (s.reg .esp + 4) = s.reg .esp + 8 → ∀ i < sizeofRegistersT,
    (f s).memory (s.reg .esp + 8 + BitVec.ofNat 32 i) =
      s.memory (s.reg .esp + 8 + BitVec.ofNat 32 i)

/-- The C functions of a kernel. -/
structure KernelCode extends Linked CHandler where
  respects : ∀ f, Respects (body f)

/-- The exceptions for which the processor pushes an error code. -/
def HasErrorCode (vector : ℕ) : Prop := vector = 8 ∨ (10 ≤ vector ∧ vector ≤ 14) ∨ vector = 17

instance : DecidablePred HasErrorCode := fun _ => inferInstanceAs (Decidable (_ ∨ _))

/-- What the processor pushes for an exception with this error code. -/
def errorCode (vector : ℕ) (code : BitVec 32) : Option (BitVec 32) :=
  if HasErrorCode vector then some code else none

/-- The C function for an interrupt. -/
def handlerOf (vector : ℕ) : CHandler := if vector < 32 then .isrHandler else .irqHandler

/-- A `registers_t` shows the program `s`, and which interrupt it is. How `ds` is to be read is left
open. -/
structure Shown (shows : BitVec 32 → BitVec 16 → Prop) (s : Cpu) (vector : ℕ)
    (code : Option (BitVec 32)) (r : RegistersT) : Prop where
  edi : r.edi = s.reg .edi
  esi : r.esi = s.reg .esi
  ebp : r.ebp = s.reg .ebp
  ebx : r.ebx = s.reg .ebx
  edx : r.edx = s.reg .edx
  ecx : r.ecx = s.reg .ecx
  eax : r.eax = s.reg .eax
  ds : shows r.ds (s.seg .ds)
  eip : r.eip = s.eip
  cs : r.cs = selectorWord (s.seg .cs)
  eflags : r.eflags = s.eflags
  intNo : r.intNo = BitVec.ofNat 32 vector
  errCode : r.errCode = code.getD 0

/-- The registers are those of the program `s`, but for what `iret` changes, when the stub is at its
`iret` in the state `t`, and all of them in the state `u` behind it. -/
structure Restored (s t u : Cpu) : Prop where
  reg : ∀ r, r ≠ .esp → t.reg r = s.reg r
  seg : ∀ g, g ≠ .cs → g ≠ .ss → t.seg g = s.seg g
  reg_after : ∀ r, u.reg r = s.reg r
  seg_after : ∀ g, u.seg g = s.seg g
  eip : u.eip = s.eip
  eflags : u.eflags = s.eflags

/-- An interrupt of the program `s` is handled: the stub calls its C function once, which is shown
the program, and reaches its `iret` once, with the registers of the program. -/
def Transparent (shows : BitVec 32 → BitVec 16 → Prop) (kernel : KernelCode)
    (tss : Tss) (gate : Gate) (s : Cpu) (vector : ℕ) (code : Option (BitVec 32)) : Prop :=
  ∃ stub e t u, stubs[vector]? = some stub ∧
    run kernel.toLinked stub (s.interrupt tss gate code) =
      ([.entered (handlerOf vector) e, .returning t], u) ∧
    Shown shows s vector code (RegistersT.read e.memory (load e.memory (e.reg .esp + 4))) ∧
    Restored s t u

/-- The word that a stub pushes as the data segment. -/
def dsWord (s : Cpu) : BitVec 32 := (s.reg .eax).extractLsb' 16 16 ++ s.seg .ds

section Stub

variable {s t : Cpu} {base x w : BitVec 32} {ws : List (BitVec 32)}

theorem dsWord_toNat (s : Cpu) :
    (dsWord s).toNat = 65536 * ((s.reg .eax).toNat / 65536) + (s.seg .ds).toNat := by
  have hlow := (s.seg .ds).isLt
  have hhigh := (s.reg .eax).isLt
  unfold dsWord
  rw [BitVec.toNat_append, Nat.shiftLeft_eq, Nat.mul_comm, ← Nat.two_pow_add_eq_or_of_lt hlow,
    BitVec.extractLsb'_toNat, Nat.shiftRight_eq_div_pow]
  omega

theorem wordSelector_dsWord (s : Cpu) : wordSelector (dsWord s) = s.seg .ds := by
  have hlow := (s.seg .ds).isLt
  apply BitVec.eq_of_toNat_eq
  unfold wordSelector
  rw [BitVec.extractLsb'_toNat, dsWord_toNat]
  omega

/-- The upper half of `eax` is in the word. -/
theorem dsWord_eq (s : Cpu) : dsWord s = selectorWord (s.seg .ds) ↔ (s.reg .eax).toNat < 65536 := by
  have hlow := (s.seg .ds).isLt
  have hselector : (selectorWord (s.seg .ds)).toNat = (s.seg .ds).toNat := by
    unfold selectorWord
    rw [BitVec.toNat_setWidth]
    omega
  rw [BitVec.toNat_eq, dsWord_toNat, hselector]
  omega

/-- The four data segments are loaded. -/
def setDataSegments (t : Cpu) (v : BitVec 16) : Cpu :=
  (((t.setSeg .ds v).setSeg .es v).setSeg .fs v).setSeg .gs v

theorem setDataSegments_seg {g : Seg} (hcs : g ≠ .cs) (hss : g ≠ .ss) (t : Cpu) (v : BitVec 16) :
    (setDataSegments t v).seg g = v := by
  unfold setDataSegments
  cases g <;> simp_all

theorem setDataSegments_other {g : Seg} (hg : g = .cs ∨ g = .ss) (t : Cpu) (v : BitVec 16) :
    (setDataSegments t v).seg g = t.seg g := by
  unfold setDataSegments
  rcases hg with rfl | rfl <;> simp

/-- **Saving the registers.** -/
theorem saveRegisters_spec (link : Linked CHandler) (h : t.Stack base ws) (hlen : ws.length ≤ 7) :
    ∃ t', run link saveRegisters t = ([], t') ∧
      t'.Stack base ((t'.reg .esp + 4) :: dsWord t ::
        (popOrder.map t.reg ++ ws)) ∧
      t'.seg .cs = t.seg .cs ∧ t'.seg .ss = t.seg .ss := by
  set t₁ := t.pushAll ([.eax, .ecx, .edx, .ebx, .esp, .ebp, .esi, .edi].map t.reg) with ht₁
  set t₂ := t₁.setReg .eax ((t₁.reg .eax).extractLsb' 16 16 ++ t₁.seg .ds) with ht₂
  have hword : t₂.reg .eax = dsWord t := by
    rw [ht₂, Cpu.setReg_reg, if_pos rfl, ht₁, Cpu.pushAll_reg (by decide), Cpu.pushAll_seg]
    rfl
  have h₁ : t₁.Stack base (popOrder.map t.reg ++ ws) := by
    have hlen₁ : 4 * (ws.length +
        ([.eax, .ecx, .edx, .ebx, .esp, .ebp, .esi, .edi].map t.reg).length) ≤
        4294967296 := by
      rw [List.length_map]
      change 4 * (ws.length + 8) ≤ _
      omega
    exact h.pushAll hlen₁
  have h₂ : t₂.Stack base (popOrder.map t.reg ++ ws) :=
    h₁.congr (by rw [ht₂, Cpu.setReg_reg, if_neg (by decide)]) rfl
  have hlen₂ : 4 * ((popOrder.map t.reg ++ ws).length + 1) ≤
      4294967296 := by
    rw [List.length_append, List.length_map, popOrder_length]
    omega
  have h₃ := h₂.push hlen₂ (t₂.reg .eax)
  rw [hword] at h₃
  -- loading the segments changes neither the stack pointer nor the memory
  set t₃ := (t₂.push (t₂.reg .eax)).setReg .eax
    (((t₂.push (t₂.reg .eax)).reg .eax).extractLsb' 16 16 ++ 0x10#16) with ht₃
  set t₄ := setDataSegments t₃ (wordSelector (t₃.reg .eax)) with ht₄
  have h₄ : t₄.Stack base (dsWord t ::
      (popOrder.map t.reg ++ ws)) := by
    refine h₃.congr ?_ ?_
    · rw [ht₄]
      change t₃.reg .esp = _
      rw [ht₃, Cpu.setReg_reg, if_neg (by decide), hword]
    · rw [ht₄]
      change t₃.memory = _
      rw [ht₃, hword]
      rfl
  have hother : ∀ {g : Seg}, g = .cs ∨ g = .ss → (t₄.push (t₄.reg .esp)).seg g = t.seg g := by
    intro g hg
    change t₄.seg g = _
    rw [ht₄, setDataSegments_other hg, ht₃]
    change t₁.seg g = _
    rw [ht₁, Cpu.pushAll_seg]
  have hrun : run link saveRegisters t = ([], t₄.push (t₄.reg .esp)) := by
    simp only [saveRegisters, run, Instr.events, List.nil_append]
    rfl
  refine ⟨_, hrun, ?_, hother (Or.inl rfl), hother (Or.inr rfl)⟩
  have hesp : (t₄.push (t₄.reg .esp)).reg .esp + 4 = t₄.reg .esp := by
    change t₄.reg .esp - 4 + 4 = _
    exact BitVec.sub_add_cancel _ _
  rw [hesp]
  refine h₄.push ?_ _
  rw [List.length_cons, List.length_append, List.length_map, popOrder_length]
  omega

/-- **Restoring the registers.** -/
theorem restoreRegisters_spec (link : Linked CHandler) {f : Reg → BitVec 32} {n c : BitVec 32}
    (h : t.Stack base (x :: w :: (popOrder.map f ++ n :: c :: ws))) :
    ∃ t', run link restoreRegisters t = ([], t') ∧ t'.Stack base ws ∧
      (∀ r, r ≠ .esp → t'.reg r = f r) ∧ (∀ g, g ≠ .cs → g ≠ .ss → t'.seg g = wordSelector w) ∧
      t'.seg .cs = t.seg .cs ∧ t'.seg .ss = t.seg .ss := by
  set t₁ := Instr.exec link t (.add .esp 4) with ht₁
  have h₁ : t₁.Stack base (w ::
      (popOrder.map f ++ n :: c :: ws)) := by
    have h' : t.Stack base ([x] ++ (w ::
      (popOrder.map f ++ n :: c :: ws))) := h
    exact h'.add rfl
  obtain ⟨h₂, heax⟩ := h₁.pop (r := .eax) (by decide)
  set t₂ := setDataSegments (t₁.pop .eax) (wordSelector ((t₁.pop .eax).reg .eax)) with ht₂
  have h₂' : t₂.Stack base (popOrder.map f ++ n :: c :: ws) :=
    ⟨h₂.top, h₂.words⟩
  obtain ⟨h₃, hseg, hreg⟩ := h₂'.popa
  have h₄ : (Instr.exec link t₂.popa (.add .esp 8)).Stack base ws := by
    have h' : t₂.popa.Stack base ([n, c] ++ ws) := h₃
    exact h'.add rfl
  have hrun : run link restoreRegisters t = ([], Instr.exec link t₂.popa (.add .esp 8)) := by
    simp only [restoreRegisters, run, Instr.events, List.nil_append]
    rfl
  refine ⟨_, hrun, h₄, fun r hr => ?_, fun g hcs hss => ?_, ?_, ?_⟩
  · exact (Function.update_of_ne hr _ _).trans (hreg r hr)
  · change t₂.popa.seg g = _
    rw [hseg, ht₂, setDataSegments_seg hcs hss, heax]
  · change t₂.popa.seg .cs = _
    rw [hseg, ht₂, setDataSegments_other (Or.inl rfl)]
    rfl
  · change t₂.popa.seg .ss = _
    rw [hseg, ht₂, setDataSegments_other (Or.inr rfl)]
    rfl

/-- **The common part of a stub**, with the number of the interrupt and the error code on the
stack. -/
theorem commonStub_spec (kernel : KernelCode) (handler : CHandler) {tss : Tss} {n c : BitVec 32}
    (ht : t.Stack (s.base tss) (n :: c :: s.frame)) (hreg : ∀ r, r ≠ .esp → t.reg r = s.reg r)
    (hds : t.seg .ds = s.seg .ds) (hcs : rpl (t.seg .cs) = 0)
    (hss : rpl (s.seg .cs) = 0 → t.seg .ss = s.seg .ss) :
    ∃ e v u, run kernel.toLinked (saveRegisters ++ [.call handler] ++
      restoreRegisters ++ [.iret]) t = ([.entered handler e, .returning v], u) ∧
      load e.memory (e.reg .esp + 4) = e.reg .esp + 8 ∧
      Holds e.memory (e.reg .esp + 8) (dsWord s ::
        (popOrder.map t.reg ++ n :: c :: s.frame)) ∧
      (∀ r, r ≠ .esp → v.reg r = s.reg r) ∧ (∀ g, g ≠ .cs → g ≠ .ss → v.seg g = s.seg .ds) ∧
      s.Resumes u ∧ (∀ r, r ≠ .esp → u.reg r = v.reg r) ∧
      ∀ g, g ≠ .cs → g ≠ .ss → u.seg g = v.seg g := by
  have hframe := s.frame_length_le
  have hword : dsWord t = dsWord s := by
    unfold dsWord
    rw [hreg .eax (by decide), hds]
  obtain ⟨t₁, hsave, h₁, hcs₁, hss₁⟩ := saveRegisters_spec kernel.toLinked ht (by
    rw [List.length_cons, List.length_cons]
    omega)
  rw [hword] at h₁
  -- the entry of the function
  set e := t₁.push (kernel.behind handler) with he
  have hesp : e.reg .esp + 4 = t₁.reg .esp := by
    change t₁.reg .esp - 4 + 4 = _
    exact BitVec.sub_add_cancel _ _
  have hesp' : e.reg .esp + 8 = t₁.reg .esp + 4 := by
    rw [← hesp, BitVec.add_assoc]
    rfl
  have h₂ := h₁.push (by
    rw [List.length_cons, List.length_cons, List.length_append, List.length_map, popOrder_length,
      List.length_cons, List.length_cons]
    omega) (kernel.behind handler)
  rw [← he] at h₂
  have hpointer : load e.memory (e.reg .esp + 4) = e.reg .esp + 8 := h₂.words.2.1.trans hesp'.symm
  have hholds : Holds e.memory (e.reg .esp + 8) (dsWord s ::
      (popOrder.map t.reg ++ n :: c :: s.frame)) := by
    have h := h₂.words.2.2
    rwa [BitVec.add_assoc] at h
  have hkept := kernel.respects handler
  set f := kernel.body handler e with hf
  -- the function leaves what is behind the pointer alone
  have hlen : 4 * (dsWord s :: (popOrder.map t.reg ++ n :: c :: s.frame)).length ≤
      sizeofRegistersT := by
    rw [List.length_cons, List.length_append, List.length_map, popOrder_length, List.length_cons,
      List.length_cons]
    unfold sizeofRegistersT
    omega
  have h₃ : f.Stack (s.base tss) (load f.memory (f.reg .esp) :: dsWord s ::
      (popOrder.map t.reg ++ n :: c :: s.frame)) := by
    have hfesp : f.reg .esp = e.reg .esp + 4 := hkept.esp e
    refine ⟨?_, rfl, ?_⟩
    · have htop : e.reg .esp = s.base tss -
          BitVec.ofNat 32 (4 * ((popOrder.map t.reg ++ n :: c :: s.frame).length + 3)) := h₂.top
      change f.reg .esp = s.base tss -
        BitVec.ofNat 32 (4 * ((popOrder.map t.reg ++ n :: c :: s.frame).length + 2))
      rw [hfesp, htop]
      bv_omega
    · rw [hfesp, BitVec.add_assoc]
      exact hholds.congr fun i hi => hkept.registers e hpointer i (by omega)
  obtain ⟨v, hrestore, h₄, hreg₄, hseg₄, hcs₄, hss₄⟩ := restoreRegisters_spec kernel.toLinked h₃
  have hcs₅ : v.seg .cs = t.seg .cs := by
    rw [hcs₄, hf, hkept.cs, he]
    exact hcs₁
  have hss₅ : v.seg .ss = t.seg .ss := by
    rw [hss₄, hf, hkept.ss, he]
    exact hss₁
  obtain ⟨hresumes, hreg₆, hseg₆⟩ := h₄.iret (hcs₅ ▸ hcs) fun h => hss₅.trans (hss h)
  have hrun : run kernel.toLinked (saveRegisters ++ [.call handler] ++
      restoreRegisters ++ [.iret]) t = ([.entered handler e, .returning v], v.iret) := by
    have hcall : run kernel.toLinked [.call handler] t₁ = ([.entered handler e], f) := rfl
    rw [run_append, run_append, run_append, hsave, hcall, hrestore]
    rfl
  refine ⟨e, v, v.iret, hrun, hpointer, hholds, fun r hr => ?_, fun g hg hg' => ?_,
    hresumes, hreg₆, hseg₆⟩
  · rw [hreg₄ r hr, hreg r hr]
  · rw [hseg₄ g hg hg', wordSelector_dsWord]

/-- What a stub does before the common part. -/
def stubEntry (vector : ℕ) : List (Instr CHandler) :=
  if HasErrorCode vector then [.cli, .pushByte (BitVec.ofNat 8 vector)]
  else [.cli, .pushByte 0, .pushByte (BitVec.ofNat 8 vector)]

/-- The macros are used as the processor needs it. -/
theorem stubs_get {vector : ℕ} (h : vector < 48) : stubs[vector]? = some (stubEntry vector ++
    (saveRegisters ++ [.call (handlerOf vector)] ++ restoreRegisters ++ [.iret])) := by
  revert vector
  decide +kernel

/-- The numbers are those of bytes without a sign. -/
theorem signExtend_vector {vector : ℕ} (h : vector < 48) :
    (BitVec.ofNat 8 vector).signExtend 32 = BitVec.ofNat 32 vector := by
  revert vector
  decide +kernel

/-- **The number and the error code** are on the stack when the common part begins. -/
theorem stubEntry_spec (link : Linked CHandler) {vector : ℕ} (hvector : vector < 48) (s : Cpu)
    (tss : Tss) {gate : Gate} (hgate : rpl gate.selector = 0) (code : BitVec 32) :
    ∃ t, run link (stubEntry vector) (s.interrupt tss gate (errorCode vector code)) = ([], t) ∧
      t.Stack (s.base tss) (BitVec.ofNat 32 vector :: (errorCode vector code).getD 0 :: s.frame) ∧
      (∀ r, r ≠ .esp → t.reg r = s.reg r) ∧ t.seg .ds = s.seg .ds ∧ rpl (t.seg .cs) = 0 ∧
      (rpl (s.seg .cs) = 0 → t.seg .ss = s.seg .ss) := by
  obtain ⟨hstack, hreg, hseg, hcs, hss⟩ := s.interrupt_spec tss gate (errorCode vector code)
  set d := s.interrupt tss gate (errorCode vector code) with hd
  have hframe := s.frame_length_le
  have hbyte := signExtend_vector hvector
  have hcli : ({ d with eflags := d.eflags &&& ~~~0x200#32 } : Cpu).Stack (s.base tss)
      ((errorCode vector code).toList ++ s.frame) := ⟨hstack.top, hstack.words⟩
  have hsegs : d.seg .ds = s.seg .ds ∧ rpl (d.seg .cs) = 0 ∧
      (rpl (s.seg .cs) = 0 → d.seg .ss = s.seg .ss) :=
    ⟨hseg .ds (by decide) (by decide), hcs ▸ hgate, hss⟩
  by_cases herr : HasErrorCode vector
  · rw [errorCode, if_pos herr] at hcli ⊢
    have h₁ := hcli.push
        (by rw [List.length_append]; change 4 * (1 + s.frame.length + 1) ≤ _; omega)
      ((BitVec.ofNat 8 vector).signExtend 32)
    rw [hbyte] at h₁
    refine ⟨({ d with eflags := d.eflags &&& ~~~0x200#32 } : Cpu).push
      (BitVec.ofNat 32 vector), ?_, h₁,
      fun r hr => (Function.update_of_ne hr _ _).trans (hreg r hr), hsegs⟩
    rw [stubEntry, if_pos herr, ← hbyte]
    rfl
  · rw [errorCode, if_neg herr] at hcli ⊢
    have h₁ := hcli.push (by change 4 * (s.frame.length + 1) ≤ _; omega)
        ((0 : BitVec 8).signExtend 32)
    have h₂ := h₁.push (by rw [List.length_cons]; change 4 * (s.frame.length + 1 + 1) ≤ _; omega)
      ((BitVec.ofNat 8 vector).signExtend 32)
    rw [hbyte] at h₂
    refine ⟨(({ d with eflags := d.eflags &&& ~~~0x200#32 } : Cpu).push
      ((0 : BitVec 8).signExtend 32)).push
      (BitVec.ofNat 32 vector), ?_, h₂, fun r hr => ?_, hsegs⟩
    · rw [stubEntry, if_neg herr, ← hbyte]
      rfl
    · exact (Function.update_of_ne hr _ _).trans ((Function.update_of_ne hr _ _).trans (hreg r hr))

/-- **An interrupt.** The handler is shown the registers, but for the word with the data segment,
and the program goes on with its registers, but for the other data segments. -/
theorem interrupt_run (kernel : KernelCode) {vector : ℕ} (hvector : vector < 48)
    (s : Cpu) (tss : Tss) {gate : Gate} (hgate : rpl gate.selector = 0) (code : BitVec 32) :
    ∃ stub e v u, stubs[vector]? = some stub ∧
      run kernel.toLinked stub (s.interrupt tss gate (errorCode vector code)) =
        ([.entered (handlerOf vector) e, .returning v], u) ∧
      Shown (fun w _ => w = dsWord s) s vector (errorCode vector code)
        (RegistersT.read e.memory (load e.memory (e.reg .esp + 4))) ∧
      (∀ r, r ≠ .esp → v.reg r = s.reg r) ∧ (∀ g, g ≠ .cs → g ≠ .ss → v.seg g = s.seg .ds) ∧
      s.Resumes u ∧ (∀ r, r ≠ .esp → u.reg r = v.reg r) ∧
      ∀ g, g ≠ .cs → g ≠ .ss → u.seg g = v.seg g := by
  obtain ⟨t, hentry, ht, hreg, hds, hcs, hss⟩ :=
    stubEntry_spec kernel.toLinked hvector s tss hgate code
  obtain ⟨e, v, u, hrun, hpointer, hholds, hv, hvseg, hresumes, hu, huseg⟩ :=
    commonStub_spec kernel (handlerOf vector) ht hreg hds hcs hss
  refine ⟨_, e, v, u, stubs_get hvector, ?_, ?_, hv, hvseg, hresumes, hu, huseg⟩
  · rw [run_append, hentry, hrun]
    rfl
  · rw [hpointer]
    have hmap : popOrder.map t.reg = [s.reg .edi, s.reg .esi, s.reg .ebp, t.reg .esp, s.reg .ebx,
        s.reg .edx, s.reg .ecx, s.reg .eax] := by
      rw [← hreg .edi (by decide), ← hreg .esi (by decide), ← hreg .ebp (by decide),
        ← hreg .ebx (by decide), ← hreg .edx (by decide), ← hreg .ecx (by decide),
        ← hreg .eax (by decide)]
      rfl
    rw [hmap] at hholds
    exact
      { ds := hholds.1
        edi := hholds.load (i := 1) rfl
        esi := hholds.load (i := 2) rfl
        ebp := hholds.load (i := 3) rfl
        ebx := hholds.load (i := 5) rfl
        edx := hholds.load (i := 6) rfl
        ecx := hholds.load (i := 7) rfl
        eax := hholds.load (i := 8) rfl
        intNo := hholds.load (i := 9) rfl
        errCode := hholds.load (i := 10) rfl
        eip := hholds.load (i := 11) rfl
        cs := hholds.load (i := 12) rfl
        eflags := hholds.load (i := 13) rfl }

/-- An interrupt is handled transparently exactly if the data segment is shown by the word that is
pushed for it, and the other data segments are the same. -/
theorem transparent_iff (shows : BitVec 32 → BitVec 16 → Prop) (kernel : KernelCode) {vector : ℕ}
    (hvector : vector < 48) (s : Cpu) (tss : Tss) {gate : Gate} (hgate : rpl gate.selector = 0)
    (code : BitVec 32) :
    Transparent shows kernel tss gate s vector (errorCode vector code) ↔
      shows (dsWord s) (s.seg .ds) ∧ s.seg .es = s.seg .ds ∧ s.seg .fs = s.seg .ds ∧
        s.seg .gs = s.seg .ds := by
  obtain ⟨stub, e, v, u, hget, hrun, hshown, hv, hvseg, hresumes, hu, huseg⟩ :=
    interrupt_run kernel hvector s tss hgate code
  constructor
  · -- there is one run, so its segments are those that were restored
    rintro ⟨stub', e', v', u', hget', hrun', hshown', hrestored⟩
    cases hget.symm.trans hget'
    obtain ⟨hevents, -⟩ := Prod.mk.inj (hrun.symm.trans hrun')
    obtain ⟨hentered, hreturning⟩ := List.cons.inj hevents
    cases hentered
    cases hreturning
    have hds := hshown'.ds
    rw [show _ = dsWord s from hshown.ds] at hds
    refine ⟨hds, ?_, ?_, ?_⟩
    · rw [← hrestored.seg .es (by decide) (by decide), hvseg .es (by decide) (by decide)]
    · rw [← hrestored.seg .fs (by decide) (by decide), hvseg .fs (by decide) (by decide)]
    · rw [← hrestored.seg .gs (by decide) (by decide), hvseg .gs (by decide) (by decide)]
  · rintro ⟨hds, hes, hfs, hgs⟩
    -- the stub leaves every data segment as `ds`
    have hseg : ∀ g, g ≠ .cs → g ≠ .ss → v.seg g = s.seg g := by
      intro g hcs hss
      rw [hvseg g hcs hss]
      cases g with
      | cs => exact absurd rfl hcs
      | ss => exact absurd rfl hss
      | ds => rfl
      | es => exact hes.symm
      | fs => exact hfs.symm
      | gs => exact hgs.symm
    refine ⟨stub, e, v, u, hget, hrun, { hshown with ds := ?_ },
      ⟨hv, hseg, fun r => ?_, fun g => ?_, hresumes.eip, hresumes.eflags⟩⟩
    · rw [show _ = dsWord s from hshown.ds]
      exact hds
    · by_cases hr : r = .esp
      · exact hr ▸ hresumes.esp
      · exact (hu r hr).trans (hv r hr)
    · by_cases hcs : g = .cs
      · exact hcs ▸ hresumes.cs
      by_cases hss : g = .ss
      · exact hss ▸ hresumes.ss
      · exact (huseg g hcs hss).trans (hseg g hcs hss)

/-- **When interrupts are transparent.** If `ds` of `registers_t` is to be the selector and nothing
else, an interrupt of a program is transparent exactly if the upper half of `eax` is zero and all
data segments are the same. If the selector is looked for in the lower half of `ds`, the segments
decide alone. -/
theorem interrupt_transparent_iff (kernel : KernelCode) (tss : Tss) (offset : BitVec 32) (s : Cpu)
    {vector : ℕ} (hvector : vector < 48) (code : BitVec 32) :
    (Transparent (fun w ds => w = selectorWord ds) kernel tss ⟨kernelCs, offset⟩ s vector
        (errorCode vector code) ↔
      (s.reg .eax).toNat < 65536 ∧ s.seg .es = s.seg .ds ∧ s.seg .fs = s.seg .ds ∧
        s.seg .gs = s.seg .ds) ∧
    (Transparent (fun w ds => wordSelector w = ds) kernel tss ⟨kernelCs, offset⟩ s vector
        (errorCode vector code) ↔
      s.seg .es = s.seg .ds ∧ s.seg .fs = s.seg .ds ∧ s.seg .gs = s.seg .ds) := by
  have hgate : rpl (Gate.mk kernelCs offset).selector = 0 := rpl_kernelCs
  constructor
  · rw [transparent_iff _ kernel hvector s tss hgate code, dsWord_eq]
  · rw [transparent_iff _ kernel hvector s tss hgate code]
    exact and_iff_right (wordSelector_dsWord s)

end Stub

/-! ### A program that is interrupted -/

/-- C functions that leave a number in `eax`. -/
def answering : KernelCode where
  behind _ := 0x11C0
  body _ s := (s.setReg .eax 7).setReg .esp (s.reg .esp + 4)
  respects _ := ⟨fun _ => (Cpu.setReg_reg _ _ _ _).trans (if_pos rfl), fun _ => rfl, fun _ => rfl,
    fun _ _ _ _ => rfl⟩

/-- A program of the kernel, with a number in its registers and a selector in `es`. -/
def kernelProgram (n : BitVec 32) (es : BitVec 16) : Cpu where
  reg _ := n
  seg
    | .cs => kernelCs
    | .es => es
    | _ => 0x10
  eip := 0x2000
  eflags := 0x202
  memory _ := 0

/-- A page fault. -/
theorem interrupt_transparent_page_fault :
    Transparent (fun w ds => w = selectorWord ds) answering ⟨0x10, 0x9000⟩ ⟨kernelCs, 0x1100⟩
      (kernelProgram 0x8000 0x10) 14 (errorCode 14 2) :=
  (interrupt_transparent_iff answering ⟨0x10, 0x9000⟩ 0x1100 (kernelProgram 0x8000 0x10)
    (by decide) 2).1.mpr
    ⟨by decide, rfl, rfl, rfl⟩

/-- A key comes while `es` is not `ds`, and while there is something in the upper half of `eax`. -/
theorem interrupt_not_transparent :
    ¬ Transparent (fun w ds => wordSelector w = ds) answering ⟨0x10, 0x9000⟩ ⟨kernelCs, 0x1100⟩
        (kernelProgram 0x8000 0x23) 33 (errorCode 33 0) ∧
      ¬ Transparent (fun w ds => w = selectorWord ds) answering ⟨0x10, 0x9000⟩ ⟨kernelCs, 0x1100⟩
        (kernelProgram 0x10000 0x10) 33 (errorCode 33 0) := by
  constructor
  · rw [transparent_iff _ answering (by decide) _ _ rpl_kernelCs]
    rintro ⟨-, hes, -⟩
    exact absurd hes (by decide)
  · rw [transparent_iff _ answering (by decide) _ _ rpl_kernelCs, dsWord_eq]
    rintro ⟨heax, -⟩
    exact absurd heax (by decide)

end VibeKernel
