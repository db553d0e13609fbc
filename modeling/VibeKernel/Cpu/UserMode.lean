import VibeKernel.Cpu.Interrupts
import VibeKernel.Lib.X86Frame

/-!
# Programs in user mode

`src/task/task.asm`, and what `src/cpu/interrupt.asm` means for a program that runs with fewer
privileges.

`task_return` starts a program with the registers of a `struct registers` (`taskReturn_spec`). From
then on the program and the devices take turns: the program executes an instruction, or the
processor delivers an interrupt request if the program has not disabled them, and the stub of the
request runs to its `iret` on the stack that the task state segment names. `userRun` is such a run,
in any order of events, and `alone` is the same program with no requests at all.

The program cannot see that it was interrupted exactly if its data segments were the same whenever a
request was served (`userRun_unseen_iff`), since the stubs reload all of them from `ds`.
-/

namespace VibeKernel

open Verif.X86

/-! ### `task_return` -/

/-- `struct registers` of `task.h`. -/
structure Registers where
  edi : BitVec 32
  esi : BitVec 32
  ebp : BitVec 32
  ebx : BitVec 32
  edx : BitVec 32
  ecx : BitVec 32
  eax : BitVec 32
  eip : BitVec 32
  cs : BitVec 32
  eflags : BitVec 32
  esp : BitVec 32
  ss : BitVec 32
  deriving DecidableEq, Repr

/-- The layout of `struct registers`. -/
def Registers.words (x : Registers) : List (BitVec 32) :=
  [x.edi, x.esi, x.ebp, x.ebx, x.edx, x.ecx, x.eax, x.eip, x.cs, x.eflags, x.esp, x.ss]

/-- `sizeof(struct registers)`. -/
def sizeofRegisters : ℕ := 48

/-- A program that starts with these registers. The data segments are the stack segment. -/
def Registers.enter (x : Registers) (memory : BitVec 32 → BitVec 8) : Cpu where
  reg
    | .eax => x.eax
    | .ecx => x.ecx
    | .edx => x.edx
    | .ebx => x.ebx
    | .esp => x.esp
    | .ebp => x.ebp
    | .esi => x.esi
    | .edi => x.edi
  seg
    | .cs => wordSelector x.cs
    | _ => wordSelector x.ss
  eip := x.eip
  eflags := x.eflags
  memory := memory

/-- `task_return`: what is pushed. -/
def pushFrame : List (LoadInstr CHandler) :=
  [44, 40, 36, 32, 28].map (LoadInstr.pushLoad .ebx)

/-- `task_return`: the segments and registers that are loaded. -/
def loadRegisters : List (LoadInstr CHandler) :=
  [.loadLow .eax .ebx 44, .plain (.movToSeg .ds .eax), .plain (.movToSeg .es .eax),
    .plain (.movToSeg .fs .eax), .plain (.movToSeg .gs .eax), .load .edi .ebx 0, .load .esi .ebx 4,
    .load .ebp .ebx 8, .load .edx .ebx 16, .load .ecx .ebx 20, .load .eax .ebx 24,
    .load .ebx .ebx 12]

/-- `task_return`. -/
def taskReturn : List (LoadInstr CHandler) :=
  [.mov .ebp .esp, .load .ebx .ebp 4] ++ pushFrame ++ loadRegisters ++ [.plain .iret]

/-- The kernel calls `task_return(p)` with `*p = x`, and `*p` is not where the stack grows. -/
structure EntersTaskReturn (s : Cpu) (p : BitVec 32) (x : Registers) : Prop where
  cs : rpl (s.seg .cs) = 0
  argument : load s.memory (s.reg .esp + 4) = p
  registers : Holds s.memory p x.words
  apart : ∀ i < sizeofRegisters, p + BitVec.ofNat 32 i ∉ below (s.reg .esp) 20

section TaskReturn

variable {s t : Cpu} {p : BitVec 32} {x : Registers} {link : Linked CHandler}

/-- The registers can be read as long as nothing but the stack changes. -/
theorem EntersTaskReturn.word (h : EntersTaskReturn s p x) {m : BitVec 32 → BitVec 8}
    (hm : ∀ a, a ∉ below (s.reg .esp) 20 → m a = s.memory a) {i : ℕ} {w : BitVec 32}
    (hi : x.words[i]? = some w) : load m (p + BitVec.ofNat 32 (4 * i)) = w :=
  (h.registers.congr fun j hj => hm _ (h.apart j hj)).load hi

/-- What is pushed is a frame for `iret`, and nothing else changes but `ebp` and `ebx`. -/
theorem EntersTaskReturn.pushFrame_spec (h : EntersTaskReturn s p x) :
    ∃ t, runLoads link ([.mov .ebp .esp, .load .ebx .ebp 4] ++ pushFrame) s = t ∧
      t.Stack (s.reg .esp) [x.eip, x.cs, x.eflags, x.esp, x.ss] ∧ t.reg .ebx = p ∧
      t.seg = s.seg ∧ ∀ a, a ∉ below (s.reg .esp) 20 → t.memory a = s.memory a := by
  -- `ebx` is the argument
  set s₂ := (s.setReg .ebp (s.reg .esp)).setReg .ebx p with hs₂
  have hstart : runLoads link [.mov .ebp .esp, .load .ebx .ebp 4] s = s₂ := by
    change (s.setReg .ebp (s.reg .esp)).setReg .ebx
      (load s.memory ((s.setReg .ebp (s.reg .esp)).reg .ebp + 4)) = s₂
    rw [Cpu.setReg_reg, if_pos rfl, h.argument]
  have hebx : s₂.reg .ebx = p := by simp [hs₂]
  have hesp : s₂.reg .esp = s.reg .esp := by simp [hs₂]
  -- the words at the offsets that are pushed
  set f : BitVec 32 → BitVec 32 := fun o =>
    if o = 44 then x.ss else if o = 40 then x.esp else if o = 36 then x.eflags
      else if o = 32 then x.cs
    else x.eip with hf
  have hwords : ∀ m', (∀ a, a ∉ below (s.reg .esp) 20 → m' a = s.memory a) →
      ∀ o ∈ [(44 : BitVec 32), 40, 36, 32, 28], load m' (s₂.reg .ebx + o) = f o := by
    intro m' hm' o ho
    rw [hebx]
    simp only [List.mem_cons, List.not_mem_nil, or_false] at ho
    obtain rfl | rfl | rfl | rfl | rfl := ho
    · exact @EntersTaskReturn.word _ _ _ h _ hm' 11 _ rfl
    · exact @EntersTaskReturn.word _ _ _ h _ hm' 10 _ rfl
    · exact @EntersTaskReturn.word _ _ _ h _ hm' 9 _ rfl
    · exact @EntersTaskReturn.word _ _ _ h _ hm' 8 _ rfl
    · exact @EntersTaskReturn.word _ _ _ h _ hm' 7 _ rfl
  have hbase : s₂.reg .esp = s.reg .esp - BitVec.ofNat 32 (4 * 0) := by
    rw [hesp]
    exact (BitVec.sub_zero _).symm
  have hmap : [(44 : BitVec 32), 40, 36, 32, 28].map f = [x.ss, x.esp, x.eflags, x.cs, x.eip] := by
    simp [hf]
  have hpush : runLoads link pushFrame s₂ = s₂.pushAll ([(44 : BitVec 32), 40, 36, 32, 28].map f) :=
    runLoads_pushLoad (by decide) hwords (fun _ _ => rfl) hbase (by decide) (by decide)
  rw [hmap] at hpush
  have hmem : ∀ a, a ∉ below (s.reg .esp) 20 →
      (s₂.pushAll [x.ss, x.esp, x.eflags, x.cs, x.eip]).memory a = s.memory a := fun a ha =>
    (Cpu.pushAll_memory hbase (by simp) (by decide) ha).1
  have hempty : s₂.Stack (s.reg .esp) [] := ⟨hbase, trivial⟩
  have hstack : (s₂.pushAll [x.ss, x.esp, x.eflags, x.cs, x.eip]).Stack (s.reg .esp)
      ([x.ss, x.esp, x.eflags, x.cs, x.eip].reverse ++ []) := hempty.pushAll (by simp)
  have hseg : (s₂.pushAll [x.ss, x.esp, x.eflags, x.cs, x.eip]).seg = s₂.seg := Cpu.pushAll_seg
  refine ⟨s₂.pushAll [x.ss, x.esp, x.eflags, x.cs, x.eip], ?_, hstack, ?_, hseg, hmem⟩
  · rw [runLoads_append, hstart, hpush]
  · rw [Cpu.pushAll_reg (by decide), hebx]

/-- The registers are loaded from `*p`, and the data segments from its `ss`. -/
theorem loadRegisters_spec (hebx : t.reg .ebx = p)
    (hword : ∀ {i : ℕ} {w : BitVec 32}, x.words[i]? = some w →
      load t.memory (p + BitVec.ofNat 32 (4 * i)) = w) :
    ∃ v, runLoads link loadRegisters t = v ∧ v.memory = t.memory ∧ v.reg .esp = t.reg .esp ∧
      (∀ r, r ≠ .esp → v.reg r = (x.enter t.memory).reg r) ∧ v.seg .cs = t.seg .cs ∧
      ∀ g, g ≠ .cs → g ≠ .ss → v.seg g = wordSelector x.ss := by
  -- a register that is loaded while `ebx` still points to `*p`
  have hload : ∀ {u : Cpu} {r : Reg} {i : ℕ} {w : BitVec 32}, u.memory = t.memory → u.reg .ebx = p →
      x.words[i]? = some w →
      LoadInstr.exec link u (.load r .ebx (BitVec.ofNat 32 (4 * i))) = u.setReg r w := by
    intro u r i w hm hb hi
    change u.setReg r (load u.memory (u.reg .ebx + _)) = _
    rw [hm, hb, hword hi]
  set t₁ := t.setReg .eax ((t.reg .eax).extractLsb' 16 16 ++ wordSelector x.ss) with ht₁
  have hlow : LoadInstr.exec link t (.loadLow .eax .ebx 44) = t₁ := by
    change t.setReg .eax ((t.reg .eax).extractLsb' 16 16 ++
      wordSelector (load t.memory (t.reg .ebx + 44))) = _
    have hss : load t.memory (p + 44) = x.ss := @hword 11 _ rfl
    rw [hebx, hss]
  have hsel : wordSelector (t₁.reg .eax) = wordSelector x.ss := by
    rw [ht₁, Cpu.setReg_reg, if_pos rfl]
    exact BitVec.eq_of_getLsbD_eq fun i hi => by
      unfold wordSelector
      rw [BitVec.getLsbD_extractLsb', BitVec.getLsbD_append]
      simp [hi]
  set t₂ := setDataSegments t₁ (wordSelector x.ss) with ht₂
  have hsegs : runLoads link [.plain (.movToSeg .ds .eax), .plain (.movToSeg .es .eax),
      .plain (.movToSeg .fs .eax), .plain (.movToSeg .gs .eax)] t₁ = t₂ := by
    rw [ht₂, ← hsel]
    rfl
  -- the registers, `ebx` last
  set v := ((((((t₂.setReg .edi x.edi).setReg .esi x.esi).setReg .ebp
      x.ebp).setReg .edx x.edx).setReg
    .ecx x.ecx).setReg .eax x.eax).setReg .ebx x.ebx with hv
  have hebx₂ : t₂.reg .ebx = p := by
    change t₁.reg .ebx = p
    rw [ht₁, Cpu.setReg_reg, if_neg (by decide), hebx]
  have hregs : runLoads link [.load .edi .ebx 0, .load .esi .ebx 4, .load .ebp .ebx 8,
      .load .edx .ebx 16, .load .ecx .ebx 20, .load .eax .ebx 24, .load .ebx .ebx 12] t₂ = v := by
    have h₀ := @hload t₂ .edi 0 x.edi rfl hebx₂ rfl
    have h₁ := @hload (t₂.setReg .edi x.edi) .esi 1 x.esi rfl (by simp [hebx₂]) rfl
    have h₂ := @hload ((t₂.setReg .edi x.edi).setReg .esi x.esi) .ebp 2 x.ebp rfl
        (by simp [hebx₂]) rfl
    have h₃ := @hload (((t₂.setReg .edi x.edi).setReg .esi x.esi).setReg .ebp
        x.ebp) .edx 4 x.edx rfl
      (by simp [hebx₂]) rfl
    have h₄ := @hload
        ((((t₂.setReg .edi x.edi).setReg .esi x.esi).setReg .ebp x.ebp).setReg .edx x.edx)
      .ecx 5 x.ecx rfl (by simp [hebx₂]) rfl
    have h₅ := @hload (((((t₂.setReg .edi x.edi).setReg .esi x.esi).setReg .ebp x.ebp).setReg .edx
      x.edx).setReg .ecx x.ecx) .eax 6 x.eax rfl (by simp [hebx₂]) rfl
    have h₆ := @hload ((((((t₂.setReg .edi x.edi).setReg .esi x.esi).setReg .ebp x.ebp).setReg .edx
      x.edx).setReg .ecx x.ecx).setReg .eax x.eax) .ebx 3 x.ebx rfl (by simp [hebx₂]) rfl
    rw [hv, ← h₆, ← h₅, ← h₄, ← h₃, ← h₂, ← h₁, ← h₀]
    rfl
  refine ⟨v, ?_, rfl, ?_, fun r hr => ?_, ?_, fun g hcs hss => ?_⟩
  · calc runLoads link loadRegisters t
        = runLoads link [.load .edi .ebx 0, .load .esi .ebx 4, .load .ebp .ebx 8,
          .load .edx .ebx 16, .load .ecx .ebx 20, .load .eax .ebx 24, .load .ebx .ebx 12]
            (runLoads link [.plain (.movToSeg .ds .eax), .plain (.movToSeg .es .eax),
              .plain (.movToSeg .fs .eax), .plain (.movToSeg .gs .eax)]
              (LoadInstr.exec link t (.loadLow .eax .ebx 44))) := rfl
      _ = v := by rw [hlow, hsegs, hregs]
  · simp [hv, ht₂, ht₁, setDataSegments]
  · rw [hv]
    cases r with
    | esp => exact absurd rfl hr
    | eax | ecx | edx | ebx | ebp | esi | edi => simp [Registers.enter]
  · change t₂.seg .cs = _
    rw [ht₂, setDataSegments_other (Or.inl rfl)]
    rfl
  · change t₂.seg g = _
    rw [ht₂, setDataSegments_seg hcs hss]

/-- **`task_return`** starts a program with the registers of its argument, in a memory that differs
from that of the kernel in the 20 bytes below the stack pointer only. -/
theorem taskReturn_spec (h : EntersTaskReturn s p x) (hx : rpl (wordSelector x.cs) ≠ 0) :
    ∃ m, runLoads link taskReturn s = x.enter m ∧
      ∀ a, a ∉ below (s.reg .esp) 20 → m a = s.memory a := by
  obtain ⟨t, hpush, hstack, hebx, hseg, hmem⟩ := @EntersTaskReturn.pushFrame_spec _ _ _ link h
  obtain ⟨v, hload, hvmem, hvesp, hvreg, hvcs, hvseg⟩ :=
    @loadRegisters_spec t p x link hebx fun hi => h.word hmem hi
  refine ⟨t.memory, ?_, hmem⟩
  have hrun : runLoads link taskReturn s = v.iret := by
    unfold taskReturn
    rw [runLoads_append, runLoads_append, hpush, hload]
    rfl
  -- the frame that `iret` takes off the stack
  have hframe : Holds v.memory (v.reg .esp) [x.eip, x.cs, x.eflags, x.esp, x.ss] := by
    rw [hvmem, hvesp]
    exact hstack.words
  have heip : load v.memory (v.reg .esp) = x.eip := hframe.1
  have hcs : load v.memory (v.reg .esp + 4) = x.cs := @Holds.load _ _ _ _ 1 hframe rfl
  have heflags : load v.memory (v.reg .esp + 8) = x.eflags := @Holds.load _ _ _ _ 2 hframe rfl
  have hesp : load v.memory (v.reg .esp + 12) = x.esp := @Holds.load _ _ _ _ 3 hframe rfl
  have hss : load v.memory (v.reg .esp + 16) = x.ss := @Holds.load _ _ _ _ 4 hframe rfl
  have hkernel : rpl (v.seg .cs) = 0 := by rw [hvcs, hseg, h.cs]
  have hiret : v.iret = Cpu.setSeg (Cpu.setReg { (v.setReg .esp (v.reg .esp + 12)).setSeg .cs
      (wordSelector x.cs) with eip := x.eip, eflags := x.eflags } .esp x.esp) .ss
        (wordSelector x.ss) := by
    unfold Cpu.iret
    dsimp only
    rw [hcs, heip, heflags, hkernel, if_neg hx, hesp, hss]
  rw [hrun, hiret]
  refine Cpu.eq_of (fun r => ?_) (fun g => ?_) rfl rfl hvmem
  · by_cases hr : r = .esp
    · subst hr
      simp [Registers.enter]
    · have hr' := hvreg r hr
      simpa [hr] using hr'
  · cases g with
    | cs => simp [Registers.enter]
    | ss => simp [Registers.enter]
    | ds | es | fs | gs =>
      simp only [Cpu.setSeg_seg, Cpu.setReg_seg]
      exact hvseg _ (by decide) (by decide)

end TaskReturn

/-! ### A program and the devices -/

/-- What happens while a program runs: it executes an instruction, or one of the 16 lines of the
interrupt controllers asks for an interrupt. -/
inductive UserEvent
  | instruction
  | request (line : Fin 16)
  deriving DecidableEq, Repr

/-- A program in user mode. It sees its own memory only, and cannot change its privileges. -/
structure UserProgram (U : Set (BitVec 32)) where
  step : Cpu → Cpu
  sees : ∀ s t, s.Agree U t → (step s).Agree U (step t)
  user : ∀ s, rpl (s.seg .cs) = 3 → rpl ((step s).seg .cs) = 3

/-- The flag `IF`. -/
def InterruptsEnabled (s : Cpu) : Prop := s.eflags.getLsbD 9 = true

instance : DecidablePred InterruptsEnabled := fun s =>
  inferInstanceAs (Decidable (s.eflags.getLsbD 9 = true))

/-- The four data segments are the same. -/
structure DataAlike (s : Cpu) : Prop where
  es : s.seg .es = s.seg .ds
  fs : s.seg .fs = s.seg .ds
  gs : s.seg .gs = s.seg .ds

/-- What a program runs on: the kernel, the stack for interrupts and the handlers of the gates,
which are in the code segment of the kernel. -/
structure Platform where
  kernel : KernelCode
  tss : Tss
  handler : ℕ → BitVec 32

/-- The stub of an interrupt runs, from the delivery of the interrupt to its `iret`. -/
def Platform.serve (P : Platform) (vector : ℕ) (s : Cpu) : Cpu :=
  (stubs[vector]?.map fun stub =>
    (run P.kernel.toLinked stub (s.interrupt P.tss ⟨kernelCs, P.handler vector⟩ none)).2).getD s

/-- One event. A request that finds interrupts disabled has to wait. -/
def Platform.step {U : Set (BitVec 32)} (P : Platform) (program : UserProgram U) (s : Cpu) :
    UserEvent → Cpu
  | .instruction => program.step s
  | .request line => if InterruptsEnabled s then P.serve (32 + line.val) s else s

/-- The program and the devices take turns. -/
def Platform.userRun {U : Set (BitVec 32)} (P : Platform) (program : UserProgram U) (s : Cpu)
    (events : List UserEvent) : Cpu :=
  events.foldl (P.step program) s

/-- The program alone executes the same instructions. -/
def UserProgram.alone {U : Set (BitVec 32)} (program : UserProgram U) (s : Cpu)
    (events : List UserEvent) : Cpu :=
  program.step^[events.count .instruction] s

/-- The bytes of the stack that a stub has written when it calls its C function. -/
def stubFrame : ℕ := 72

/-- The C functions, called by a stub for a program in user mode, leave the memory `U` alone, and
the stack for interrupts is not in `U`. -/
structure Platform.Spares (P : Platform) (U : Set (BitVec 32)) : Prop where
  body : ∀ f s, s.reg .esp = P.tss.esp0 - BitVec.ofNat 32 stubFrame → ∀ a ∈ U,
    (P.kernel.body f s).memory a = s.memory a
  stack : ∀ a ∈ U, a ∉ below P.tss.esp0 stubFrame

section Serve

variable {P : Platform} {U : Set (BitVec 32)} {program : UserProgram U} {s t : Cpu} {vector : ℕ}
  {events es : List UserEvent}

/-- Requests have no error code. -/
theorem not_hasErrorCode (h : 32 ≤ vector) : ¬ HasErrorCode vector := by
  unfold HasErrorCode
  omega

/-- The words that a stub pushes before its call. -/
theorem pushedWords_stub (h : 32 ≤ vector) :
    pushedWords (stubEntry vector ++ saveRegisters) = some 12 := by
  unfold stubEntry
  rw [if_neg (not_hasErrorCode h)]
  rfl

/-- **A stub leaves the memory of the program alone.** -/
theorem Platform.serve_memory (hP : P.Spares U) (hlow : 32 ≤ vector) (hhigh : vector < 48)
    (hcs : rpl (s.seg .cs) ≠ 0) {a : BitVec 32} (ha : a ∈ U) :
    (P.serve vector s).memory a = s.memory a := by
  have hstack := hP.stack a ha
  obtain ⟨hdeliver, hesp⟩ := Cpu.interrupt_memory (n := stubFrame)
    ⟨kernelCs, P.handler vector⟩ none hcs (by decide) (by decide) hstack
  set d := s.interrupt P.tss ⟨kernelCs, P.handler vector⟩ none with hd
  set link := P.kernel.toLinked with hlink
  -- the stub up to its call
  set e := (run link (stubEntry vector ++ saveRegisters) d).2 with he
  have hsave : e.memory a = d.memory a ∧
      e.reg .esp = P.tss.esp0 - BitVec.ofNat 32 (4 * (5 + 0 + 12)) :=
    run_pushedWords (pushedWords_stub hlow) hesp (by decide) (by decide) hstack
  -- the call
  have hreturn : (e.push (link.behind (handlerOf vector))).memory a = e.memory a ∧
      (e.push (link.behind (handlerOf vector))).reg .esp =
        P.tss.esp0 - BitVec.ofNat 32 (4 * (5 + 0 + 12 + 1)) :=
    ⟨Cpu.push_memory hsave.2 (by decide) (by decide) hstack, Cpu.push_esp hsave.2⟩
  set f := link.body (handlerOf vector) (e.push (link.behind (handlerOf vector))) with hf
  have hbody : f.memory a = (e.push (link.behind (handlerOf vector))).memory a :=
    hP.body _ _ hreturn.2 a ha
  -- and what follows it
  have hrest : (run link (restoreRegisters ++ [.iret]) f).2.memory = f.memory :=
    run_writesNothing rfl
  have hstub : P.serve vector s = (run link (restoreRegisters ++ [.iret]) f).2 := by
    unfold Platform.serve
    rw [stubs_get hhigh, Option.map_some, Option.getD_some, ← hd, ← hlink, List.append_assoc,
      List.append_assoc, ← List.append_assoc (stubEntry vector), run_append, ← he]
    rfl
  rw [hstub, hrest, hbody, hreturn.1, hsave.1, hdeliver]

/-- **A request** is served without a change to the program, but for the data segments. -/
theorem Platform.serve_spec (P : Platform) (hlow : 32 ≤ vector) (hhigh : vector < 48) (s : Cpu) :
    s.Resumes (P.serve vector s) ∧ (∀ r, r ≠ .esp → (P.serve vector s).reg r = s.reg r) ∧
      ∀ g, g ≠ .cs → g ≠ .ss → (P.serve vector s).seg g = s.seg .ds := by
  have hcode : errorCode vector 0 = none := if_neg (not_hasErrorCode hlow)
  have hgate : rpl (Gate.mk kernelCs (P.handler vector)).selector = 0 := rpl_kernelCs
  obtain ⟨stub, e, v, u, hget, hrun, -, hv, hvseg, hresumes, hu, huseg⟩ :=
    interrupt_run P.kernel hhigh s P.tss hgate 0
  have hserve : P.serve vector s = u := by
    unfold Platform.serve
    rw [hget, Option.map_some, Option.getD_some, ← hcode, hrun]
  rw [hserve]
  exact ⟨hresumes, fun r hr => (hu r hr).trans (hv r hr),
    fun g hcs hss => (huseg g hcs hss).trans (hvseg g hcs hss)⟩

/-- The program sees that a request was served exactly by its data segments. -/
theorem Platform.serve_agree_iff (hP : P.Spares U) (hlow : 32 ≤ vector) (hhigh : vector < 48)
    (hcs : rpl (s.seg .cs) ≠ 0) : (P.serve vector s).Agree U s ↔ DataAlike s := by
  obtain ⟨hresumes, hreg, hseg⟩ := P.serve_spec hlow hhigh s
  constructor
  · intro h
    refine ⟨?_, ?_, ?_⟩
    · rw [← hseg .es (by decide) (by decide), h.seg]
    · rw [← hseg .fs (by decide) (by decide), h.seg]
    · rw [← hseg .gs (by decide) (by decide), h.seg]
  · intro h
    refine ⟨funext fun r => ?_, funext fun g => ?_, hresumes.eip, hresumes.eflags,
      fun a ha => Platform.serve_memory hP hlow hhigh hcs ha⟩
    · by_cases hr : r = .esp
      · exact hr ▸ hresumes.esp
      · exact hreg r hr
    · cases g with
      | cs => exact hresumes.cs
      | ss => exact hresumes.ss
      | ds => exact hseg .ds (by decide) (by decide)
      | es => exact (hseg .es (by decide) (by decide)).trans h.es.symm
      | fs => exact (hseg .fs (by decide) (by decide)).trans h.fs.symm
      | gs => exact (hseg .gs (by decide) (by decide)).trans h.gs.symm

/-! ### Runs -/

theorem Platform.userRun_append (P : Platform) (program : UserProgram U) (s : Cpu)
    (es : List UserEvent) (e : UserEvent) :
    P.userRun program s (es ++ [e]) = P.step program (P.userRun program s es) e :=
  List.foldl_append

theorem UserProgram.alone_instruction (program : UserProgram U) (s : Cpu) (es : List UserEvent) :
    program.alone s (es ++ [.instruction]) = program.step (program.alone s es) := by
  unfold UserProgram.alone
  rw [List.count_append, List.count_singleton_self, Function.iterate_succ']
  rfl

theorem UserProgram.alone_request (program : UserProgram U) (s : Cpu) (es : List UserEvent)
    (line : Fin 16) : program.alone s (es ++ [.request line]) = program.alone s es := by
  unfold UserProgram.alone
  rw [List.count_append, List.count_singleton, if_neg (by simp), Nat.add_zero]

/-- The program alone stays in user mode. -/
theorem UserProgram.alone_user (program : UserProgram U) (hs : rpl (s.seg .cs) = 3)
    (es : List UserEvent) : rpl ((program.alone s es).seg .cs) = 3 := by
  unfold UserProgram.alone
  induction es.count .instruction with
  | zero => exact hs
  | succ n ih =>
    rw [Function.iterate_succ_apply']
    exact program.user _ ih

/-- A program cannot see up to some point of a run that it is interrupted. -/
def Platform.Unseen (P : Platform) (program : UserProgram U) (s : Cpu)
    (events : List UserEvent) : Prop :=
  ∀ es, es <+: events → (P.userRun program s es).Agree U (program.alone s es)

/-- The data segments are the same whenever a request is served. -/
def Platform.ServedAlike (P : Platform) (program : UserProgram U) (s : Cpu)
    (events : List UserEvent) : Prop :=
  ∀ es line, es ++ [.request line] <+: events → InterruptsEnabled (P.userRun program s es) →
    DataAlike (P.userRun program s es)

/-- **When a program does not see interrupts.** For every order of instructions and requests, the
program is at every point in the state that it would be in alone, in all that it sees, exactly if
its data segments are the same whenever a request is served. -/
theorem userRun_unseen_iff (hP : P.Spares U) (program : UserProgram U) (hs : rpl (s.seg .cs) = 3)
    (events : List UserEvent) : P.Unseen program s events ↔ P.ServedAlike program s events := by
  -- what the program sees alone tells its privileges
  have huser : ∀ {es : List UserEvent}, (P.userRun program s es).Agree U (program.alone s es) →
      rpl ((P.userRun program s es).seg .cs) ≠ 0 := by
    intro es h
    rw [h.seg, program.alone_user hs es]
    decide
  have hline : ∀ line : Fin 16, 32 ≤ 32 + line.val ∧ 32 + line.val < 48 := fun line => by omega
  constructor
  · intro hunseen es line hes henabled
    have hbefore := hunseen es ((List.prefix_append es _).trans hes)
    have hafter := hunseen _ hes
    rw [P.userRun_append, program.alone_request] at hafter
    change (if InterruptsEnabled _ then P.serve (32 + line.val) _ else _).Agree U _ at hafter
    rw [if_pos henabled] at hafter
    exact (Platform.serve_agree_iff hP (hline line).1 (hline line).2 (huser hbefore)).mp
      (hafter.trans hbefore.symm)
  · intro halike es
    -- by induction on the events so far
    induction es using List.reverseRecOn with
    | nil => exact fun _ => Cpu.Agree.refl U s
    | append_singleton es e ih =>
      intro hes
      have hbefore := ih ((List.prefix_append es _).trans hes)
      rw [P.userRun_append]
      cases e with
      | instruction =>
        rw [program.alone_instruction]
        exact program.sees _ _ hbefore
      | request line =>
        rw [program.alone_request]
        change (if InterruptsEnabled _ then P.serve (32 + line.val) _ else _).Agree U _
        split_ifs with henabled
        · have hserved := (Platform.serve_agree_iff hP (hline line).1 (hline line).2
            (huser hbefore)).mpr (halike es line hes henabled)
          exact hserved.trans hbefore
        · exact hbefore

/-- A program that keeps its data segments the same finds them the same after every request. -/
theorem Platform.servedAlike_of_keeps (P : Platform) {program : UserProgram U}
    (hkeeps : ∀ s, DataAlike s → DataAlike (program.step s)) (hs : DataAlike s)
    (events : List UserEvent) : P.ServedAlike program s events := by
  have halike : ∀ es : List UserEvent, DataAlike (P.userRun program s es) := by
    intro es
    induction es using List.reverseRecOn with
    | nil => exact hs
    | append_singleton es e ih =>
      rw [P.userRun_append]
      cases e with
      | instruction => exact hkeeps _ ih
      | request line =>
        change DataAlike (if InterruptsEnabled _ then P.serve (32 + line.val) _ else _)
        split_ifs
        · -- the stub has loaded all of them from `ds`
          obtain ⟨-, -, hseg⟩ := P.serve_spec (by omega : 32 ≤ 32 + line.val) (by omega)
            (P.userRun program s es)
          have hds := hseg .ds (by decide) (by decide)
          exact ⟨(hseg .es (by decide) (by decide)).trans hds.symm,
            (hseg .fs (by decide) (by decide)).trans hds.symm,
            (hseg .gs (by decide) (by decide)).trans hds.symm⟩
        · exact ih
  exact fun es _ _ _ => halike es

theorem Registers.enter_dataAlike (x : Registers) (m : BitVec 32 → BitVec 8) :
    DataAlike (x.enter m) :=
  ⟨rfl, rfl, rfl⟩

end Serve

/-! ### A program that counts -/

/-- The page of a program. -/
def programPage : Set (BitVec 32) := {a | 0x400000 ≤ a.toNat ∧ a.toNat < 0x401000}

/-- A program that counts in `eax` and in the first byte of its page. -/
def countingProgram : UserProgram programPage where
  step s := { s.setReg .eax (s.reg .eax + 1) with
    memory := Function.update s.memory 0x400000 (s.memory 0x400000 + 1) }
  sees s t h := by
    have hfirst : s.memory 0x400000 = t.memory 0x400000 :=
      h.memory _ (by unfold programPage; decide)
    refine ⟨?_, h.seg, h.eip, h.eflags, fun a ha => ?_⟩
    · change Function.update s.reg .eax _ = Function.update t.reg .eax _
      rw [h.reg]
    · change Function.update s.memory _ _ a = Function.update t.memory _ _ a
      rw [hfirst, Function.update_apply, Function.update_apply, h.memory a ha]
  user _ h := h

/-- A platform whose C functions write to no memory. -/
def answeringPlatform : Platform := ⟨answering, ⟨0x10, 0x9000⟩, fun _ => 0x1100⟩

theorem answeringPlatform_spares : answeringPlatform.Spares programPage where
  body _ _ _ _ _ := rfl
  stack a ha := by
    obtain ⟨hlow, -⟩ := ha
    rw [mem_below]
    change ¬ (0x9000#32 - 1 - a).toNat < 72
    bv_omega

/-- The program counts on while a key is pressed. -/
theorem userRun_unseen_counting :
    answeringPlatform.Unseen countingProgram
      (Registers.enter ⟨0, 0, 0, 0, 0, 0, 0, 0x400000, 0x1B, 0x202, 0x401000, 0x23⟩ fun _ => 0)
      [.instruction, .request 1, .instruction, .instruction] :=
  (userRun_unseen_iff answeringPlatform_spares countingProgram (by decide) _).mpr
    (answeringPlatform.servedAlike_of_keeps (fun _ h => ⟨h.es, h.fs, h.gs⟩)
      (Registers.enter_dataAlike _ _) _)

end VibeKernel
