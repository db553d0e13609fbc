import VibeKernel.Lib.X86

/-!
# What instructions write, and what a program sees

Two things to add to the model of the processor for the code around a program.

* Instructions that save registers write to the stack only. `pushedWords` counts the words, and
  `run_pushedWords` says where they are: `below base n` are the `n` bytes below an address. The
  instructions that restore registers write nothing (`run_writesNothing`).
* `Cpu.Agree U` relates two processors that a program with the memory `U` cannot tell apart.

Code that sets up a program reads registers from memory, so `LoadInstr` adds instructions with
operands in memory to those of `Instr`.
-/

namespace Verif.X86

variable {σ : Type} {link : Linked σ} {s t u : Cpu} {base a v : BitVec 32} {n : ℕ}

theorem Cpu.eq_of (hreg : ∀ r, s.reg r = t.reg r) (hseg : ∀ g, s.seg g = t.seg g)
    (heip : s.eip = t.eip) (heflags : s.eflags = t.eflags)
    (hmemory : s.memory = t.memory) : s = t := by
  cases s
  cases t
  cases funext hreg
  cases funext hseg
  cases heip
  cases heflags
  cases hmemory
  rfl

instance decidableHolds (m : BitVec 32 → BitVec 8) :
    ∀ (a : BitVec 32) (ws : List (BitVec 32)), Decidable (Holds m a ws)
  | _, [] => inferInstanceAs (Decidable True)
  | a, w :: ws =>
    @instDecidableAnd (load m a = w) (Holds m (a + 4) ws) inferInstance
      (decidableHolds m (a + 4) ws)

/-! ### What is written -/

/-- The `n` bytes below an address. -/
def below (base : BitVec 32) (n : ℕ) : Set (BitVec 32) := {a | (base - 1 - a).toNat < n}

instance (base : BitVec 32) (n : ℕ) : DecidablePred (· ∈ below base n) := fun a =>
  inferInstanceAs (Decidable ((base - 1 - a).toNat < n))

theorem mem_below : a ∈ below base n ↔ (base - 1 - a).toNat < n := Iff.rfl

/-- One word more on the stack. -/
theorem Cpu.push_memory {k : ℕ} (hesp : s.reg .esp = base - BitVec.ofNat 32 (4 * k))
    (hk : 4 * (k + 1) ≤ n) (hn : n ≤ 4294967296) (ha : a ∉ below base n) :
    (s.push v).memory a = s.memory a := by
  change store s.memory (s.reg .esp - 4) v a = s.memory a
  refine store_of_ne fun j hj heq => ha ?_
  rw [mem_below, heq, hesp]
  bv_omega

theorem Cpu.push_esp {k : ℕ} (hesp : s.reg .esp = base - BitVec.ofNat 32 (4 * k)) :
    (s.push v).reg .esp = base - BitVec.ofNat 32 (4 * (k + 1)) := by
  change s.reg .esp - 4 = _
  rw [hesp]
  bv_omega

theorem Cpu.pushAll_memory : ∀ {vs : List (BitVec 32)} {s : Cpu} {k : ℕ},
    s.reg .esp = base - BitVec.ofNat 32 (4 * k) → 4 * (k + vs.length) ≤ n → n ≤ 4294967296 →
      a ∉ below base n → (s.pushAll vs).memory a = s.memory a ∧
        (s.pushAll vs).reg .esp = base - BitVec.ofNat 32 (4 * (k + vs.length))
  | [], _, _, hesp, _, _, _ => ⟨rfl, hesp⟩
  | v :: vs, s, k, hesp, hk, hn, ha => by
    rw [List.length_cons, Nat.add_comm vs.length 1, ← Nat.add_assoc] at hk ⊢
    have hrest : ((s.push v).pushAll vs).memory a = (s.push v).memory a ∧
        ((s.push v).pushAll vs).reg .esp = base - BitVec.ofNat 32 (4 * (k + 1 + vs.length)) :=
      Cpu.pushAll_memory (Cpu.push_esp hesp) hk hn ha
    exact ⟨hrest.1.trans (Cpu.push_memory hesp (by omega) hn ha), hrest.2⟩

/-- The words that an instruction pushes, for those that only push or leave the stack alone. -/
def Instr.pushes : Instr σ → Option ℕ
  | .cli | .movToSeg _ _ => some 0
  | .movFromSeg r _ | .movLow r _ => if r = .esp then none else some 0
  | .pushByte _ | .push _ => some 1
  | .pusha => some 8
  | .pop _ | .popa | .add _ _ | .call _ | .iret => none

/-- The words that instructions push. -/
def pushedWords : List (Instr σ) → Option ℕ
  | [] => some 0
  | i :: is => i.pushes.bind fun m => (pushedWords is).map fun n => m + n

theorem Instr.exec_pushes {i : Instr σ} {m k : ℕ} (hi : i.pushes = some m)
    (hesp : s.reg .esp = base - BitVec.ofNat 32 (4 * k)) (hk : 4 * (k + m) ≤ n)
    (hn : n ≤ 4294967296) (ha : a ∉ below base n) :
    (i.exec link s).memory a = s.memory a ∧
      (i.exec link s).reg .esp = base - BitVec.ofNat 32 (4 * (k + m)) := by
  -- a register other than `esp`
  have hother : ∀ {r : Reg} (w : BitVec 32) (k' : ℕ),
      (if r = .esp then none else some k') = some m →
      k' = m ∧ (s.setReg r w).reg .esp = s.reg .esp := by
    intro r w k' h
    split_ifs at h with hr
    rw [Cpu.setReg_reg, if_neg (Ne.symm hr)]
    exact ⟨Option.some.inj h, rfl⟩
  cases i with
  | cli | movToSeg =>
    cases hi
    exact ⟨rfl, hesp⟩
  | movFromSeg r g =>
    obtain ⟨rfl, hr⟩ := hother ((s.reg r).extractLsb' 16 16 ++ s.seg g) 0 hi
    exact ⟨rfl, hr.trans hesp⟩
  | movLow r w =>
    obtain ⟨rfl, hr⟩ := hother ((s.reg r).extractLsb' 16 16 ++ w) 0 hi
    exact ⟨rfl, hr.trans hesp⟩
  | pushByte | push =>
    cases hi
    exact ⟨Cpu.push_memory hesp hk hn ha, Cpu.push_esp hesp⟩
  | pusha =>
    cases hi
    exact Cpu.pushAll_memory hesp hk hn ha
  | pop | popa | add | call | iret => cases hi

/-- **Saving.** Instructions that push write to the words below the stack pointer only. -/
theorem run_pushedWords : ∀ {is : List (Instr σ)} {s : Cpu} {m k : ℕ}, pushedWords is = some m →
    s.reg .esp = base - BitVec.ofNat 32 (4 * k) → 4 * (k + m) ≤ n → n ≤ 4294967296 →
      a ∉ below base n → (run link is s).2.memory a = s.memory a ∧
        (run link is s).2.reg .esp = base - BitVec.ofNat 32 (4 * (k + m))
  | [], _, _, _, hm, hesp, _, _, _ => by
    cases hm
    exact ⟨rfl, hesp⟩
  | i :: is, s, m, k, hm, hesp, hk, hn, ha => by
    obtain ⟨m₁, hi, hm⟩ := Option.bind_eq_some_iff.mp hm
    obtain ⟨m₂, his, rfl⟩ := Option.map_eq_some_iff.mp hm
    have hfirst : (i.exec link s).memory a = s.memory a ∧
        (i.exec link s).reg .esp = base - BitVec.ofNat 32 (4 * (k + m₁)) :=
      Instr.exec_pushes hi hesp (by omega) hn ha
    obtain ⟨hmem, hesp'⟩ := run_pushedWords his hfirst.2 (by omega) hn ha
    rw [Nat.add_assoc] at hesp'
    exact ⟨hmem.trans hfirst.1, hesp'⟩

/-- Instructions that do not write to memory. -/
def Instr.writesNothing : Instr σ → Bool
  | .cli | .pop _ | .popa | .movFromSeg _ _ | .movLow _ _ | .movToSeg _ _ | .add _ _ | .iret => true
  | .pushByte _ | .push _ | .pusha | .call _ => false

theorem Cpu.iret_memory (s : Cpu) : s.iret.memory = s.memory := by
  unfold Cpu.iret
  dsimp only
  split_ifs <;> rfl

/-- **Restoring.** -/
theorem run_writesNothing : ∀ {is : List (Instr σ)} {s : Cpu}, is.all Instr.writesNothing = true →
    (run link is s).2.memory = s.memory
  | [], _, _ => rfl
  | i :: is, s, h => by
    rw [List.all_cons, Bool.and_eq_true] at h
    have hi : (i.exec link s).memory = s.memory := by
      cases i with
      | cli | pop | popa | movFromSeg | movLow | movToSeg | add => rfl
      | iret => exact s.iret_memory
      | pushByte | push | pusha | call => cases h.1
    exact (run_writesNothing h.2).trans hi

/-- **An interrupt** of a program with fewer privileges is delivered on the stack of the handler. -/
theorem Cpu.interrupt_memory {tss : Tss} (gate : Gate) (code : Option (BitVec 32))
    (hcs : rpl (s.seg .cs) ≠ 0) (hn : 24 ≤ n) (hn' : n ≤ 4294967296) (ha : a ∉ below tss.esp0 n) :
    (s.interrupt tss gate code).memory a = s.memory a ∧
      (s.interrupt tss gate code).reg .esp =
        tss.esp0 - BitVec.ofNat 32 (4 * (5 + code.toList.length)) := by
  set inner := (s.setReg .esp tss.esp0).setSeg .ss tss.ss0 with hinner
  have hesp : inner.reg .esp = tss.esp0 - BitVec.ofNat 32 (4 * 0) := by
    rw [hinner, Cpu.setSeg_reg, Cpu.setReg_reg, if_pos rfl]
    exact (BitVec.sub_zero _).symm
  have hframe : s.frame.length = 5 := by
    unfold Cpu.frame
    rw [if_neg hcs]
    rfl
  have hcode : code.toList.length ≤ 1 := Option.length_toList_le
  have hlength : (s.frame.reverse ++ code.toList).length = 5 + code.toList.length := by
    rw [List.length_append, List.length_reverse, hframe]
  have h : (inner.pushAll (s.frame.reverse ++ code.toList)).memory a = inner.memory a ∧
      (inner.pushAll (s.frame.reverse ++ code.toList)).reg .esp =
        tss.esp0 - BitVec.ofNat 32 (4 * (0 + (s.frame.reverse ++ code.toList).length)) :=
    Cpu.pushAll_memory hesp (by rw [hlength]; omega) hn' ha
  rw [hlength, Nat.zero_add] at h
  unfold Cpu.interrupt
  rw [if_neg hcs]
  exact h

/-! ### What a program sees -/

/-- A program whose memory is `U` sees the same registers, flags and memory. -/
structure Cpu.Agree (U : Set (BitVec 32)) (s t : Cpu) : Prop where
  reg : s.reg = t.reg
  seg : s.seg = t.seg
  eip : s.eip = t.eip
  eflags : s.eflags = t.eflags
  memory : ∀ a ∈ U, s.memory a = t.memory a

namespace Cpu.Agree

variable {U : Set (BitVec 32)}

theorem refl (U : Set (BitVec 32)) (s : Cpu) : s.Agree U s := ⟨rfl, rfl, rfl, rfl, fun _ _ => rfl⟩

theorem symm (h : s.Agree U t) : t.Agree U s :=
  ⟨h.reg.symm, h.seg.symm, h.eip.symm, h.eflags.symm, fun a ha => (h.memory a ha).symm⟩

theorem trans (h : s.Agree U t) (h' : t.Agree U u) : s.Agree U u :=
  ⟨h.reg.trans h'.reg, h.seg.trans h'.seg, h.eip.trans h'.eip, h.eflags.trans h'.eflags,
    fun a ha => (h.memory a ha).trans (h'.memory a ha)⟩

end Cpu.Agree

/-! ### Operands in memory -/

/-- Instructions with operands in memory, next to those of `Instr`. -/
inductive LoadInstr (σ : Type)
  /-- `mov` between registers. -/
  | mov (r r' : Reg)
  /-- `mov` of the word at an offset from a register. -/
  | load (r p : Reg) (offset : BitVec 32)
  /-- `mov` of half a word to the lower half of a register. -/
  | loadLow (r p : Reg) (offset : BitVec 32)
  /-- `push` of the word at an offset from a register. -/
  | pushLoad (p : Reg) (offset : BitVec 32)
  | plain (i : Instr σ)
  deriving DecidableEq, Repr

def LoadInstr.exec (link : Linked σ) (s : Cpu) : LoadInstr σ → Cpu
  | .mov r r' => s.setReg r (s.reg r')
  | .load r p offset => s.setReg r (X86.load s.memory (s.reg p + offset))
  | .loadLow r p offset => s.setReg r
      ((s.reg r).extractLsb' 16 16 ++ wordSelector (X86.load s.memory (s.reg p + offset)))
  | .pushLoad p offset => s.push (X86.load s.memory (s.reg p + offset))
  | .plain i => i.exec link s

/-- The instructions one after the other. -/
def runLoads (link : Linked σ) (is : List (LoadInstr σ)) (s : Cpu) : Cpu :=
  is.foldl (LoadInstr.exec link) s

theorem runLoads_append (is js : List (LoadInstr σ)) (s : Cpu) :
    runLoads link (is ++ js) s = runLoads link js (runLoads link is s) :=
  List.foldl_append

/-- Several words are pushed from memory that is not where the stack grows. -/
theorem runLoads_pushLoad {p : Reg} (hp : p ≠ .esp) {m : BitVec 32 → BitVec 8}
    {f : BitVec 32 → BitVec 32} :
    ∀ {offsets : List (BitVec 32)} {s : Cpu} {k : ℕ},
      (∀ m', (∀ a, a ∉ below base n → m' a = m a) → ∀ o ∈ offsets, load m' (s.reg p + o) = f o) →
      (∀ a, a ∉ below base n → s.memory a = m a) → s.reg .esp = base - BitVec.ofNat 32 (4 * k) →
      4 * (k + offsets.length) ≤ n → n ≤ 4294967296 →
      runLoads link (offsets.map (LoadInstr.pushLoad p)) s = s.pushAll (offsets.map f)
  | [], _, _, _, _, _, _, _ => rfl
  | o :: offsets, s, k, hf, hmem, hesp, hk, hn => by
    rw [List.length_cons] at hk
    have hword : load s.memory (s.reg p + o) = f o := hf s.memory hmem o List.mem_cons_self
    change runLoads link (offsets.map (LoadInstr.pushLoad p))
      (s.push (load s.memory (s.reg p + o))) = (s.push (f o)).pushAll (offsets.map f)
    rw [hword]
    -- the word pushed is below the base as well
    have hpush : ∀ a, a ∉ below base n → (s.push (f o)).memory a = m a := fun a ha =>
      (Cpu.push_memory hesp (by omega) hn ha).trans (hmem a ha)
    have hreg : (s.push (f o)).reg p = s.reg p := Function.update_of_ne hp _ _
    refine runLoads_pushLoad hp (fun m' hm' o' ho' => ?_) hpush (Cpu.push_esp hesp) (by omega) hn
    rw [hreg]
    exact hf m' hm' o' (List.mem_cons_of_mem o ho')

end Verif.X86
