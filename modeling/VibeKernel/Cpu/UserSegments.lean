import VibeKernel.Cpu.DescriptorTables
import VibeKernel.Lib.Run

/-!
# Programs at level 3 and the descriptor tables

What a user program can reach through the tables that `gdt_init`, `isr_install` and `task_switch`
leave. A program may load any selector into any segment register, jump, call and return to any
segment, and use `int` with any number, and any interrupt or exception may come; a handler ends with
the common part of its stub, which loads the data segments from the one that it saved.

`userStep` says what the tables are for, without any table: a program changes among the data
segments of its own, and everything else is an exception, or enters the stub of an interrupt on the
stack of the task. `user_segments_confined` says that the processor does exactly this with the
tables of the kernel.

The ports are another matter. `write_tss` leaves the base of the map of the ports at zero, so that
the fields of the segment are the map, and `user_ports_iff` says which ports a program can use.
-/

namespace VibeKernel

open Verif Verif.X86

/-! ### The processor -/

/-- The segment registers of a program. -/
structure Selectors where
  cs : BitVec 16
  ss : BitVec 16
  ds : BitVec 16
  es : BitVec 16
  fs : BitVec 16
  gs : BitVec 16
  deriving DecidableEq, Repr

/-- A segment register is loaded. -/
def Selectors.set (s : Selectors) (g : Seg) (sel : BitVec 16) : Selectors :=
  match g with
  | .cs => { s with cs := sel }
  | .ss => { s with ss := sel }
  | .ds => { s with ds := sel }
  | .es => { s with es := sel }
  | .fs => { s with fs := sel }
  | .gs => { s with gs := sel }

/-- What runs: a program, the handler of an interrupt of it, or something else. -/
inductive Running
  | program (s : Selectors)
  | handler (s : Selectors) (vector : ℕ) (entry : System.Entry)
  /-- A gate or a task, through a far jump or call. -/
  | system (d : Descriptor)
  /-- An interrupt of a handler. -/
  | nested (what : System.Delivered)
  | stopped
  deriving DecidableEq

/-- What a program does, or what comes. -/
inductive SegEvent
  /-- `mov` or `pop` to a segment register. -/
  | load (g : Seg) (sel : BitVec 16)
  /-- A far jump or call. -/
  | far (sel : BitVec 16)
  /-- A far return or `iret`, with what is on the stack for `cs` and `ss`. -/
  | farReturn (sel stack : BitVec 16)
  | int (n : BitVec 8)
  /-- An interrupt or exception. -/
  | arrives (n : BitVec 8)
  /-- The handler returns. -/
  | resume
  deriving DecidableEq, Repr

/-- An event of a program is delivered. -/
def Selectors.deliver (sys : System) (s : Selectors) (software : Bool) (vector : ℕ) : Running :=
  match sys.deliver (selectorLevel s.cs) software vector with
  | .entered v entry => .handler s v entry
  | .shutdown => .stopped

/-- A fault of an instruction. -/
def Selectors.fault (sys : System) (s : Selectors) (fault : Fault) : Running :=
  s.deliver sys false fault.vector

/-- `mov` or `pop` to a segment register. There is none to `cs`. -/
def loadStep (sys : System) (s : Selectors) (g : Seg) (sel : BitVec 16) : Running :=
  if g = .cs then s.fault sys .invalidOpcode
  else
    match if g = .ss then sys.loadStack (selectorLevel s.cs) sel
      else sys.loadData (selectorLevel s.cs) sel with
    | .error f => s.fault sys f
    | .ok () => .program (s.set g sel)

/-- A far jump or call. -/
def farStep (sys : System) (s : Selectors) (sel : BitVec 16) : Running :=
  match sys.farTransfer (selectorLevel s.cs) sel with
  | .error f => s.fault sys f
  | .ok (.code cs) => .program { s with cs := cs }
  | .ok (.system d) => .system d

/-- A far return or `iret`. -/
def farReturnStep (sys : System) (s : Selectors) (sel stack : BitVec 16) : Running :=
  match sys.farReturn (selectorLevel s.cs) sel stack with
  | .error f => s.fault sys f
  | .ok (cs, none) => .program { s with cs := cs }
  | .ok (cs, some ss) =>
    let level := selectorLevel cs
    .program ⟨cs, ss, sys.kept level s.ds, sys.kept level s.es, sys.kept level s.fs,
      sys.kept level s.gs⟩

/-- A step of a program. -/
def programStep (sys : System) (s : Selectors) : SegEvent → Except Unit Running
  | .load g sel => .ok (loadStep sys s g sel)
  | .far sel => .ok (farStep sys s sel)
  | .farReturn sel stack => .ok (farReturnStep sys s sel stack)
  | .int n => .ok (s.deliver sys true n.toNat)
  | .arrives n => .ok (s.deliver sys false n.toNat)
  | .resume => .error ()

/-- The end of a stub: the data segments are loaded from the one that was saved, and `iret` returns
to the program. -/
def resumeStep (sys : System) (s : Selectors) (level : ℕ) : Running :=
  match sys.loadData level s.ds with
  | .error f => .nested (sys.deliver level false f.vector)
  | .ok () =>
    match sys.farReturn level s.cs s.ss with
    | .error f => .nested (sys.deliver level false f.vector)
    | .ok (cs, none) => .program ⟨cs, s.ss, s.ds, s.ds, s.ds, s.ds⟩
    | .ok (cs, some ss) =>
      let ds := sys.kept (selectorLevel cs) s.ds
      .program ⟨cs, ss, ds, ds, ds, ds⟩

/-- A step. -/
def segStep (sys : System) : Running → SegEvent → Except Unit (Unit × Running)
  | .program s, event => (programStep sys s event).map fun r => ((), r)
  | .handler s _ entry, .resume => .ok ((), resumeStep sys s (selectorLevel entry.cs))
  | _, _ => .error ()

/-- The tables while a task runs: the address of `tss_entry`, the stubs, the stack for the handlers,
and what was in `gdt` and `tss_entry` before. -/
def taskSystem (tssAddr : BitVec 32) (stubAddr : ℕ → BitVec 32) (esp0 : BitVec 32)
    (before : Segmentation) :
    System :=
  kernelSystem tssAddr ((gdtInit tssAddr before).setEsp0 esp0) (isrInstall stubAddr idtBoot)

/-- The segments that `task_return` gives to a program. -/
def userSelectors : Selectors := ⟨0x1B, 0x23, 0x23, 0x23, 0x23, 0x23⟩

/-! ### The purpose of the tables -/

/-- The data segments of a program: none, its code or its data. -/
def UserSelectable (sel : BitVec 16) : Prop :=
  sel.toNat < 4 ∨ (0x18 ≤ sel.toNat ∧ sel.toNat < 0x1C) ∨ (0x20 ≤ sel.toNat ∧ sel.toNat < 0x24)

instance : DecidablePred UserSelectable := fun _ => inferInstanceAs (Decidable (_ ∨ _))

/-- The entry of a stub, on the stack of the task. -/
def taskEntry (stubAddr : ℕ → BitVec 32) (esp0 : BitVec 32) (vector : ℕ) : System.Entry :=
  ⟨0x08, stubAddr vector, some (0x10, esp0)⟩

/-- The program is interrupted. -/
def Selectors.enters (s : Selectors) (stubAddr : ℕ → BitVec 32) (esp0 : BitVec 32)
    (vector : ℕ) : Running :=
  .handler s vector (taskEntry stubAddr esp0 vector)

/-- What is to happen in a program. -/
def userProgram (stubAddr : ℕ → BitVec 32) (esp0 : BitVec 32) (s : Selectors) :
    SegEvent → Except Unit Running
  | .load g sel => .ok <|
    if g = .cs then s.enters stubAddr esp0 6
    else if (if g = .ss then sel = 0x23 else UserSelectable sel) then .program (s.set g sel)
    else s.enters stubAddr esp0 13
  | .far sel => .ok <|
    if 0x18 ≤ sel.toNat ∧ sel.toNat < 0x1C then .program s else s.enters stubAddr esp0 13
  | .farReturn sel _ => .ok <| if sel = 0x1B then .program s else s.enters stubAddr esp0 13
  | .int _ => .ok (s.enters stubAddr esp0 13)
  | .arrives n => .ok (s.enters stubAddr esp0 (if n.toNat < 48 then n.toNat else 13))
  | .resume => .error ()

/-- What is to happen. -/
def userStep (stubAddr : ℕ → BitVec 32) (esp0 : BitVec 32) :
    Running → SegEvent → Except Unit (Unit × Running)
  | .program s, event => (userProgram stubAddr esp0 s event).map fun r => ((), r)
  | .handler s _ _, .resume => .ok ((), .program ⟨0x1B, 0x23, s.ds, s.ds, s.ds, s.ds⟩)
  | _, _ => .error ()

/-- The segments of a program are its own. -/
structure Selectors.Own (s : Selectors) : Prop where
  cs : s.cs = 0x1B
  ss : s.ss = 0x23
  ds : UserSelectable s.ds
  es : UserSelectable s.es
  fs : UserSelectable s.fs
  gs : UserSelectable s.gs

/-- A program runs in its own segments, or the stub of an interrupt does, on the stack of the
task. -/
def Running.Confined (stubAddr : ℕ → BitVec 32) (esp0 : BitVec 32) : Running → Prop
  | .program s => s.Own
  | .handler s vector entry => s.Own ∧ vector < 48 ∧ entry = taskEntry stubAddr esp0 vector
  | _ => False

/-! ### The segments -/

section Segments

variable {tssAddr esp0 : BitVec 32} {stubAddr : ℕ → BitVec 32} {before : Segmentation}
    {sel : BitVec 16}

theorem task_find (sel : BitVec 16) : (taskSystem tssAddr stubAddr esp0 before).find sel =
    if selectorLocal sel then none else kernelDescriptor tssAddr (selectorIndex sel) :=
  kernel_find sel

/-- What a selector finds: nothing, or one of the six segments. -/
theorem task_find_cases (sel : BitVec 16) :
    (taskSystem tssAddr stubAddr esp0 before).find sel = none ∧
      (sel.toNat / 4 % 2 = 1 ∨ 48 ≤ sel.toNat) ∨
      ∃ i d, i < 6 ∧ sel.toNat / 4 = 2 * i ∧ kernelDescriptor tssAddr i = some d ∧
        (taskSystem tssAddr stubAddr esp0 before).find sel = some d := by
  rw [task_find]
  by_cases hlocal : selectorLocal sel
  · rw [if_pos hlocal]
    exact Or.inl ⟨rfl, Or.inl hlocal⟩
  rw [if_neg hlocal]
  unfold selectorLocal at hlocal
  unfold selectorIndex
  by_cases hi : sel.toNat / 8 < 6
  · have hd : ∃ d, kernelDescriptor tssAddr (sel.toNat / 8) = some d := by
      generalize sel.toNat / 8 = i at hi
      interval_cases i <;> exact ⟨_, rfl⟩
    obtain ⟨d, hd⟩ := hd
    exact Or.inr ⟨sel.toNat / 8, d, hi, by omega, hd, hd⟩
  · obtain ⟨k, hk⟩ : ∃ k, sel.toNat / 8 = k + 6 := ⟨sel.toNat / 8 - 6, by omega⟩
    rw [hk]
    exact Or.inl ⟨rfl, Or.inr (by omega)⟩

/-- **A data segment of a program.** -/
theorem task_loadData (sel : BitVec 16) : (taskSystem tssAddr stubAddr esp0 before).loadData 3 sel =
    if UserSelectable sel then .ok () else .error .protection := by
  have huser : UserSelectable sel ↔ sel.toNat < 4 ∨ (0x18 ≤ sel.toNat ∧ sel.toNat < 0x1C) ∨
    (0x20 ≤ sel.toNat ∧ sel.toNat < 0x24) := Iff.rfl
  unfold System.loadData selectorLevel
  by_cases hnull : selectorNull sel
  · rw [if_pos hnull, if_pos (huser.mpr (Or.inl hnull))]
  rw [if_neg hnull]
  unfold selectorNull at hnull
  rcases @task_find_cases tssAddr esp0 stubAddr before sel with ⟨hfind, hout⟩ |
    ⟨i, d, hi, hsel, hd, hfind⟩
  · rw [hfind, if_neg (huser.not.mpr (by omega))]
  rw [hfind]
  have hlevel : sel.toNat % 4 ≤ 3 := by omega
  -- one case for each segment
  interval_cases i
  · omega
  · cases hd
    rw [if_neg (huser.not.mpr (by omega))]
    simp [kernelCode_fields]
  · cases hd
    rw [if_neg (huser.not.mpr (by omega))]
    simp [kernelData_fields]
  · cases hd
    rw [if_pos (huser.mpr (by omega))]
    simp [userCode_fields, hlevel]
  · cases hd
    rw [if_pos (huser.mpr (by omega))]
    simp [userData_fields, hlevel]
  · cases hd
    rw [if_neg (huser.not.mpr (by omega))]
    simp [taskState_fields]

/-- **The stack of a program.** -/
theorem task_loadStack (sel : BitVec 16) :
    (taskSystem tssAddr stubAddr esp0 before).loadStack 3 sel =
    if sel = 0x23 then .ok () else .error .protection := by
  have hval : sel = 0x23 ↔ sel.toNat = 0x23 := BitVec.toNat_eq
  unfold System.loadStack selectorLevel
  by_cases hnull : selectorNull sel
  · rw [if_pos hnull, if_neg (hval.not.mpr (by unfold selectorNull at hnull; omega))]
  rw [if_neg hnull]
  unfold selectorNull at hnull
  rcases @task_find_cases tssAddr esp0 stubAddr before sel with ⟨hfind, hout⟩ |
    ⟨i, d, hi, hsel, hd, hfind⟩
  · rw [hfind, if_neg (hval.not.mpr (by omega))]
  rw [hfind]
  interval_cases i
  · omega
  · cases hd
    rw [if_neg (hval.not.mpr (by omega))]
    simp [kernelCode_fields]
  · cases hd
    rw [if_neg (hval.not.mpr (by omega))]
    simp [kernelData_fields]
  · cases hd
    rw [if_neg (hval.not.mpr (by omega))]
    simp [userCode_fields]
  · cases hd
    by_cases hlevel : sel.toNat % 4 = 3
    · rw [if_pos (hval.mpr (by omega))]
      simp [userData_fields, hlevel]
    · rw [if_neg (hval.not.mpr (by omega))]
      simp [hlevel]
  · cases hd
    rw [if_neg (hval.not.mpr (by omega))]
    simp [taskState_fields]

/-- **A far jump or call of a program.** -/
theorem task_farTransfer (sel : BitVec 16) :
    (taskSystem tssAddr stubAddr esp0 before).farTransfer 3 sel =
    if 0x18 ≤ sel.toNat ∧ sel.toNat < 0x1C then .ok (.code 0x1B) else .error .protection := by
  unfold System.farTransfer selectorLevel
  by_cases hnull : selectorNull sel
  · rw [if_pos hnull, if_neg (by unfold selectorNull at hnull; omega)]
  rw [if_neg hnull]
  unfold selectorNull at hnull
  rcases @task_find_cases tssAddr esp0 stubAddr before sel with ⟨hfind, hout⟩ |
    ⟨i, d, hi, hsel, hd, hfind⟩
  · rw [hfind, if_neg (by omega)]
  rw [hfind]
  have hlevel : sel.toNat % 4 ≤ 3 := by omega
  interval_cases i
  · omega
  · cases hd
    rw [if_neg (by omega : ¬ (0x18 ≤ sel.toNat ∧ _))]
    simp [kernelCode_fields]
  · cases hd
    rw [if_neg (by omega : ¬ (0x18 ≤ sel.toNat ∧ _))]
    simp [kernelData_fields]
  · cases hd
    have hcs : withLevel sel 3 = 0x1B := by
      unfold withLevel
      rw [hsel]
      rfl
    rw [if_pos (by omega : 0x18 ≤ sel.toNat ∧ _), ← hcs]
    simp [userCode_fields, hlevel]
  · cases hd
    rw [if_neg (by omega : ¬ (0x18 ≤ sel.toNat ∧ _))]
    simp [userData_fields]
  · cases hd
    rw [if_neg (by omega : ¬ (0x18 ≤ sel.toNat ∧ _))]
    simp [taskState_fields]

/-- **A far return of a program.** -/
theorem task_farReturn (sel stack : BitVec 16) :
    (taskSystem tssAddr stubAddr esp0 before).farReturn 3 sel stack =
      if sel = 0x1B then .ok (0x1B, none) else .error .protection := by
  have hval : sel = 0x1B ↔ sel.toNat = 0x1B := BitVec.toNat_eq
  unfold System.farReturn selectorLevel
  by_cases hnull : selectorNull sel
  · rw [if_pos hnull, if_neg (hval.not.mpr (by unfold selectorNull at hnull; omega))]
  rw [if_neg hnull]
  unfold selectorNull at hnull
  rcases @task_find_cases tssAddr esp0 stubAddr before sel with ⟨hfind, hout⟩ |
    ⟨i, d, hi, hsel, hd, hfind⟩
  · rw [hfind, if_neg (hval.not.mpr (by omega))]
  rw [hfind]
  by_cases hlevel : sel.toNat % 4 < 3
  · rw [if_neg (hval.not.mpr (by omega))]
    simp [hlevel]
  have hlevel' : sel.toNat % 4 = 3 := by omega
  interval_cases i
  · omega
  · cases hd
    rw [if_neg (hval.not.mpr (by omega))]
    simp [kernelCode_fields, hlevel']
  · cases hd
    rw [if_neg (hval.not.mpr (by omega))]
    simp [kernelData_fields]
  · cases hd
    have hsel' : sel = 0x1B := hval.mpr (by omega)
    rw [if_pos hsel', hsel']
    simp [userCode_fields]
  · cases hd
    rw [if_neg (hval.not.mpr (by omega))]
    simp [userData_fields]
  · cases hd
    rw [if_neg (hval.not.mpr (by omega))]
    simp [taskState_fields]

/-- **A gate, for a program.** No gate is for `int`. -/
theorem task_throughGate {v : ℕ} (hv : v < 256) (software : Bool) :
    (taskSystem tssAddr stubAddr esp0 before).throughGate 3 software v =
      if software = false ∧ v < 48 then .ok (taskEntry stubAddr esp0 v)
        else .error .protection := by
  have hgate : ((taskSystem tssAddr stubAddr esp0 before).idt.entry v).map GateEntry.ofBytes =
      some (if v < 48 then ⟨stubAddr v, idtKernelCs, 0x8E⟩ else ⟨0, 0, 0⟩) := isrInstall_gate hv
  by_cases h48 : v < 48
  swap
  · rw [if_neg h48] at hgate
    rw [if_neg fun h => h48 h.2]
    exact System.throughGate_protection hgate (Or.inl (by decide))
  rw [if_pos h48] at hgate
  -- a gate for interrupts, which has all privileges
  have hgateFields : (GateEntry.mk (stubAddr v) idtKernelCs 0x8E).kind = 14 ∧
      (GateEntry.mk (stubAddr v) idtKernelCs 0x8E).dpl = 0 ∧
      (GateEntry.mk (stubAddr v) idtKernelCs 0x8E).present = true := by
    change (GateEntry.mk 0 0 0x8E).kind = 14 ∧ (GateEntry.mk 0 0 0x8E).dpl = 0 ∧
      (GateEntry.mk 0 0 0x8E).present = true
    decide
  obtain ⟨hkind, hdpl, hgatePresent⟩ := hgateFields
  cases software with
  | true =>
    rw [if_neg fun h => nomatch h.1]
    exact System.throughGate_protection hgate (Or.inr ⟨rfl, by rw [hdpl]; decide⟩)
  | false =>
    obtain ⟨-, hcode, hconforming, -, -, hlevel, hpresent⟩ := kernelCode_fields
    have hstack : (taskSystem tssAddr stubAddr esp0 before).innerStack kernelCode.dpl =
        .ok (0x10, esp0) := by
      rw [hlevel]
      exact kernel_innerStack
    have hnull : ¬ selectorNull idtKernelCs := by decide
    have hfind : (taskSystem tssAddr stubAddr esp0 before).find idtKernelCs = some kernelCode :=
      (task_find idtKernelCs).trans (if_neg (by decide))
    have hlt : kernelCode.dpl < 3 := by
      rw [hlevel]
      decide
    have hthrough := System.throughGate_inner hgate (by rw [hkind]; decide)
      (fun h => Bool.false_ne_true h.1) hgatePresent hnull hfind hcode hconforming hlt hpresent
      hstack
    rw [if_pos ⟨rfl, h48⟩, hthrough, hlevel]
    refine congrArg Except.ok ?_
    have hcs : withLevel idtKernelCs 0 = 0x08 := by decide
    unfold taskEntry GateEntry.target
    rw [hkind, if_pos (Or.inl rfl), hcs]

/-- **An event of a program**, by its vector. -/
theorem task_deliver {v : ℕ} (hv : v < 256) (software : Bool) :
    (taskSystem tssAddr stubAddr esp0 before).deliver 3 software v =
      .entered (if software = false ∧ v < 48 then v else 13)
        (taskEntry stubAddr esp0 (if software = false ∧ v < 48 then v else 13)) := by
  have hgate := @task_throughGate tssAddr esp0 stubAddr before v hv software
  unfold System.deliver
  by_cases h : software = false ∧ v < 48
  · rw [if_pos h] at hgate
    rw [hgate, if_pos h]
  · -- the fault has a gate
    rw [if_neg h] at hgate
    have hfault := @task_throughGate tssAddr esp0 stubAddr before 13 (by decide) false
    rw [if_pos ⟨rfl, by decide⟩] at hfault
    have hbenign : ¬ (software = false ∧ v = 8) ∧ ¬ (software = false ∧ System.Contributory v) := by
      unfold System.Contributory
      constructor
      · rintro ⟨hs, rfl⟩
        exact h ⟨hs, by decide⟩
      · rintro ⟨hs, hv'⟩
        exact h ⟨hs, by omega⟩
    rw [hgate, if_neg h]
    dsimp only
    rw [if_neg hbenign.1, if_neg hbenign.2]
    have hvector : Fault.protection.vector = 13 := rfl
    unfold System.raise
    rw [hvector, hfault]

/-- The data segments of a program are those of its own level. -/
theorem UserSelectable.find (h : UserSelectable sel) : selectorNull sel ∨
    ∃ d, (taskSystem tssAddr stubAddr esp0 before).find sel = some d ∧
    d.readable = true ∧ d.dpl = 3 ∧ d.present = true ∧ selectorLevel sel ≤ 3 := by
  have hlevel : selectorLevel sel ≤ 3 := by
    unfold selectorLevel
    omega
  by_cases hnull : selectorNull sel
  · exact Or.inl hnull
  refine Or.inr ?_
  unfold UserSelectable at h
  unfold selectorNull at hnull
  rw [task_find, if_neg (by unfold selectorLocal; omega)]
  unfold selectorIndex
  obtain ⟨-, -, -, hreadable, -, hdpl, hpresent⟩ := userCode_fields
  obtain ⟨-, -, -, hreadable', -, hdpl', hpresent'⟩ := userData_fields
  rcases h with h | h | h
  · exact absurd h hnull
  · rw [show sel.toNat / 8 = 3 by omega]
    exact ⟨userCode, rfl, hreadable, hdpl, hpresent, hlevel⟩
  · rw [show sel.toNat / 8 = 4 by omega]
    exact ⟨userData, rfl, hreadable', hdpl', hpresent', hlevel⟩

/-- **The stub returns** to the program. -/
theorem task_resume {s : Selectors} (h : s.Own) :
    resumeStep (taskSystem tssAddr stubAddr esp0 before) s 0 =
      .program ⟨0x1B, 0x23, s.ds, s.ds, s.ds, s.ds⟩ := by
  have hload : (taskSystem tssAddr stubAddr esp0 before).loadData 0 s.ds = .ok () ∧
      (taskSystem tssAddr stubAddr esp0 before).kept 3 s.ds = s.ds := by
    unfold System.loadData System.kept
    rcases @UserSelectable.find tssAddr esp0 stubAddr before _ h.ds with
      hnull | ⟨d, hfind, hreadable, hdpl, hpresent, hlevel⟩
    · rw [if_pos hnull, if_pos hnull]
      exact ⟨rfl, rfl⟩
    · by_cases hnull : selectorNull s.ds
      · rw [if_pos hnull, if_pos hnull]
        exact ⟨rfl, rfl⟩
      · rw [if_neg hnull, if_neg hnull, hfind]
        simp [hreadable, hdpl, hpresent, hlevel]
  have hstack : (taskSystem tssAddr stubAddr esp0 before).loadStack 3 0x23 = .ok () := by
    rw [task_loadStack, if_pos rfl]
  have hreturn : (taskSystem tssAddr stubAddr esp0 before).farReturn 0 0x1B 0x23 =
      .ok (0x1B, some 0x23) := by
    have hfind : (taskSystem tssAddr stubAddr esp0 before).find 0x1B = some userCode :=
      (task_find 0x1B).trans (if_neg (by decide))
    have hlevel : selectorLevel 0x1B = 3 := by decide
    unfold System.farReturn
    rw [if_neg (by decide), hfind, hlevel, hstack]
    simp [userCode_fields]
  unfold resumeStep
  rw [hload.1, h.cs, h.ss]
  dsimp only
  rw [hreturn]
  dsimp only
  rw [show selectorLevel 0x1B = 3 by decide, hload.2]

end Segments

/-! ### Programs -/

section Programs

variable {tssAddr esp0 : BitVec 32} {stubAddr : ℕ → BitVec 32} {before : Segmentation}
    {s : Selectors}
  {r : Running} {event : SegEvent}

theorem task_fault (h : s.Own) (fault : Fault) :
    s.fault (taskSystem tssAddr stubAddr esp0 before) fault =
      s.enters stubAddr esp0 fault.vector := by
  have hvector : fault.vector < 48 := by cases fault <;> decide
  have hlevel : selectorLevel s.cs = 3 := by
    rw [h.cs]
    decide
  unfold Selectors.fault Selectors.deliver
  rw [hlevel, task_deliver (hvector.trans (by decide)), if_pos ⟨rfl, hvector⟩]
  rfl

theorem Selectors.Own.level (h : s.Own) : selectorLevel s.cs = 3 := by
  rw [h.cs]
  decide

theorem loadStep_eq (h : s.Own) (g : Seg) (sel : BitVec 16) :
    loadStep (taskSystem tssAddr stubAddr esp0 before) s g sel =
      if g = .cs then s.enters stubAddr esp0 6
      else if (if g = .ss then sel = 0x23 else UserSelectable sel) then .program (s.set g sel)
      else s.enters stubAddr esp0 13 := by
  unfold loadStep
  rw [h.level, task_loadStack, task_loadData, task_fault h .invalidOpcode]
  by_cases hcs : g = .cs
  · rw [if_pos hcs, if_pos hcs]
    rfl
  rw [if_neg hcs, if_neg hcs]
  by_cases hss : g = .ss
  · simp only [if_pos hss]
    by_cases hsel : sel = 0x23
    · simp only [if_pos hsel]
    · simp only [if_neg hsel]
      exact task_fault h .protection
  · simp only [if_neg hss]
    by_cases hsel : UserSelectable sel
    · simp only [if_pos hsel]
    · simp only [if_neg hsel]
      exact task_fault h .protection

theorem farStep_eq (h : s.Own) (sel : BitVec 16) :
    farStep (taskSystem tssAddr stubAddr esp0 before) s sel =
      if 0x18 ≤ sel.toNat ∧ sel.toNat < 0x1C then .program s else s.enters stubAddr esp0 13 := by
  unfold farStep
  rw [h.level, task_farTransfer]
  by_cases hsel : 0x18 ≤ sel.toNat ∧ sel.toNat < 0x1C
  · rw [if_pos hsel, if_pos hsel, ← h.cs]
  · rw [if_neg hsel, if_neg hsel]
    exact task_fault h .protection

theorem farReturnStep_eq (h : s.Own) (sel stack : BitVec 16) :
    farReturnStep (taskSystem tssAddr stubAddr esp0 before) s sel stack =
      if sel = 0x1B then .program s else s.enters stubAddr esp0 13 := by
  unfold farReturnStep
  rw [h.level, task_farReturn]
  by_cases hsel : sel = 0x1B
  · rw [if_pos hsel, if_pos hsel, ← h.cs]
  · rw [if_neg hsel, if_neg hsel]
    exact task_fault h .protection

theorem deliver_eq (h : s.Own) (software : Bool) (n : BitVec 8) :
    s.deliver (taskSystem tssAddr stubAddr esp0 before) software n.toNat =
      s.enters stubAddr esp0 (if software = false ∧ n.toNat < 48 then n.toNat else 13) := by
  unfold Selectors.deliver
  rw [h.level, task_deliver n.isLt]
  rfl

/-- **One step** with the tables is the step that they are for. -/
theorem segStep_eq (h : r.Confined stubAddr esp0) :
    segStep (taskSystem tssAddr stubAddr esp0 before) r event = userStep stubAddr esp0 r event := by
  cases r with
  | program s =>
    have hown : s.Own := h
    have hprogram : programStep (taskSystem tssAddr stubAddr esp0 before) s event =
        userProgram stubAddr esp0 s event := by
      cases event with
      | load g sel => exact congrArg Except.ok (loadStep_eq hown g sel)
      | far sel => exact congrArg Except.ok (farStep_eq hown sel)
      | farReturn sel stack => exact congrArg Except.ok (farReturnStep_eq hown sel stack)
      | int n =>
        have hdeliver := @deliver_eq tssAddr esp0 stubAddr before s hown true n
        rw [if_neg fun h => Bool.false_ne_true h.1.symm] at hdeliver
        exact congrArg Except.ok hdeliver
      | arrives n =>
        have hdeliver := @deliver_eq tssAddr esp0 stubAddr before s hown false n
        simp only [true_and] at hdeliver
        exact congrArg Except.ok hdeliver
      | resume => rfl
    unfold segStep userStep
    dsimp only
    rw [hprogram]
  | handler s vector entry =>
    obtain ⟨hown, -, rfl⟩ := h
    cases event with
    | resume =>
      have hlevel : selectorLevel (taskEntry stubAddr esp0 vector).cs = 0 := by
        change selectorLevel 0x08 = 0
        decide
      unfold segStep userStep
      dsimp only
      rw [hlevel, task_resume hown]
    | _ => rfl
  | system d => exact h.elim
  | nested what => exact h.elim
  | stopped => exact h.elim

/-- A program enters a stub. -/
theorem Selectors.Own.enters (h : s.Own) {vector : ℕ} (hv : vector < 48) :
    (s.enters stubAddr esp0 vector).Confined stubAddr esp0 := ⟨h, hv, rfl⟩

/-- A program loads a segment register with a segment of its own. -/
theorem Selectors.Own.set (h : s.Own) {g : Seg} {sel : BitVec 16} (hcs : g ≠ .cs)
    (hsel : if g = .ss then sel = 0x23 else UserSelectable sel) : (s.set g sel).Own := by
  cases g with
  | cs => exact absurd rfl hcs
  | ss => exact { h with ss := hsel }
  | ds => exact { h with ds := hsel }
  | es => exact { h with es := hsel }
  | fs => exact { h with fs := hsel }
  | gs => exact { h with gs := hsel }

/-- **One step** keeps a program in its segments. -/
theorem userStep_confined (h : r.Confined stubAddr esp0) {u : Unit} {t : Running}
    (hstep : userStep stubAddr esp0 r event = .ok (u, t)) : t.Confined stubAddr esp0 := by
  cases r with
  | program s =>
    have hown : s.Own := h
    cases event with
    | load g sel =>
      cases hstep
      by_cases hcs : g = .cs
      · rw [if_pos hcs]
        exact hown.enters (by decide)
      rw [if_neg hcs]
      -- a data segment of its own, or a fault
      by_cases hsel : if g = .ss then sel = 0x23 else UserSelectable sel
      · rw [if_pos hsel]
        exact hown.set hcs hsel
      · rw [if_neg hsel]
        exact hown.enters (by decide)
    | far sel =>
      cases hstep
      split_ifs
      · exact hown
      · exact hown.enters (by decide)
    | farReturn sel stack =>
      cases hstep
      split_ifs
      · exact hown
      · exact hown.enters (by decide)
    | int n =>
      cases hstep
      exact hown.enters (by decide)
    | arrives n =>
      cases hstep
      -- a vector without a gate is a fault as well
      refine hown.enters ?_
      split_ifs with hn
      · exact hn
      · decide
    | resume => cases hstep
  | handler s vector entry =>
    obtain ⟨hown, -, -⟩ := h
    cases event with
    | resume =>
      cases hstep
      -- `iret` gives the selectors of the program back
      exact ⟨rfl, rfl, hown.ds, hown.ds, hown.ds, hown.ds⟩
    | _ => cases hstep
  | system d => exact h.elim
  | nested what => exact h.elim
  | stopped => exact h.elim

theorem userSelectors_own : userSelectors.Own :=
  ⟨rfl, rfl, by decide, by decide, by decide, by decide⟩

/-- **Programs stay in their segments.** With the tables of the kernel every run of a program, of
its interrupts and of the ends of their handlers is the run that the tables are for. In all of its
states the program is at level 3 in its own segments, or one of the 48 stubs was entered, on the
stack of the task. -/
theorem user_segments_confined (tssAddr : BitVec 32) (stubAddr : ℕ → BitVec 32) (esp0 : BitVec 32)
    (before : Segmentation) (events : List SegEvent) :
    runList (segStep (taskSystem tssAddr stubAddr esp0 before)) (.program userSelectors) events =
        runList (userStep stubAddr esp0) (.program userSelectors) events ∧
      ∀ us r, runList (segStep (taskSystem tssAddr stubAddr esp0 before))
        (.program userSelectors) events = .ok (us, r) → r.Confined stubAddr esp0 := by
  have hstart : (Running.program userSelectors).Confined stubAddr esp0 := userSelectors_own
  have hrun := @runList_congr _ _ _ _ (segStep (taskSystem tssAddr stubAddr esp0 before))
    (userStep stubAddr esp0) (Running.Confined stubAddr esp0) (fun r event h => segStep_eq h)
    (fun r event u t h hstep => userStep_confined h hstep) _ events hstart
  refine ⟨hrun, fun us r hr => ?_⟩
  rw [hrun] at hr
  exact @runList_invariant _ _ _ _ (userStep stubAddr esp0) (fun _ _ => True)
    (Running.Confined stubAddr esp0)
    (fun r event u t h _ hstep => userStep_confined h hstep) _ _ _ _ hstart (meets_true _ _) hr

end Programs

/-! ### Ports -/

/-- The sizes of `in` and `out`. -/
inductive PortSize
  | byte
  | word
  | dword
  deriving DecidableEq, Repr

def PortSize.ports : PortSize → ℕ
  | .byte => 1
  | .word => 2
  | .dword => 4

/-- The bit of a port is set in the fields of `tss_entry`: in `esp0`, or in one of the selectors. -/
def PortClosed (esp0 : BitVec 32) (port : ℕ) : Prop :=
  (32 ≤ port ∧ port < 64 ∧ esp0.getLsbD (port - 32) = true) ∨
    port ∈ [68, 580, 611, 644, 676, 708, 740]

instance (esp0 : BitVec 32) (port : ℕ) : Decidable (PortClosed esp0 port) :=
  inferInstanceAs (Decidable (_ ∨ _))

section Ports

variable {tssAddr esp0 : BitVec 32} {stubAddr : ℕ → BitVec 32} {before : Segmentation}

/-- The stack for the handlers is in the second word of `tss_entry` only. -/
theorem tss_byte_other {k : ℕ} (hk : k / 4 ≠ 1) :
    ((gdtInit tssAddr before).setEsp0 esp0).tssEntry.byte k =
      ((gdtInit 0 ⟨fun _ => ⟨0, 0, 0, 0, 0, 0⟩, .zero⟩).setEsp0 0).tssEntry.byte k := by
  unfold TssEntry.byte
  refine congrArg (fun w => wordByte w (k % 4)) ?_
  generalize k / 4 = i at hk
  cases i with
  | zero => rfl
  | succ i =>
    cases i with
    | zero => exact absurd rfl hk
    | succ i => rfl

/-- **The bits of the ports.** -/
theorem tss_bit {port : ℕ} (h : port < 832) :
    (((gdtInit tssAddr before).setEsp0 esp0).tssEntry.byte (port / 8)).getLsbD (port % 8) =
      decide (PortClosed esp0 port) := by
  by_cases hesp : 32 ≤ port ∧ port < 64
  · -- the bits of `esp0`
    have hword : ((gdtInit tssAddr before).setEsp0 esp0).tssEntry.byte (port / 8) =
        wordByte esp0 (port / 8 % 4) := by
      unfold TssEntry.byte
      rw [show port / 8 / 4 = 1 by omega]
      rfl
    have hbit : 8 * (port / 8 % 4) + port % 8 = port - 32 := by omega
    have hclosed : PortClosed esp0 port ↔ esp0.getLsbD (port - 32) = true := by
      unfold PortClosed
      constructor
      · rintro (h | h)
        · exact h.2.2
        · simp only [List.mem_cons, List.not_mem_nil, or_false] at h
          omega
      · exact fun h => Or.inl ⟨hesp.1, hesp.2, h⟩
    rw [hword]
    unfold wordByte
    rw [BitVec.getLsbD_extractLsb', hbit]
    by_cases hset : esp0.getLsbD (port - 32) = true
    · rw [hset, decide_eq_true (hclosed.mpr hset), decide_eq_true (by omega)]
      rfl
    · have hclear : esp0.getLsbD (port - 32) = false := by simpa using hset
      rw [hclear, decide_eq_false fun hc => hset (hclosed.mp hc), Bool.and_false]
  · -- all others are fixed
    have hfixed : ∀ p < 832, ¬ (32 ≤ p ∧ p < 64) →
        ((((gdtInit 0 ⟨fun _ => ⟨0, 0, 0, 0, 0, 0⟩, .zero⟩).setEsp0 0).tssEntry.byte
          (p / 8)).getLsbD (p % 8) = decide (p ∈ [68, 580, 611, 644, 676, 708, 740])) := by
      decide +kernel
    rw [tss_byte_other (by omega), hfixed port h hesp]
    refine decide_eq_decide.mpr ⟨Or.inr, ?_⟩
    rintro (h | h)
    · exact absurd ⟨h.1, h.2.1⟩ hesp
    · exact h

/-- **The ports of a program**, which runs at level 3 with the flags of `task_init`: all below 824
whose bits are clear in `tss_entry`. -/
theorem user_ports_iff (tssAddr : BitVec 32) (stubAddr : ℕ → BitVec 32) (esp0 : BitVec 32)
    (before : Segmentation) (port : ℕ) (size : PortSize) :
    (taskSystem tssAddr stubAddr esp0 before).PortsAllowed (selectorLevel 0x1B) (System.iopl 0x202)
      port size.ports ↔ port < 824 ∧ ∀ i < size.ports, ¬ PortClosed esp0 (port + i) := by
  have hmap : ((taskSystem tssAddr stubAddr esp0 before).tss.half 102).toNat = 0 := by
    change ((tssTable tssAddr ((gdtInit tssAddr before).setEsp0 esp0)).half 102).toNat = 0
    rw [tssTable_half 102 (by decide), @tss_byte_other tssAddr esp0 before (102 + 1) (by decide),
      @tss_byte_other tssAddr esp0 before 102 (by decide)]
    decide
  have hlimit : (taskSystem tssAddr stubAddr esp0 before).tss.limit = 103 := tssTable_limit
  have hlevel : ¬ selectorLevel 0x1B ≤ System.iopl 0x202 := by decide
  have hsize : size.ports ≤ 4 := by cases size <;> decide
  unfold System.PortsAllowed
  rw [or_iff_right hlevel, hmap, hlimit]
  simp only [Nat.zero_add]
  -- the processor reads the byte of the port and the next one
  have hbits : port < 824 → ∀ i < size.ports,
      (((taskSystem tssAddr stubAddr esp0 before).tss.half (port / 8)).getLsbD
        (port % 8 + i) = false ↔ ¬ PortClosed esp0 (port + i)) := by
    intro hport i hi
    change ((tssTable tssAddr ((gdtInit tssAddr before).setEsp0 esp0)).half
      (port / 8)).getLsbD _ = false ↔ _
    rw [tssTable_half _ (by omega), BitVec.getLsbD_append]
    have hbit := @tss_bit tssAddr esp0 before (port + i) (by omega)
    by_cases hlow : port % 8 + i < 8
    · rw [show (port + i) / 8 = port / 8 by omega,
        show (port + i) % 8 = port % 8 + i by omega] at hbit
      rw [if_pos hlow, hbit, decide_eq_false_iff_not]
    · rw [show (port + i) / 8 = port / 8 + 1 by omega,
        show (port + i) % 8 = port % 8 + i - 8 by omega] at hbit
      rw [if_neg hlow, hbit, decide_eq_false_iff_not]
  constructor
  · rintro ⟨-, hle, hall⟩
    have hport : port < 824 := by omega
    exact ⟨hport, fun i hi => (hbits hport i hi).mp (hall i hi)⟩
  · rintro ⟨hport, hall⟩
    exact ⟨le_refl _, by omega, fun i hi => (hbits hport i hi).mpr (hall i hi)⟩

end Ports

end VibeKernel
