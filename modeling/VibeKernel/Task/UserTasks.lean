import VibeKernel.Cpu.UserMode
import VibeKernel.Task.UserCopy

/-!
# The tasks of a run in user mode

`task_init` gives a task the selectors of user mode, and nothing that is done to tasks later takes
them away (`taskRun_userTasks`). So whichever live task `task_switch` is called for, in whatever
state a run has reached, it returns if the process of the task has a directory, and `task_return`
leaves the kernel for a program in user mode with interrupts enabled, on the stack of that task. The
stack for interrupts is the kernel stack of the task, and therefore a program that leaves its
segment registers alone, and whose memory the handlers leave alone, runs as if there were no
interrupts (`task_runs_alone`).

The process of a live task need not be live itself: `process_free` looks at no task. `task_switch`
then takes its directory from a freed block, or from that of the process that has got the block
since.
-/

namespace VibeKernel

open Verif

variable {H D : Type}

/-- `task->regs`. `task_init` clears the registers it does not set, and no function sets them
later. -/
def Task.registers (x : Task) : Registers where
  edi := 0
  esi := 0
  ebp := 0
  ebx := 0
  edx := 0
  ecx := 0
  eax := 0
  eip := BitVec.ofNat 32 x.eip
  cs := BitVec.ofNat 32 x.cs
  eflags := BitVec.ofNat 32 x.eflags
  esp := BitVec.ofNat 32 x.esp
  ss := BitVec.ofNat 32 x.ss

/-- All live tasks start in user mode. -/
def UserTasks (s : TaskSystem H D) : Prop :=
  ∀ task ∈ s.tasks, ∃ x, s.kernel.store task = some (.task x) ∧ x.StartsInUserMode

section Steps

variable {M : Machine H D} {s t : TaskSystem H D} {c : TaskCall} {r : ℕ}

/-- Steps that keep the members. -/
theorem UserTasks.keep (h : UserTasks s)
    (hmem : ∀ p ∈ t.tasks, p ∈ s.tasks)
    (hkept : ∀ p ∈ t.tasks, ∀ x, s.kernel.store p = some (.task x) →
      ∃ y, t.kernel.store p = some (.task y) ∧ y.core = x.core) : UserTasks t := by
  intro p hp
  obtain ⟨x, hx, huser⟩ := h p (hmem p hp)
  obtain ⟨y, hy, hcore⟩ := hkept p hp x hx
  exact ⟨y, hy, huser.core hcore⟩

/-- Steps of the other parts of the kernel. -/
theorem UserTasks.frame (h : UserTasks s) (hA : ArenaInv M s.kernel) {K : Kind → Prop}
    {k : Kernel H D} {cpu : Cpu} {procs : List ℕ} (hF : Frame K s.kernel k) (hK : ¬ K .task) :
    UserTasks ⟨⟨k, cpu⟩, procs, s.tasks⟩ :=
  h.keep (fun _ hp => hp) fun _ _ x hx => ⟨x, hF.store_eq hA hx hK, rfl⟩

/-- A new task joins the others. -/
theorem taskNew_userTasks {process : ℕ} (hI : SystemInv M s) (hU : UserTasks s)
    (h : taskStep M s (.taskNew process) = .ok (r, t)) : UserTasks t := by
  refine taskStep_of_wp (P := fun _ t => UserTasks t) ?_ h
  unfold TaskCall.run
  rw [wp_onKernel]
  refine taskNew_list_wp hI.tasks (fun k hk => ?_) fun task k _ hk => ?_
  · exact hU.frame hI.tasks.arena hk.step.frame fun hk => nomatch hk
  intro p hp
  have htasks : TaskCall.tasks s.tasks task (.taskNew process) = s.tasks ++ [task] :=
    if_neg hk.ne_zero
  rw [htasks] at hp
  rcases List.mem_append.mp hp with hp | hp
  · obtain ⟨x, hx, huser⟩ := hU p hp
    obtain ⟨y, hy, hcore⟩ := hk.kept p hp x hx
    exact ⟨y, hy, huser.core hcore⟩
  · rw [List.mem_singleton.mp hp]
    exact hk.made

/-- **Every call** keeps all live tasks in user mode. -/
theorem taskStep_userTasks (hI : SystemInv M s) (hU : UserTasks s) (hc : c.Live s)
    (h : taskStep M s c = .ok (r, t)) : UserTasks t := by
  have hA := hI.tasks.arena
  cases c with
  | processAlloc =>
    refine taskStep_of_wp (P := fun _ t => UserTasks t) ?_ h
    unfold TaskCall.run
    rw [wp_onKernel, wp_map]
    refine processAlloc_list_wp (fun _ _ => trivial) hI.procs (fun h' _ => hU) fun p k _ hk => ?_
    exact hU.frame hA hk.step.frame fun hk => nomatch hk
  | newSpace process flags =>
    refine taskStep_of_wp (P := fun _ t => UserTasks t) ?_ h
    unfold TaskCall.run
    rw [wp_onKernel, wp_map]
    refine newPagingChunk_list_wp hI.procs fun k hframe _ _ _ => ?_
    exact hU.frame hA hframe (by rintro (h | h) <;> cases h)
  | processFree process =>
    refine taskStep_of_wp (P := fun _ t => UserTasks t) ?_ h
    unfold TaskCall.run
    rw [wp_onKernel, wp_map]
    refine processFree_list_wp hI.procs hc fun k hk => ?_
    exact hU.frame hA hk.frame fun hk => nomatch hk
  | taskNew process => exact taskNew_userTasks hI hU h
  | taskFree task =>
    refine taskStep_of_wp (P := fun _ t => UserTasks t) ?_ h
    unfold TaskCall.run
    rw [wp_onKernel, wp_map]
    refine taskFree_list_wp hI.tasks hc fun k hk => ?_
    exact hU.keep (fun p hp => List.mem_of_mem_erase hp) fun p hp x hx => hk.kept p hp x hx
  | taskSwitch task =>
    -- only the static variables and the processor change
    refine taskStep_of_wp (P := fun _ t => UserTasks t) ?_ h
    unfold TaskCall.run VibeKernel.taskSwitch processDirectory pagingSwitch processSwitch
    rw [wp_map, wp_bind, wp_onKernel, wp_modify, wp_bind, wp_onKernel]
    refine readObj_wp_any fun _ x _ _ => ?_
    rw [wp_bind, wp_onKernel, wp_modify, wp_bind, wp_onKernel, wp_bind]
    refine readObj_wp_any fun _ bytes _ _ => readObj_wp_any fun _ directory _ _ => ?_
    rw [wp_bind, wp_modify, wp_bind, wp_modify, wp_pure]
    exact hU
  | pagingSwitch directory =>
    refine taskStep_of_wp (P := fun _ t => UserTasks t) ?_ h
    unfold TaskCall.run VibeKernel.pagingSwitch
    rw [wp_map, wp_modify]
    exact hU

/-- **All runs.** -/
theorem taskRun_userTasks {k : Kernel H D} (hk : Unused M k) {cpu : Cpu} {calls : List TaskCall}
    (hm : Meets (taskStep M) (fun s c => c.Live s) (TaskSystem.start k cpu) calls) {os : List ℕ}
    {u : TaskSystem H D} (hr : runList (taskStep M) (TaskSystem.start k cpu) calls = .ok (os, u)) :
    SystemInv M u ∧ UserTasks u := by
  have hstart : SystemInv M (TaskSystem.start k cpu) ∧ UserTasks (TaskSystem.start k cpu) :=
    ⟨hk.inv cpu, fun task htask => absurd htask List.not_mem_nil⟩
  have hstep : ∀ s c o t, SystemInv M s ∧ UserTasks s → TaskCall.Live s c →
      taskStep M s c = .ok (o, t) → SystemInv M t ∧ UserTasks t := fun _ _ _ _ hI hc hs =>
    ⟨(taskStep_refines hI.1 hc hs).1, taskStep_userTasks hI.1 hI.2 hc hs⟩
  exact runList_invariant hstep hstart hm hr

/-- The selectors that a task starts with have no privileges, and its flags have `IF`. -/
theorem Task.StartsInUserMode.registers {x : Task} (h : x.StartsInUserMode)
    (m : BitVec 32 → BitVec 8) :
    X86.rpl ((x.registers.enter m).seg .cs) = 3 ∧ InterruptsEnabled (x.registers.enter m) := by
  have hcs : (x.registers.enter m).seg .cs = X86.wordSelector (BitVec.ofNat 32 x.cs) := rfl
  have heflags : (x.registers.enter m).eflags = BitVec.ofNat 32 x.eflags := rfl
  unfold InterruptsEnabled
  rw [hcs, heflags, h.cs, h.eflags]
  decide

/-- **`task_switch` returns** for a task whose process has a directory. -/
theorem taskSwitch_returns {task : ℕ} {x : Task} {k : System H D}
    (hx : k.kernel.store task = some (.task x)) (hdir : HasDirectory k.kernel x.process) :
    ∃ v, taskSwitch task k = .ok (x, v) ∧ v.cpu.cr3 = k.kernel.directoryOf task ∧
      v.cpu.esp0 = u32 (x.kstack + 16383) := by
  have hread := hdir.taskDirectory_eq hx
  have hwp : wp (fun _ => False) (taskSwitch task) (fun y v => y = x ∧
      v.cpu.cr3 = k.kernel.directoryOf task ∧ v.cpu.esp0 = u32 (x.kstack + 16383)) k := by
    obtain ⟨bytes, dir, hproc, hchunk⟩ := hdir
    -- the directory that the function reads is that of the task
    have hof : dir = k.kernel.directoryOf task := by
      have hdir : wp (fun _ => True) (taskDirectory task) (fun d _ => dir = d) k.kernel := by
        unfold taskDirectory processDirectory
        rw [wp_bind]
        refine readObj_wp hx rfl ?_
        rw [wp_bind]
        exact readObj_wp hproc rfl (readObj_wp hchunk rfl rfl)
      exact hdir.ok hread
    unfold taskSwitch processDirectory pagingSwitch processSwitch
    rw [wp_bind, wp_onKernel, wp_modify, wp_bind, wp_onKernel]
    refine readObj_wp hx rfl ?_
    rw [wp_bind, wp_onKernel, wp_modify, wp_bind, wp_onKernel, wp_bind]
    refine readObj_wp hproc rfl (readObj_wp hchunk rfl ?_)
    rw [wp_bind, wp_modify, wp_bind, wp_modify, wp_pure]
    exact ⟨rfl, hof, rfl⟩
  obtain ⟨y, v, hrun, rfl, hcr3, hesp0⟩ := hwp.total
  exact ⟨v, hrun, hcr3, hesp0⟩

/-- The bytes that a stub writes are in the kernel stack. -/
theorem below_kstack {kstack : ℕ} (hk : kstack ≤ identityTop) {a : BitVec 32}
    (ha : a ∈ X86.below (BitVec.ofNat 32 (u32 (kstack + 16383))) stubFrame) :
    kstack ≤ a.toNat ∧ a.toNat < kstack + taskStackSize := by
  unfold identityTop at hk
  rw [u32_of_lt (by omega), X86.mem_below] at ha
  unfold stubFrame at ha
  unfold taskStackSize
  bv_omega

/-- The handlers leave memory of the program alone, whenever a stub calls one for it. -/
def Platform.HandlersSpare (P : Platform) (U : Set (BitVec 32)) : Prop :=
  ∀ f s, s.reg .esp = P.tss.esp0 - BitVec.ofNat 32 stubFrame → ∀ a ∈ U,
    (P.kernel.body f s).memory a = s.memory a

/-- **Tasks run alone.** In every run, for every live task whose process has a directory:
`task_switch` returns with this directory loaded, and `task_return` starts a program in user mode,
with interrupts enabled, on the stack of the task. And a program that leaves its data segments
alone, with its memory outside of the kernel stack and spared by the handlers, is at every point of
every interleaving with interrupt requests in the state that it would be in alone. -/
theorem task_runs_alone {k : Kernel H D} (hk : Unused M k) {cpu : Cpu} {calls : List TaskCall}
    (hm : Meets (taskStep M) (fun s c => c.Live s) (TaskSystem.start k cpu) calls) {os : List ℕ}
    {u : TaskSystem H D} (hr : runList (taskStep M) (TaskSystem.start k cpu) calls = .ok (os, u))
    {task : ℕ} (htask : task ∈ u.tasks) (hdir : HasDirectory u.kernel (u.kernel.taskProcess task))
    (link : X86.Linked CHandler) :
    ∃ x v, u.kernel.store task = some (.task x) ∧ taskSwitch task u.system = .ok (x, v) ∧
      v.cpu.cr3 = u.kernel.directoryOf task ∧
      ∀ state, EntersTaskReturn state (BitVec.ofNat 32 task) x.registers →
        ∃ m, X86.runLoads link taskReturn state = x.registers.enter m ∧
          (∀ a, a ∉ X86.below (state.reg .esp) 20 → m a = state.memory a) ∧
          x.esp = u32 (x.userStack + 16383) ∧ X86.rpl ((x.registers.enter m).seg .cs) = 3 ∧
          InterruptsEnabled (x.registers.enter m) ∧
          ∀ (P : Platform) (U : Set (BitVec 32)) (program : UserProgram U)
            (events : List UserEvent), P.tss.esp0 = BitVec.ofNat 32 v.cpu.esp0 → P.HandlersSpare U →
            (∀ a ∈ U, a.toNat < x.kstack ∨ x.kstack + taskStackSize ≤ a.toNat) →
            (∀ s, DataAlike s → DataAlike (program.step s)) →
            P.Unseen program (x.registers.enter m) events := by
  obtain ⟨hI, hU⟩ := taskRun_userTasks hk hm hr
  obtain ⟨x, hx, huser⟩ := hU task htask
  rw [Kernel.taskProcess_of hx] at hdir
  obtain ⟨v, hswitch, hcr3, hesp0⟩ := taskSwitch_returns hx hdir
  refine ⟨x, v, hx, hswitch, hcr3, fun state henter => ?_⟩
  have hmode := huser.registers
  have hcs : X86.rpl (X86.wordSelector x.registers.cs) ≠ 0 := by
    have h3 : X86.rpl (X86.wordSelector x.registers.cs) = 3 := (hmode fun _ => 0).1
    rw [h3]
    decide
  obtain ⟨m, hrun, hmem⟩ := @taskReturn_spec _ _ _ link henter hcs
  refine ⟨m, hrun, hmem, huser.esp, (hmode m).1, (hmode m).2, ?_⟩
  intro P U program events hstack hbody hapart hkeeps
  -- the kernel stack is a block below the end of the identity mapping
  have hbound : x.kstack ≤ identityTop := by
    obtain ⟨z, hz, -, n, c, hks⟩ := hI.tasks.own.stored task htask
    obtain rfl : z = x := by
      rw [hx] at hz
      cases hz
      rfl
    obtain ⟨a, ha, hptr, -⟩ := hI.tasks.arena.stored _ _ hks
    have hhigh := hI.tasks.arena.high a ha
    omega
  have hspares : P.Spares U := by
    refine ⟨hbody, fun a ha hbelow => ?_⟩
    rw [hstack, hesp0] at hbelow
    have hin := below_kstack hbound hbelow
    have hout := hapart a ha
    omega
  exact (userRun_unseen_iff hspares program (hmode m).1 events).mpr
    (P.servedAlike_of_keeps hkeeps (x.registers.enter_dataAlike m) events)

end Steps

/-! ### The first task -/

/-- The calls that make the first task. -/
def firstTaskCalls : List TaskCall := [.processAlloc, .newSpace 65552 3, .taskNew 65552]

/-- The first task, at its address 204836. -/
def firstTask : Task := ⟨0x23, 221303, 0x1B, 0, 0x202, 65552, 0, 0, 204920, 221320⟩

/-- The kernel calls `task_return` for the first task. -/
def firstTaskReturn : X86.Cpu where
  reg
    | .esp => 0x7FFF0
    | _ => 0
  seg
    | .cs => kernelCs
    | _ => 0x10
  eip := 0
  eflags := 0x202
  memory a :=
    let word := if a.toNat < 0x7FFF0 then
        (firstTask.registers.words)[(a.toNat - 204836) / 4]?.getD 0
      else 204836
    word.extractLsb' (8 * (a.toNat % 4)) 8

theorem firstTaskReturn_enters :
    EntersTaskReturn firstTaskReturn (BitVec.ofNat 32 204836) firstTask.registers where
  cs := by decide
  argument := by decide +kernel
  registers := by decide +kernel
  apart := by decide +kernel

theorem ok_of_toOption {ε α : Type} {x : Except ε α} {a : α} (h : x.toOption = some a) :
    x = .ok a := by
  cases x with
  | error => cases h
  | ok => exact congrArg Except.ok (Option.some.inj h)

/-- A process whose directory is read has one. -/
theorem hasDirectory_of_run {k t : Kernel H D} {proc dir : ℕ}
    (h : processDirectory proc k = .ok (dir, t)) : HasDirectory k proc := by
  have hwp : wp (fun _ => True) (processDirectory proc) (fun _ _ => HasDirectory k proc) k := by
    unfold processDirectory
    rw [wp_bind]
    refine readObj_wp_any fun o x ho hx => readObj_wp_any fun o' d ho' hd => ?_
    obtain rfl : o = .process x := by
      cases o <;> cases hx
      rfl
    obtain rfl : o' = .chunk d := by
      cases o' <;> cases hd
      rfl
    exact ⟨x, d, ho, ho'⟩
  exact hwp.ok h

/-- The first task is switched to, and counts on while a key is pressed. -/
theorem task_runs_alone_first :
    let M := singleFileMachine [0x42]
    ∃ os u v m, runList (taskStep M)
      (TaskSystem.start (Kernel.boot (KHeap.init 0x10000) ()) ⟨0, 0, 0⟩)
        firstTaskCalls = .ok (os, u) ∧ taskSwitch 204836 u.system = .ok (firstTask, v) ∧
      v.cpu.cr3 = 69632 ∧
      X86.runLoads answering.toLinked taskReturn firstTaskReturn = firstTask.registers.enter m ∧
      Platform.Unseen ⟨answering, ⟨0x10, 237703⟩, fun _ => 0x1100⟩ countingProgram
        (firstTask.registers.enter m) [.instruction, .request 1, .instruction] := by
  intro M
  set start := TaskSystem.start (Kernel.boot (KHeap.init 0x10000) ()) ⟨0, 0, 0⟩ with hstart
  have hlive : checkRun (taskStep M) (fun s c => decide (c.Live s)) start
      firstTaskCalls = true := by decide +kernel
  have hrun : ((runList (taskStep M) start firstTaskCalls).toOption.map
      fun r => (r.2.tasks, (r.2.kernel.taskProcess 204836, r.2.kernel.directoryOf 204836),
        (taskSwitch 204836 r.2.system).toOption.map fun q => (q.1, q.2.cpu.esp0))) =
        some ([204836], (65552, 69632), some (firstTask, 237703)) := by decide +kernel
  have hread : ((runList (taskStep M) start firstTaskCalls).toOption.bind fun r =>
      (processDirectory 65552 r.2.kernel).toOption).isSome = true := by decide +kernel
  -- the values of the run
  obtain ⟨r, hr, hvalues⟩ := Option.map_eq_some_iff.mp hrun
  obtain ⟨htasks, hvalues⟩ := Prod.mk.inj hvalues
  obtain ⟨hpair, hvalues⟩ := Prod.mk.inj hvalues
  obtain ⟨hprocess, hdir⟩ := Prod.mk.inj hpair
  rw [hr] at hread
  obtain ⟨d, hd⟩ := Option.isSome_iff_exists.mp hread
  obtain ⟨q, hq, hvalues⟩ := Option.map_eq_some_iff.mp hvalues
  obtain ⟨htask, hesp0⟩ := Prod.mk.inj hvalues
  have hr' : runList (taskStep M) start firstTaskCalls = .ok (r.1, r.2) := ok_of_toOption hr
  have hhas : HasDirectory r.2.kernel (r.2.kernel.taskProcess 204836) := by
    rw [hprocess]
    exact hasDirectory_of_run (ok_of_toOption hd)
  -- `task_switch` and `task_return`
  obtain ⟨x, v, -, hswitch, hcr3, henters⟩ := task_runs_alone (unused_boot _ _)
    (meets_of_checkRun _ (fun _ _ h => of_decide_eq_true h) hlive) hr'
    (htasks ▸ List.mem_singleton_self 204836) hhas answering.toLinked
  obtain rfl : q = (x, v) := Except.ok.inj ((ok_of_toOption hq).symm.trans hswitch)
  obtain rfl : x = firstTask := htask
  obtain ⟨m, hreturn, -, -, -, -, halone⟩ := henters _ firstTaskReturn_enters
  refine ⟨r.1, r.2, v, m, hr', hswitch, hcr3.trans hdir, hreturn,
    halone _ _ countingProgram _ ?_ ?_ ?_ ?_⟩
  · have hesp0' : v.cpu.esp0 = 237703 := hesp0
    rw [hesp0']
    rfl
  · exact fun _ _ _ _ _ => rfl
  · intro a ha
    obtain ⟨hlow, -⟩ := ha
    refine Or.inr (le_trans ?_ hlow)
    decide
  · exact fun _ h => ⟨h.es, h.fs, h.gs⟩

end VibeKernel
