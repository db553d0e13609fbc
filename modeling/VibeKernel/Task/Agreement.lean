import VibeKernel.Task.Scheduling

/-!
# The current task and the current process

`task.c` and `process.c` each keep a variable for what is current. `task_switch` sets both, and so
does the first `task_new`. `task_free` of the current task goes on to the first task that is left
but sets the current process to nothing new, and `process_free` leaves the variable of `process.c`
alone.

`current_agree_iff` says when the two agree along a whole run: whenever the current task is freed,
the first task that is left must be of the current process, and the current process itself must not
be freed. The argument is one about the abstract model.
-/

namespace VibeKernel

open Verif

variable {H D : Type}

/-! ### Agreement of current task and process -/

/-- The current task is one of the current process, and the current process is live. -/
def TaskSystem.Agrees (s : TaskSystem H D) : Prop :=
  (s.kernel.tasks.currentTask ≠ 0 →
    processCurrent s.kernel = .ok (s.kernel.taskProcess s.kernel.tasks.currentTask, s.kernel)) ∧
  ∀ p, processCurrent s.kernel = .ok (p, s.kernel) → p ≠ 0 → p ∈ s.procs

/-- Live processes and tasks only, and a process is freed when it has no live task. -/
def TaskCall.Admitted (s : TaskSystem H D) (c : TaskCall) : Prop :=
  c.Live s ∧
    match c with
    | .processFree process => ∀ t ∈ s.tasks, s.kernel.taskProcess t ≠ process
    | .taskNew process => process ∈ s.procs
    | _ => True

instance (s : TaskSystem H D) : DecidablePred (TaskCall.Admitted s)
  | .processFree process =>
    inferInstanceAs (Decidable (TaskCall.Live s (.processFree process) ∧
      ∀ t ∈ s.tasks, s.kernel.taskProcess t ≠ process))
  | .taskNew process =>
    inferInstanceAs (Decidable (TaskCall.Live s (.taskNew process) ∧ process ∈ s.procs))
  | .processAlloc => inferInstanceAs (Decidable (TaskCall.Live s .processAlloc ∧ True))
  | .newSpace p f => inferInstanceAs (Decidable (TaskCall.Live s (.newSpace p f) ∧ True))
  | .taskFree t => inferInstanceAs (Decidable (TaskCall.Live s (.taskFree t) ∧ True))
  | .taskSwitch t => inferInstanceAs (Decidable (TaskCall.Live s (.taskSwitch t) ∧ True))
  | .pagingSwitch d => inferInstanceAs (Decidable (TaskCall.Live s (.pagingSwitch d) ∧ True))

/-- The current process is not freed, and with the current task freed the first one that is left is
of the current process. -/
def TaskCall.KeepsCurrent (s : TaskSystem H D) : TaskCall → Prop
  | .processFree process => process ≠ s.kernel.proc.currentProcess
  | .taskFree task => task = s.kernel.tasks.currentTask →
      ∀ t ∈ (s.tasks.erase task).head?, s.kernel.taskProcess t = s.kernel.proc.currentProcess
  | _ => True

instance (s : TaskSystem H D) : DecidablePred (TaskCall.KeepsCurrent s)
  | .processFree process =>
    inferInstanceAs (Decidable (process ≠ s.kernel.proc.currentProcess))
  | .taskFree task =>
    inferInstanceAs (Decidable (task = s.kernel.tasks.currentTask →
      ∀ t ∈ (s.tasks.erase task).head?, s.kernel.taskProcess t = s.kernel.proc.currentProcess))
  | .processAlloc => inferInstanceAs (Decidable True)
  | .newSpace _ _ => inferInstanceAs (Decidable True)
  | .taskNew _ => inferInstanceAs (Decidable True)
  | .taskSwitch _ => inferInstanceAs (Decidable True)
  | .pagingSwitch _ => inferInstanceAs (Decidable True)

/-! ### In the abstract model -/

namespace Sched

variable {v : Sched} {r : ℕ} {c : TaskCall} {tasks : List (ℕ × ℕ)} {task : ℕ}

/-- The abstract form of `TaskSystem.Agrees`. -/
def Agrees (v : Sched) : Prop :=
  (v.currentTask ≠ 0 → v.currentProcess = processOf v.tasks v.currentTask) ∧
    (v.currentProcess ≠ 0 → v.currentProcess ∈ v.procs.map Prod.fst)

/-- The abstract form of `TaskCall.Admitted`. -/
def Admits (v : Sched) : TaskCall → Prop
  | .processFree process => process ∈ v.procs.map Prod.fst ∧ ∀ x ∈ v.tasks, x.2 ≠ process
  | .taskNew process => process ∈ v.procs.map Prod.fst
  | .taskFree task | .taskSwitch task => task ∈ v.tasks.map Prod.fst
  | _ => True

/-- The abstract form of `TaskCall.KeepsCurrent`. -/
def Keeps (v : Sched) : TaskCall → Prop
  | .processFree process => process ≠ v.currentProcess
  | .taskFree task => task = v.currentTask →
      ∀ x ∈ (v.tasks.filter fun x => decide (x.1 ≠ task)).head?, x.2 = v.currentProcess
  | _ => True

/-- No structure is at the address `0`, and the current task is a task unless there is none. -/
structure Wf (v : Sched) : Prop where
  procs : 0 ∉ v.procs.map Prod.fst
  tasks : 0 ∉ v.tasks.map Prod.fst
  current : (v.currentTask = 0 ∧ v.tasks = []) ∨ v.currentTask ∈ v.tasks.map Prod.fst

/-- Every task is one of a live process. -/
def Owned (v : Sched) : Prop := ∀ x ∈ v.tasks, x.2 ∈ v.procs.map Prod.fst

/-- The process of a member stands in the list. -/
theorem processOf_mem (h : task ∈ tasks.map Prod.fst) : (task, processOf tasks task) ∈ tasks := by
  induction tasks with
  | nil => exact absurd h List.not_mem_nil
  | cons x tasks ih =>
    unfold processOf at ih ⊢
    rw [List.lookup_cons]
    by_cases hx : task = x.1
    · rw [hx, beq_self_eq_true]
      exact List.mem_cons_self
    · rw [beq_false_of_ne hx]
      exact List.mem_cons_of_mem _ (ih ((List.mem_cons.mp h).resolve_left hx))

/-- More tasks change nothing for a member. -/
theorem processOf_append {more : List (ℕ × ℕ)} (h : task ∈ tasks.map Prod.fst) :
    processOf (tasks ++ more) task = processOf tasks task := by
  induction tasks with
  | nil => exact absurd h List.not_mem_nil
  | cons x tasks ih =>
    unfold processOf at ih ⊢
    rw [List.cons_append, List.lookup_cons, List.lookup_cons]
    by_cases hx : task = x.1
    · rw [hx, beq_self_eq_true]
    · rw [beq_false_of_ne hx]
      exact ih ((List.mem_cons.mp h).resolve_left hx)

/-- Without another task a task keeps its process. -/
theorem processOf_filter {other : ℕ} (h : task ≠ other) :
    processOf (tasks.filter fun x => decide (x.1 ≠ other)) task = processOf tasks task := by
  induction tasks with
  | nil => rfl
  | cons x tasks ih =>
    unfold processOf at ih ⊢
    rw [List.filter_cons]
    by_cases hx : x.1 = other
    · have hne : task ≠ x.1 := fun h0 => h (h0.trans hx)
      rw [if_neg (by rw [decide_eq_true_iff]; exact not_not_intro hx), ih, List.lookup_cons,
        beq_false_of_ne hne]
    · rw [if_pos (decide_eq_true hx), List.lookup_cons, List.lookup_cons]
      split
      · rfl
      · exact ih

/-- The process of the first task. -/
theorem processOf_first {x : ℕ × ℕ} : processOf (x :: tasks) x.1 = x.2 := by
  unfold processOf
  rw [List.lookup_cons, beq_self_eq_true]
  rfl

/-- The calls keep that every task is one of a live process. -/
theorem Owned.step (h : v.Owned) (hc : v.Admits c) : (v.step r c).Owned := by
  cases c with
  | processAlloc =>
    by_cases hr : r = 0
    · rwa [show v.step r .processAlloc = v from if_pos hr]
    · rw [step_processAlloc hr]
      intro x hx
      rw [List.map_append]
      exact List.mem_append_left _ (h x hx)
  | processFree process =>
    -- the process has no task
    intro x hx
    obtain ⟨y, hy, hyx⟩ := List.mem_map.mp (h x hx)
    refine List.mem_map.mpr ⟨y, List.mem_filter.mpr ⟨hy, decide_eq_true ?_⟩, hyx⟩
    rw [hyx]
    exact hc.2 x hx
  | taskNew process =>
    by_cases hr : r = 0
    · rwa [show v.step r (.taskNew process) = v from if_pos hr]
    · by_cases hnil : v.tasks = []
      · rw [step_taskNew_first hr hnil]
        intro x hx
        cases List.mem_singleton.mp hx
        exact hc
      · rw [step_taskNew_next hr hnil]
        intro x hx
        rcases List.mem_append.mp hx with hx | hx
        · exact h x hx
        · cases List.mem_singleton.mp hx
          exact hc
  | taskFree task => exact fun x hx => h x (List.mem_filter.mp hx).1
  | taskSwitch task => exact h
  | newSpace process flags => exact h
  | pagingSwitch directory => exact h

/-- **One call.** If the two variables agree, they agree after the call exactly if the call keeps
them. -/
theorem Agrees.step_iff (hw : v.Wf) (ho : v.Owned) (h : v.Agrees) (hc : v.Admits c) :
    (v.step r c).Agrees ↔ v.Keeps c := by
  cases c with
  | processAlloc =>
    refine iff_of_true ?_ trivial
    by_cases hr : r = 0
    · rwa [show v.step r .processAlloc = v from if_pos hr]
    · rw [step_processAlloc hr]
      refine ⟨h.1, fun h0 => ?_⟩
      rw [List.map_append]
      exact List.mem_append_left _ (h.2 h0)
  | processFree process =>
    constructor
    · -- the current process would not be live
      rintro ⟨-, hlive⟩ rfl
      have h0 : v.currentProcess ≠ 0 := fun h0 => hw.procs (h0 ▸ hc.1)
      obtain ⟨x, hx, hxp⟩ := List.mem_map.mp (hlive h0)
      exact of_decide_eq_true (List.mem_filter.mp hx).2 hxp
    · intro hne
      refine ⟨h.1, fun h0 => ?_⟩
      obtain ⟨x, hx, hxp⟩ := List.mem_map.mp (h.2 h0)
      refine List.mem_map.mpr ⟨x, List.mem_filter.mpr ⟨hx, decide_eq_true ?_⟩, hxp⟩
      rw [hxp]
      exact hne.symm
  | taskNew process =>
    refine iff_of_true ?_ trivial
    by_cases hr : r = 0
    · rwa [show v.step r (.taskNew process) = v from if_pos hr]
    · by_cases hnil : v.tasks = []
      · rw [step_taskNew_first hr hnil]
        exact ⟨fun _ => (processOf_first (x := (r, process))).symm, fun _ => hc⟩
      · rw [step_taskNew_next hr hnil]
        refine ⟨fun h0 => ?_, h.2⟩
        have hmem := hw.current.resolve_left fun hnone => hnil hnone.2
        exact (h.1 h0).trans (processOf_append hmem).symm
  | taskFree task =>
    change _ ↔ (task = v.currentTask →
      ∀ x ∈ (v.tasks.filter fun x => decide (x.1 ≠ task)).head?, x.2 = v.currentProcess)
    cases hrest : v.tasks.filter fun x => decide (x.1 ≠ task) with
    | nil =>
      -- a task that is not the current one would leave it
      rw [step_taskFree hrest]
      refine iff_of_true ⟨fun h0 => ?_, h.2⟩ fun _ x hx => nomatch hx
      dsimp only at h0 ⊢
      by_cases hcur : task = v.currentTask
      · exact absurd (if_pos hcur) h0
      · rw [if_neg hcur] at h0 ⊢
        rw [← hrest, processOf_filter (Ne.symm hcur)]
        exact h.1 h0
    | cons x rest =>
      rw [step_taskFree hrest]
      unfold Agrees
      dsimp only
      by_cases hcur : task = v.currentTask
      · -- the first task that is left becomes the current one
        have hx0 : x.1 ≠ 0 := by
          have hx : x ∈ v.tasks.filter fun x => decide (x.1 ≠ task) := hrest ▸ List.mem_cons_self
          exact fun h0 => hw.tasks (h0 ▸ List.mem_map_of_mem (List.mem_filter.mp hx).1)
        rw [if_pos hcur, show first (x :: rest) = x.1 from rfl, processOf_first]
        constructor
        · rintro ⟨hp, -⟩ - y hy
          cases hy
          exact (hp hx0).symm
        · exact fun hp => ⟨fun _ => (hp hcur x rfl).symm, h.2⟩
      · rw [if_neg hcur, ← hrest, processOf_filter (Ne.symm hcur)]
        exact iff_of_true h fun h0 => absurd h0 hcur
  | taskSwitch task =>
    exact iff_of_true ⟨fun _ => rfl, fun _ => ho _ (processOf_mem hc)⟩ trivial
  | newSpace process flags => exact iff_of_true h trivial
  | pagingSwitch directory => exact iff_of_true h trivial

end Sched

/-! ### In the kernel -/

section Kernel

variable {M : Machine H D} {s : TaskSystem H D} {c : TaskCall}

theorem view_map_fst {f : ℕ → ℕ} {l : List ℕ} : (l.map fun p => (p, f p)).map Prod.fst = l := by
  rw [List.map_map]
  exact List.map_id l

/-- The lists in the memory are those of a well-formed model. -/
theorem SystemInv.wf (hI : SystemInv M s) : s.view.Wf where
  procs := by
    change 0 ∉ (s.procs.map _).map Prod.fst
    rw [view_map_fst]
    exact hI.procs.chain.2
  tasks := by
    change 0 ∉ (s.tasks.map _).map Prod.fst
    rw [view_map_fst]
    exact hI.tasks.links.forth.2
  current := by
    change (_ ∧ s.tasks.map _ = []) ∨ _ ∈ (s.tasks.map _).map Prod.fst
    rw [view_map_fst, List.map_eq_nil_iff]
    exact hI.tasks.current

theorem view_agrees_iff (hI : SystemInv M s) : s.view.Agrees ↔ s.Agrees := by
  have hprocs : s.view.procs.map Prod.fst = s.procs := view_map_fst
  unfold Sched.Agrees TaskSystem.Agrees
  rw [hprocs]
  refine and_congr (forall_congr' fun h0 => ?_) ?_
  · have hmem := hI.tasks.current.resolve_left fun h => h0 h.1
    have hproc : Sched.processOf s.view.tasks s.view.currentTask =
        s.kernel.taskProcess s.kernel.tasks.currentTask := processOf_map hmem
    rw [hproc]
    constructor
    · exact fun h => congrArg (fun p => Except.ok (p, s.kernel)) h
    · exact fun h => congrArg Prod.fst (Except.ok.inj h)
  · constructor
    · rintro h p hp h0
      cases hp
      exact h h0
    · exact fun h h0 => h _ rfl h0

theorem view_admits (hc : c.Admitted s) : s.view.Admits c := by
  have hprocs : s.view.procs.map Prod.fst = s.procs := view_map_fst
  have htasks : s.view.tasks.map Prod.fst = s.tasks := view_map_fst
  obtain ⟨hlive, hc⟩ := hc
  cases c with
  | processFree process =>
    refine ⟨hprocs ▸ hlive, fun x hx => ?_⟩
    obtain ⟨t, ht, rfl⟩ := List.mem_map.mp hx
    exact hc t ht
  | taskNew process =>
    change process ∈ s.view.procs.map Prod.fst
    rwa [hprocs]
  | taskFree task =>
    change task ∈ s.view.tasks.map Prod.fst
    rwa [htasks]
  | taskSwitch task =>
    change task ∈ s.view.tasks.map Prod.fst
    rwa [htasks]
  | processAlloc => trivial
  | newSpace process flags => trivial
  | pagingSwitch directory => trivial

theorem view_keeps_iff (hI : SystemInv M s) : s.view.Keeps c ↔ c.KeepsCurrent s := by
  cases c with
  | processFree process => exact Iff.rfl
  | taskFree task =>
    change (task = s.kernel.tasks.currentTask → _) ↔ (task = s.kernel.tasks.currentTask → _)
    refine forall_congr' fun _ => ?_
    have hrest : (s.view.tasks.filter fun x => decide (x.1 ≠ task)) =
        (s.tasks.erase task).map fun t => (t, s.kernel.taskProcess t) :=
      (view_erase hI.tasks.links.forth.nodup fun _ _ => rfl).symm
    rw [hrest]
    cases s.tasks.erase task with
    | nil => exact iff_of_true (fun x hx => nomatch hx) fun x hx => nomatch hx
    | cons t rest =>
      constructor
      · rintro h y hy
        cases hy
        exact h _ rfl
      · rintro h y hy
        cases hy
        exact h _ rfl
  | processAlloc => exact Iff.rfl
  | newSpace process flags => exact Iff.rfl
  | taskNew process => exact Iff.rfl
  | taskSwitch task => exact Iff.rfl
  | pagingSwitch directory => exact Iff.rfl

/-- The lists are there, the tasks are of live processes, and the two variables agree. -/
structure AgreementInv (M : Machine H D) (s : TaskSystem H D) : Prop where
  lists : SystemInv M s
  owned : s.view.Owned
  agrees : s.view.Agrees

/-- **One call of the kernel.** -/
theorem AgreementInv.step_iff (h : AgreementInv M s) (hc : c.Admitted s) {r : ℕ}
    {t : TaskSystem H D} (hs : taskStep M s c = .ok (r, t)) :
    SystemInv M t ∧ t.view.Owned ∧ (t.view.Agrees ↔ c.KeepsCurrent s) := by
  obtain ⟨hI, hview⟩ := taskStep_refines h.lists hc.1 hs
  rw [hview]
  exact ⟨hI, h.owned.step (view_admits hc),
    (Sched.Agrees.step_iff h.lists.wf h.owned h.agrees (view_admits hc)).trans
      (view_keeps_iff h.lists)⟩

/-- Along every admitted run the current task and the current process agree after each call exactly
if no call frees the current process, and whenever the current task is freed the first task that is
left is of the current process. -/
theorem current_agree_iff {k : Kernel H D} (hk : Unused M k) {cpu : Cpu} {calls : List TaskCall}
    (hm : Meets (taskStep M) (fun s c => c.Admitted s) (TaskSystem.start k cpu) calls) :
    Meets (taskStep M) (fun s c => ∀ r t, taskStep M s c = .ok (r, t) → t.Agrees)
        (TaskSystem.start k cpu) calls ↔
      Meets (taskStep M) (fun s c => c.KeepsCurrent s) (TaskSystem.start k cpu) calls := by
  have hstart : AgreementInv M (TaskSystem.start k cpu) := by
    have hI := hk.inv cpu
    refine ⟨hI, fun x hx => absurd hx List.not_mem_nil, ⟨fun h0 => ?_, fun h0 => ?_⟩⟩
    · exact absurd (congrArg TaskStatics.currentTask hk.tasks) h0
    · exact absurd hk.procs.2.2 h0
  refine @meets_iff _ _ _ _ _ _ (AgreementInv M) _ _ (fun s c h hc => ?_)
    (fun s c r t h hc hkeep hs => ?_) _ _ hstart hm
  · -- the calls that may fail to keep the two variables complete
    have hdone : ¬ c.KeepsCurrent s → ∃ r t, taskStep M s c = .ok (r, t) := by
      intro hnot
      cases c with
      | processFree process => exact processFree_completes h.lists hc.1
      | taskFree task => exact taskFree_completes h.lists hc.1
      | processAlloc => exact absurd trivial hnot
      | newSpace process flags => exact absurd trivial hnot
      | taskNew process => exact absurd trivial hnot
      | taskSwitch task => exact absurd trivial hnot
      | pagingSwitch directory => exact absurd trivial hnot
    constructor
    · intro hgood
      by_contra hnot
      obtain ⟨r, t, hs⟩ := hdone hnot
      obtain ⟨hI, -, hiff⟩ := h.step_iff hc hs
      exact hnot (hiff.mp ((view_agrees_iff hI).mpr (hgood r t hs)))
    · intro hkeep r t hs
      obtain ⟨hI, -, hiff⟩ := h.step_iff hc hs
      exact (view_agrees_iff hI).mp (hiff.mpr hkeep)
  · obtain ⟨hI, ho, hiff⟩ := h.step_iff hc hs
    exact ⟨hI, ho, hiff.mpr hkeep⟩

end Kernel

/-- Two tasks of one process: the current one is freed, and the other becomes current. -/
theorem current_agree_iff_same :
    let M := singleFileMachine [0x42]
    let start := TaskSystem.start (Kernel.boot (KHeap.init 0x10000) ()) ⟨0, 0, 0⟩
    let calls : List TaskCall := [.processAlloc, .newSpace 65552 3, .taskNew 65552, .taskNew 65552,
      .taskFree 204836]
    Meets (taskStep M) (fun s c => ∀ r t, taskStep M s c = .ok (r, t) → t.Agrees) start calls ∧
      ((runList (taskStep M) start calls).toOption.map fun r =>
        (r.2.tasks, r.2.kernel.tasks.currentTask, r.2.kernel.taskProcess 237720,
          r.2.kernel.proc.currentProcess)) = some ([237720], 237720, 65552, 65552) := by
  intro M start calls
  have hadm : checkRun (taskStep M) (fun s c => decide (c.Admitted s)) start calls = true := by
    decide +kernel
  have hkeep : checkRun (taskStep M) (fun s c => decide (c.KeepsCurrent s)) start calls = true := by
    decide +kernel
  refine ⟨(current_agree_iff (unused_boot _ _) ?_).mpr ?_, by decide +kernel⟩
  · exact meets_of_checkRun _ (fun _ _ h => of_decide_eq_true h) hadm
  · exact meets_of_checkRun _ (fun _ _ h => of_decide_eq_true h) hkeep

/-- Two processes with a task each. When the current task is freed, the other one becomes current,
but the current process stays the first. Then the first process has no task left, and when it is
freed the current process is one that is not live. -/
theorem current_process_left :
    let M := singleFileMachine [0x42]
    let start := TaskSystem.start (Kernel.boot (KHeap.init 0x10000) ()) ⟨0, 0, 0⟩
    let calls : List TaskCall :=
      [.processAlloc, .processAlloc, .newSpace 65552 3, .newSpace 65664 3,
      .taskNew 65552, .taskNew 65664, .taskFree 344100]
    Meets (taskStep M) (fun s c => c.Admitted s) start (calls ++ [.processFree 65552]) ∧
      ((runList (taskStep M) start calls).toOption.map fun r =>
        (r.2.kernel.tasks.currentTask, r.2.kernel.taskProcess r.2.kernel.tasks.currentTask,
          r.2.kernel.proc.currentProcess)) = some (376984, 65664, 65552) ∧
      ((runList (taskStep M) start (calls ++ [.processFree 65552])).toOption.map fun r =>
        (r.2.procs, r.2.kernel.proc.currentProcess)) = some ([65664], 65552) ∧
      ¬ Meets (taskStep M) (fun s c => ∀ r t, taskStep M s c = .ok (r, t) → t.Agrees)
        start calls := by
  intro M start calls
  have hadm : checkRun (taskStep M) (fun s c => decide (c.Admitted s)) start
      (calls ++ [.processFree 65552]) = true := by decide +kernel
  have hcur : ((runList (taskStep M) start calls).toOption.map fun r =>
      (r.2.kernel.tasks.currentTask, r.2.kernel.taskProcess r.2.kernel.tasks.currentTask,
        r.2.kernel.proc.currentProcess)) = some (376984, 65664, 65552) := by decide +kernel
  refine ⟨meets_of_checkRun _ (fun _ _ h => of_decide_eq_true h) hadm, hcur, by decide +kernel,
    fun hall => ?_⟩
  cases hr : runList (taskStep M) start calls with
  | error e =>
    rw [hr] at hcur
    cases hcur
  | ok r =>
    rw [hr] at hcur
    have hvals := Option.some.inj hcur
    simp only [Prod.mk.injEq] at hvals
    obtain ⟨htask, hproc, hcurrent⟩ := hvals
    have hagree := meets_last hall hr (by decide)
    have hp := hagree.1 (by rw [htask]; decide)
    have hsame : r.2.kernel.proc.currentProcess =
        r.2.kernel.taskProcess r.2.kernel.tasks.currentTask := congrArg Prod.fst (Except.ok.inj hp)
    rw [hproc, hcurrent] at hsame
    exact absurd hsame (by decide)

end VibeKernel
