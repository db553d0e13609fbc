import VibeKernel.Fs.Isolation
import VibeKernel.Lib.Run
import VibeKernel.Task.ProcessList
import VibeKernel.Task.TaskList

/-!
# Processes and tasks together

A machine whose operations are the calls that make, free and switch processes and tasks. Beside the
kernel its state has two history variables that no function reads: the live processes in the order
of their allocation and the live tasks in the order of their creation.

`Sched` is the abstract model: two lists, and what the two `current` variables say. Each call does
to it what `Sched.step` says (`taskStep_refines`), and the lists in the memory are the lists of the
model. The lists of processes and tasks, and what the two `current` variables have to do with each
other, are then facts about the abstract model.
-/

namespace VibeKernel

open Verif

variable {H D : Type}

/-! ### The machine -/

/-- The calls. `newSpace` is what the loader does with a process before it gets a task:
`process->paging_chunk = paging_new_4gb(flags)`. -/
inductive TaskCall
  | processAlloc
  | newSpace (process flags : ℕ)
  | processFree (process : ℕ)
  | taskNew (process : ℕ)
  | taskFree (task : ℕ)
  | taskSwitch (task : ℕ)
  | pagingSwitch (directory : ℕ)
  deriving DecidableEq, Repr

/-- What a call computes; the answer is the new process or task, `0` for `NULL`. -/
def TaskCall.run (M : Machine H D) : TaskCall → SM H D ℕ
  | .processAlloc => onKernel (Prod.snd <$> VibeKernel.processAlloc M)
  | .newSpace process flags => onKernel ((fun _ => 0) <$> newPagingChunk M process flags)
  | .processFree process => onKernel ((fun _ => 0) <$> VibeKernel.processFree M process)
  | .taskNew process => onKernel (VibeKernel.taskNew M process)
  | .taskFree task => onKernel ((fun _ => 0) <$> VibeKernel.taskFree M task)
  | .taskSwitch task => (fun _ => 0) <$> VibeKernel.taskSwitch task
  | .pagingSwitch directory => (fun _ => 0) <$> VibeKernel.pagingSwitch directory

/-- The live processes after a call. -/
def TaskCall.procs (procs : List ℕ) (r : ℕ) : TaskCall → List ℕ
  | .processAlloc => if r = 0 then procs else procs ++ [r]
  | .processFree process => procs.erase process
  | _ => procs

/-- The live tasks after a call. -/
def TaskCall.tasks (tasks : List ℕ) (r : ℕ) : TaskCall → List ℕ
  | .taskNew _ => if r = 0 then tasks else tasks ++ [r]
  | .taskFree task => tasks.erase task
  | _ => tasks

/-- The system, the live processes in the order of their allocation, and the live tasks in the order
of their creation. -/
structure TaskSystem (H D : Type) where
  system : System H D
  procs : List ℕ
  tasks : List ℕ

/-- The kernel of the system. -/
abbrev TaskSystem.kernel (s : TaskSystem H D) : Kernel H D := s.system.kernel

/-- The system before the first call. -/
def TaskSystem.start (k : Kernel H D) (cpu : Cpu) : TaskSystem H D := ⟨⟨k, cpu⟩, [], []⟩

/-- One call. -/
def taskStep (M : Machine H D) (s : TaskSystem H D) (c : TaskCall) :
    Except Stop (ℕ × TaskSystem H D) :=
  match c.run M s.system with
  | .error e => .error e
  | .ok (r, t) => .ok (r, ⟨t, c.procs s.procs r, c.tasks s.tasks r⟩)

/-- Only live processes and tasks are freed, and only live tasks are switched to. -/
def TaskCall.Live (s : TaskSystem H D) : TaskCall → Prop
  | .processFree process => process ∈ s.procs
  | .taskFree task | .taskSwitch task => task ∈ s.tasks
  | _ => True

instance (s : TaskSystem H D) : DecidablePred (TaskCall.Live s)
  | .processFree process => inferInstanceAs (Decidable (process ∈ s.procs))
  | .taskFree task => inferInstanceAs (Decidable (task ∈ s.tasks))
  | .taskSwitch task => inferInstanceAs (Decidable (task ∈ s.tasks))
  | .processAlloc | .newSpace _ _ | .taskNew _ | .pagingSwitch _ => inferInstanceAs (Decidable True)

/-- There is no process and no task. -/
structure Unused (M : Machine H D) (k : Kernel H D) : Prop where
  arena : ArenaInv M k
  procs : k.proc.processHead = 0 ∧ k.proc.processTail = 0 ∧ k.proc.currentProcess = 0
  tasks : k.tasks = ⟨0, 0, 0⟩

theorem unused_boot {M : Machine H D} (h : H) (d : D) : Unused M (Kernel.boot h d) :=
  ⟨ArenaInv.boot h d, ⟨rfl, rfl, rfl⟩, rfl⟩

/-! ### The abstract model -/

/-- The processes each with its id, the id of the last one, the tasks each with its process, and the
current ones. -/
structure Sched where
  procs : List (ℕ × ℕ)
  lastId : ℕ
  tasks : List (ℕ × ℕ)
  currentTask : ℕ
  currentProcess : ℕ
  deriving DecidableEq, Repr

namespace Sched

/-- The first of a list of tasks, `0` if there is none. -/
def first (tasks : List (ℕ × ℕ)) : ℕ := (tasks.head?.map Prod.fst).getD 0

/-- The process of a task. -/
def processOf (tasks : List (ℕ × ℕ)) (task : ℕ) : ℕ := (tasks.lookup task).getD 0

/-- A call with the answer `r`. -/
def step (v : Sched) (r : ℕ) : TaskCall → Sched
  | .processAlloc =>
    if r = 0 then v
    else { v with
      procs := v.procs ++ [(r, (v.lastId + 1) % 65536)]
      lastId := v.lastId + 1 }
  | .processFree process => { v with procs := v.procs.filter fun x => x.1 ≠ process }
  | .taskNew process =>
    if r = 0 then v
    else if v.tasks = [] then
      { v with tasks := [(r, process)], currentTask := r, currentProcess := process }
    else { v with tasks := v.tasks ++ [(r, process)] }
  | .taskFree task =>
    let rest := v.tasks.filter fun x => x.1 ≠ task
    { v with
      tasks := rest
      currentTask := if task = v.currentTask then first rest else v.currentTask }
  | .taskSwitch task => { v with currentTask := task, currentProcess := processOf v.tasks task }
  | .newSpace _ _ | .pagingSwitch _ => v

variable {v : Sched} {r process : ℕ}

theorem step_processAlloc (hr : r ≠ 0) :
    v.step r .processAlloc = ⟨v.procs ++ [(r, (v.lastId + 1) % 65536)], v.lastId + 1, v.tasks,
      v.currentTask, v.currentProcess⟩ :=
  if_neg hr

theorem step_taskNew_first (hr : r ≠ 0) (hv : v.tasks = []) :
    v.step r (.taskNew process) =
      ⟨v.procs, v.lastId, [(r, process)], r, process⟩ :=
  (if_neg hr).trans (if_pos hv)

theorem step_taskNew_next (hr : r ≠ 0) (hv : v.tasks ≠ []) :
    v.step r (.taskNew process) =
      ⟨v.procs, v.lastId, v.tasks ++ [(r, process)], v.currentTask, v.currentProcess⟩ :=
  (if_neg hr).trans (if_neg hv)

theorem step_taskFree {task : ℕ} {rest : List (ℕ × ℕ)}
    (hrest : (v.tasks.filter fun x => decide (x.1 ≠ task)) = rest) :
    v.step r (.taskFree task) =
      ⟨v.procs, v.lastId, rest, if task = v.currentTask then first rest else v.currentTask,
        v.currentProcess⟩ := by
  subst hrest
  rfl

end Sched

/-- What the abstract model sees of a system. -/
def TaskSystem.view (s : TaskSystem H D) : Sched where
  procs := s.procs.map fun p => (p, s.kernel.processId p)
  lastId := s.kernel.proc.currentId
  tasks := s.tasks.map fun t => (t, s.kernel.taskProcess t)
  currentTask := s.kernel.tasks.currentTask
  currentProcess := s.kernel.proc.currentProcess

/-- The lists in the memory are the lists of the model. -/
structure SystemInv (M : Machine H D) (s : TaskSystem H D) : Prop where
  procs : ProcessList M s.kernel s.procs
  tasks : TaskList M s.kernel s.tasks

/-! ### Page directories -/

section Space

variable {M : Machine H D} {s t : Kernel H D} {ps : List ℕ} {p : ℕ}

/-- Filling a directory changes tables only. -/
theorem pagingIdentity_extends {flags directory : ℕ} :
    ∀ (n i : ℕ) {t : Kernel H D}, Extends M (· = .paging) s t →
      wp (fun _ => True) (pagingIdentity M flags directory i n)
        (fun _ u => Extends M (· = .paging) s u) t := by
  intro n
  induction n with
  | zero => exact fun i t h => h
  | succ n ih =>
    intro i t h
    rw [pagingIdentity, wp_bind]
    refine newObj_wp (fun _ _ => trivial) fun table h' _ hU htop => ?_
    have h₁ := h.trans (Extends.newObj (K := (· = .paging)) (o := .table (identityTable flags i))
      h.arena h' hU htop)
    rw [wp_bind]
    refine readObj_wp_any fun o words ho hwords => ?_
    obtain rfl : o = .table words := by
      cases o <;> cases hwords
      rfl
    rw [wp_bind]
    refine overwrite_wp h₁.arena ho rfl ?_
    exact ih (i + 1) (h₁.trans (Extends.overwrite h₁.arena ho rfl rfl))

/-- A new directory changes nothing that was there. -/
theorem pagingNew4gb_extends (hA : ArenaInv M s) (flags : ℕ) :
    wp (fun _ => True) (pagingNew4gb M flags) (fun _ t => Extends M (· = .paging) s t) s := by
  unfold pagingNew4gb
  rw [wp_bind]
  refine newObj_wp (fun _ _ => trivial) fun directory h _ hU htop => ?_
  have h₁ := Extends.newObj (K := (· = .paging)) (o := .table fun _ => 0) hA h hU htop
  rw [wp_bind]
  refine (pagingIdentity_extends 16 0 h₁).mono fun _ t ht => ?_
  refine newObj_wp (fun _ _ => trivial) fun chunk h' _ hU' htop' => ?_
  exact ht.trans (Extends.newObj (K := (· = .paging)) (o := .chunk directory) ht.arena h' hU' htop')

/-- A process is overwritten, with its successor. -/
theorem ProcessList.put (h : ProcessList M s ps) {x y : ℕ → UInt8}
    (hx : s.store p = some (.process x))
    (hnext : wordAt y processNextOffset = wordAt x processNextOffset) :
    ProcessList M (s.put p (.process y)) ps where
  arena := h.arena.overwrite hx rfl
  chain := by
    refine h.chain.congr fun b _ => ?_
    by_cases hb : b = p
    · subst hb
      rw [Kernel.processNext_of Kernel.put_store_self, Kernel.processNext_of hx, hnext]
    · exact Kernel.processNext_congr (Kernel.put_store_ne hb)
  tail := h.tail
  stored q hq := by
    by_cases hqp : q = p
    · exact ⟨y, by rw [hqp]; exact Kernel.put_store_self⟩
    · obtain ⟨z, hz⟩ := h.stored q hq
      exact ⟨z, (Kernel.put_store_ne hqp).trans hz⟩

/-- A directory for a process: the list of processes and all ids stay. -/
theorem newPagingChunk_list_wp (h : ProcessList M s ps) {flags : ℕ} {Q : Unit → Kernel H D → Prop}
    (hQ : ∀ t, Frame SpaceKind s t → ProcessList M t ps →
      (∀ q ∈ ps, t.processId q = s.processId q) → t.proc = s.proc → Q () t) :
    wp (fun _ => True) (newPagingChunk M p flags) Q s := by
  unfold newPagingChunk
  rw [wp_bind]
  refine (pagingNew4gb_extends h.arena flags).mono fun chunk t ht => ?_
  have hL := h.frame ht.frame ht.arena fun hk => nomatch hk
  unfold modifyProcess
  rw [wp_bind]
  refine readObj_wp_any fun o x ho hx => ?_
  obtain rfl : o = .process x := by
    cases o <;> cases hx
    rfl
  refine overwrite_wp ht.arena ho rfl (hQ _ ?_ (hL.put ho ?_) (fun q hq => ?_) ?_)
  · have hmono : Frame SpaceKind s t := ht.frame.mono fun k hk => Or.inl hk
    exact hmono.trans ((Frame.refl SpaceKind t).put (MayChange.of_store ho (Or.inr rfl)))
  · exact wordAt_putWord_other (Or.inr (by decide))
  · obtain ⟨z, hz⟩ := h.stored q hq
    have hz' : t.store q = some (.process z) := ht.frame.store_eq h.arena hz fun hk => nomatch hk
    rw [Kernel.processId_of hz]
    by_cases hqp : q = p
    · subst hqp
      cases ho.symm.trans hz'
      rw [Kernel.processId_of Kernel.put_store_self]
      exact idAt_putBytes (by decide)
    · exact Kernel.processId_of ((Kernel.put_store_ne hqp).trans hz')
  · exact ht.frame.proc fun hk => nomatch hk

end Space

/-! ### Refinement -/

section Refinement

variable {M : Machine H D} {s t : TaskSystem H D} {c : TaskCall} {r : ℕ}

/-- The abstract model sees the same if the field it sees is the same. -/
theorem view_congr {f g : ℕ → ℕ} {l : List ℕ} (h : ∀ p ∈ l, g p = f p) :
    (l.map fun p => (p, g p)) = l.map fun p => (p, f p) :=
  List.map_congr_left fun p hp => by rw [h p hp]

/-- What the abstract model sees without a member. -/
theorem view_erase {f g : ℕ → ℕ} {l : List ℕ} {a : ℕ} (hnd : l.Nodup)
    (h : ∀ p ∈ l.erase a, g p = f p) :
    ((l.erase a).map fun p => (p, g p)) =
      (l.map fun p => (p, f p)).filter fun x => decide (x.1 ≠ a) := by
  rw [view_congr h, hnd.erase_eq_filter, List.filter_map]
  refine congrArg _ (List.filter_congr fun p _ => ?_)
  change (p != a) = decide (p ≠ a)
  rw [bne, beq_eq_decide]
  exact decide_not.symm

/-- Steps that keep the processes keep their ids. -/
theorem ProcessList.processId_keep {k k' : Kernel H D} {ps : List ℕ} (h : ProcessList M k ps)
    (hstore : ∀ p x, k.store p = some (.process x) → k'.store p = some (.process x)) :
    ∀ p ∈ ps, k'.processId p = k.processId p := by
  intro p hp
  obtain ⟨x, hx⟩ := h.stored p hp
  rw [Kernel.processId_of hx, Kernel.processId_of (hstore p x hx)]

/-- Steps of the other parts keep the processes of tasks. -/
theorem TaskList.taskProcess_frame {k k' : Kernel H D} {ts : List ℕ} (h : TaskList M k ts)
    {K : Kind → Prop} (hF : Frame K k k') (hK : ¬ K .task) :
    ∀ p ∈ ts, k'.taskProcess p = k.taskProcess p := by
  intro p hp
  obtain ⟨x, hx, -⟩ := h.own.stored p hp
  have hx' := hF.store_eq h.arena hx hK
  rw [Kernel.taskProcess_of hx', Kernel.taskProcess_of hx]

/-- The processor is no part of the lists. -/
theorem SystemInv.cpu {k : Kernel H D} {cpu cpu' : Cpu} {ps ts : List ℕ}
    (h : SystemInv M ⟨⟨k, cpu⟩, ps, ts⟩) : SystemInv M ⟨⟨k, cpu'⟩, ps, ts⟩ := ⟨h.procs, h.tasks⟩

/-- A completed call is a completed computation. -/
theorem taskStep_ok (h : taskStep M s c = .ok (r, t)) :
    c.run M s.system = .ok (r, t.system) ∧ t.procs = c.procs s.procs r ∧
      t.tasks = c.tasks s.tasks r := by
  unfold taskStep at h
  cases hrun : c.run M s.system with
  | error e =>
    rw [hrun] at h
    cases h
  | ok x =>
    rw [hrun] at h
    cases h
    exact ⟨rfl, rfl, rfl⟩

/-- What the computation of a call leads to, it leads to in the machine. -/
theorem taskStep_of_wp {P : ℕ → TaskSystem H D → Prop}
    (hwp : wp (fun _ => True) (c.run M)
      (fun r u => P r ⟨u, c.procs s.procs r, c.tasks s.tasks r⟩) s.system)
    (h : taskStep M s c = .ok (r, t)) : P r t := by
  obtain ⟨hrun, hprocs, htasks⟩ := taskStep_ok h
  have hP := hwp.ok hrun
  rwa [← hprocs, ← htasks] at hP

/-- A computation that completes is a call that does. -/
theorem taskStep_total (hwp : wp (fun _ => False) (c.run M) (fun _ _ => True) s.system) :
    ∃ r t, taskStep M s c = .ok (r, t) := by
  obtain ⟨r, v, hrun, -⟩ := hwp.total
  refine ⟨r, ⟨v, c.procs s.procs r, c.tasks s.tasks r⟩, ?_⟩
  unfold taskStep
  rw [hrun]

/-- A step keeps the lists and does to the model what `Sched.step` says. -/
def Refines (M : Machine H D) (s : TaskSystem H D) (c : TaskCall) (r : ℕ)
    (t : TaskSystem H D) : Prop :=
  SystemInv M t ∧ t.view = s.view.step r c

theorem processAlloc_refines (hI : SystemInv M s) (h : taskStep M s .processAlloc = .ok (r, t)) :
    Refines M s .processAlloc r t := by
  refine taskStep_of_wp (P := Refines M s .processAlloc) ?_ h
  unfold TaskCall.run
  rw [wp_onKernel, wp_map]
  refine processAlloc_list_wp (fun _ _ => trivial) hI.procs (fun h' _ => ?_) fun p k h0 hk => ?_
  · have hA := (Extends.heap (K := fun _ => False) hI.procs.arena h').arena
    exact ⟨⟨hI.procs.congr hA (fun _ _ => rfl) rfl rfl,
      hI.tasks.congr hA (fun _ _ ho _ => ho) rfl⟩, rfl⟩
  · have hframe := hk.step.frame
    have hT : TaskList M k s.tasks :=
      hI.tasks.frame hframe hk.step.arena (fun hk => nomatch hk) fun hk => nomatch hk
    refine ⟨⟨?_, hT⟩, ?_⟩
    · change ProcessList M k (if p = 0 then s.procs else s.procs ++ [p])
      rw [if_neg h0]
      exact hk.list
    · rw [Sched.step_processAlloc h0]
      have hprocs : TaskCall.procs s.procs p .processAlloc = s.procs ++ [p] := if_neg h0
      unfold TaskSystem.view
      congr 1
      · rw [hprocs, List.map_append, view_congr hk.ids, List.map_singleton, hk.id]
      · exact hk.count
      · exact view_congr (hI.tasks.taskProcess_frame hframe fun hk => nomatch hk)
      · exact congrArg _ (hframe.tasks fun hk => nomatch hk)
      · exact hk.current

theorem newSpace_refines {process flags : ℕ} (hI : SystemInv M s)
    (h : taskStep M s (.newSpace process flags) = .ok (r, t)) :
    Refines M s (.newSpace process flags) r t := by
  refine taskStep_of_wp (P := Refines M s (.newSpace process flags)) ?_ h
  unfold TaskCall.run
  rw [wp_onKernel, wp_map]
  refine newPagingChunk_list_wp hI.procs fun k hframe hL hids hproc => ?_
  have htask : ¬ SpaceKind .task := by rintro (h | h) <;> cases h
  have hraw : ¬ SpaceKind .raw := by rintro (h | h) <;> cases h
  refine ⟨⟨hL, hI.tasks.frame hframe hL.arena htask hraw⟩, ?_⟩
  unfold TaskSystem.view Sched.step
  congr 1
  · exact view_congr hids
  · exact congrArg _ hproc
  · exact view_congr (hI.tasks.taskProcess_frame hframe htask)
  · exact congrArg _ (hframe.tasks htask)
  · exact congrArg _ hproc

theorem processFree_refines {process : ℕ} (hI : SystemInv M s) (hc : process ∈ s.procs)
    (h : taskStep M s (.processFree process) = .ok (r, t)) :
    Refines M s (.processFree process) r t := by
  refine taskStep_of_wp (P := Refines M s (.processFree process)) ?_ h
  unfold TaskCall.run
  rw [wp_onKernel, wp_map]
  refine processFree_list_wp hI.procs hc fun k hk => ?_
  refine ⟨⟨hk.list, hI.tasks.frame hk.frame hk.list.arena (fun hk => nomatch hk)
    fun hk => nomatch hk⟩, ?_⟩
  unfold TaskSystem.view Sched.step
  congr 1
  · exact view_erase hI.procs.chain.nodup hk.ids
  · exact hk.count
  · exact view_congr (hI.tasks.taskProcess_frame hk.frame fun hk => nomatch hk)
  · exact congrArg _ (hk.frame.tasks fun hk => nomatch hk)
  · exact hk.current

/-- Steps that keep the processes keep their list, whatever the current process is. -/
theorem ProcessList.keep {k k' : Kernel H D} {ps : List ℕ} (h : ProcessList M k ps)
    (hA : ArenaInv M k')
    (hstore : ∀ p x, k.store p = some (.process x) → k'.store p = some (.process x))
    (hhead : k'.proc.processHead = k.proc.processHead)
    (htail : k'.proc.processTail = k.proc.processTail) : ProcessList M k' ps := by
  refine h.congr hA (fun p hp => ?_) hhead htail
  obtain ⟨x, hx⟩ := h.stored p hp
  rw [hx, hstore p x hx]

theorem taskNew_refines {process : ℕ} (hI : SystemInv M s)
    (h : taskStep M s (.taskNew process) = .ok (r, t)) : Refines M s (.taskNew process) r t := by
  refine taskStep_of_wp (P := Refines M s (.taskNew process)) ?_ h
  unfold TaskCall.run
  rw [wp_onKernel]
  refine taskNew_list_wp hI.tasks (fun k hk => ?_) fun task k _ hk => ?_
  · -- no memory for the task
    have hframe := hk.step.frame
    have hA := hk.step.arena
    refine ⟨⟨hI.procs.frame hframe hA (fun hk => nomatch hk),
      hI.tasks.frame hframe hA (fun hk => nomatch hk) (fun hk => nomatch hk)⟩, ?_⟩
    unfold TaskSystem.view Sched.step
    congr 1
    · exact view_congr (hI.procs.processId_keep fun p x hx =>
        hframe.store_eq hI.procs.arena hx fun hk => nomatch hk)
    · exact congrArg _ (hframe.proc fun hk => nomatch hk)
    · exact view_congr (hI.tasks.taskProcess_frame hframe fun hk => nomatch hk)
    · exact congrArg _ (hframe.tasks fun hk => nomatch hk)
    · exact congrArg _ (hframe.proc fun hk => nomatch hk)
  obtain ⟨hhead, htail, hcount⟩ : k.proc.processHead = s.kernel.proc.processHead ∧
      k.proc.processTail = s.kernel.proc.processTail ∧
      k.proc.currentId = s.kernel.proc.currentId := by
    rw [hk.statics]
    split_ifs <;> exact ⟨rfl, rfl, rfl⟩
  have hids := hI.procs.processId_keep hk.processes
  have htasks : TaskCall.tasks s.tasks task (.taskNew process) = s.tasks ++ [task] :=
    if_neg hk.ne_zero
  have hmap : ((s.tasks ++ [task]).map fun t => (t, k.taskProcess t)) =
      (s.tasks.map fun t => (t, s.kernel.taskProcess t)) ++ [(task, process)] := by
    rw [List.map_append, view_congr hk.others, List.map_singleton, hk.process]
  refine ⟨⟨hI.procs.keep hk.list.arena hk.processes hhead htail, htasks ▸ hk.list⟩, ?_⟩
  -- the first task is switched to by creating it
  by_cases hnil : s.tasks = []
  · have hview : s.view.tasks = [] := by
      change s.tasks.map _ = []
      rw [hnil]
      rfl
    rw [Sched.step_taskNew_first hk.ne_zero hview]
    unfold TaskSystem.view
    congr 1
    · exact view_congr hids
    · rw [htasks, hmap, hnil]
      rfl
    · rw [hk.current]
      exact if_pos hnil
    · rw [hk.statics, if_pos hnil]
  · have hview : s.view.tasks ≠ [] := fun h0 => hnil (List.map_eq_nil_iff.mp h0)
    rw [Sched.step_taskNew_next hk.ne_zero hview]
    unfold TaskSystem.view
    congr 1
    · exact view_congr hids
    · rw [htasks, hmap]
    · rw [hk.current]
      exact if_neg hnil
    · rw [hk.statics, if_neg hnil]

theorem taskFree_refines {task : ℕ} (hI : SystemInv M s) (hc : task ∈ s.tasks)
    (h : taskStep M s (.taskFree task) = .ok (r, t)) : Refines M s (.taskFree task) r t := by
  refine taskStep_of_wp (P := Refines M s (.taskFree task)) ?_ h
  unfold TaskCall.run
  rw [wp_onKernel, wp_map]
  refine taskFree_list_wp hI.tasks hc fun k hk => ?_
  refine ⟨⟨hI.procs.keep hk.list.arena hk.processes (congrArg _ hk.statics) (congrArg _ hk.statics),
    hk.list⟩, ?_⟩
  -- the tasks that are left
  have hrest := view_erase hI.tasks.links.forth.nodup hk.others
  have hfirst : k.tasks.taskHead =
      Sched.first ((s.tasks.erase task).map fun t => (t, k.taskProcess t)) := by
    rw [hk.list.links.forth.start]
    unfold Sched.first
    cases s.tasks.erase task <;> rfl
  unfold TaskSystem.view Sched.step
  congr 1
  · exact view_congr (hI.procs.processId_keep hk.processes)
  · exact congrArg _ hk.statics
  · change k.tasks.currentTask = _
    rw [hk.current, hfirst, hrest]
  · exact congrArg _ hk.statics

/-- What the model says about the process of a task. -/
theorem processOf_map {f : ℕ → ℕ} {ts : List ℕ} {task : ℕ} (h : task ∈ ts) :
    Sched.processOf (ts.map fun t => (t, f t)) task = f task := by
  unfold Sched.processOf
  induction ts with
  | nil => exact absurd h List.not_mem_nil
  | cons a ts ih =>
    rw [List.map_cons, List.lookup_cons]
    by_cases ha : task = a
    · subst ha
      rw [beq_self_eq_true]
      rfl
    · rw [beq_false_of_ne ha]
      exact ih ((List.mem_cons.mp h).resolve_left ha)

theorem taskSwitch_refines {task : ℕ} (hI : SystemInv M s) (hc : task ∈ s.tasks)
    (h : taskStep M s (.taskSwitch task) = .ok (r, t)) : Refines M s (.taskSwitch task) r t := by
  refine taskStep_of_wp (P := Refines M s (.taskSwitch task)) ?_ h
  obtain ⟨x, hx, -⟩ := hI.tasks.own.stored task hc
  unfold TaskCall.run VibeKernel.taskSwitch processDirectory pagingSwitch processSwitch
  rw [wp_map, wp_bind, wp_onKernel, wp_modify, wp_bind, wp_onKernel]
  refine readObj_wp hx rfl ?_
  rw [wp_bind, wp_onKernel, wp_modify, wp_bind, wp_onKernel, wp_bind]
  refine readObj_wp_any fun _ bytes _ _ => readObj_wp_any fun _ directory _ _ => ?_
  rw [wp_bind, wp_modify, wp_bind, wp_modify, wp_pure]
  have hA := hI.tasks.arena
  refine ⟨⟨hI.procs.congr ⟨hA.low, hA.high, hA.apart, hA.stored⟩ (fun _ _ => rfl) rfl rfl,
    ⟨⟨hA.low, hA.high, hA.apart, hA.stored⟩, hI.tasks.links,
      ⟨hI.tasks.own.stored, hI.tasks.own.apart⟩, Or.inr hc⟩⟩, ?_⟩
  unfold TaskSystem.view Sched.step
  congr 1
  rw [processOf_map hc, Kernel.taskProcess_of hx]

/-- **Refinement.** Every admitted call keeps the lists in the memory and does to the abstract model
what the model says. -/
theorem taskStep_refines (hI : SystemInv M s) (hc : c.Live s) (h : taskStep M s c = .ok (r, t)) :
    SystemInv M t ∧ t.view = s.view.step r c := by
  cases c with
  | processAlloc => exact processAlloc_refines hI h
  | newSpace process flags => exact newSpace_refines hI h
  | processFree process => exact processFree_refines hI hc h
  | taskNew process => exact taskNew_refines hI h
  | taskFree task => exact taskFree_refines hI hc h
  | taskSwitch task => exact taskSwitch_refines hI hc h
  | pagingSwitch directory =>
    refine taskStep_of_wp (P := Refines M s (.pagingSwitch directory)) ?_ h
    unfold TaskCall.run VibeKernel.pagingSwitch
    rw [wp_map, wp_modify]
    exact ⟨⟨hI.procs, hI.tasks⟩, rfl⟩

/-- Without a process and a task the lists are empty. -/
theorem Unused.inv {k : Kernel H D} (h : Unused M k) (cpu : Cpu) :
    SystemInv M (TaskSystem.start k cpu) := by
  obtain ⟨hhead, htail, -⟩ := h.procs
  have htasks := h.tasks
  refine ⟨⟨h.arena, chain_nil.mpr hhead, htail, fun p hp => absurd hp List.not_mem_nil⟩,
    ⟨h.arena, ?_, ⟨fun p hp => absurd hp List.not_mem_nil, fun p hp => absurd hp List.not_mem_nil⟩,
      Or.inl ⟨?_, rfl⟩⟩⟩
  · change Linked k.taskNext k.taskPrev 0 k.tasks.taskHead k.tasks.taskTail []
    rw [htasks]
    exact linked_nil _ _ _
  · change k.tasks.currentTask = 0
    rw [htasks]

/-- Every completed run keeps the lists. -/
theorem taskRun_inv {k : Kernel H D} (hk : Unused M k) {cpu : Cpu} {calls : List TaskCall}
    (hm : Meets (taskStep M) (fun s c => c.Live s) (TaskSystem.start k cpu) calls) {os : List ℕ}
    {u : TaskSystem H D} (hr : runList (taskStep M) (TaskSystem.start k cpu) calls = .ok (os, u)) :
    SystemInv M u :=
  runList_invariant (fun _ _ _ _ hI hc hs => (taskStep_refines hI hc hs).1) (hk.inv cpu) hm hr

/-- A live task can be freed. -/
theorem taskFree_completes {task : ℕ} (hI : SystemInv M s) (hc : task ∈ s.tasks) :
    ∃ r t, taskStep M s (.taskFree task) = .ok (r, t) := by
  have hwp : wp (fun _ => False) (TaskCall.run M (.taskFree task)) (fun _ _ => True) s.system := by
    unfold TaskCall.run
    rw [wp_onKernel, wp_map]
    exact taskFree_list_wp hI.tasks hc fun _ _ => trivial
  exact taskStep_total hwp

/-- A live process can be freed. -/
theorem processFree_completes {process : ℕ} (hI : SystemInv M s) (hc : process ∈ s.procs) :
    ∃ r t, taskStep M s (.processFree process) = .ok (r, t) := by
  have hwp : wp (fun _ => False) (TaskCall.run M (.processFree process)) (fun _ _ => True)
      s.system := by
    unfold TaskCall.run
    rw [wp_onKernel, wp_map]
    exact processFree_list_wp hI.procs hc fun _ _ => trivial
  exact taskStep_total hwp

end Refinement

/-! ### The lists of every run -/

section Runs

variable {M : Machine H D} {k : Kernel H D} {cpu : Cpu} {calls : List TaskCall} {os : List ℕ}
  {u : TaskSystem H D}

/-- **The list of tasks.** After every run of calls on live tasks the list from `task_head` on is
the list of the live tasks in the order of their creation, the list from `task_tail` back is its
reverse, each ends where the other starts, and `current_task` is a live task unless there is none.
Every live task can be freed. -/
theorem task_list (hk : Unused M k)
    (hm : Meets (taskStep M) (fun s c => c.Live s) (TaskSystem.start k cpu) calls)
    (hr : runList (taskStep M) (TaskSystem.start k cpu) calls = .ok (os, u)) :
    Chain u.kernel.taskNext 0 u.kernel.tasks.taskHead u.tasks ∧
      Chain u.kernel.taskPrev 0 u.kernel.tasks.taskTail u.tasks.reverse ∧
      u.kernel.tasks.taskHead = u.tasks.head?.getD 0 ∧
      u.kernel.tasks.taskTail = u.tasks.getLast?.getD 0 ∧
      (u.kernel.tasks.taskHead = 0 ↔ u.tasks = []) ∧
      (u.kernel.tasks.taskTail = 0 ↔ u.tasks = []) ∧
      (u.kernel.tasks.currentTask = 0 ↔ u.tasks = []) ∧
      (u.kernel.tasks.currentTask ≠ 0 → u.kernel.tasks.currentTask ∈ u.tasks) ∧
      ∀ task ∈ u.tasks, ∃ r v, taskStep M u (.taskFree task) = .ok (r, v) := by
  have hI := taskRun_inv hk hm hr
  have hlinks := hI.tasks.links
  refine ⟨hlinks.forth, hlinks.back, hlinks.forth.start, hlinks.tail_eq, hlinks.forth.start_eq_nil,
    ?_, ?_, ?_, fun task => taskFree_completes hI⟩
  · exact hlinks.back.start_eq_nil.trans List.reverse_eq_nil_iff
  · rcases hI.tasks.current with ⟨h0, hnil⟩ | hmem
    · exact iff_of_true h0 hnil
    · exact iff_of_false (fun h0 => hlinks.forth.2 (h0 ▸ hmem)) (List.ne_nil_of_mem hmem)
  · exact fun h0 => hI.tasks.current.resolve_left fun h => h0 h.1

/-- Two tasks of a process, the second switched to and freed. -/
theorem task_list_switched :
    let M := singleFileMachine [0x42]
    let calls : List TaskCall := [.processAlloc, .newSpace 65552 3, .taskNew 65552, .taskNew 65552,
      .taskSwitch 237720, .taskFree 237720]
    ∃ os u, runList (taskStep M) (TaskSystem.start (Kernel.boot (KHeap.init 0x10000) ()) ⟨0, 0, 0⟩)
        calls = .ok (os, u) ∧
      Chain u.kernel.taskNext 0 u.kernel.tasks.taskHead u.tasks ∧
      Chain u.kernel.taskPrev 0 u.kernel.tasks.taskTail u.tasks.reverse ∧
      u.kernel.tasks.taskHead = u.tasks.head?.getD 0 ∧
      u.kernel.tasks.taskTail = u.tasks.getLast?.getD 0 ∧
      (u.kernel.tasks.taskHead = 0 ↔ u.tasks = []) ∧
      (u.kernel.tasks.taskTail = 0 ↔ u.tasks = []) ∧
      (u.kernel.tasks.currentTask = 0 ↔ u.tasks = []) ∧
      (u.kernel.tasks.currentTask ≠ 0 → u.kernel.tasks.currentTask ∈ u.tasks) ∧
      ∀ task ∈ u.tasks, ∃ r v, taskStep M u (.taskFree task) = .ok (r, v) := by
  intro M calls
  have hok : (runList (taskStep M)
      (TaskSystem.start (Kernel.boot (KHeap.init 0x10000) ()) ⟨0, 0, 0⟩)
      calls).isOk = true := by decide +kernel
  have hlive : checkRun (taskStep M) (fun s c => decide (c.Live s))
      (TaskSystem.start (Kernel.boot (KHeap.init 0x10000) ()) ⟨0, 0, 0⟩) calls = true := by
    decide +kernel
  cases hr : runList (taskStep M) (TaskSystem.start (Kernel.boot (KHeap.init 0x10000) ()) ⟨0, 0, 0⟩)
      calls with
  | error e =>
    rw [hr] at hok
    cases hok
  | ok r =>
    exact ⟨r.1, r.2, rfl, task_list (unused_boot _ _)
      (meets_of_checkRun _ (fun _ _ h => of_decide_eq_true h) hlive) hr⟩

/-- **The list of processes.** After every run of calls on live processes the list from
`process_head` on is the list of the live processes in the order of their allocation, each of them
once, and `process_tail` is the last one. `process_get` answers the first live process with the id
in the order of the list, and so hides the others if ids repeat. Every live process can be freed. -/
theorem process_list (hk : Unused M k)
    (hm : Meets (taskStep M) (fun s c => c.Live s) (TaskSystem.start k cpu) calls)
    (hr : runList (taskStep M) (TaskSystem.start k cpu) calls = .ok (os, u)) :
    Chain u.kernel.processNext 0 u.kernel.proc.processHead u.procs ∧ u.procs.Nodup ∧
      u.kernel.proc.processTail = u.procs.getLast?.getD 0 ∧
      (u.kernel.proc.processHead = 0 ↔ u.procs = []) ∧
      (u.kernel.proc.processTail = 0 ↔ u.procs = []) ∧
      (∀ id : ℤ, processGet id u.kernel = .ok
        ((u.procs.find? fun p => decide ((u.kernel.processId p : ℤ) = id)).getD 0, u.kernel)) ∧
      ∀ process ∈ u.procs, ∃ r v, taskStep M u (.processFree process) = .ok (r, v) := by
  have hI := taskRun_inv hk hm hr
  have hchain := hI.procs.chain
  refine ⟨hchain, hchain.nodup, hI.procs.tail, hchain.start_eq_nil, ?_, processGet_eq hI.procs,
    fun process => processFree_completes hI⟩
  rw [hI.procs.tail]
  constructor
  · intro h0
    by_contra hne
    -- the last process is none at the address `0`
    obtain ⟨p, hp⟩ := Option.ne_none_iff_exists'.mp
      (fun hnone => hne (List.getLast?_eq_none_iff.mp hnone))
    rw [hp, Option.getD_some] at h0
    exact hchain.2 (h0 ▸ List.mem_of_getLast? hp)
  · intro hnil
    rw [hnil]
    rfl

/-- Two processes, the first freed, and another one in its block. -/
theorem process_list_reused :
    let M := singleFileMachine [0x42]
    let calls : List TaskCall := [.processAlloc, .processAlloc, .processFree 65552, .processAlloc]
    ∃ os u, runList (taskStep M) (TaskSystem.start (Kernel.boot (KHeap.init 0x10000) ()) ⟨0, 0, 0⟩)
        calls = .ok (os, u) ∧
      Chain u.kernel.processNext 0 u.kernel.proc.processHead u.procs ∧ u.procs.Nodup ∧
      u.kernel.proc.processTail = u.procs.getLast?.getD 0 ∧
      (u.kernel.proc.processHead = 0 ↔ u.procs = []) ∧
      (u.kernel.proc.processTail = 0 ↔ u.procs = []) ∧
      (∀ id : ℤ, processGet id u.kernel = .ok
        ((u.procs.find? fun p => decide ((u.kernel.processId p : ℤ) = id)).getD 0, u.kernel)) ∧
      ∀ process ∈ u.procs, ∃ r v, taskStep M u (.processFree process) = .ok (r, v) := by
  intro M calls
  have hok : (runList (taskStep M)
      (TaskSystem.start (Kernel.boot (KHeap.init 0x10000) ()) ⟨0, 0, 0⟩)
      calls).isOk = true := by decide +kernel
  have hlive : checkRun (taskStep M) (fun s c => decide (c.Live s))
      (TaskSystem.start (Kernel.boot (KHeap.init 0x10000) ()) ⟨0, 0, 0⟩) calls = true := by
    decide +kernel
  cases hr : runList (taskStep M) (TaskSystem.start (Kernel.boot (KHeap.init 0x10000) ()) ⟨0, 0, 0⟩)
      calls with
  | error e =>
    rw [hr] at hok
    cases hok
  | ok r =>
    exact ⟨r.1, r.2, rfl, process_list (unused_boot _ _)
      (meets_of_checkRun _ (fun _ _ h => of_decide_eq_true h) hlive) hr⟩

end Runs

end VibeKernel
