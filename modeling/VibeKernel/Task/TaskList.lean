import VibeKernel.Lib.Chain
import VibeKernel.Task.Task

/-!
# The list of tasks

`task_free` and `task_switch` of `src/task/task.c`. `TaskList M s ts` says that the list in the
memory is `ts`: the tasks are linked in both directions between `task_head` and `task_tail`, every
task has its two stacks to itself, and `current_task` is one of them unless there is none.
`task_new` appends to the list, and `task_free` takes a member out.

A processor state with the register that holds the page directory stands beside the kernel, for
`task_switch` and `paging_switch`.
-/

namespace VibeKernel

open Verif

variable {H D α : Type}

/-! ### The processor -/

/-- The register `CR3`, the variable `current_directory` of `paging.c` that follows it, and the
stack for interrupts in `tss_entry`. -/
structure Cpu where
  cr3 : ℕ
  currentDirectory : ℕ
  esp0 : ℕ
  deriving DecidableEq, Repr

/-- The kernel on its processor. -/
structure System (H D : Type) where
  kernel : Kernel H D
  cpu : Cpu

/-- A computation of the kernel that uses the processor. -/
abbrev SM (H D α : Type) := Exec Stop (System H D) α

/-- A computation that does not. -/
def onKernel (x : KM H D α) : SM H D α := fun s =>
  match x s.kernel with
  | .error e => .error e
  | .ok (a, k) => .ok (a, { s with kernel := k })

theorem wp_onKernel {E : Stop → Prop} {x : KM H D α} {Q : α → System H D → Prop} {s : System H D} :
    wp E (onKernel x) Q s ↔ wp E x (fun a k => Q a { s with kernel := k }) s.kernel := by
  unfold wp onKernel
  cases x s.kernel <;> rfl

/-- `paging_switch`. -/
def pagingSwitch (directory : ℕ) : SM H D Unit :=
  Exec.modify fun s =>
    { s with cpu := { s.cpu with cr3 := directory, currentDirectory := directory } }

/-! ### The functions of the source -/

/-- The three assignments of `task_free` to the static variables. -/
def TaskStatics.without (t : TaskStatics) (task : ℕ) (x : Task) : TaskStatics :=
  let t := if task = t.taskHead then { t with taskHead := x.next } else t
  let t := if task = t.taskTail then { t with taskTail := x.prev } else t
  if task = t.currentTask then { t with currentTask := t.taskHead } else t

/-- `if (p) p->field = …`. -/
def editTask (p : ℕ) (f : Task → Task) : KM H D Unit :=
  if p ≠ 0 then modifyTask p f else pure ()

/-- `task_free`. -/
def taskFree (M : Machine H D) (task : ℕ) : KM H D Unit := do
  let x ← readObj Obj.asTask task
  editTask x.prev fun y => { y with next := x.next }
  let x ← readObj Obj.asTask task
  editTask x.next fun y => { y with prev := x.prev }
  let x ← readObj Obj.asTask task
  Exec.modify fun s => { s with tasks := s.tasks.without task x }
  if x.userStack ≠ 0 then kfree M x.userStack else pure ()
  if x.kstack ≠ 0 then kfree M x.kstack else pure ()
  kfree M task

/-- `task_current`. -/
def taskCurrent : KM H D ℕ := Exec.gets fun s => s.tasks.currentTask

/-- `task_switch`, up to the jump of `task_return`; the answer is the task whose registers it
loads. -/
def taskSwitch (task : ℕ) : SM H D Task := do
  onKernel (Exec.modify fun s => { s with tasks := { s.tasks with currentTask := task } })
  let x ← onKernel (readObj Obj.asTask task)
  onKernel (processSwitch x.process)
  let directory ← onKernel (processDirectory x.process)
  pagingSwitch directory
  Exec.modify fun s => { s with cpu := { s.cpu with esp0 := u32 (x.kstack + 16383) } }
  pure x

/-- A task without its links. -/
def Task.core (x : Task) : Task := { x with next := 0, prev := 0 }

theorem Task.core_fields {x y : Task} (h : y.core = x.core) :
    y.userStack = x.userStack ∧ y.kstack = x.kstack ∧ y.process = x.process := by
  have hus := congrArg Task.userStack h
  have hks := congrArg Task.kstack h
  have hproc := congrArg Task.process h
  exact ⟨hus, hks, hproc⟩

/-! ### The list in the memory -/

/-- The successor of a task. -/
def Kernel.taskNext (s : Kernel H D) (p : ℕ) : ℕ :=
  match (s.store p).bind Obj.asTask with
  | some x => x.next
  | none => 0

/-- The predecessor of a task. -/
def Kernel.taskPrev (s : Kernel H D) (p : ℕ) : ℕ :=
  match (s.store p).bind Obj.asTask with
  | some x => x.prev
  | none => 0

/-- The process of a task. -/
def Kernel.taskProcess (s : Kernel H D) (p : ℕ) : ℕ :=
  match (s.store p).bind Obj.asTask with
  | some x => x.process
  | none => 0

/-- There is a block for a stack. -/
def HoldsStack (s : Kernel H D) (p : ℕ) : Prop := ∃ n c, s.store p = some (.bytes n c)

/-- Two tasks have no stack in common. -/
def StacksApart (x y : Task) : Prop :=
  x.userStack ≠ y.userStack ∧ x.userStack ≠ y.kstack ∧ x.kstack ≠ y.userStack ∧ x.kstack ≠ y.kstack

/-- The tasks have their structures and their stacks to themselves. -/
structure OwnStacks (s : Kernel H D) (ts : List ℕ) : Prop where
  stored : ∀ p ∈ ts, ∃ x, s.store p = some (.task x) ∧ HoldsStack s x.userStack ∧
    HoldsStack s x.kstack
  apart : ∀ p ∈ ts, ∀ q ∈ ts, p ≠ q → ∀ x y, s.store p = some (.task x) →
    s.store q = some (.task y) → StacksApart x y

/-- The list of tasks is `ts`. -/
structure TaskList (M : Machine H D) (s : Kernel H D) (ts : List ℕ) : Prop where
  arena : ArenaInv M s
  links : Linked s.taskNext s.taskPrev 0 s.tasks.taskHead s.tasks.taskTail ts
  own : OwnStacks s ts
  current : (s.tasks.currentTask = 0 ∧ ts = []) ∨ s.tasks.currentTask ∈ ts

section Access

variable {M : Machine H D} {s t : Kernel H D} {p : ℕ} {x : Task}

theorem Kernel.taskNext_of (h : s.store p = some (.task x)) : s.taskNext p = x.next := by
  unfold Kernel.taskNext
  rw [h]
  rfl

theorem Kernel.taskPrev_of (h : s.store p = some (.task x)) : s.taskPrev p = x.prev := by
  unfold Kernel.taskPrev
  rw [h]
  rfl

theorem Kernel.taskProcess_of (h : s.store p = some (.task x)) : s.taskProcess p = x.process := by
  unfold Kernel.taskProcess
  rw [h]
  rfl

/-- The three fields are read at the address of the task only. -/
theorem Kernel.task_congr (h : t.store p = s.store p) :
    t.taskNext p = s.taskNext p ∧ t.taskPrev p = s.taskPrev p ∧
      t.taskProcess p = s.taskProcess p := by
  unfold Kernel.taskNext Kernel.taskPrev Kernel.taskProcess
  rw [h]
  exact ⟨rfl, rfl, rfl⟩

/-- Steps that only relink tasks: the rest of a task stays, and so does everything else. -/
structure Relinked (s t : Kernel H D) : Prop where
  task : ∀ p x, s.store p = some (.task x) → ∃ y, t.store p = some (.task y) ∧ y.core = x.core
  other : ∀ p o, s.store p = some o → o.kind ≠ .task → t.store p = some o

theorem Relinked.refl (s : Kernel H D) : Relinked s s :=
  ⟨fun _ x hx => ⟨x, hx, rfl⟩, fun _ _ ho _ => ho⟩

theorem Relinked.trans {u : Kernel H D} (h : Relinked s t) (h' : Relinked t u) : Relinked s u where
  task p x hx := by
    obtain ⟨y, hy, hcore⟩ := h.task p x hx
    obtain ⟨z, hz, hcore'⟩ := h'.task p y hy
    exact ⟨z, hz, hcore'.trans hcore⟩
  other p o ho hk := h'.other p o (h.other p o ho hk) hk

/-- The links of a task are overwritten. -/
theorem Relinked.put {y : Task} (hx : s.store p = some (.task x)) (hcore : y.core = x.core) :
    Relinked s (s.put p (.task y)) where
  task q z hz := by
    by_cases hq : q = p
    · subst hq
      cases hx.symm.trans hz
      exact ⟨y, Kernel.put_store_self, hcore⟩
    · exact ⟨z, (Kernel.put_store_ne hq).trans hz, rfl⟩
  other q o ho hk := by
    refine (Kernel.put_store_ne ?_).trans ho
    rintro rfl
    cases hx.symm.trans ho
    exact hk rfl

theorem Relinked.taskProcess (h : Relinked s t) (hx : s.store p = some (.task x)) :
    t.taskProcess p = s.taskProcess p := by
  obtain ⟨y, hy, hcore⟩ := h.task p x hx
  rw [Kernel.taskProcess_of hy, Kernel.taskProcess_of hx, (Task.core_fields hcore).2.2]

theorem Relinked.holdsStack (h : Relinked s t) (hp : HoldsStack s p) : HoldsStack t p := by
  obtain ⟨n, c, hp⟩ := hp
  exact ⟨n, c, h.other p _ hp fun hk => nomatch hk⟩

theorem OwnStacks.relinked {ts : List ℕ} (h : OwnStacks s ts) (hR : Relinked s t) :
    OwnStacks t ts where
  stored p hp := by
    obtain ⟨x, hx, hus, hks⟩ := h.stored p hp
    obtain ⟨y, hy, hcore⟩ := hR.task p x hx
    obtain ⟨hus', hks', -⟩ := Task.core_fields hcore
    exact ⟨y, hy, hus' ▸ hR.holdsStack hus, hks' ▸ hR.holdsStack hks⟩
  apart p hp q hq hne y y' hy hy' := by
    obtain ⟨x, hx, -⟩ := h.stored p hp
    obtain ⟨x', hx', -⟩ := h.stored q hq
    obtain ⟨z, hz, hcore⟩ := hR.task p x hx
    obtain ⟨z', hz', hcore'⟩ := hR.task q x' hx'
    obtain ⟨hus, hks, -⟩ := Task.core_fields hcore
    obtain ⟨hus', hks', -⟩ := Task.core_fields hcore'
    cases hy.symm.trans hz
    cases hy'.symm.trans hz'
    unfold StacksApart
    rw [hus, hks, hus', hks']
    exact h.apart p hp q hq hne x x' hx hx'

/-- A step that changes no member, none of their stacks and no static variable keeps the list. -/
theorem TaskList.congr {ts : List ℕ} (h : TaskList M s ts) (hA : ArenaInv M t)
    (hstore : ∀ p o, s.store p = some o → o.kind = .task ∨ o.kind = .raw → t.store p = some o)
    (htasks : t.tasks = s.tasks) : TaskList M t ts := by
  have hsame : ∀ p ∈ ts, t.store p = s.store p := fun p hp => by
    obtain ⟨x, hx, -⟩ := h.own.stored p hp
    rw [hstore p _ hx (Or.inl rfl), hx]
  have hstack : ∀ p, HoldsStack s p → HoldsStack t p := fun p ⟨n, c, hp⟩ =>
    ⟨n, c, hstore p _ hp (Or.inr rfl)⟩
  refine ⟨hA, ⟨?_, ?_⟩, ⟨fun p hp => ?_, fun p hp q hq hne x y hx hy => ?_⟩, ?_⟩
  · rw [htasks]
    exact h.links.forth.congr fun b hb => (Kernel.task_congr (hsame b hb)).1
  · rw [htasks]
    exact h.links.back.congr fun b hb =>
      (Kernel.task_congr (hsame b (List.mem_reverse.mp hb))).2.1
  · obtain ⟨x, hx, hus, hks⟩ := h.own.stored p hp
    exact ⟨x, (hsame p hp).trans hx, hstack _ hus, hstack _ hks⟩
  · rw [hsame p hp] at hx
    rw [hsame q hq] at hy
    exact h.own.apart p hp q hq hne x y hx hy
  · rw [htasks]
    exact h.current

/-- A step of the other parts of the kernel keeps the list. -/
theorem TaskList.frame {ts : List ℕ} (h : TaskList M s ts) {K : Kind → Prop} (hF : Frame K s t)
    (hA : ArenaInv M t) (htask : ¬ K .task) (hraw : ¬ K .raw) : TaskList M t ts := by
  refine h.congr hA (fun p o ho hk => hF.store_eq h.arena ho ?_) (hF.tasks htask)
  rcases hk with hk | hk
  · rwa [hk]
  · rwa [hk]

end Access

/-! ### Making a task -/

section Steps

variable {M : Machine H D} {K : Kind → Prop} {s t : Kernel H D} {p q : ℕ}

/-- What is read is there. -/
theorem readObj_wp_any {proj : Obj → Option α} {Q : α → Kernel H D → Prop}
    (hQ : ∀ o x, s.store p = some o → proj o = some x → Q x s) :
    wp (fun _ => True) (readObj proj p) Q s := by
  unfold wp readObj
  cases h : (s.store p).bind proj with
  | none => trivial
  | some x =>
    obtain ⟨o, ho, hx⟩ := Option.bind_eq_some_iff.mp h
    exact hQ o x ho hx

/-- What `struct paging_4gb_chunk` says is kept. -/
def KeepsChunks (s t : Kernel H D) : Prop :=
  ∀ p d, s.store p = some (.chunk d) → t.store p = some (.chunk d)

/-- Of what was there only tables change. -/
structure TablesOnly (M : Machine H D) (s t : Kernel H D) : Prop where
  step : Extends M (· = .paging) s t
  chunks : KeepsChunks s t

namespace TablesOnly

variable {u : Kernel H D} {o w : Obj}

theorem refl (hA : ArenaInv M s) : TablesOnly M s s := ⟨Extends.refl hA, fun _ _ h => h⟩

theorem trans (h : TablesOnly M s t) (h' : TablesOnly M t u) : TablesOnly M s u :=
  ⟨h.step.trans h'.step, fun p d hd => h'.chunks p d (h.chunks p d hd)⟩

/-- What the first state did not have is no chunk of it. -/
theorem chunk_ne (hA : ArenaInv M s) (hnew : ∀ a ∈ s.live, a.ptr ≠ p) {q d : ℕ}
    (hq : s.store q = some (.chunk d)) : q ≠ p := by
  obtain ⟨a, ha, hap, -⟩ := hA.stored q _ hq
  exact fun heq => hnew a ha (hap.trans heq)

theorem heap (hA : ArenaInv M s) (h : H) : TablesOnly M s { s with heap := h } :=
  ⟨Extends.heap hA h, fun _ _ hd => hd⟩

theorem withBlock {n : ℕ} {align : Bool} (hA : ArenaInv M s) (h : H) (hU : Usable M s n align p)
    (htop : p + n ≤ identityTop) : TablesOnly M s (s.withBlock h p n) :=
  ⟨Extends.withBlock hA h hU htop, fun _ _ hd => hd⟩

theorem newObj {align : Bool} (hA : ArenaInv M s) (h : H) (hU : Usable M s o.size align p)
    (htop : p + o.size ≤ identityTop) : TablesOnly M s ((s.withBlock h p o.size).put p o) := by
  refine ⟨Extends.newObj hA h hU htop, fun q d hd => ?_⟩
  exact (Kernel.put_store_ne (chunk_ne hA (fun a ha => ArenaInv.usable_ne hU ha) hd)).trans hd

/-- A table is overwritten. -/
theorem overwrite (hA : ArenaInv M s) {words words' : ℕ → ℕ} (h : s.store p = some (.table words)) :
    TablesOnly M s (s.put p (.table words')) := by
  refine ⟨Extends.overwrite hA h rfl rfl, fun q d hd => (Kernel.put_store_ne ?_).trans hd⟩
  rintro rfl
  rw [h] at hd
  cases hd

theorem putNew (h : TablesOnly M s t) (hA : ArenaInv M s)
    (hfit : ∃ a ∈ t.live, a.ptr = p ∧ o.size ≤ a.size) (hnew : ∀ a ∈ s.live, a.ptr ≠ p) :
    TablesOnly M s (t.put p o) :=
  ⟨h.step.putNew hfit hnew,
    fun q d hd => (Kernel.put_store_ne (chunk_ne hA hnew hd)).trans (h.chunks q d hd)⟩

theorem overwriteNew (h : TablesOnly M s t) (hA : ArenaInv M s) (hw : t.store p = some w)
    (hsize : o.size = w.size) (hnew : ∀ a ∈ s.live, a.ptr ≠ p) : TablesOnly M s (t.put p o) :=
  h.putNew hA (hsize ▸ h.step.arena.stored p w hw) hnew

theorem freedNew (h : TablesOnly M s t) (hA : ArenaInv M s) (hnew : ∀ a ∈ s.live, a.ptr ≠ p) :
    TablesOnly M s (t.freed M p) := by
  refine ⟨h.step.freedNew hnew, fun q d hd => ?_⟩
  exact (Function.update_of_ne (chunk_ne hA hnew hd) _ _).trans (h.chunks q d hd)

end TablesOnly

/-- The process has a page directory. -/
def HasDirectory (s : Kernel H D) (proc : ℕ) : Prop :=
  ∃ x d, s.store proc = some (.process x) ∧
    s.store (wordAt x processPagingChunkOffset) = some (.chunk d)

theorem HasDirectory.tables {proc : ℕ} (h : HasDirectory s proc) (hA : ArenaInv M s)
    (ht : TablesOnly M s t) : HasDirectory t proc := by
  obtain ⟨x, d, hx, hd⟩ := h
  exact ⟨x, d, ht.step.frame.store_eq hA hx (fun hk => nomatch hk), ht.chunks _ _ hd⟩

/-- A process whose directory can be read has one. -/
theorem processDirectory_wp_any {proc : ℕ} {Q : ℕ → Kernel H D → Prop}
    (hQ : ∀ d, HasDirectory s proc → Q d s) : wp (fun _ => True) (processDirectory proc) Q s := by
  unfold processDirectory
  rw [wp_bind]
  refine readObj_wp_any fun o x ho hx => readObj_wp_any fun o' d ho' hd => hQ d ⟨x, d, ?_, ?_⟩
  · rw [ho]
    cases o <;> cases hx
    rfl
  · rw [ho']
    cases o' <;> cases hd
    rfl

/-- `paging_set` writes to tables only. -/
theorem pagingSet_tables (hA : ArenaInv M s) (directory virt val : ℕ) :
    wp (fun _ => True) (pagingSet M directory virt val) (fun _ t => TablesOnly M s t) s := by
  -- writing to what was read as a table
  have hwrite : ∀ (t : Kernel H D) (p : ℕ) (o : Obj) (x words : ℕ → ℕ),
      TablesOnly M s t → t.store p = some o → Obj.asTable o = some x →
        TablesOnly M s (t.put p (.table words)) := by
    intro t p o x words ht ho hx
    cases o <;> cases hx
    exact ht.trans (TablesOnly.overwrite ht.step.arena ho)
  unfold pagingSet
  split_ifs
  · exact TablesOnly.refl hA
  unfold pagingTable
  rw [wp_bind, wp_bind]
  refine readObj_wp_any fun o words ho hwords => ?_
  have hrest : ∀ (table : ℕ) (t : Kernel H D), TablesOnly M s t →
      wp (fun _ => True) (do
        let entries ← readObj Obj.asTable table
        writeObj table (.table (Function.update entries ((virt >>> 12) &&& 0x3FF) val))
        pure (0 : ℤ)) (fun _ t => TablesOnly M s t) t := by
    intro table t ht
    rw [wp_bind]
    refine readObj_wp_any fun o' entries ho' hentries => ?_
    rw [wp_bind]
    have hsize : o'.size = 4096 := by
      cases o' <;> cases hentries
      rfl
    refine writeObj_wp ?_ (hwrite t table o' entries _ ht ho' hentries)
    have hstored := ht.step.arena.stored table o' ho'
    rwa [hsize] at hstored
  dsimp only
  split_ifs
  · rw [wp_bind]
    refine newObj_wp (fun _ _ => trivial) fun p h hp hU htop => ?_
    rw [wp_bind]
    have hne : directory ≠ p := by
      rintro rfl
      rw [hA.usable_store hU] at ho
      cases ho
    have hnew := TablesOnly.newObj (o := .table fun _ => 0) hA h hU htop
    have ho' : ((s.withBlock h p (Obj.size (.table fun _ => 0))).put p (.table fun _ => 0)).store
        directory = some o := (Kernel.put_store_ne hne).trans ho
    have hsize : o.size = 4096 := by
      cases o <;> cases hwords
      rfl
    refine writeObj_wp ?_ ?_
    · have hstored := hnew.step.arena.stored directory o ho'
      rwa [hsize] at hstored
    · rw [wp_pure]
      exact hrest p _ (hwrite _ directory o words _ hnew ho' hwords)
  · rw [wp_pure]
    exact hrest _ s (TablesOnly.refl hA)

/-- Mapping pages changes tables only, whatever the process is; and the process has a directory. -/
theorem mapUserPages_tables (proc virt phys : ℕ) :
    ∀ (n b : ℕ) {s : Kernel H D}, ArenaInv M s →
      wp (fun _ => True) (mapUserPages M proc virt phys b n)
        (fun _ t => TablesOnly M s t ∧ (n ≠ 0 → HasDirectory t proc)) s := by
  intro n
  induction n with
  | zero => exact fun b s hA => ⟨TablesOnly.refl hA, fun h0 => absurd rfl h0⟩
  | succ n ih =>
    intro b s hA
    rw [mapUserPages, wp_bind]
    refine processDirectory_wp_any fun directory hdir => ?_
    rw [wp_bind]
    refine (pagingSet_tables hA _ _ _).mono fun _ t ht => ?_
    refine (ih (b + 4096) ht.step.arena).mono fun _ u hu => ⟨ht.trans hu.1, fun _ => ?_⟩
    exact hdir.tables hA (ht.trans hu.1)

/-- A task that is there is changed. -/
theorem modifyTask_put_wp {E : Stop → Prop} (hA : ArenaInv M s) {x : Task} {f : Task → Task}
    (hx : s.store p = some (.task x)) {Q : Unit → Kernel H D → Prop}
    (hQ : Q () (s.put p (.task (f x)))) : wp E (modifyTask p f) Q s := by
  unfold modifyTask
  rw [wp_bind]
  exact readObj_wp hx rfl (overwrite_wp hA hx rfl hQ)

/-- The task has the selectors of user mode with interrupts enabled, and the top of its stack. -/
structure Task.StartsInUserMode (x : Task) : Prop where
  cs : x.cs = 0x1B
  ss : x.ss = 0x23
  eflags : x.eflags = 0x202
  esp : x.esp = u32 (x.userStack + 16383)

theorem Task.StartsInUserMode.core {x y : Task} (h : x.StartsInUserMode) (hcore : y.core = x.core) :
    y.StartsInUserMode := by
  have hcs := congrArg Task.cs hcore
  have hss := congrArg Task.ss hcore
  have heflags := congrArg Task.eflags hcore
  have hesp := congrArg Task.esp hcore
  refine ⟨Eq.trans hcs h.cs, Eq.trans hss h.ss, Eq.trans heflags h.eflags, ?_⟩
  rw [(Task.core_fields hcore).1]
  exact Eq.trans hesp h.esp

/-- A new task: it has its process, its registers and its stacks, and is not linked yet. -/
structure NewTask (s t : Kernel H D) (proc task : ℕ) (x : Task) : Prop where
  task : t.store task = some (.task x)
  user : x.StartsInUserMode
  process : x.process = proc
  next : x.next = 0
  prev : x.prev = 0
  userStack : HoldsStack t x.userStack ∧ ∀ a ∈ s.live, a.ptr ≠ x.userStack
  kstack : HoldsStack t x.kstack ∧ ∀ a ∈ s.live, a.ptr ≠ x.kstack

/-- The stack of a task that the first state did not have. -/
theorem newStack_tables (hA : ArenaInv M s) (h : TablesOnly M s t) {task : ℕ} {x : Task}
    (hnew : ∀ a ∈ s.live, a.ptr ≠ task) (htask : t.store task = some (.task x))
    {set : ℕ → Task → Task} {Q : ℕ → Kernel H D → Prop}
    (hQ : ∀ stack u, TablesOnly M s u → u.store task = some (.task (set stack x)) →
      (∀ q n c, t.store q = some (.bytes n c) → u.store q = some (.bytes n c)) →
      (stack ≠ 0 → HoldsStack u stack ∧ ∀ a ∈ s.live, a.ptr ≠ stack) → Q stack u) :
    wp (fun _ => True) (newStack M task set) Q t := by
  have hother : ∀ {u : Kernel H D} {o : Obj} {q n c}, u.store task = some (.task x) →
      u.store q = some (.bytes n c) → (u.put task o).store q = some (.bytes n c) := by
    intro u o q n c hu hq
    refine (Kernel.put_store_ne ?_).trans hq
    rintro rfl
    rw [hu] at hq
    cases hq
  unfold newStack
  rw [wp_bind]
  refine kmallocInt_wp (fun _ _ => trivial) (fun h' => ?_) fun p h' hp hU htop => ?_
  · -- no memory
    have h₁ := h.trans (TablesOnly.heap h.step.arena h')
    rw [wp_bind]
    refine modifyTask_put_wp h₁.step.arena htask ?_
    rw [if_pos rfl, wp_pure]
    exact hQ 0 _ (h₁.overwriteNew hA htask rfl hnew) Kernel.put_store_self
      (fun q n c hq => hother htask hq) fun h0 => absurd rfl h0
  have h₁ := h.trans (TablesOnly.withBlock h.step.arena h' hU htop)
  have hne : task ≠ p := by
    rintro rfl
    rw [h.step.arena.usable_store hU] at htask
    cases htask
  rw [wp_bind]
  refine modifyTask_put_wp h₁.step.arena htask ?_
  rw [if_neg hp, wp_bind]
  refine clearBlock_wp List.mem_cons_self ?_
  rw [wp_pure]
  have h₂ := h₁.overwriteNew (o := .task (set p x)) hA htask rfl hnew
  have hstack : ∀ a ∈ s.live, a.ptr ≠ p := fun a ha => ArenaInv.usable_ne hU (h.step.live a ha)
  refine hQ p _ (h₂.putNew hA ⟨_, List.mem_cons_self, rfl, le_refl _⟩ hstack)
    ((Kernel.put_store_ne hne).trans Kernel.put_store_self) (fun q n c hq => ?_)
    fun _ => ⟨⟨_, _, Kernel.put_store_self⟩, hstack⟩
  have hqp : q ≠ p := by
    rintro rfl
    rw [h.step.arena.usable_store hU] at hq
    cases hq
  exact (Kernel.put_store_ne hqp).trans (hother htask hq)

/-- `task_init` on a new block changes, of what was there, tables only. -/
theorem taskInit_tables (hA : ArenaInv M s) {task proc : ℕ} {h₀ : H}
    (hU₀ : Usable M s 68 false task) (htop₀ : task + 68 ≤ identityTop) :
    wp (fun _ => True) (taskInit M task proc)
      (fun r t => TablesOnly M s t ∧ (r = 0 → HasDirectory t proc ∧ ∃ x, NewTask s t proc task x))
      (s.withBlock h₀ task 68) := by
  have hnew : ∀ a ∈ s.live, a.ptr ≠ task := fun a ha => ArenaInv.usable_ne hU₀ ha
  have hfail : ∀ {t : Kernel H D}, TablesOnly M s t →
      TablesOnly M s t ∧ ((-1 : ℤ) = 0 → HasDirectory t proc ∧ ∃ x, NewTask s t proc task x) :=
    fun ht => ⟨ht, fun h => absurd h (by decide)⟩
  unfold taskInit
  rw [wp_bind]
  refine writeObj_wp ⟨_, List.mem_cons_self, rfl, le_refl _⟩ ?_
  have h₁ := TablesOnly.newObj (o := .task ⟨0, 0, 0, 0, 0, proc, 0, 0, 0, 0⟩) hA h₀ hU₀ htop₀
  rw [wp_bind]
  -- the user stack
  refine newStack_tables hA h₁ hnew Kernel.put_store_self fun us t₂ h₂ htask₂ _ hus => ?_
  split_ifs with h0
  · exact hfail h₂
  rw [wp_bind]
  -- the kernel stack, without which the user stack is given back
  refine newStack_tables hA h₂ hnew htask₂ fun ks t₃ h₃ htask₃ hraw₃ hks => ?_
  split_ifs with h0'
  · rw [wp_bind]
    refine kfree_wp (fun hnull => absurd hnull h0) fun _ => ?_
    exact hfail (h₃.freedNew hA (hus h0).2)
  rw [wp_bind]
  refine readObj_wp_any fun _ bytes _ _ => ?_
  rw [wp_bind]
  refine modifyTask_put_wp h₃.step.arena htask₃ ?_
  rw [wp_bind]
  -- the registers are stored, and the pages of the stack mapped
  have h₄ : ∀ y, TablesOnly M s (t₃.put task (.task y)) :=
    fun y => h₃.overwriteNew hA htask₃ rfl hnew
  have hA₄ : ∀ y, ArenaInv M (t₃.put task (.task y)) := fun y => (h₄ y).step.arena
  refine (mapUserPages_tables proc _ _ 4 0 (hA₄ _)).mono fun _ t₅ ⟨h₅, hdir⟩ => ?_
  rw [wp_pure]
  -- neither changes a stack
  have hstack : ∀ q, HoldsStack t₃ q → HoldsStack t₅ q := by
    rintro q ⟨n, c, hq⟩
    refine ⟨n, c, h₅.step.frame.store_eq (hA₄ _) ((Kernel.put_store_ne ?_).trans hq)
      fun h => nomatch h⟩
    rintro rfl
    rw [htask₃] at hq
    cases hq
  obtain ⟨⟨n, c, hus₂⟩, hnew₂⟩ := hus h0
  obtain ⟨hks₃, hnew₃⟩ := hks h0'
  have htask₅ := h₅.step.frame.store_eq (hA₄ _) Kernel.put_store_self fun h => nomatch h
  refine ⟨(h₄ _).trans h₅, fun _ =>
    ⟨hdir (by decide), _, htask₅, ⟨rfl, rfl, rfl, rfl⟩, rfl, rfl, rfl,
    ⟨?_, hnew₂⟩, ⟨?_, hnew₃⟩⟩⟩
  · exact hstack _ ⟨n, c, hraw₃ _ _ _ hus₂⟩
  · exact hstack _ hks₃

/-- What `task_new` does if it succeeds. -/
structure TaskAppended (M : Machine H D) (s t : Kernel H D) (ts : List ℕ)
    (proc task : ℕ) : Prop where
  list : TaskList M t (ts ++ [task])
  ne_zero : task ≠ 0
  made : ∃ x, t.store task = some (.task x) ∧ x.StartsInUserMode
  kept : ∀ p ∈ ts, ∀ x, s.store p = some (.task x) → ∃ y, t.store p = some (.task y) ∧
    y.core = x.core
  process : t.taskProcess task = proc
  others : ∀ p ∈ ts, t.taskProcess p = s.taskProcess p
  processes : ∀ p x, s.store p = some (.process x) → t.store p = some (.process x)
  chunks : KeepsChunks s t
  statics : t.proc = if ts = [] then { s.proc with currentProcess := proc } else s.proc
  current : t.tasks.currentTask = if ts = [] then task else s.tasks.currentTask

/-- The end of `task_new`. -/
theorem taskLink_list_wp {E : Stop → Prop} {ts : List ℕ} {proc task : ℕ} {x : Task}
    (h : TaskList M s ts) (hx : s.store task = some (.task x)) (huser : x.StartsInUserMode)
    (htask : task ∉ ts)
    (hproc : x.process = proc) (hnext : x.next = 0) (hprev : x.prev = 0)
    (hus : HoldsStack s x.userStack) (hks : HoldsStack s x.kstack)
    (hapart : ∀ p ∈ ts, ∀ y, s.store p = some (.task y) → StacksApart x y ∧ StacksApart y x)
    {Q : Unit → Kernel H D → Prop} (hQ : ∀ t, TaskAppended M s t ts proc task → Q () t) :
    wp E (taskLink task proc) Q s := by
  have h0 := h.arena.ne_zero hx
  have hown : OwnStacks s (ts ++ [task]) := by
    refine ⟨fun p hp => ?_, fun p hp q hq hne y z hy hz => ?_⟩
    · rcases List.mem_append.mp hp with hp | hp
      · exact h.own.stored p hp
      · cases List.mem_singleton.mp hp
        exact ⟨x, hx, hus, hks⟩
    · rcases List.mem_append.mp hp with hp | hp <;> rcases List.mem_append.mp hq with hq | hq
      · exact h.own.apart p hp q hq hne y z hy hz
      · cases List.mem_singleton.mp hq
        cases hx.symm.trans hz
        exact (hapart p hp y hy).2
      · cases List.mem_singleton.mp hp
        cases hx.symm.trans hy
        exact (hapart q hq z hz).1
      · exact absurd ((List.mem_singleton.mp hp).trans (List.mem_singleton.mp hq).symm) hne
  unfold taskLink
  rw [wp_bind, wp_gets]
  dsimp only [id]
  by_cases hhead : s.tasks.taskHead = 0
  · -- the first task becomes the current one
    obtain rfl : ts = [] := h.links.empty_iff.1.mp hhead
    rw [if_pos hhead, wp_bind, wp_modify]
    unfold processSwitch
    rw [wp_modify]
    refine hQ _ ⟨⟨⟨h.arena.low, h.arena.high, h.arena.apart, h.arena.stored⟩, ⟨?_, ?_⟩, ?_, ?_⟩, h0,
      ⟨x, hx, huser⟩, fun p hp => absurd hp List.not_mem_nil, ?_,
      fun p hp => absurd hp List.not_mem_nil, fun p y hy => hy, fun p d hd => hd, rfl, rfl⟩
    · exact chain_cons.mpr ⟨rfl, h0, chain_nil.mpr ((Kernel.taskNext_of hx).trans hnext)⟩
    · exact chain_cons.mpr ⟨rfl, h0, chain_nil.mpr ((Kernel.taskPrev_of hx).trans hprev)⟩
    · exact ⟨hown.stored, hown.apart⟩
    · exact Or.inr List.mem_cons_self
    · exact (Kernel.taskProcess_of hx).trans hproc
  have hne : ts ≠ [] := fun hnil => hhead (h.links.empty_iff.1.mpr hnil)
  have htail := h.links.tail_mem hne
  obtain ⟨y, hy, -⟩ := h.own.stored _ htail
  have htt : task ≠ s.tasks.taskTail := fun heq => htask (heq ▸ htail)
  rw [if_neg hhead, wp_bind]
  refine modifyTask_put_wp h.arena hy ?_
  have hx' : (s.put s.tasks.taskTail (.task { y with next := task })).store task = some (.task x) :=
    (Kernel.put_store_ne htt).trans hx
  have hA₁ : ArenaInv M (s.put s.tasks.taskTail (.task { y with next := task })) :=
    h.arena.overwrite hy rfl
  rw [wp_bind]
  refine modifyTask_put_wp hA₁ hx' ?_
  rw [wp_modify]
  have hA₂ := hA₁.overwrite (o := .task { x with prev := s.tasks.taskTail }) hx' rfl
  have hR : Relinked s ((s.put s.tasks.taskTail (.task { y with next := task })).put task
      (.task { x with prev := s.tasks.taskTail })) := by
    have hR₁ : Relinked s (s.put s.tasks.taskTail (.task { y with next := task })) :=
      Relinked.put hy rfl
    exact hR₁.trans (Relinked.put hx' rfl)
  generalize hu : (s.put s.tasks.taskTail (.task { y with next := task })).put task
    (.task { x with prev := s.tasks.taskTail }) = u at hA₂ hR ⊢
  -- the links of the new state
  have hself : u.store task = some (.task { x with prev := s.tasks.taskTail }) := by
    rw [← hu]
    exact Kernel.put_store_self
  have hlast : u.store s.tasks.taskTail = some (.task { y with next := task }) := by
    rw [← hu, Kernel.put_store_ne htt.symm]
    exact Kernel.put_store_self
  have hrest : ∀ b ∈ ts, b ≠ s.tasks.taskTail → u.store b = s.store b := fun b hb hbt => by
    have hbx : b ≠ task := fun heq => htask (heq ▸ hb)
    rw [← hu, Kernel.put_store_ne hbx, Kernel.put_store_ne hbt]
  have hstatics : u.tasks = s.tasks ∧ u.proc = s.proc := by
    rw [← hu]
    exact ⟨rfl, rfl⟩
  have hlinks : Linked u.taskNext u.taskPrev 0 s.tasks.taskHead task (ts ++ [task]) := by
    have happ := @Linked.append _ _ _ u.taskNext u.taskPrev _ _ _ _ _ _ h.links h0
      (fun b hb hbt => (Kernel.task_congr (hrest b hb hbt)).1)
      (fun _ => Kernel.taskNext_of hlast) ((Kernel.taskNext_of hself).trans hnext)
      (Kernel.taskPrev_of hself) fun b hb => ?_
    · rwa [if_neg hhead] at happ
    · by_cases hbt : b = s.tasks.taskTail
      · rw [hbt, Kernel.taskPrev_of hlast, Kernel.taskPrev_of hy]
      · exact (Kernel.task_congr (hrest b hb hbt)).2.1
  have hown' := hown.relinked hR
  refine hQ _ ⟨⟨⟨hA₂.low, hA₂.high, hA₂.apart, hA₂.stored⟩, ?_,
    ⟨hown'.stored, hown'.apart⟩, ?_⟩, h0,
    ⟨_, hself, huser.core rfl⟩, fun p _ z hz => hR.task p z hz,
    (Kernel.taskProcess_of hself).trans hproc,
    fun p hp => ?_, fun p z hz => ?_, fun p d hd => ?_, ?_, ?_⟩
  · change Linked u.taskNext u.taskPrev 0 u.tasks.taskHead task _
    rw [hstatics.1]
    exact hlinks
  · change _ ∨ u.tasks.currentTask ∈ _
    rw [hstatics.1]
    exact Or.inr (List.mem_append_left _ (h.current.resolve_left fun hc => hne hc.2))
  · obtain ⟨z, hz, -⟩ := h.own.stored p hp
    exact hR.taskProcess hz
  · exact hR.other p _ hz fun hk => nomatch hk
  · exact hR.other p _ hd fun hk => nomatch hk
  · rw [if_neg hne]
    exact hstatics.2
  · rw [if_neg hne, ← hstatics.1]

/-- **`task_new`** returns `NULL` and changes, of what was there, tables only; or it appends a task
for the process. -/
theorem taskNew_list_wp {ts : List ℕ} {proc : ℕ} (h : TaskList M s ts) {Q : ℕ → Kernel H D → Prop}
    (hnull : ∀ t, TablesOnly M s t → Q 0 t)
    (hok : ∀ task t, HasDirectory t proc → TaskAppended M s t ts proc task → Q task t) :
    wp (fun _ => True) (taskNew M proc) Q s := by
  unfold taskNew
  rw [wp_bind]
  refine kmallocInt_wp (fun _ _ => trivial) (fun h' => ?_) fun task h' h0 hU htop => ?_
  · rw [if_pos rfl, wp_pure]
    exact hnull _ (TablesOnly.heap h.arena h')
  have hnew : ∀ a ∈ s.live, a.ptr ≠ task := fun a ha => ArenaInv.usable_ne hU ha
  rw [if_neg h0, wp_bind]
  refine (taskInit_tables h.arena hU htop).mono fun res t hres => ?_
  obtain ⟨htables, hmade⟩ := hres
  have hstep := htables.step
  split_ifs with hr
  · rw [wp_bind]
    refine kfree_wp (fun hz => absurd hz h0) fun _ => ?_
    exact hnull _ (htables.freedNew h.arena hnew)
  obtain ⟨hdir, x, hx⟩ := hmade (not_not.mp hr)
  have hL : TaskList M t ts :=
    h.frame hstep.frame hstep.arena (fun hk => nomatch hk) fun hk => nomatch hk
  -- nothing that was there lies at a new address
  have hfresh : ∀ {p q : ℕ} {o : Obj}, (∀ a ∈ s.live, a.ptr ≠ q) → s.store p = some o → q ≠ p := by
    rintro p _ o hq ho rfl
    obtain ⟨a, ha, hap, -⟩ := h.arena.stored _ o ho
    exact hq a ha hap
  have hold : ∀ {p : ℕ} {o : Obj}, s.store p = some o → o.kind ≠ .paging → t.store p = some o :=
    fun ho hk => hstep.frame.store_eq h.arena ho hk
  have htask : task ∉ ts := fun hm => by
    obtain ⟨z, hz, -⟩ := h.own.stored task hm
    exact hfresh hnew hz rfl
  rw [wp_bind]
  refine taskLink_list_wp hL hx.task hx.user htask hx.process hx.next hx.prev
    hx.userStack.1 hx.kstack.1
    (fun p hp y hy => ?_) fun u hu => ?_
  · obtain ⟨z, hz, ⟨n, c, hzu⟩, ⟨n', c', hzk⟩⟩ := h.own.stored p hp
    cases hy.symm.trans (hold hz fun hk => nomatch hk)
    have hu₁ := hfresh hx.userStack.2 hzu
    have hu₂ := hfresh hx.userStack.2 hzk
    have hk₁ := hfresh hx.kstack.2 hzu
    have hk₂ := hfresh hx.kstack.2 hzk
    exact ⟨⟨hu₁, hu₂, hk₁, hk₂⟩, ⟨hu₁.symm, hk₁.symm, hu₂.symm, hk₂.symm⟩⟩
  · rw [wp_pure]
    have hproc : t.proc = s.proc := hstep.frame.proc fun hk => nomatch hk
    have htasks : t.tasks = s.tasks := hstep.frame.tasks fun hk => nomatch hk
    refine hok task u ?_ ⟨hu.list, hu.ne_zero, hu.made,
      fun p hp y hy => hu.kept p hp y (hold hy fun hk => nomatch hk), hu.process, fun p hp => ?_,
      fun p y hy => ?_,
      fun p d hd => hu.chunks p d (htables.chunks p d hd), ?_, ?_⟩
    · obtain ⟨y, d, hy, hd⟩ := hdir
      exact ⟨y, d, hu.processes _ _ hy, hu.chunks _ _ hd⟩
    · obtain ⟨z, hz, -⟩ := h.own.stored p hp
      rw [hu.others p hp, Kernel.taskProcess_of (hold hz fun hk => nomatch hk),
        Kernel.taskProcess_of hz]
    · exact hu.processes p y (hold hy fun hk => nomatch hk)
    · rw [hu.statics, hproc]
    · rw [hu.current, htasks]

/-! ### Taking a task out -/

/-- What `if (p) p->field = …` does to a state. -/
structure Edited (M : Machine H D) (s t : Kernel H D) (p : ℕ) (f : Task → Task) : Prop where
  arena : ArenaInv M t
  self : ∀ y, p ≠ 0 → s.store p = some (.task y) → t.store p = some (.task (f y))
  other : ∀ q, q ≠ p → t.store q = s.store q
  statics : t.tasks = s.tasks ∧ t.proc = s.proc
  relinked : (∀ y, (f y).core = y.core) → Relinked s t

theorem editTask_wp {E : Stop → Prop} {f : Task → Task} (hA : ArenaInv M s)
    (hp : p ≠ 0 → ∃ y, s.store p = some (.task y)) {Q : Unit → Kernel H D → Prop}
    (hQ : ∀ t, Edited M s t p f → Q () t) : wp E (editTask p f) Q s := by
  unfold editTask
  split_ifs with h0
  · obtain ⟨y, hy⟩ := hp h0
    refine modifyTask_put_wp hA hy (hQ _ ⟨hA.overwrite hy rfl, fun z _ hz => ?_, fun q hq => ?_,
      ⟨rfl, rfl⟩, fun hf => Relinked.put hy (hf y)⟩)
    · cases hy.symm.trans hz
      exact Kernel.put_store_self
    · exact Kernel.put_store_ne hq
  · rw [wp_pure]
    exact hQ s ⟨hA, fun y hne => absurd hne h0, fun _ _ => rfl, ⟨rfl, rfl⟩,
      fun _ => Relinked.refl s⟩

section Edited

variable {f : Task → Task}

/-- An edit of another field keeps the successors. -/
theorem Edited.taskNext (h : Edited M s t p f) (hp : p ≠ 0 → ∃ y, s.store p = some (.task y))
    (hf : ∀ y, (f y).next = y.next) (hq : q ≠ 0) : t.taskNext q = s.taskNext q := by
  by_cases hqp : q = p
  · subst hqp
    obtain ⟨y, hy⟩ := hp hq
    rw [Kernel.taskNext_of (h.self y hq hy), Kernel.taskNext_of hy, hf]
  · exact (Kernel.task_congr (h.other q hqp)).1

/-- An edit of another field keeps the predecessors. -/
theorem Edited.taskPrev (h : Edited M s t p f) (hp : p ≠ 0 → ∃ y, s.store p = some (.task y))
    (hf : ∀ y, (f y).prev = y.prev) (hq : q ≠ 0) : t.taskPrev q = s.taskPrev q := by
  by_cases hqp : q = p
  · subst hqp
    obtain ⟨y, hy⟩ := hp hq
    rw [Kernel.taskPrev_of (h.self y hq hy), Kernel.taskPrev_of hy, hf]
  · exact (Kernel.task_congr (h.other q hqp)).2.1

end Edited

/-- The static variables after the three assignments. -/
theorem TaskStatics.without_eq (v : TaskStatics) (task : ℕ) (x : Task) :
    (v.without task x).taskHead = (if v.taskHead = task then x.next else v.taskHead) ∧
      (v.without task x).taskTail = (if v.taskTail = task then x.prev else v.taskTail) ∧
      (v.without task x).currentTask =
        if task = v.currentTask then (v.without task x).taskHead else v.currentTask := by
  unfold TaskStatics.without
  dsimp only
  refine ⟨?_, ?_, ?_⟩ <;> split_ifs <;> first | rfl | omega | (dsimp only at *; omega)

/-- What `task_free` of a member does. -/
structure TaskRemoved (M : Machine H D) (s t : Kernel H D) (ts : List ℕ) (task : ℕ) : Prop where
  list : TaskList M t (ts.erase task)
  kept : ∀ p ∈ ts.erase task, ∀ x, s.store p = some (.task x) →
    ∃ y, t.store p = some (.task y) ∧ y.core = x.core
  others : ∀ p ∈ ts.erase task, t.taskProcess p = s.taskProcess p
  processes : ∀ p x, s.store p = some (.process x) → t.store p = some (.process x)
  chunks : KeepsChunks s t
  statics : t.proc = s.proc
  current : t.tasks.currentTask =
    if task = s.tasks.currentTask then t.tasks.taskHead else s.tasks.currentTask

/-- The state in which the links around a task lead past it, before its blocks are freed. -/
structure Bypassed (M : Machine H D) (s t : Kernel H D) (ts : List ℕ) (task : ℕ) : Prop where
  arena : ArenaInv M t
  relinked : Relinked s t
  self : t.store task = s.store task
  links : Linked t.taskNext t.taskPrev 0 t.tasks.taskHead t.tasks.taskTail (ts.erase task)
  statics : t.proc = s.proc
  current : t.tasks.currentTask =
    if task = s.tasks.currentTask then t.tasks.taskHead else s.tasks.currentTask

/-- The blocks of a task are freed, and nobody else's. -/
theorem Bypassed.freed {ts : List ℕ} {task : ℕ} {x : Task} (h : TaskList M s ts)
    (hb : Bypassed M s t ts task) (htask : task ∈ ts) (hx : s.store task = some (.task x)) :
    TaskRemoved M s (t.freedAll M [x.userStack, x.kstack, task]) ts task := by
  obtain ⟨x', hx', ⟨n, c, hus⟩, ⟨n', c', hks⟩⟩ := h.own.stored task htask
  cases hx.symm.trans hx'
  have hown := h.own.relinked hb.relinked
  have hmem : ∀ p ∈ ts.erase task, p ∈ ts ∧ p ≠ task := fun p hp =>
    ⟨List.mem_of_mem_erase hp, (h.links.forth.nodup.mem_erase_iff.mp hp).1⟩
  have hxt : t.store task = some (.task x) := hb.self.trans hx
  have hust := hb.relinked.other _ _ hus fun hk => nomatch hk
  have hkst := hb.relinked.other _ _ hks fun hk => nomatch hk
  -- a structure that is none of the three blocks is still there
  have hkeep : ∀ p o, t.store p = some o → p ≠ x.userStack → p ≠ x.kstack → p ≠ task →
      (t.freedAll M [x.userStack, x.kstack, task]).store p = some o := by
    intro p o ho h₁ h₂ h₃
    rw [Kernel.freedAll_store, if_neg (by simp [h₁, h₂, h₃])]
    exact ho
  have hkind : ∀ p o, t.store p = some o → o.kind ≠ .task → o.kind ≠ .raw →
      (t.freedAll M [x.userStack, x.kstack, task]).store p = some o := by
    intro p o ho hk hk'
    refine hkeep p o ho ?_ ?_ ?_
    · rintro rfl
      cases hust.symm.trans ho
      exact hk' rfl
    · rintro rfl
      cases hkst.symm.trans ho
      exact hk' rfl
    · rintro rfl
      cases hxt.symm.trans ho
      exact hk rfl
  have hmember : ∀ p ∈ ts.erase task, ∀ y, t.store p = some (.task y) →
      (t.freedAll M [x.userStack, x.kstack, task]).store p = some (.task y) := by
    intro p hp y hy
    refine hkeep p _ hy ?_ ?_ (hmem p hp).2
    · rintro rfl
      cases hust.symm.trans hy
    · rintro rfl
      cases hkst.symm.trans hy
  have hsame : ∀ p ∈ ts.erase task,
      (t.freedAll M [x.userStack, x.kstack, task]).store p = t.store p := by
    intro p hp
    obtain ⟨y, hy, -⟩ := hown.stored p (hmem p hp).1
    rw [hmember p hp y hy, hy]
  obtain ⟨-, -, hproc, htasks⟩ := Kernel.freedAll_statics (M := M) [x.userStack, x.kstack, task] t
  refine ⟨⟨hb.arena.freedAll, ?_, ⟨fun p hp => ?_, fun p hp q hq hne y z hy hz => ?_⟩, ?_⟩,
    fun p hp y hy => ?_, fun p hp => ?_, fun p y hy => ?_, fun p d hd => ?_,
    hproc.trans hb.statics, ?_⟩
  · rw [htasks]
    exact ⟨hb.links.forth.congr fun b hb' => (Kernel.task_congr (hsame b hb')).1,
      hb.links.back.congr fun b hb' =>
        (Kernel.task_congr (hsame b (List.mem_reverse.mp hb'))).2.1⟩
  · obtain ⟨y, hy, ⟨m, d, hyu⟩, ⟨m', d', hyk⟩⟩ := hown.stored p (hmem p hp).1
    obtain ⟨huu, huk, hku, hkk⟩ := hown.apart p (hmem p hp).1 task htask (hmem p hp).2 y x hy hxt
    refine ⟨y, hmember p hp y hy, ⟨m, d, hkeep _ _ hyu huu huk ?_⟩,
      ⟨m', d', hkeep _ _ hyk hku hkk ?_⟩⟩
    · intro heq
      rw [heq, hxt] at hyu
      cases hyu
    · intro heq
      rw [heq, hxt] at hyk
      cases hyk
  · rw [hsame p hp] at hy
    rw [hsame q hq] at hz
    exact hown.apart p (hmem p hp).1 q (hmem q hq).1 hne y z hy hz
  · -- the current task
    rw [htasks, hb.current]
    by_cases hcur : task = s.tasks.currentTask
    · rw [if_pos hcur]
      by_cases hnil : ts.erase task = []
      · exact Or.inl ⟨hb.links.empty_iff.1.mpr hnil, hnil⟩
      · exact Or.inr (hb.links.head_mem hnil)
    · rw [if_neg hcur]
      have hne : ts ≠ [] := List.ne_nil_of_mem htask
      have hin := h.current.resolve_left fun hc => hne hc.2
      exact Or.inr (h.links.forth.nodup.mem_erase_iff.mpr ⟨fun heq => hcur heq.symm, hin⟩)
  · obtain ⟨z, hz, hcore⟩ := hb.relinked.task p y hy
    exact ⟨z, hmember p hp z hz, hcore⟩
  · obtain ⟨y, hy, -⟩ := h.own.stored p (hmem p hp).1
    rw [(Kernel.task_congr (hsame p hp)).2.2, hb.relinked.taskProcess hy]
  · exact hkind p _ (hb.relinked.other p _ hy fun hk => nomatch hk) (fun hk => nomatch hk)
      fun hk => nomatch hk
  · exact hkind p _ (hb.relinked.other p _ hd fun hk => nomatch hk) (fun hk => nomatch hk)
      fun hk => nomatch hk
  · rw [htasks]
    exact hb.current

/-- **`task_free`** of a member takes it out of the list. -/
theorem taskFree_list_wp {E : Stop → Prop} {ts : List ℕ} {task : ℕ} (h : TaskList M s ts)
    (htask : task ∈ ts) {Q : Unit → Kernel H D → Prop}
    (hQ : ∀ t, TaskRemoved M s t ts task → Q () t) : wp E (taskFree M task) Q s := by
  obtain ⟨x, hx, ⟨n, c, hus⟩, ⟨n', c', hks⟩⟩ := h.own.stored task htask
  obtain ⟨hprevmem, hnextmem⟩ := h.links.neighbours htask
  rw [Kernel.taskPrev_of hx] at hprevmem
  rw [Kernel.taskNext_of hx] at hnextmem
  have hpos : ∀ b ∈ ts, b ≠ 0 := fun b hb h0 => h.links.forth.2 (h0 ▸ hb)
  have hp₁ : x.prev ≠ 0 → ∃ y, s.store x.prev = some (.task y) := fun hne => by
    obtain ⟨y, hy, -⟩ := h.own.stored _ (hprevmem hne).1
    exact ⟨y, hy⟩
  unfold taskFree
  rw [wp_bind]
  refine readObj_wp hx rfl ?_
  rw [wp_bind]
  refine editTask_wp h.arena hp₁ fun s₁ h₁ => ?_
  have hR₁ := h₁.relinked fun _ => rfl
  have hx₁ : s₁.store task = some (.task x) := by
    rw [h₁.other task fun heq => ?_, hx]
    exact (hprevmem (heq ▸ hpos task htask)).2 heq.symm
  have hp₂ : x.next ≠ 0 → ∃ y, s₁.store x.next = some (.task y) := fun hne => by
    obtain ⟨y, hy, -⟩ := h.own.stored _ (hnextmem hne).1
    obtain ⟨z, hz, -⟩ := hR₁.task _ y hy
    exact ⟨z, hz⟩
  rw [wp_bind]
  refine readObj_wp hx₁ rfl ?_
  rw [wp_bind]
  refine editTask_wp h₁.arena hp₂ fun s₂ h₂ => ?_
  have hR₂ := h₂.relinked fun _ => rfl
  have hx₂ : s₂.store task = some (.task x) := by
    rw [h₂.other task fun heq => ?_, hx₁]
    exact (hnextmem (heq ▸ hpos task htask)).2 heq.symm
  rw [wp_bind]
  refine readObj_wp hx₂ rfl ?_
  rw [wp_bind, wp_modify]
  have htasks : s₂.tasks = s.tasks := h₂.statics.1.trans h₁.statics.1
  obtain ⟨hhead, htail, hcurrent⟩ := TaskStatics.without_eq s₂.tasks task x
  have hb : Bypassed M s { s₂ with tasks := s₂.tasks.without task x } ts task := by
    refine ⟨⟨h₂.arena.low, h₂.arena.high, h₂.arena.apart, h₂.arena.stored⟩,
      ⟨(hR₁.trans hR₂).task, (hR₁.trans hR₂).other⟩, hx₂.trans hx.symm, ?_,
      h₂.statics.2.trans h₁.statics.2, ?_⟩
    · change Linked s₂.taskNext s₂.taskPrev 0 (s₂.tasks.without task x).taskHead
        (s₂.tasks.without task x).taskTail _
      rw [hhead, htail, htasks, ← Kernel.taskNext_of hx, ← Kernel.taskPrev_of hx]
      refine h.links.unlink htask (fun b hb hbt hbp => ?_) (fun b hb hbt hbn => ?_) (fun hne => ?_)
        fun hne => ?_
      · rw [Kernel.taskPrev_of hx] at hbp
        rw [h₂.taskNext hp₂ (fun _ => rfl) (hpos b hb)]
        exact (Kernel.task_congr (h₁.other b hbp)).1
      · rw [Kernel.taskNext_of hx] at hbn
        rw [(Kernel.task_congr (h₂.other b hbn)).2.1]
        exact h₁.taskPrev hp₁ (fun _ => rfl) (hpos b hb)
      · rw [Kernel.taskPrev_of hx] at hne ⊢
        obtain ⟨y, hy⟩ := hp₁ hne
        rw [h₂.taskNext hp₂ (fun _ => rfl) hne, Kernel.taskNext_of (h₁.self y hne hy),
          Kernel.taskNext_of hx]
      · rw [Kernel.taskNext_of hx] at hne ⊢
        obtain ⟨y, hy⟩ := hp₂ hne
        rw [Kernel.taskPrev_of (h₂.self y hne hy), Kernel.taskPrev_of hx]
    · change (s₂.tasks.without task x).currentTask = _
      rw [hcurrent, htasks]
  -- the blocks are freed one after the other
  have hus0 : x.userStack ≠ 0 := h.arena.ne_zero hus
  have hks0 : x.kstack ≠ 0 := h.arena.ne_zero hks
  have hend := hQ _ (hb.freed h htask hx)
  rw [if_pos hus0, if_pos hks0, wp_bind]
  refine kfree_wp (fun h0 => absurd h0 hus0) fun _ => ?_
  rw [wp_bind]
  refine kfree_wp (fun h0 => absurd h0 hks0) fun _ => ?_
  exact kfree_wp (fun h0 => absurd h0 (hpos task htask)) fun _ => hend

end Steps

end VibeKernel
