import VibeKernel.Task.Process

/-!
# Tasks

`src/task/task.c` up to `task_new`. A task has a user stack and a kernel stack of 16 KiB each, and
the user stack is mapped into the directory of its process: four pages from the page on in which the
stack begins.
-/

namespace VibeKernel

open Verif

variable {H D : Type}

/-- The size of a user stack and of a kernel stack. -/
def taskStackSize : ℕ := 16384

/-- Change the structure of the task at `p`. -/
def modifyTask (p : ℕ) (f : Task → Task) : KM H D Unit := do
  let x ← readObj Obj.asTask p
  writeObj p (.task (f x))

/-- A stack for the task at `task`: its address is stored with `set`, and unless it is `NULL` the
stack is cleared. -/
def newStack (M : Machine H D) (task : ℕ) (set : ℕ → Task → Task) : KM H D ℕ := do
  let stack ← kmallocInt M taskStackSize false
  modifyTask task (set stack)
  if stack = 0 then pure 0
  else do
    clearBlock stack taskStackSize
    pure stack

/-- `task_init`. -/
def taskInit (M : Machine H D) (task process : ℕ) : KM H D ℤ := do
  writeObj task (.task ⟨0, 0, 0, 0, 0, process, 0, 0, 0, 0⟩)
  let userStack ← newStack M task fun p x => { x with userStack := p }
  if userStack = 0 then pure (-1)
  else do
    let kstack ← newStack M task fun p x => { x with kstack := p }
    if kstack = 0 then do
      kfree M userStack
      pure (-1)
    else do
      let bytes ← readObj Obj.asProcess process
      modifyTask task fun x => { x with
        ss := 0x23
        esp := u32 (userStack + 16383)
        cs := 0x1B
        eip := wordAt bytes processPtrOffset
        eflags := 0x202 }
      let stackPage := userStack &&& 0xFFFFF000
      mapUserPages M process stackPage stackPage 0 4
      pure 0

/-- The end of `task_new`: the first task becomes the current one, others are appended to the
list. -/
def taskLink (task process : ℕ) : KM H D Unit := do
  let s ← Exec.gets id
  if s.tasks.taskHead = 0 then do
    Exec.modify fun s => { s with tasks := ⟨task, task, task⟩ }
    processSwitch process
  else do
    modifyTask s.tasks.taskTail fun x => { x with next := task }
    modifyTask task fun x => { x with prev := s.tasks.taskTail }
    Exec.modify fun s => { s with tasks := { s.tasks with taskTail := task } }

/-- `task_new`, with `0` for `NULL`. -/
def taskNew (M : Machine H D) (process : ℕ) : KM H D ℕ := do
  let task ← kmallocInt M 68 false
  if task = 0 then pure 0
  else do
    let res ← taskInit M task process
    if res ≠ 0 then do
      kfree M task
      pure 0
    else do
      taskLink task process
      pure task

/-- Where the heap has a place for the user stack of a new task. -/
def userStackSlot (M : Machine H D) (s : Kernel H D) : Option ℕ :=
  (M.heap.kmallocInt 68 false s.heap).bind fun r =>
    (M.heap.kmallocInt taskStackSize false r.2).map Prod.fst

/-! ### Specifications -/

/-- The kinds of structures that making a task writes, apart from page tables. -/
abbrev TaskKind (k : Kind) : Prop := k = .task ∨ k = .raw

section Specs

variable {M : Machine H D} {E : Stop → Prop} {s t : Kernel H D} {proc dir p : ℕ} {W m : ℕ → ℕ}

theorem modifyTask_wp (hA : ArenaInv M s) (hE : E .clobbered) {f : Task → Task}
    {Q : Unit → Kernel H D → Prop}
    (hQ : ∀ x t, s.store p = some (.task x) → t.store p = some (.task (f x)) →
      Extends M TaskKind s t → (∀ q, q ≠ p → t.store q = s.store q) → Q () t) :
    wp E (modifyTask p f) Q s := by
  unfold modifyTask
  rw [wp_bind]
  cases hp : (s.store p).bind Obj.asTask with
  | none =>
    unfold wp readObj
    rw [hp]
    exact hE
  | some x =>
    obtain ⟨o, ho, hx⟩ := Option.bind_eq_some_iff.mp hp
    have hobj : o = .task x := by
      cases o <;> cases hx
      rfl
    subst hobj
    refine readObj_wp ho rfl (overwrite_wp hA ho rfl (hQ x _ ho Kernel.put_store_self ?_ ?_))
    · exact Extends.overwrite hA ho rfl (Or.inl rfl)
    · exact fun q hq => Kernel.put_store_ne hq

/-- A task made for the process at `proc`, with its user stack at `us`. -/
structure TaskMade (M : Machine H D) (s t : Kernel H D) (proc dir : ℕ) (m : ℕ → ℕ) (task us : ℕ) :
    Prop where
  arena : ArenaInv M t
  live : ∀ a ∈ s.live, a ∈ t.live
  space : ∃ W, HasSpace t proc dir W (userMap (us - us % 4096) (us - us % 4096) m 0 4)
  task : ∃ x, t.store task = some (.task x) ∧ x.userStack = us ∧ x.esp = us + 16383
  block : ⟨us, taskStackSize⟩ ∈ t.live
  high : us + taskStackSize ≤ identityTop

/-- A step that leaves the directory, the blocks and the stack pointer of the task alone. -/
theorem TaskMade.keep {m : ℕ → ℕ} {task us : ℕ} {u : Kernel H D}
    (h : TaskMade M s t proc dir m task us) (hA : ArenaInv M u) (hlive : ∀ a ∈ t.live, a ∈ u.live)
    (hspace : ∀ W m', HasSpace t proc dir W m' → HasSpace u proc dir W m')
    (htask : ∀ x, t.store task = some (.task x) →
      ∃ y, u.store task = some (.task y) ∧ y.userStack = x.userStack ∧ y.esp = x.esp) :
    TaskMade M s u proc dir m task us where
  arena := hA
  live a ha := hlive a (h.live a ha)
  space := by
    obtain ⟨W, hS⟩ := h.space
    exact ⟨W, hspace W _ hS⟩
  task := by
    obtain ⟨x, hx, hus, hesp⟩ := h.task
    obtain ⟨y, hy, hus', hesp'⟩ := htask x hx
    exact ⟨y, hy, hus'.trans hus, hesp'.trans hesp⟩
  block := hlive _ h.block
  high := h.high

/-- A stack of a task. -/
theorem newStack_wp (hE : ∀ e, E e) (h : Extends M TaskKind s t) {task : ℕ} {x : Task}
    (htask : t.store task = some (.task x)) {set : ℕ → Task → Task} {Q : ℕ → Kernel H D → Prop}
    (hnull : ∀ u, Q 0 u)
    (hok : ∀ p h u, M.heap.kmallocInt taskStackSize false t.heap = some (p, h) → p ≠ 0 →
      p + taskStackSize ≤ identityTop → Extends M TaskKind s u → (∀ a ∈ t.live, a ∈ u.live) →
      ⟨p, taskStackSize⟩ ∈ u.live → u.store task = some (.task (set p x)) → Q p u) :
    wp E (newStack M task set) Q t := by
  unfold newStack
  rw [wp_bind]
  refine kmallocInt_wp_answer (fun e _ => hE e) (fun h' _ => ?_) fun p h' hans hp hU htop => ?_
  · rw [wp_bind]
    refine modifyTask_wp (h.trans (Extends.heap h.arena h')).arena (hE _) fun y u _ _ _ _ => ?_
    rw [if_pos rfl]
    exact hnull _
  have h₁ := h.trans (Extends.withBlock h.arena h' hU htop)
  rw [wp_bind]
  refine modifyTask_wp h₁.arena (hE _) fun y u hy hu hstep _ => ?_
  cases htask.symm.trans hy
  have h₂ := h₁.trans hstep
  have hlive : ∀ a ∈ (t.withBlock h' p taskStackSize).live, a ∈ u.live := hstep.live
  rw [if_neg hp, wp_bind]
  refine clearBlock_wp (hlive _ List.mem_cons_self) ?_
  -- the block is none of those of the first state
  have hnew : ∀ a ∈ s.live, a.ptr ≠ p := fun a ha => ArenaInv.usable_ne hU (h.live a ha)
  have hne : task ≠ p := by
    rintro rfl
    rw [h.arena.usable_store hU] at htask
    cases htask
  refine hok p h' _ hans hp htop (h₂.putNew ⟨_, hlive _ List.mem_cons_self, rfl, le_refl _⟩ hnew)
    (fun a ha => hlive a (List.mem_cons_of_mem _ ha)) (hlive _ List.mem_cons_self) ?_
  rw [Kernel.put_store_ne hne, hu]

/-- **`task_init`** on a new block. -/
theorem taskInit_wp (hE : ∀ e, E e) (hA : ArenaInv M s) (hS : HasSpace s proc dir W m) {task : ℕ}
    {h₀ : H} (hU₀ : Usable M s 68 false task) (htop₀ : task + 68 ≤ identityTop)
    {Q : ℤ → Kernel H D → Prop} (hfail : ∀ t, Q (-1) t)
    (hok : ∀ us h t, M.heap.kmallocInt taskStackSize false h₀ = some (us, h) →
      TaskMade M s t proc dir m task us → Q 0 t) :
    wp E (taskInit M task proc) Q (s.withBlock h₀ task 68) := by
  unfold taskInit
  rw [wp_bind]
  refine writeObj_wp ⟨_, List.mem_cons_self, rfl, le_refl _⟩ ?_
  have h₁ : Extends M TaskKind s ((s.withBlock h₀ task 68).put task
      (.task ⟨0, 0, 0, 0, 0, proc, 0, 0, 0, 0⟩)) :=
    Extends.newObj (o := .task ⟨0, 0, 0, 0, 0, proc, 0, 0, 0, 0⟩) hA h₀ hU₀ htop₀
  rw [wp_bind]
  -- the user stack
  refine newStack_wp hE h₁ Kernel.put_store_self (fun u => ?_)
    fun us h t₂ hans hus htop h₂ hlive₂ hblock htask₂ => ?_
  · rw [if_pos rfl]
    exact hfail u
  rw [if_neg hus, wp_bind]
  -- the kernel stack; without it the user stack is freed
  refine newStack_wp hE h₂ htask₂ (fun u => ?_) fun ks _ t₃ _ hks _ h₃ hlive₃ _ htask₃ => ?_
  · rw [if_pos rfl, wp_bind]
    exact kfree_wp (fun _ => hfail _) fun _ => hfail _
  rw [if_neg hks, wp_bind]
  have hS₃ := hS.frame hA h₃.frame (by decide) (by decide)
  obtain ⟨bytes, hbytes, -⟩ := hS₃.process
  refine readObj_wp hbytes rfl ?_
  rw [wp_bind]
  refine modifyTask_wp h₃.arena (hE _) fun x t₄ hx ht₄ h₄ _ => ?_
  cases htask₃.symm.trans hx
  have hus32 : us + 16384 ≤ identityTop := htop
  unfold identityTop at hus32
  rw [and_pageBase (by omega), wp_bind]
  -- four pages from the one where the user stack starts
  refine mapUserPages_wp (fun e _ => hE e) 4 0 _ W m _ rfl h₄.arena
    (hS₃.frame h₃.arena h₄.frame (by decide) (by decide)) fun t₅ W' hA₅ hS₅ hst _ => ?_
  rw [wp_pure]
  have htask₅ := hst.frame.store_eq h₄.arena ht₄ fun h => nomatch h
  refine hok us h t₅ hans
    { arena := hA₅
      live := fun a ha => hst.live a (h₄.live a (h₃.live a ha))
      space := ⟨W', hS₅⟩
      task := ⟨_, htask₅, rfl, u32_of_lt (by omega)⟩
      block := hst.live _ (h₄.live _ (hlive₃ _ hblock))
      high := htop }

/-- Linking another task, or the new one, leaves the new task made. -/
theorem TaskMade.modifyTask_wp (hE : ∀ e, E e) {task us : ℕ} (h : TaskMade M s t proc dir m task us)
    {f : Task → Task} (hf : ∀ x, (f x).userStack = x.userStack ∧ (f x).esp = x.esp)
    {Q : Unit → Kernel H D → Prop} (hQ : ∀ u, TaskMade M s u proc dir m task us → Q () u) :
    wp E (modifyTask p f) Q t := by
  refine VibeKernel.modifyTask_wp h.arena (hE _) fun x u hx hu hstep hother => hQ u ?_
  refine h.keep hstep.arena hstep.live
    (fun W m' hS => hS.frame h.arena hstep.frame (by decide) (by decide)) fun y hy => ?_
  by_cases hp : task = p
  · subst hp
    rw [hx] at hy
    cases hy
    exact ⟨f x, hu, hf x⟩
  · exact ⟨y, by rw [hother task hp, hy], rfl, rfl⟩

theorem TaskMade.taskLink_wp (hE : ∀ e, E e) {task us : ℕ} (h : TaskMade M s t proc dir m task us)
    {Q : Unit → Kernel H D → Prop} (hQ : ∀ u, TaskMade M s u proc dir m task us → Q () u) :
    wp E (taskLink task proc) Q t := by
  -- the static variables are no part of a task
  have hstatics : ∀ u (x : ProcessStatics) (y : TaskStatics), TaskMade M s u proc dir m task us →
      TaskMade M s { u with proc := x, tasks := y } proc dir m task us := by
    intro u x y hu
    refine hu.keep ?_ (fun _ ha => ha) (fun W m' hS => ?_) fun z hz => ⟨z, hz, rfl, rfl⟩
    · exact ⟨hu.arena.low, hu.arena.high, hu.arena.apart, hu.arena.stored⟩
    · exact ⟨hS.process, hS.refines.congr fun _ _ => rfl⟩
  unfold taskLink
  rw [wp_bind, wp_gets]
  dsimp only [id]
  by_cases hhead : t.tasks.taskHead = 0
  · rw [if_pos hhead, wp_bind, wp_modify]
    exact hQ _ (hstatics t _ _ h)
  · rw [if_neg hhead, wp_bind]
    refine h.modifyTask_wp hE ?_ fun u hu => ?_
    · exact fun _ => ⟨rfl, rfl⟩
    rw [wp_bind]
    refine hu.modifyTask_wp hE ?_ fun v hv => ?_
    · exact fun _ => ⟨rfl, rfl⟩
    exact hQ _ (hstatics v v.proc _ hv)

/-- **`task_new`**: `NULL`, or a task whose user stack is where the heap had a place for it. -/
theorem taskNew_wp (hE : ∀ e, E e) (hA : ArenaInv M s) (hS : HasSpace s proc dir W m)
    {Q : ℕ → Kernel H D → Prop} (hnull : ∀ t, Q 0 t)
    (hok : ∀ task us t, task ≠ 0 → userStackSlot M s = some us →
      TaskMade M s t proc dir m task us → Q task t) :
    wp E (taskNew M proc) Q s := by
  unfold taskNew
  rw [wp_bind]
  refine kmallocInt_wp_answer (fun e _ => hE e) (fun h _ => ?_) fun task h hans h0 hU htop => ?_
  · rw [if_pos rfl]
    exact hnull _
  rw [if_neg h0, wp_bind]
  refine taskInit_wp hE hA hS hU htop (fun t => ?_) fun us h' t hans' hT => ?_
  · rw [if_pos (by decide), wp_bind]
    exact kfree_wp (fun _ => hnull _) fun _ => hnull _
  have hslot : userStackSlot M s = some us := by
    unfold userStackSlot
    rw [hans, Option.bind_some, hans']
    rfl
  rw [if_neg (by decide), wp_bind]
  exact hT.taskLink_wp hE fun u hu => hok task us u h0 hslot hu

end Specs

end VibeKernel
