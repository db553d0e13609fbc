import VibeKernel.Task.Scheduling

/-!
# Reading the memory of a task

`task_copy_string_from_user` and `task_get_stack_item` of `src/task/task.c` load the page directory
of a task, read its memory, and load a directory again: not the one that was loaded before, but the
one of the current task. `user_reads_restore_iff` says that the register `CR3` is what it was
exactly if it held the directory of the current task, and that the bytes of the string arrive either
way.

The bytes of the memory stand beside the structures of the kernel. An address is translated by the
directory in `CR3`; a page that is not present is a page fault. The kernel runs without write
protection, so that a present page can be written to.
-/

namespace VibeKernel

open Verif

variable {H D α : Type}

/-! ### Memory behind page tables -/

/-- The kernel on its processor, and the bytes of the memory. -/
structure UserSystem (H D : Type) where
  system : System H D
  memory : ℕ → UInt8

/-- A computation that reads and writes the memory of tasks. -/
abbrev UM (H D α : Type) := Exec Stop (UserSystem H D) α

/-- A computation that does not. -/
def onSystem (x : SM H D α) : UM H D α := fun s =>
  match x s.system with
  | .error e => .error e
  | .ok (a, t) => .ok (a, { s with system := t })

/-- The physical address of a virtual one, unless its page is not present. -/
def Kernel.physical (k : Kernel H D) (directory virt : ℕ) : Option ℕ :=
  if k.grants directory virt 0 then some ((k.walk directory virt &&& 0xFFFFF000) + virt % 4096)
  else none

/-- Where the loaded directory leads. -/
def UserSystem.physical (s : UserSystem H D) (virt : ℕ) : Option ℕ :=
  s.system.kernel.physical s.system.cpu.cr3 virt

/-- Read a byte. -/
def loadByte (virt : ℕ) : UM H D UInt8 := fun s =>
  match s.physical virt with
  | none => .error .pageFault
  | some p => .ok (s.memory p, s)

/-- Write a byte. -/
def storeByte (virt : ℕ) (b : UInt8) : UM H D Unit := fun s =>
  match s.physical virt with
  | none => .error .pageFault
  | some p => .ok ((), { s with memory := Function.update s.memory p b })

/-- Read a little-endian word. -/
def loadWord (virt : ℕ) : UM H D ℕ := do
  let b₀ ← loadByte virt
  let b₁ ← loadByte (u32 (virt + 1))
  let b₂ ← loadByte (u32 (virt + 2))
  let b₃ ← loadByte (u32 (virt + 3))
  pure (le32 [b₀, b₁, b₂, b₃] 0)

/-! ### The functions of the source -/

/-- `task->process->paging_chunk->directory_entry`. -/
def taskDirectory (task : ℕ) : KM H D ℕ := do
  let x ← readObj Obj.asTask task
  processDirectory x.process

/-- The loop of `task_copy_string_from_user` from `i` on, with `n` steps left; the answer is the
last `i`. -/
def copyStringLoop (virt phys : ℕ) : ℕ → ℕ → UM H D ℕ
  | 0, i => pure i
  | n + 1, i => do
    let b ← loadByte (u32 (virt + i))
    storeByte (u32 (phys + i)) b
    let b ← loadByte (u32 (virt + i))
    if b = 0 then pure i else copyStringLoop virt phys n (i + 1)

/-- `task_copy_string_from_user`. -/
def taskCopyStringFromUser (task virt phys : ℕ) (max : ℤ) : UM H D ℤ :=
  if max ≤ 0 then pure (-1)
  else do
    let current ← onSystem (onKernel taskCurrent)
    let oldDirectory ← onSystem (onKernel (taskDirectory current))
    let directory ← onSystem (onKernel (taskDirectory task))
    onSystem (pagingSwitch directory)
    let i ← copyStringLoop virt phys (max - 1).toNat 0
    storeByte (u32 (phys + i)) 0
    onSystem (pagingSwitch oldDirectory)
    pure i

/-- `task_get_stack_item`. -/
def taskGetStackItem (task : ℕ) (index : ℤ) : UM H D ℕ := do
  let current ← onSystem (onKernel taskCurrent)
  let oldDirectory ← onSystem (onKernel (taskDirectory current))
  let directory ← onSystem (onKernel (taskDirectory task))
  onSystem (pagingSwitch directory)
  let x ← onSystem (onKernel (readObj Obj.asTask task))
  let item ← loadWord ((x.esp + 4 * index) % 4294967296).toNat
  onSystem (pagingSwitch oldDirectory)
  pure item

/-- The state with another directory loaded. -/
def UserSystem.load (s : UserSystem H D) (directory : ℕ) : UserSystem H D where
  system := ⟨s.system.kernel, ⟨directory, directory, s.system.cpu.esp0⟩⟩
  memory := s.memory

/-! ### Single accesses -/

section Accesses

variable {s : UserSystem H D} {virt p : ℕ} {β : Type}

theorem loadByte_bind (h : s.physical virt = some p) (f : UInt8 → UM H D β) :
    (loadByte virt >>= f) s = f (s.memory p) s := by
  rw [Exec.bind_apply]
  unfold loadByte
  rw [h]

theorem storeByte_bind (h : s.physical virt = some p) (b : UInt8) (f : Unit → UM H D β) :
    (storeByte virt b >>= f) s = f () { s with memory := Function.update s.memory p b } := by
  rw [Exec.bind_apply]
  unfold storeByte
  rw [h]

theorem onSystem_bind {x : SM H D α} {a : α} {t : System H D} (h : x s.system = .ok (a, t))
    (f : α → UM H D β) : (onSystem x >>= f) s = f a { s with system := t } := by
  rw [Exec.bind_apply]
  unfold onSystem
  rw [h]

/-- A computation of the kernel that changes nothing. -/
theorem onKernel_bind {x : KM H D α} {a : α} (h : x s.system.kernel = .ok (a, s.system.kernel))
    (f : α → UM H D β) : (onSystem (onKernel x) >>= f) s = f a s := by
  refine onSystem_bind ?_ f
  unfold onKernel
  rw [h]

theorem pagingSwitch_bind (directory : ℕ) (f : Unit → UM H D β) :
    (onSystem (pagingSwitch directory) >>= f) s = f () (s.load directory) :=
  onSystem_bind rfl f

/-- A word whose four bytes can be read. -/
theorem loadWord_bind (h : ∀ j < 4, ∃ p, s.physical (u32 (virt + j)) = some p)
    (hv : virt < 4294967296) (f : ℕ → UM H D β) : ∃ item, (loadWord virt >>= f) s = f item s := by
  obtain ⟨p₀, h₀⟩ := h 0 (by decide)
  obtain ⟨p₁, h₁⟩ := h 1 (by decide)
  obtain ⟨p₂, h₂⟩ := h 2 (by decide)
  obtain ⟨p₃, h₃⟩ := h 3 (by decide)
  rw [Nat.add_zero, u32, Nat.mod_eq_of_lt hv] at h₀
  refine ⟨le32 [s.memory p₀, s.memory p₁, s.memory p₂, s.memory p₃] 0, ?_⟩
  have hword : loadWord virt s =
      .ok (le32 [s.memory p₀, s.memory p₁, s.memory p₂, s.memory p₃] 0, s) := by
    unfold loadWord
    rw [loadByte_bind h₀, loadByte_bind h₁, loadByte_bind h₂, loadByte_bind h₃]
    rfl
  rw [Exec.bind_apply, hword]

end Accesses

/-! ### The string -/

/-- The string at `virt` in the space of a directory, for a buffer of `max` bytes: `str` is what
lies before its `NUL`, or the first `max - 1` bytes if that is less. Byte `i` is at `src i`. -/
structure UserString (s : UserSystem H D) (directory virt max : ℕ) (src : ℕ → ℕ)
    (str : List UInt8) :
    Prop where
  fits : str.length < max
  nonzero : 0 ∉ str
  bytes : ∀ i (h : i < str.length),
    s.system.kernel.physical directory (u32 (virt + i)) = some (src i) ∧ s.memory (src i) = str[i]
  stop : str.length + 1 = max ∨
    (s.system.kernel.physical directory (u32 (virt + str.length)) = some (src str.length) ∧
      s.memory (src str.length) = 0)

/-- A buffer of `max` bytes at `phys`, which is the same memory in the space of a directory as in
the loaded one, and apart from the string. Byte `i` is at `dst i`. -/
structure Buffer (s : UserSystem H D) (directory phys max : ℕ) (src dst : ℕ → ℕ)
    (str : List UInt8) :
    Prop where
  loaded : ∀ i < max, s.physical (u32 (phys + i)) = some (dst i)
  mapped : ∀ i < max, s.system.kernel.physical directory (u32 (phys + i)) = some (dst i)
  inj : ∀ i < max, ∀ j < max, dst i = dst j → i = j
  apart : ∀ i < max, ∀ j ≤ str.length, src j ≠ dst i

section Loop

variable {s : UserSystem H D} {directory virt phys max : ℕ} {src dst : ℕ → ℕ} {str : List UInt8}

/-- One round: a byte that the buffer does not overlap is copied, and read again to compare it. -/
theorem copyStringLoop_step {n i p q : ℕ} {b : UInt8} (hsrc : s.physical (u32 (virt + i)) = some p)
    (hdst : s.physical (u32 (phys + i)) = some q) (hb : s.memory p = b) (hpq : p ≠ q) :
    copyStringLoop virt phys (n + 1) i s =
      (if b = 0 then pure i else copyStringLoop virt phys n (i + 1) : UM H D ℕ)
        { s with memory := Function.update s.memory q b } := by
  subst hb
  have hkeep : Function.update s.memory q (s.memory p) p = s.memory p :=
    Function.update_of_ne hpq _ _
  rw [copyStringLoop, loadByte_bind hsrc, storeByte_bind hdst,
    loadByte_bind (s := { s with memory := Function.update s.memory q (s.memory p) }) hsrc]
  simp only [hkeep]

/-- The loop copies the rest of the string, and of the other bytes it writes those of the rest of
the buffer only. -/
theorem copyStringLoop_spec (hS : UserString s directory virt max src str)
    (hB : Buffer s directory phys max src dst str) :
    ∀ {n i : ℕ} {m : ℕ → UInt8}, i + n + 1 = max → i ≤ str.length →
      (∀ j ≤ str.length, m (src j) = s.memory (src j)) →
      ∃ m', copyStringLoop virt phys n i ⟨(s.load directory).system, m⟩ =
          .ok (str.length, ⟨(s.load directory).system, m'⟩) ∧
        (∀ j, i ≤ j → ∀ h : j < str.length, m' (dst j) = str[j]) ∧
        ∀ p, (∀ j, i ≤ j → j < max → p ≠ dst j) → m' p = m p := by
  intro n
  induction n with
  | zero =>
    intro i m hmax hi _
    -- the buffer is full
    have hlen := hS.fits
    obtain rfl : i = str.length := by omega
    exact ⟨m, rfl, fun j hj h => absurd h (Nat.not_lt.mpr hj), fun _ _ => rfl⟩
  | succ n ih =>
    intro i m hmax hi hm
    have hdst := hB.mapped i (by omega)
    have hkeep : ∀ b, ∀ j ≤ str.length, Function.update m (dst i) b (src j) = s.memory (src j) :=
      fun b j hj => (Function.update_of_ne (hB.apart i (by omega) j hj) _ _).trans (hm j hj)
    rcases Nat.lt_or_eq_of_le hi with hlt | rfl
    · obtain ⟨hsrc, hbyte⟩ := hS.bytes i hlt
      have hne : str[i] ≠ 0 := fun h0 => hS.nonzero (h0 ▸ List.getElem_mem hlt)
      obtain ⟨m', hloop, hcopied, hframe⟩ := ih (i := i + 1) (m := Function.update m (dst i) str[i])
        (by omega) hlt (hkeep _)
      refine ⟨m', ?_, fun j hj h => ?_, fun p hp => ?_⟩
      · rw [copyStringLoop_step (s := ⟨(s.load directory).system, m⟩) hsrc hdst
          ((hm i hi).trans hbyte) (hB.apart i (by omega) i hi), if_neg hne]
        exact hloop
      · rcases Nat.lt_or_eq_of_le hj with hj | rfl
        · exact hcopied j hj h
        · rw [hframe _ fun j hj hjm heq => ?_, Function.update_self]
          have := hB.inj i (by omega) j hjm heq
          omega
      · rw [hframe p fun j hj hjm => hp j (Nat.le_of_succ_le hj) hjm]
        exact Function.update_of_ne (hp i (le_refl i) (by omega)) _ _
    · -- the end of the string
      obtain ⟨hsrc, hbyte⟩ := hS.stop.resolve_left (by omega)
      refine ⟨Function.update m (dst str.length) 0, ?_, fun j hj h => absurd h (Nat.not_lt.mpr hj),
        fun p hp => Function.update_of_ne (hp _ (le_refl _) (by omega)) _ _⟩
      rw [copyStringLoop_step (s := ⟨(s.load directory).system, m⟩) hsrc hdst
        ((hm _ hi).trans hbyte) (hB.apart _ (by omega) _ hi), if_pos rfl]
      rfl

end Loop

/-! ### The two functions -/

/-- The page directory of a task. -/
def Kernel.directoryOf (k : Kernel H D) (task : ℕ) : ℕ :=
  match taskDirectory task k with
  | .ok r => r.1
  | .error _ => 0

/-- `CR3` holds the page directory of the current task. -/
def LoadsCurrent (s : UserSystem H D) : Prop :=
  s.system.cpu.cr3 = s.system.kernel.directoryOf s.system.kernel.tasks.currentTask

/-- The string is copied to the buffer with a `NUL` behind it, its length is returned, no other byte
is written, and `CR3` is what it was. -/
def CopiesString (s : UserSystem H D) (task virt phys max : ℕ) (dst : ℕ → ℕ) (str : List UInt8) :
    Prop :=
  ∃ t, taskCopyStringFromUser task virt phys max s = .ok ((str.length : ℤ), t) ∧
    (∀ i (h : i < str.length), t.memory (dst i) = str[i]) ∧ t.memory (dst str.length) = 0 ∧
    (∀ p, (∀ i < max, p ≠ dst i) → t.memory p = s.memory p) ∧
    t.system.cpu.cr3 = s.system.cpu.cr3

/-- An item of the stack is read, and `CR3` is what it was. -/
def ReadsStackItem (s : UserSystem H D) (task : ℕ) (index : ℤ) : Prop :=
  ∃ item t, taskGetStackItem task index s = .ok (item, t) ∧ t.memory = s.memory ∧
    t.system.cpu.cr3 = s.system.cpu.cr3

section Functions

variable {s : UserSystem H D} {task : ℕ}

/-- The tasks have processes with page directories. -/
def Housed (k : Kernel H D) (ts : List ℕ) : Prop := ∀ t ∈ ts, HasDirectory k (k.taskProcess t)

/-- The directory of a task whose process has one can be read. -/
theorem HasDirectory.taskDirectory_eq {k : Kernel H D} {x : Task}
    (hx : k.store task = some (.task x)) (h : HasDirectory k x.process) :
    taskDirectory task k = .ok (k.directoryOf task, k) := by
  obtain ⟨y, d, hy, hd⟩ := h
  have hwp : wp (fun _ => False) (taskDirectory task) (fun _ t => t = k) k := by
    unfold taskDirectory processDirectory
    rw [wp_bind]
    refine readObj_wp hx rfl ?_
    rw [wp_bind]
    refine readObj_wp hy rfl ?_
    exact readObj_wp hd rfl rfl
  obtain ⟨a, t, hrun, rfl⟩ := hwp.total
  unfold Kernel.directoryOf
  rw [hrun]

/-- The directory of a task can be read. -/
theorem taskDirectory_eq {M : Machine H D} {k : Kernel H D} {ts : List ℕ} (h : TaskList M k ts)
    (hH : Housed k ts) (htask : task ∈ ts) :
      taskDirectory task k = .ok (k.directoryOf task, k) := by
  obtain ⟨x, hx, -⟩ := h.own.stored task htask
  have hdir := hH task htask
  rw [Kernel.taskProcess_of hx] at hdir
  exact hdir.taskDirectory_eq hx

variable {M : Machine H D} {ts : List ℕ}

/-- **`task_copy_string_from_user`** of a task copies the string; afterwards `CR3` holds the
directory of the current task. -/
theorem taskCopyStringFromUser_spec (h : TaskList M s.system.kernel ts)
    (hH : Housed s.system.kernel ts)
    (htask : task ∈ ts) {virt phys max : ℕ} {src dst : ℕ → ℕ} {str : List UInt8}
    (hS : UserString s (s.system.kernel.directoryOf task) virt max src str)
    (hB : Buffer s (s.system.kernel.directoryOf task) phys max src dst str) :
    CopiesString s task virt phys max dst str ↔ LoadsCurrent s := by
  have hcur := h.current.resolve_left fun hnone => List.ne_nil_of_mem htask hnone.2
  have hfits := hS.fits
  obtain ⟨m, hloop, hcopied, hframe⟩ := copyStringLoop_spec hS hB
    (n := max - 1) (i := 0) (m := s.memory) (by omega) (Nat.zero_le _) fun _ _ => rfl
  have hend := hB.mapped str.length hfits
  -- the two directories, and the loop between them
  have hcalls : taskCopyStringFromUser task virt phys max s = .ok ((str.length : ℤ),
      { s.load (s.system.kernel.directoryOf s.system.kernel.tasks.currentTask) with
        memory := Function.update m (dst str.length) 0 }) := by
    unfold taskCopyStringFromUser
    rw [if_neg (by omega), show ((max : ℤ) - 1).toNat = max - 1 by omega,
      onKernel_bind (a := s.system.kernel.tasks.currentTask) rfl,
      onKernel_bind (taskDirectory_eq h hH hcur), onKernel_bind (taskDirectory_eq h hH htask),
      pagingSwitch_bind, Exec.bind_apply]
    have hcopy : copyStringLoop virt phys (max - 1) 0 (s.load (s.system.kernel.directoryOf task)) =
        .ok (str.length, ⟨(s.load (s.system.kernel.directoryOf task)).system, m⟩) := hloop
    rw [hcopy]
    dsimp only
    rw [storeByte_bind (s := ⟨(s.load (s.system.kernel.directoryOf task)).system, m⟩) hend,
      pagingSwitch_bind]
    rfl
  unfold CopiesString LoadsCurrent
  constructor
  · rintro ⟨t, ht, -, -, -, hcr3⟩
    rw [hcalls] at ht
    cases ht
    exact hcr3.symm
  · intro hload
    refine ⟨_, hcalls, fun i hi => ?_, Function.update_self _ _ _, fun p hp => ?_, hload.symm⟩
    · refine (Function.update_of_ne (fun heq => ?_) _ _).trans (hcopied i (Nat.zero_le i) hi)
      have := hB.inj i (by omega) str.length hfits heq
      omega
    · exact (Function.update_of_ne (hp _ hfits) _ _).trans (hframe p fun j _ hj => hp j hj)

/-- **`task_get_stack_item`** of a task; afterwards `CR3` holds the directory of the current
task. -/
theorem taskGetStackItem_spec (h : TaskList M s.system.kernel ts) (hH : Housed s.system.kernel ts)
    (htask : task ∈ ts) {index : ℤ} {x : Task} (hx : s.system.kernel.store task = some (.task x))
    (hread : ∀ j < 4, ∃ p, s.system.kernel.physical (s.system.kernel.directoryOf task)
      (u32 (((x.esp + 4 * index) % 4294967296).toNat + j)) = some p) :
    ReadsStackItem s task index ↔ LoadsCurrent s := by
  have hcur := h.current.resolve_left fun hnone => List.ne_nil_of_mem htask hnone.2
  have hlt : ((x.esp + 4 * index) % 4294967296).toNat < 4294967296 := by omega
  have hobj : readObj Obj.asTask task s.system.kernel = .ok (x, s.system.kernel) := by
    unfold readObj
    rw [hx]
    rfl
  have hcalls : ∃ item, taskGetStackItem task index s = .ok (item,
      s.load (s.system.kernel.directoryOf s.system.kernel.tasks.currentTask)) := by
    unfold taskGetStackItem
    rw [onKernel_bind (a := s.system.kernel.tasks.currentTask) rfl,
      onKernel_bind (taskDirectory_eq h hH hcur), onKernel_bind (taskDirectory_eq h hH htask),
      pagingSwitch_bind, onKernel_bind (s := s.load (s.system.kernel.directoryOf task)) hobj]
    obtain ⟨item, hword⟩ :=
      loadWord_bind (s := s.load (s.system.kernel.directoryOf task)) hread hlt _
    refine ⟨item, hword.trans ?_⟩
    rw [pagingSwitch_bind]
    rfl
  obtain ⟨item, hcalls⟩ := hcalls
  unfold ReadsStackItem LoadsCurrent
  constructor
  · rintro ⟨item', t, ht, -, hcr3⟩
    rw [hcalls] at ht
    cases ht
    exact hcr3.symm
  · exact fun hload => ⟨item, _, hcalls, rfl, hload.symm⟩

end Functions

/-! ### After every run -/

/-- The calls on tasks. -/
def TaskCall.OnTasks : TaskCall → Prop
  | .taskNew _ | .taskFree _ | .taskSwitch _ | .pagingSwitch _ => True
  | .processAlloc | .newSpace _ _ | .processFree _ => False

instance : DecidablePred TaskCall.OnTasks
  | .taskNew _ | .taskFree _ | .taskSwitch _ | .pagingSwitch _ => inferInstanceAs (Decidable True)
  | .processAlloc | .newSpace _ _ | .processFree _ => inferInstanceAs (Decidable False)

section Runs

variable {M : Machine H D} {s t : TaskSystem H D} {c : TaskCall} {r : ℕ}

/-- A task whose process stays where it is keeps its directory. -/
theorem HasDirectory.keep {k k' : Kernel H D} {proc : ℕ} (h : HasDirectory k proc)
    (hprocs : ∀ p x, k.store p = some (.process x) → k'.store p = some (.process x))
    (hchunks : KeepsChunks k k') : HasDirectory k' proc := by
  obtain ⟨x, d, hx, hd⟩ := h
  exact ⟨x, d, hprocs _ _ hx, hchunks _ _ hd⟩

/-- The calls on tasks keep that every task has a directory. -/
theorem housed_step (hI : SystemInv M s) (hH : Housed s.kernel s.tasks) (hc : c.Live s)
    (hon : c.OnTasks) (hs : taskStep M s c = .ok (r, t)) : Housed t.kernel t.tasks := by
  cases c with
  | taskNew process =>
    refine taskStep_of_wp (P := fun _ t => Housed t.kernel t.tasks) ?_ hs
    unfold TaskCall.run
    rw [wp_onKernel]
    refine taskNew_list_wp hI.tasks (fun k hk task htask => ?_)
      fun task k hdir hk task' htask' => ?_
    · -- `task_new` has failed, and the tasks are the old ones
      rw [hI.tasks.taskProcess_frame hk.step.frame (fun hk => nomatch hk) task htask]
      exact (hH task htask).tables hI.tasks.arena hk
    · have htasks : TaskCall.tasks s.tasks task (.taskNew process) = s.tasks ++ [task] :=
        if_neg hk.ne_zero
      rw [htasks] at htask'
      rcases List.mem_append.mp htask' with hold | hnew
      · rw [hk.others task' hold]
        exact (hH task' hold).keep hk.processes hk.chunks
      · cases List.mem_singleton.mp hnew
        rwa [hk.process]
  | taskFree task =>
    refine taskStep_of_wp (P := fun _ t => Housed t.kernel t.tasks) ?_ hs
    unfold TaskCall.run
    rw [wp_onKernel, wp_map]
    refine taskFree_list_wp hI.tasks hc fun k hk task' htask' => ?_
    rw [hk.others task' htask']
    exact (hH task' (List.mem_of_mem_erase htask')).keep hk.processes hk.chunks
  | taskSwitch task =>
    refine taskStep_of_wp (P := fun _ t => Housed t.kernel t.tasks) ?_ hs
    -- a switch changes the processor and the current task only
    obtain ⟨x, hx, -⟩ := hI.tasks.own.stored task hc
    unfold TaskCall.run VibeKernel.taskSwitch processDirectory pagingSwitch processSwitch
    rw [wp_map, wp_bind, wp_onKernel, wp_modify, wp_bind, wp_onKernel]
    refine readObj_wp hx rfl ?_
    rw [wp_bind, wp_onKernel, wp_modify, wp_bind, wp_onKernel, wp_bind]
    refine readObj_wp_any fun _ bytes _ _ => readObj_wp_any fun _ directory _ _ => ?_
    rw [wp_bind, wp_modify, wp_bind, wp_modify, wp_pure]
    exact hH
  | pagingSwitch directory =>
    refine taskStep_of_wp (P := fun _ t => Housed t.kernel t.tasks) ?_ hs
    unfold TaskCall.run VibeKernel.pagingSwitch
    rw [wp_map, wp_modify]
    exact hH
  | processAlloc => exact hon.elim
  | newSpace process flags => exact hon.elim
  | processFree process => exact hon.elim

/-- After every run of calls on tasks, from a state with no task: `task_copy_string_from_user` of a
live task copies the string and leaves `CR3` as it was, and `task_get_stack_item` leaves `CR3` as it
was, exactly if `CR3` holds the page directory of the current task. -/
theorem user_reads_restore_iff {calls : List TaskCall} (hI : SystemInv M s) (hnone : s.tasks = [])
    (hm : Meets (taskStep M) (fun s c => c.Live s ∧ c.OnTasks) s calls) {os : List ℕ}
    (hr : runList (taskStep M) s calls = .ok (os, t)) {task : ℕ} (htask : task ∈ t.tasks)
    (memory : ℕ → UInt8) :
    (∀ (virt phys max : ℕ) (src dst : ℕ → ℕ) (str : List UInt8),
        UserString ⟨t.system, memory⟩ (t.kernel.directoryOf task) virt max src str →
        Buffer ⟨t.system, memory⟩ (t.kernel.directoryOf task) phys max src dst str →
        (CopiesString ⟨t.system, memory⟩ task virt phys max dst str ↔
          LoadsCurrent ⟨t.system, memory⟩)) ∧
      ∀ (index : ℤ) (x : Task), t.kernel.store task = some (.task x) →
        (∀ j < 4, ∃ p, t.kernel.physical (t.kernel.directoryOf task)
          (u32 (((x.esp + 4 * index) % 4294967296).toNat + j)) = some p) →
        (ReadsStackItem ⟨t.system, memory⟩ task index ↔ LoadsCurrent ⟨t.system, memory⟩) := by
  have hH₀ : Housed s.kernel s.tasks := by
    rw [hnone]
    exact fun p hp => absurd hp List.not_mem_nil
  obtain ⟨hIt, hHt⟩ := @runList_invariant _ _ _ _ _ _
    (fun s => SystemInv M s ∧ Housed s.kernel s.tasks)
    (fun _ _ _ _ h hc hs => ⟨(taskStep_refines h.1 hc.1 hs).1, housed_step h.1 h.2 hc.1 hc.2 hs⟩)
    _ _ _ _ ⟨hI, hH₀⟩ hm hr
  exact ⟨fun _ _ _ _ _ _ hS hB => taskCopyStringFromUser_spec hIt.tasks hHt htask hS hB,
    fun _ _ hx hread => taskGetStackItem_spec hIt.tasks hHt htask hx hread⟩

end Runs

/-! ### One string -/

/-- A memory with the string `A` at `0x300000`. -/
def letterMemory : ℕ → UInt8 := fun p => if p = 0x300000 then 0x41 else 0

/-- The pages of the string and of a buffer of 16 bytes at `0x310000` are mapped to themselves. -/
def MapsLetter (k : Kernel H D) (directory : ℕ) : Prop :=
  ∀ i < 16, k.physical directory (u32 (0x300000 + i)) = some (0x300000 + i) ∧
    k.physical directory (u32 (0x310000 + i)) = some (0x310000 + i)

instance (k : Kernel H D) (directory : ℕ) : Decidable (MapsLetter k directory) :=
  inferInstanceAs (Decidable (∀ i < 16, _ ∧ _))

section Letter

variable {s : System H D} {directory : ℕ}

theorem userString_letter (h : MapsLetter s.kernel directory) :
    UserString ⟨s, letterMemory⟩ directory 0x300000 16 (0x300000 + ·) [0x41] where
  fits := by decide
  nonzero := by decide
  bytes i hi := by
    obtain rfl : i = 0 := Nat.lt_one_iff.mp hi
    exact ⟨(h 0 (by decide)).1, rfl⟩
  stop := by
    have hend : letterMemory 0x300001 = 0 := by decide
    exact Or.inr ⟨(h 1 (by decide)).1, hend⟩

theorem buffer_letter (hloaded : MapsLetter s.kernel s.cpu.cr3)
    (h : MapsLetter s.kernel directory) :
    Buffer ⟨s, letterMemory⟩ directory 0x310000 16 (0x300000 + ·) (0x310000 + ·) [0x41] where
  loaded i hi := (hloaded i hi).2
  mapped i hi := (h i hi).2
  inj i _ j _ heq := Nat.add_left_cancel heq
  apart i _ j hj heq := by
    have hj' : j ≤ 1 := hj
    omega

end Letter

/-- A task that is switched to: its string is copied, and its directory stays loaded. -/
theorem user_reads_restore_switched :
    let M := singleFileMachine [0x42]
    ∃ s os t os', runList (taskStep M)
      (TaskSystem.start (Kernel.boot (KHeap.init 0x10000) ()) ⟨0, 0, 0⟩)
        [.processAlloc, .newSpace 65552 3] = .ok (os, s) ∧
      runList (taskStep M) s [.taskNew 65552, .taskSwitch 204836] = .ok (os', t) ∧
      CopiesString ⟨t.system, letterMemory⟩ 204836 0x300000 0x310000 16 (0x310000 + ·) [0x41] := by
  intro M
  have hlive : checkRun (taskStep M) (fun s c => decide (c.Live s))
      (TaskSystem.start (Kernel.boot (KHeap.init 0x10000) ()) ⟨0, 0, 0⟩)
      [.processAlloc, .newSpace 65552 3] = true := by decide +kernel
  have hfacts :
      ((runList (taskStep M) (TaskSystem.start (Kernel.boot (KHeap.init 0x10000) ()) ⟨0, 0, 0⟩)
      [.processAlloc, .newSpace 65552 3]).toOption.bind fun r =>
      (runList (taskStep M) r.2 [.taskNew 65552, .taskSwitch 204836]).toOption.map fun q =>
        decide (r.2.tasks = [] ∧
          checkRun (taskStep M) (fun s c => decide (c.Live s ∧ c.OnTasks)) r.2
            [.taskNew 65552, .taskSwitch 204836] = true ∧
          204836 ∈ q.2.tasks ∧ MapsLetter q.2.kernel q.2.system.cpu.cr3 ∧
          q.2.system.cpu.cr3 = q.2.kernel.directoryOf 204836 ∧
          q.2.kernel.tasks.currentTask = 204836)) = some true := by decide +kernel
  cases hs : runList (taskStep M) (TaskSystem.start (Kernel.boot (KHeap.init 0x10000) ()) ⟨0, 0, 0⟩)
      [.processAlloc, .newSpace 65552 3] with
  | error e =>
    rw [hs] at hfacts
    cases hfacts
  | ok r =>
    -- the invariants hold after the first calls
    have hI := taskRun_inv (unused_boot _ _)
        (meets_of_checkRun _ (fun _ _ h => of_decide_eq_true h) hlive) hs
    rw [hs] at hfacts
    obtain ⟨q, hq, hval⟩ := Option.map_eq_some_iff.mp hfacts
    obtain ⟨hnone, hcalls, htask, hmaps, hload, hcur⟩ := of_decide_eq_true hval
    cases ht : runList (taskStep M) r.2 [.taskNew 65552, .taskSwitch 204836] with
    | error e =>
      rw [ht] at hq
      cases hq
    | ok q' =>
      rw [ht] at hq
      obtain rfl : q' = q := Option.some.inj hq
      refine ⟨r.2, r.1, q'.2, q'.1, rfl, ht, ?_⟩
      -- the directory of the task is loaded, so the string is copied
      have hiff := (user_reads_restore_iff hI hnone
        (meets_of_checkRun _ (fun _ _ h => of_decide_eq_true h) hcalls) ht htask letterMemory).1
        0x300000 0x310000 16 (0x300000 + ·) (0x310000 + ·) [0x41]
        (userString_letter (hload ▸ hmaps)) (buffer_letter hmaps (hload ▸ hmaps))
      refine hiff.mpr ?_
      unfold LoadsCurrent
      rw [hcur]
      exact hload

/-- The first task of a process, with the directory of another process loaded: after the string is
copied the directory of the task is loaded. -/
theorem user_copy_replaces_directory :
    let M := singleFileMachine [0x42]
    ∃ s os t os', runList (taskStep M)
      (TaskSystem.start (Kernel.boot (KHeap.init 0x10000) ()) ⟨0, 0, 0⟩)
        [.processAlloc, .processAlloc, .newSpace 65552 3, .newSpace 65664 3] = .ok (os, s) ∧
      s.tasks = [] ∧
      Meets (taskStep M) (fun s c => c.Live s ∧ c.OnTasks) s [.taskNew 65552,
        .pagingSwitch 208896] ∧
      runList (taskStep M) s [.taskNew 65552, .pagingSwitch 208896] = .ok (os', t) ∧
      344100 ∈ t.tasks ∧ t.kernel.tasks.currentTask = 344100 ∧
      UserString ⟨t.system, letterMemory⟩ (t.kernel.directoryOf 344100) 0x300000 16 (0x300000 + ·)
        [0x41] ∧
      Buffer ⟨t.system, letterMemory⟩ (t.kernel.directoryOf 344100) 0x310000 16 (0x300000 + ·)
        (0x310000 + ·) [0x41] ∧
      ¬ CopiesString ⟨t.system, letterMemory⟩ 344100 0x300000 0x310000 16
        (0x310000 + ·) [0x41] := by
  intro M
  -- the two runs and the copy behind them, computed
  have hfacts :
      ((runList (taskStep M) (TaskSystem.start (Kernel.boot (KHeap.init 0x10000) ()) ⟨0, 0, 0⟩)
      [.processAlloc, .processAlloc, .newSpace 65552 3, .newSpace 65664 3]).toOption.bind fun r =>
      (runList (taskStep M) r.2 [.taskNew 65552, .pagingSwitch 208896]).toOption.map fun q =>
        decide (r.2.tasks = [] ∧
          checkRun (taskStep M) (fun s c => decide (c.Live s ∧ c.OnTasks)) r.2
            [.taskNew 65552, .pagingSwitch 208896] = true ∧
          344100 ∈ q.2.tasks ∧ q.2.kernel.tasks.currentTask = 344100 ∧
          MapsLetter q.2.kernel q.2.system.cpu.cr3 ∧
          MapsLetter q.2.kernel (q.2.kernel.directoryOf 344100) ∧
          ((taskCopyStringFromUser 344100 0x300000 0x310000 16
              ⟨q.2.system, letterMemory⟩).toOption.map fun x =>
            decide (x.2.system.cpu.cr3 = q.2.system.cpu.cr3)) = some false)) = some true := by
    decide +kernel
  cases hs : runList (taskStep M) (TaskSystem.start (Kernel.boot (KHeap.init 0x10000) ()) ⟨0, 0, 0⟩)
      [.processAlloc, .processAlloc, .newSpace 65552 3, .newSpace 65664 3] with
  | error e =>
    rw [hs] at hfacts
    cases hfacts
  | ok r =>
    rw [hs] at hfacts
    obtain ⟨q, hq, hval⟩ := Option.map_eq_some_iff.mp hfacts
    obtain ⟨hnone, hcalls, htask, hcur, hloaded, hmaps, hcr3⟩ := of_decide_eq_true hval
    cases ht : runList (taskStep M) r.2 [.taskNew 65552, .pagingSwitch 208896] with
    | error e =>
      rw [ht] at hq
      cases hq
    | ok q' =>
      rw [ht] at hq
      obtain rfl : q' = q := Option.some.inj hq
      refine ⟨r.2, r.1, q'.2, q'.1, rfl, hnone,
        meets_of_checkRun _ (fun _ _ h => of_decide_eq_true h) hcalls, ht, htask, hcur,
        userString_letter hmaps, buffer_letter hloaded hmaps, ?_⟩
      rintro ⟨v, hv, -, -, -, hsame⟩
      have hcast : taskCopyStringFromUser 344100 0x300000 0x310000 16 ⟨q'.2.system, letterMemory⟩ =
          .ok (((1 : ℕ) : ℤ), v) := hv
      rw [hcast] at hcr3
      exact absurd hsame (of_decide_eq_false (Option.some.inj hcr3))

end VibeKernel
