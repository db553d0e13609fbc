import VibeKernel.Lib.Run
import VibeKernel.Loader.Confinement

/-!
# No program reaches a page table

A run of the kernel, as far as it makes programs: `process_load` for any files on any disks,
`task_new` for the processes that it has loaded, and `fs_list`, in any order. (`run_handler` of
`kernel.c` is a `process_load` and a `task_new`, and `ls_handler` a `fs_list`.) The user of a
process gets to the pages that its directory maps for it, and `task_init` maps whole pages, so the
user also gets to what lies around its stack.

Nevertheless (`loaderRun_confined`) no user gets to a directory or a table of any process, since
these fill pages of their own. A page that the users of two processes get to is the VGA page, or two
blocks meet in it. The invariant is that each process owns its blocks, and no block has two owners.
-/

namespace VibeKernel

open Verif

variable {H D : Type} {M : Machine H D}

/-! ### A new task -/

section Tasks

variable {F : ℕ → Prop} {s t u : Kernel H D} {proc dir task p : ℕ} {own : ℕ → Prop}

/-- A task is overwritten. -/
theorem Building.modifyTask_wp (h : Building M F s t proc dir own) (p : ℕ) (f : Task → Task)
    {Q : Unit → Kernel H D → Prop} (hQ : ∀ x, t.store p = some (.task x) →
      Building M F s (t.put p (.task (f x))) proc dir own → Q () (t.put p (.task (f x)))) :
    wp (fun _ => True) (modifyTask p f) Q t := by
  unfold modifyTask
  rw [wp_bind]
  refine readObj_wp_any fun o x ho hx => ?_
  have hp : t.store p = some (.task x) := by
    rw [ho]
    cases o <;> cases hx
    rfl
  obtain ⟨hown, hproc⟩ := h.not_own hp rfl
  refine overwrite_wp h.sound.arena hp rfl (hQ x hp ?_)
  obtain ⟨a, ha, hap, hsize⟩ := h.sound.arena.stored p _ hp
  refine h.put ⟨a, ha, hap, hsize⟩ (fun o' ho' => ?_)
    (h.lasts.spare (not_lasting_of_task hp)) hown hproc
  cases hp.symm.trans ho'
  simp [Obj.kind]

/-- Static variables are no concern of a process. -/
theorem Building.statics (h : Building M F s t proc dir own) (x : ProcessStatics)
    (y : TaskStatics) :
    Building M F s { t with proc := x, tasks := y } proc dir own := by
  have hproc : Extends M (· = .process) t { t with proc := x } :=
    Extends.proc (K := (· = .process)) h.sound.arena rfl x
  have htasks : Extends M (· = .task) { t with proc := x } { t with proc := x, tasks := y } :=
    Extends.tasks (K := (· = .task)) hproc.arena rfl y
  exact h.quiet ((h.sound.extend hproc (by simp)).extend htasks (by simp)) (Lasts.of_eq rfl rfl)

/-- A block for a stack of the task: not owned yet, and the task has it. -/
structure StackBlock (M : Machine H D) (F : ℕ → Prop) (s u : Kernel H D) (proc p : ℕ)
    (own : ℕ → Prop) : Prop where
  store : u.store p = some (.bytes taskStackSize fun _ => 0)
  live : ⟨p, taskStackSize⟩ ∈ u.live
  mine : F p ∨ ¬ Lasting s p
  free : ¬ own p
  ne_proc : p ≠ proc

/-- **A stack** of a task. -/
theorem Building.newStack_wp (h : Building M F s t proc dir own) (task : ℕ) (set : ℕ → Task → Task)
    {Q : ℕ → Kernel H D → Prop}
    (hQ : ∀ p u, Building M F s u proc dir own → (∀ a ∈ t.live, a ∈ u.live) →
      (∀ q o, t.store q = some o → o.kind ≠ .task → u.store q = some o) →
      (∃ x, u.store task = some (.task x)) →
      (p ≠ 0 → StackBlock M F s u proc p own) → Q p u) :
    wp (fun _ => True) (newStack M task set) Q t := by
  unfold newStack
  rw [wp_bind]
  refine kmallocInt_wp (fun _ _ => trivial) (fun heap => ?_) fun p heap hp hU htop => ?_
  · have hext : Extends M (fun _ => False) t { t with heap := heap } :=
      Extends.heap h.sound.arena heap
    rw [wp_bind]
    refine (h.extends hext fun _ hk => hk.elim).modifyTask_wp _ _ fun x hx h₁ => ?_
    rw [if_pos rfl]
    -- without memory `NULL` is stored in the task
    refine hQ 0 _ h₁ (fun _ ha => ha) (fun q o hq hk => ?_) ⟨_, Kernel.put_store_self⟩
      fun h0 => absurd rfl h0
    refine (Kernel.put_store_ne ?_).trans hq
    rintro rfl
    cases hx.symm.trans hq
    exact hk rfl
  have hext : Extends M (fun _ => False) t (t.withBlock heap p taskStackSize) :=
    Extends.withBlock h.sound.arena heap hU htop
  -- a new block belongs to nobody yet
  obtain ⟨hmine, hown, hproc⟩ := h.new_block fun a ha => ArenaInv.usable_ne hU ha
  have hnone : t.store p = none := h.sound.arena.usable_store hU
  rw [wp_bind]
  refine (h.extends hext fun _ hk => hk.elim).modifyTask_wp _ _ fun x hx h₁ => ?_
  change t.store task = _ at hx
  have hne : p ≠ task := by
    rintro rfl
    rw [hx] at hnone
    cases hnone
  rw [if_neg hp, wp_bind]
  refine clearBlock_wp List.mem_cons_self ?_
  set v := (t.withBlock heap p taskStackSize).put task (.task (set p x)) with hv
  have hvnone : v.store p = none := (Kernel.put_store_ne hne).trans hnone
  -- it is cleared, and is the stack of the task from now on
  refine hQ p _ ?_ (fun a ha => List.mem_cons_of_mem _ ha) (fun q o hq hk => ?_)
    ⟨set p x, ?_⟩ fun _ => ?_
  · refine h₁.put ⟨_, List.mem_cons_self, rfl, le_refl _⟩ (fun o ho => ?_) hmine hown hproc
    rw [hvnone] at ho
    cases ho
  · have hqp : q ≠ p := by
      rintro rfl
      rw [hnone] at hq
      cases hq
    have hqtask : q ≠ task := by
      rintro rfl
      cases hx.symm.trans hq
      exact hk rfl
    exact (Kernel.put_store_ne hqp).trans ((Kernel.put_store_ne hqtask).trans hq)
  · exact (Kernel.put_store_ne hne.symm).trans Kernel.put_store_self
  · exact ⟨Kernel.put_store_self, List.mem_cons_self, hmine, hown, hproc⟩

/-- The stack has a byte in each of the pages that are mapped for it. -/
theorem StackBlock.covers (h : StackBlock M F s u proc p own) (hA : ArenaInv M u) :
    CoversPages u p (p - p % 4096) 4 := by
  intro _
  have hhigh := hA.high _ h.live
  unfold identityTop taskStackSize at hhigh
  dsimp only at hhigh
  refine ⟨by omega, by omega, taskStackSize, _, h.store, fun j hj => ?_⟩
  unfold Overlaps taskStackSize
  omega

/-- **`task_init`** on a new block. -/
theorem Building.taskInit_wp (h : Building M F s t proc dir own)
    (hfit : ∃ a ∈ t.live, a.ptr = task ∧ 68 ≤ a.size)
    (hnone : t.store task = none) (hmine : F task ∨ ¬ Lasting s task) (hown : ¬ own task)
    (hproc : task ≠ proc) {Q : ℤ → Kernel H D → Prop}
    (hfail : ∀ u, Building M F s u proc dir own → (∃ x, u.store task = some (.task x)) → Q (-1) u)
    (hok : ∀ u own', Building M F s u proc dir own' → Q 0 u) :
    wp (fun _ => True) (taskInit M task proc) Q t := by
  unfold taskInit
  rw [wp_bind]
  refine writeObj_wp hfit ?_
  have h₁ := h.put (o := .task ⟨0, 0, 0, 0, 0, proc, 0, 0, 0, 0⟩) hfit (by simp [hnone])
      hmine hown hproc
  rw [wp_bind]
  refine h₁.newStack_wp _ _ fun us t₂ h₂ _ _ htask₂ hus => ?_
  split_ifs with hus0
  · exact hfail t₂ h₂ htask₂
  have hstack₂ := hus hus0
  rw [wp_bind]
  refine h₂.newStack_wp _ _ fun ks t₃ h₃ hlive₃ hkept₃ htask₃ _ => ?_
  have hstack₃ : StackBlock M F s t₃ proc us own :=
    ⟨hkept₃ us _ hstack₂.store (by simp [Obj.kind]), hlive₃ _ hstack₂.live,
      hstack₂.mine, hstack₂.free, hstack₂.ne_proc⟩
  split_ifs
  · -- the user stack is given back
    rw [wp_bind]
    refine kfree_wp (fun h0 => absurd h0 hus0) fun _ => hfail _ ?_ ?_
    · refine h₃.freed (fun o ho => ?_) hstack₃.mine hstack₃.free hstack₃.ne_proc
      cases hstack₃.store.symm.trans ho
      simp [Obj.kind]
    · obtain ⟨x, hx⟩ := htask₃
      refine ⟨x, (Kernel.freed_store_ne ?_).trans hx⟩
      rintro rfl
      cases hstack₃.store.symm.trans hx
  rw [wp_bind]
  refine readObj_wp_any fun _ bytes _ _ => ?_
  rw [wp_bind]
  refine h₃.modifyTask_wp _ _ fun x hx h₄ => ?_
  set t₄ := t₃.put task (.task _)
  have hstack₄ : StackBlock M F s t₄ proc us own := by
    refine ⟨(Kernel.put_store_ne ?_).trans hstack₃.store, hstack₃.live, hstack₃.mine, hstack₃.free,
      hstack₃.ne_proc⟩
    rintro rfl
    cases hstack₃.store.symm.trans hx
  have hhigh := h₄.sound.arena.high _ hstack₄.live
  unfold identityTop taskStackSize at hhigh
  dsimp only at hhigh
  rw [and_pageBase (by omega), wp_bind]
  refine h₄.map_wp (hstack₄.covers h₄.sound.arena) hstack₄.mine fun u own' hu => ?_
  exact hok u own' hu

/-- **`task_new`** gives the user of its process the pages of a new stack, and the process the
stack. -/
theorem Building.taskNew_wp (h : Building M F s t proc dir own) {Q : ℕ → Kernel H D → Prop}
    (hQ : ∀ r u own', Building M F s u proc dir own' → Q r u) :
    wp (fun _ => True) (taskNew M proc) Q t := by
  unfold taskNew
  rw [wp_bind]
  refine kmallocInt_wp (fun _ _ => trivial) (fun heap => ?_) fun task heap h0 hU htop => ?_
  · have hext : Extends M (fun _ => False) t { t with heap := heap } :=
      Extends.heap h.sound.arena heap
    rw [if_pos rfl]
    exact hQ 0 _ own (h.extends hext fun _ hk => hk.elim)
  have hext : Extends M (fun _ => False) t (t.withBlock heap task 68) :=
    Extends.withBlock h.sound.arena heap hU htop
  obtain ⟨hmine, hown, hproc⟩ := h.new_block fun a ha => ArenaInv.usable_ne hU ha
  have h₁ := h.extends hext fun _ hk => hk.elim
  rw [if_neg h0, wp_bind]
  refine h₁.taskInit_wp ⟨_, List.mem_cons_self, rfl, le_refl _⟩
    (h.sound.arena.usable_store hU) hmine
    hown hproc (fun u hu htask => ?_) fun u own' hu => ?_
  · -- the task is given back
    obtain ⟨x, hx⟩ := htask
    rw [if_pos (by decide), wp_bind]
    refine kfree_wp (fun hz => absurd hz h0) fun _ => hQ 0 _ own ?_
    refine hu.freed (fun o ho => ?_) hmine hown hproc
    cases hx.symm.trans ho
    simp [Obj.kind]
  · rw [if_neg (by decide), wp_bind]
    unfold taskLink processSwitch
    rw [wp_bind, wp_gets]
    dsimp only [id]
    split_ifs
    · rw [wp_bind, wp_modify, wp_modify]
      exact hQ task _ own' (hu.statics _ _)
    · rw [wp_bind]
      refine hu.modifyTask_wp _ _ fun x _ h₂ => ?_
      rw [wp_bind]
      refine h₂.modifyTask_wp _ _ fun y _ h₃ => ?_
      rw [wp_modify]
      exact hQ task _ own' (h₃.statics _ _)

end Tasks

/-! ### Runs -/

/-- The kernel, and the processes that `process_load` has loaded. -/
structure LoaderSystem (H D : Type) where
  kernel : Kernel H D
  loaded : List ℕ

/-- The calls. -/
inductive LoaderCall
  | processLoad (filename : CString)
  | taskNew (process : ℕ)
  | fsList (path : CString)
  deriving DecidableEq, Repr

namespace LoaderCall

/-- Tasks are made for processes that have been loaded. -/
def Live (s : LoaderSystem H D) : LoaderCall → Prop
  | taskNew process => process ∈ s.loaded
  | _ => True

instance decidableLive (s : LoaderSystem H D) (c : LoaderCall) : Decidable (c.Live s) :=
  match c with
  | processLoad _ => inferInstanceAs (Decidable True)
  | taskNew process => inferInstanceAs (Decidable (process ∈ s.loaded))
  | fsList _ => inferInstanceAs (Decidable True)

/-- What a call answers: its result, and the process or the task it has made. -/
def run (M : Machine H D) : LoaderCall → KM H D (ℤ × ℕ)
  | processLoad filename => VibeKernel.processLoad M filename
  | taskNew process => (fun task => (0, task)) <$> VibeKernel.taskNew M process
  | fsList path => (fun r => (r.1, 0)) <$> VibeKernel.fsList M path

/-- The processes that are loaded after the call. -/
def loaded (ps : List ℕ) (r : ℤ × ℕ) : LoaderCall → List ℕ
  | processLoad _ => if r.1 < 0 then ps else r.2 :: ps
  | _ => ps

end LoaderCall

/-- A call. -/
def loaderStep (M : Machine H D) (s : LoaderSystem H D) (c : LoaderCall) :
    Except Stop ((ℤ × ℕ) × LoaderSystem H D) :=
  match c.run M s.kernel with
  | .error e => .error e
  | .ok (r, k) => .ok (r, ⟨k, c.loaded s.loaded r⟩)

/-- Each process owns its blocks, and no block has two owners. -/
structure Confined (M : Machine H D) (s : LoaderSystem H D) (dirs : ℕ → ℕ) (owns : ℕ → ℕ → Prop) :
    Prop where
  sound : FsSound M (fun _ _ => True) s.kernel
  owned : ∀ p ∈ s.loaded, Owned s.kernel p (dirs p) (owns p)
  apart : ∀ p ∈ s.loaded, ∀ q ∈ s.loaded, p ≠ q → ∀ b, owns p b → ¬ owns q b

section Runs

variable {s t : LoaderSystem H D} {c : LoaderCall} {r : ℤ × ℕ} {dirs : ℕ → ℕ} {owns : ℕ → ℕ → Prop}

theorem loaderStep_of_wp {P : (ℤ × ℕ) → LoaderSystem H D → Prop}
    (h : wp (fun _ => True) (c.run M) (fun r k => P r ⟨k, c.loaded s.loaded r⟩) s.kernel)
    (hs : loaderStep M s c = .ok (r, t)) : P r t := by
  unfold loaderStep at hs
  cases hrun : c.run M s.kernel with
  | error e =>
    rw [hrun] at hs
    cases hs
  | ok x =>
    obtain ⟨r', k⟩ := x
    rw [hrun] at hs
    cases hs
    exact h.ok hrun

/-- A process is no block of another one. -/
theorem Confined.process_not_owned (h : Confined M s dirs owns) {p q : ℕ} (hp : p ∈ s.loaded)
    (hq : q ∈ s.loaded) : ¬ owns p q := by
  intro hown
  obtain ⟨-, -, ⟨⟨x, hx, -⟩, -⟩, -⟩ := (h.owned q hq).space
  obtain ⟨o, ho, hk⟩ := (h.owned p hp).kinds q hown
  cases hx.symm.trans ho
  simp [Obj.kind] at hk

/-- Processes last. -/
theorem Confined.process_lasting (h : Confined M s dirs owns) {p : ℕ} (hp : p ∈ s.loaded) :
    Lasting s.kernel p := by
  obtain ⟨-, -, ⟨⟨x, hx, -⟩, -⟩, -⟩ := (h.owned p hp).space
  exact Lasting.of_store h.sound.arena hx (by simp [Obj.kind]) (by simp [Obj.kind])

/-- A step that touches nothing that lasts. -/
theorem Confined.quiet (h : Confined M s dirs owns) {k : Kernel H D}
    (hS : FsSound M (fun _ _ => True) k) (hL : Lasts nowhere s.kernel k) :
    Confined M ⟨k, s.loaded⟩ dirs owns where
  sound := hS
  owned p hp := (h.owned p hp).keep h.sound.arena hL (fun _ _ hF => hF) fun hF => hF
  apart := h.apart

/-- **A loaded process** owns new blocks. -/
theorem Confined.load (h : Confined M s dirs owns) {k : Kernel H D}
    (hends : LoadEnds M s.kernel r k)
    (hres : ¬ r.1 < 0) : ∃ dirs owns, Confined M ⟨k, r.2 :: s.loaded⟩ dirs owns := by
  obtain ⟨hS, hL, hown⟩ := hends
  obtain ⟨hfresh, dir, own, hb⟩ := hown hres
  have hk := h.quiet hS hL
  have hnew : ∀ p ∈ s.loaded, p ≠ r.2 := by
    rintro p hp rfl
    exact hfresh (h.process_lasting hp)
  -- what is owned already is not new
  have hold : ∀ p ∈ s.loaded, ∀ b, owns p b → ¬ own b := by
    intro p hp b hb₁ hb₂
    rcases hb.mine b hb₂ with hF | hno
    · exact hF
    · exact hno ((h.owned p hp).lasting h.sound.arena hb₁)
  refine ⟨Function.update dirs r.2 dir, Function.update owns r.2 own, hS, ?_, ?_⟩
  · intro p hp
    rcases List.mem_cons.mp hp with rfl | hp
    · rw [Function.update_self, Function.update_self]
      exact hb.owned
    · rw [Function.update_of_ne (hnew p hp), Function.update_of_ne (hnew p hp)]
      exact hk.owned p hp
  · intro p hp q hq hne b
    rcases List.mem_cons.mp hp with rfl | hp
    · rcases List.mem_cons.mp hq with rfl | hq
      · exact absurd rfl hne
      · rw [Function.update_self, Function.update_of_ne (hnew q hq)]
        exact fun hb₁ hb₂ => hold q hq b hb₂ hb₁
    · rcases List.mem_cons.mp hq with rfl | hq
      · rw [Function.update_self, Function.update_of_ne (hnew p hp)]
        exact hold p hp b
      · rw [Function.update_of_ne (hnew p hp), Function.update_of_ne (hnew q hq)]
        exact h.apart p hp q hq hne b

/-- **A new task** makes its process larger, and no other. -/
theorem Confined.task (h : Confined M s dirs owns) {k : Kernel H D} {p : ℕ} (hp : p ∈ s.loaded)
    {own : ℕ → Prop} (hb : Building M (owns p) s.kernel k p (dirs p) own) :
    ∃ owns', Confined M ⟨k, s.loaded⟩ dirs owns' := by
  have hother : ∀ q ∈ s.loaded, q ≠ p → Owned k q (dirs q) (owns q) := by
    intro q hq hne
    exact (h.owned q hq).keep h.sound.arena hb.lasts (fun b hbq => h.apart q hq p hp hne b hbq)
      (h.process_not_owned hp hq)
  have hold : ∀ q ∈ s.loaded, q ≠ p → ∀ b, owns q b → ¬ own b := by
    intro q hq hne b hb₁ hb₂
    rcases hb.mine b hb₂ with hF | hno
    · exact h.apart q hq p hp hne b hb₁ hF
    · exact hno ((h.owned q hq).lasting h.sound.arena hb₁)
  refine ⟨Function.update owns p own, hb.sound, ?_, ?_⟩
  · intro q hq
    by_cases hqp : q = p
    · subst hqp
      rw [Function.update_self]
      exact hb.owned
    · rw [Function.update_of_ne hqp]
      exact hother q hq hqp
  · intro q hq q' hq' hne b
    by_cases hqp : q = p
    · subst hqp
      rw [Function.update_self, Function.update_of_ne hne.symm]
      exact fun hb₁ hb₂ => hold q' hq' hne.symm b hb₂ hb₁
    · rw [Function.update_of_ne hqp]
      by_cases hqp' : q' = p
      · subst hqp'
        rw [Function.update_self]
        exact hold q hq hqp b
      · rw [Function.update_of_ne hqp']
        exact h.apart q hq q' hq' hne b

/-- **Every call** keeps the processes confined. -/
theorem loaderStep_confined (h : ∃ dirs owns, Confined M s dirs owns) (hc : c.Live s)
    (hs : loaderStep M s c = .ok (r, t)) : ∃ dirs owns, Confined M t dirs owns := by
  obtain ⟨dirs, owns, h⟩ := h
  cases c with
  | processLoad filename =>
    refine loaderStep_of_wp (P := fun _ t => ∃ dirs owns, Confined M t dirs owns) ?_ hs
    refine (processLoad_owned h.sound filename).mono fun r k hends => ?_
    by_cases hres : r.1 < 0
    · have hloaded : LoaderCall.loaded s.loaded r (.processLoad filename) = s.loaded := if_pos hres
      rw [hloaded]
      exact ⟨dirs, owns, h.quiet hends.1 hends.2.1⟩
    · have hloaded : LoaderCall.loaded s.loaded r (.processLoad filename) =
          r.2 :: s.loaded := if_neg hres
      rw [hloaded]
      exact h.load hends hres
  | taskNew process =>
    refine loaderStep_of_wp (P := fun _ t => ∃ dirs owns, Confined M t dirs owns) ?_ hs
    have hstart : Building M (owns process) s.kernel s.kernel process (dirs process)
        (owns process) :=
      ⟨h.sound, Lasts.refl _ _, h.owned process hc, fun _ hq => .inl hq⟩
    unfold LoaderCall.run
    rw [wp_map]
    refine hstart.taskNew_wp fun _ k own hk => ?_
    obtain ⟨owns', h'⟩ := h.task hc hk
    exact ⟨dirs, owns', h'⟩
  | fsList path =>
    -- listing a directory mounts a disk at most
    refine loaderStep_of_wp (P := fun _ t => ∃ dirs owns, Confined M t dirs owns) ?_ hs
    unfold LoaderCall.run
    rw [wp_map]
    refine fsList_wp (fun _ _ => trivial) h.sound.arena h.sound.inv (fun _ _ _ => trivial) path
      (fun _ => trivial) fun _ _ k hpost => ?_
    obtain ⟨own, new, hgrow, -⟩ := hpost.outcome
    exact ⟨dirs, owns, h.quiet ⟨hgrow.arena, hpost.inv⟩ (Lasts.of_fs hgrow.frame)⟩

end Runs

/-! ### What a user gets to -/

/-- The user of the directory gets to the page of the memory with this number. -/
def Kernel.UserReaches (t : Kernel H D) (dir page : ℕ) : Prop :=
  ∃ virt < 4294967296, ∃ a, t.physical dir virt = some a ∧ t.grants dir virt 2 = true ∧
    a / 4096 = page

/-- The block is the directory or one of its tables. -/
def Kernel.PagingBlock (t : Kernel H D) (dir q : ℕ) : Prop :=
  ∃ W, t.store dir = some (.table W) ∧ Footprint dir W q

/-- There is a block of bytes at `b` with a byte in the page. -/
def Kernel.HasBytes (t : Kernel H D) (page b : ℕ) : Prop :=
  ∃ n cells, t.store b = some (.bytes n cells) ∧ Overlaps b n page

section Reach

variable {t : Kernel H D} {proc dir page b q : ℕ} {own : ℕ → Prop}

/-- A page with a byte of a block lies in the memory of the kernel. -/
theorem Kernel.HasBytes.lt (h : t.HasBytes page b) (hA : ArenaInv M t) : page < 16384 := by
  obtain ⟨n, cells, hstore, hover⟩ := h
  obtain ⟨a, ha, hap, hsize⟩ := hA.stored b _ hstore
  have hhigh := hA.high a ha
  unfold identityTop at hhigh
  unfold Overlaps at hover
  change n ≤ a.size at hsize
  omega

/-- **The user of a process** gets to the VGA page, and to pages with bytes of blocks that the
process owns. -/
theorem Owned.reaches (h : Owned t proc dir own) (hA : ArenaInv M t) (hr : t.UserReaches dir page) :
    page = 0xB8 ∨ ∃ b, own b ∧ t.HasBytes page b := by
  obtain ⟨virt, hvirt, a, hphys, huser, rfl⟩ := hr
  obtain ⟨W, m, hspace, -, hin⟩ := h.space
  have hpage : virt / 4096 < 1048576 := by omega
  rw [hspace.refines.grants_eq hvirt (by norm_num)] at huser
  unfold Kernel.physical at hphys
  rw [hspace.refines.walk_eq hvirt] at hphys
  split_ifs at hphys
  cases hphys
  -- the address lies in the page of the entry
  have haddr : m (virt / 4096) < 4294967296 →
      ((m (virt / 4096) &&& 0xFFFFF000) + virt % 4096) / 4096 = m (virt / 4096) / 4096 := by
    intro hlt
    rw [and_pageBase hlt]
    omega
  rcases hin _ hpage huser with hvga | ⟨b, n, cells, hb, hstore, hover⟩
  · rw [haddr (by omega)]
    exact .inl hvga
  · have hbytes : t.HasBytes (m (virt / 4096) / 4096) b := ⟨n, cells, hstore, hover⟩
    have hlt := hbytes.lt hA
    rw [haddr (by omega)]
    exact .inr ⟨b, hb, hbytes⟩

/-- The blocks of a directory are pages. -/
theorem Owned.pagingBlock (h : Owned t proc dir own) (hq : t.PagingBlock dir q) :
    q % 4096 = 0 ∧ ∃ U, t.store q = some (.table U) := by
  obtain ⟨W, hW, hfoot⟩ := hq
  obtain ⟨W', m, hspace, -, -⟩ := h.space
  obtain rfl : W = W' := by
    have hdir := hspace.refines.directory
    rw [hW] at hdir
    cases hdir
    rfl
  refine ⟨?_, hspace.refines.footprint hfoot⟩
  rcases hfoot with rfl | ⟨i, -, -, rfl⟩
  · exact h.aligned
  · unfold tableBase
    omega

/-- A page that a table fills has no byte of another block in it. -/
theorem Kernel.HasBytes.not_table (h : t.HasBytes page b) (hA : ArenaInv M t) {U : ℕ → ℕ}
    (hq : t.store q = some (.table U)) (haligned : q % 4096 = 0) : q / 4096 ≠ page := by
  rintro rfl
  obtain ⟨n, cells, hstore, hover⟩ := h
  obtain ⟨a, ha, rfl, hsize⟩ := hA.stored b _ hstore
  obtain ⟨a', ha', rfl, hsize'⟩ := hA.stored q _ hq
  change n ≤ a.size at hsize
  change 4096 ≤ a'.size at hsize'
  have hne : a ≠ a' := by
    rintro rfl
    rw [hstore] at hq
    cases hq
  have hapart : a.span.Apart a'.span := Span.apart_of_mem hA.apart ha ha' hne
  simp only [Span.Apart, Span.stop, Allocation.span] at hapart
  unfold Overlaps at hover
  omega

end Reach

section Main

variable {k : Kernel H D} {calls : List LoaderCall} {os : List (ℤ × ℕ)} {u : LoaderSystem H D}

/-- What the user of a loaded process gets to, apart from the VGA page: only pages with bytes of
segments or stacks, in particular no page of a directory or a table of any loaded process, and a
page that the user of another process gets to only if it has two blocks in it. -/
def UserConfined (u : LoaderSystem H D) (proc : ℕ) : Prop :=
  ∃ dir, processDirectory proc u.kernel = .ok (dir, u.kernel) ∧
    ∀ page, page ≠ 0xB8 → u.kernel.UserReaches dir page → (∃ b, u.kernel.HasBytes page b) ∧
      ∀ proc' ∈ u.loaded, ∀ dir', processDirectory proc' u.kernel = .ok (dir', u.kernel) →
        (∀ q, u.kernel.PagingBlock dir' q → q / 4096 ≠ page) ∧
        (proc' ≠ proc → u.kernel.UserReaches dir' page →
          ∃ b b', b ≠ b' ∧ u.kernel.HasBytes page b ∧ u.kernel.HasBytes page b')

/-- The invariant of a run confines the users. -/
theorem Confined.userConfined {dirs : ℕ → ℕ} {owns : ℕ → ℕ → Prop} (h : Confined M u dirs owns)
    {proc : ℕ} (hproc : proc ∈ u.loaded) : UserConfined u proc := by
  have hA := h.sound.arena
  have hdir : ∀ p ∈ u.loaded, processDirectory p u.kernel = .ok (dirs p, u.kernel) := by
    intro p hp
    obtain ⟨W, m, hspace, -, -⟩ := (h.owned p hp).space
    exact hspace.processDirectory_run
  refine ⟨dirs proc, hdir proc hproc, fun page hvga hreach => ?_⟩
  obtain ⟨b, hb, hbytes⟩ := ((h.owned proc hproc).reaches hA hreach).resolve_left hvga
  refine ⟨⟨b, hbytes⟩, fun proc' hproc' dir' hdir' => ?_⟩
  -- the directory is the one of the invariant
  obtain rfl : dir' = dirs proc' := by
    have heq := (hdir proc' hproc').symm.trans hdir'
    cases heq
    rfl
  refine ⟨fun q hq => ?_, fun hne hreach' => ?_⟩
  · obtain ⟨haligned, U, hU⟩ := (h.owned proc' hproc').pagingBlock hq
    exact hbytes.not_table hA hU haligned
  · obtain ⟨b', hb', hbytes'⟩ := ((h.owned proc' hproc').reaches hA hreach').resolve_left hvga
    refine ⟨b, b', ?_, hbytes, hbytes'⟩
    rintro rfl
    exact h.apart proc hproc proc' hproc' hne.symm b hb hb'

/-- **Confinement.** In every run whose calls keep to their blocks the machine is halted, or the
user of each loaded process is confined. -/
theorem loaderRun_confined (hk : FsSound M (fun _ _ => True) k)
    (hm : Meets (loaderStep M) (fun s c => c.Live s ∧ KeepsToBlocks (c.run M) s.kernel) ⟨k, []⟩
      calls) :
    (∃ e, runList (loaderStep M) ⟨k, []⟩ calls = .error e ∧ e.Halts) ∨
      ∃ os u, runList (loaderStep M) ⟨k, []⟩ calls = .ok (os, u) ∧
        ∀ proc ∈ u.loaded, UserConfined u proc := by
  have hstart : ∃ dirs owns, Confined M ⟨k, []⟩ dirs owns :=
    ⟨fun _ => 0, fun _ _ => False, hk, fun _ hp => (List.not_mem_nil hp).elim,
      fun _ hp => (List.not_mem_nil hp).elim⟩
  have hstep : ∀ u c, (∃ dirs owns, Confined M u dirs owns) →
      c.Live u ∧ KeepsToBlocks (c.run M) u.kernel →
      (∃ e, loaderStep M u c = .error e ∧ e.Halts) ∨
        ∃ o t, loaderStep M u c = .ok (o, t) ∧ ∃ dirs owns, Confined M t dirs owns := by
    intro u c hI hc
    cases hrun : loaderStep M u c with
    | ok r => exact .inr ⟨r.1, r.2, rfl, loaderStep_confined hI hc.1 hrun⟩
    | error e =>
      refine .inl ⟨e, rfl, hc.2 e ?_⟩
      -- the call has stopped
      unfold loaderStep at hrun
      split at hrun
      · rename_i e' hstop
        cases hrun
        exact hstop
      · cases hrun
  refine (runList_either hstep hstart hm).imp_right ?_
  · rintro ⟨os, u, hu, dirs, owns, h⟩
    exact ⟨os, u, hu, fun proc hproc => h.userConfined hproc⟩

end Main

/-- A call of a loaded process that completes. -/
def LoaderCall.completes (M : Machine H D) (s : LoaderSystem H D) (c : LoaderCall) : Bool :=
  decide (c.Live s) && (c.run M s.kernel).toOption.isSome

/-- A call that completes keeps to its blocks. -/
theorem LoaderCall.completes_spec {s : LoaderSystem H D} {c : LoaderCall}
    (h : c.completes M s = true) : c.Live s ∧ KeepsToBlocks (c.run M) s.kernel := by
  unfold LoaderCall.completes at h
  rw [Bool.and_eq_true, decide_eq_true_iff] at h
  refine ⟨h.1, fun e he => ?_⟩
  rw [he] at h
  cases h.2

/-- A file is loaded, its process gets a task, and the file is loaded again. -/
def loadTwice : List LoaderCall := [.processLoad elfPath, .taskNew 65576, .processLoad elfPath]

theorem loadTwice_meets : Meets (loaderStep (elfMachine decodedFile))
    (fun s c => c.Live s ∧ KeepsToBlocks (c.run (elfMachine decodedFile)) s.kernel) ⟨elfBoot, []⟩
    loadTwice :=
  meets_of_checkRun (LoaderCall.completes (elfMachine decodedFile))
    (fun _ _ => LoaderCall.completes_spec) (by decide +kernel)

/-- When a file is loaded twice, the first process does not get to the directory of the second, and
the other way round. -/
theorem loaderRun_confined_twice : ∃ os u dir dir',
    runList (loaderStep (elfMachine decodedFile)) ⟨elfBoot, []⟩ loadTwice = .ok (os, u) ∧
    u.loaded = [241828, 65576] ∧
    processDirectory 65576 u.kernel = .ok (dir, u.kernel) ∧
    processDirectory 241828 u.kernel = .ok (dir', u.kernel) ∧
    ∀ page, page ≠ 0xB8 →
      (u.kernel.UserReaches dir page → ∀ q, u.kernel.PagingBlock dir' q → q / 4096 ≠ page) ∧
      (u.kernel.UserReaches dir' page → ∀ q, u.kernel.PagingBlock dir q → q / 4096 ≠ page) := by
  have hall : (runList (loaderStep (elfMachine decodedFile)) ⟨elfBoot, []⟩ loadTwice).toOption.map
      (fun r => r.2.loaded) = some [241828, 65576] := by decide +kernel
  rcases loaderRun_confined (elfBoot_sound _) loadTwice_meets with
    ⟨e, hrun, -⟩ | ⟨os, u, hrun, hconf⟩
  · rw [hrun] at hall
    cases hall
  rw [hrun] at hall
  have hloaded : u.loaded = [241828, 65576] := Option.some.inj hall
  have hmem : 65576 ∈ u.loaded ∧ 241828 ∈ u.loaded := by simp [hloaded]
  obtain ⟨dir, hdir, hreach⟩ := hconf _ hmem.1
  obtain ⟨dir', hdir', hreach'⟩ := hconf _ hmem.2
  exact ⟨os, u, dir, dir', hrun, hloaded, hdir, hdir', fun page hvga =>
    ⟨fun h => ((hreach page hvga h).2 _ hmem.2 dir' hdir').1,
      fun h => ((hreach' page hvga h).2 _ hmem.1 dir hdir).1⟩⟩

end VibeKernel
