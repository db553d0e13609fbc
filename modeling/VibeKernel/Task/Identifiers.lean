import VibeKernel.Heap.Invariant
import VibeKernel.Task.Scheduling

/-!
# Process ids

`process_alloc` numbers the processes with an `int` and stores the number in a field of 16 bits;
nothing compares it with the ids of live processes. `ids_unique` says that the ids of the live
processes are distinct in every run in which no live process has the next id. `ids_repeat` is a run
without this: one process lives while 65535 others come and go, and the next one gets its id.
-/

namespace VibeKernel

open Verif

variable {H D : Type}

/-! ### Runs without a repeated id -/

/-- The ids of the live processes are distinct, and `process_get` finds each of them by its id. -/
def TaskSystem.IdsUnique (s : TaskSystem H D) : Prop :=
  (s.procs.map s.kernel.processId).Nodup ∧
    ∀ p ∈ s.procs, processGet (s.kernel.processId p) s.kernel = .ok (p, s.kernel)

/-- No live process has the id that the next one gets. -/
def TaskCall.FreshId (s : TaskSystem H D) : TaskCall → Prop
  | .processAlloc => ∀ p ∈ s.procs, s.kernel.processId p ≠ (s.kernel.proc.currentId + 1) % 65536
  | _ => True

instance (s : TaskSystem H D) : DecidablePred (TaskCall.FreshId s)
  | .processAlloc => inferInstanceAs (Decidable
      (∀ p ∈ s.procs, s.kernel.processId p ≠ (s.kernel.proc.currentId + 1) % 65536))
  | .newSpace _ _ | .processFree _ | .taskNew _ | .taskFree _ | .taskSwitch _ | .pagingSwitch _ =>
    inferInstanceAs (Decidable True)

/-- The ids in the abstract model are distinct. -/
def Sched.IdsDistinct (v : Sched) : Prop := (v.procs.map Prod.snd).Nodup

section Unique

variable {M : Machine H D} {s t : TaskSystem H D} {c : TaskCall} {r : ℕ}

theorem view_map_snd (s : TaskSystem H D) :
    s.view.procs.map Prod.snd = s.procs.map s.kernel.processId := by
  change (s.procs.map _).map Prod.snd = _
  rw [List.map_map]
  rfl

/-- A call that gives no id of a live process keeps the ids distinct. -/
theorem Sched.IdsDistinct.step {v : Sched} (h : v.IdsDistinct)
    (hc : c = .processAlloc → (v.lastId + 1) % 65536 ∉ v.procs.map Prod.snd) :
    (v.step r c).IdsDistinct := by
  cases c with
  | processAlloc =>
    by_cases hr : r = 0
    · rwa [show v.step r .processAlloc = v from if_pos hr]
    · rw [Sched.step_processAlloc hr]
      unfold Sched.IdsDistinct
      rw [List.map_append, List.nodup_append]
      refine ⟨h, List.nodup_singleton _, fun a ha b hb => ?_⟩
      cases List.mem_singleton.mp hb
      rintro rfl
      exact hc rfl ha
  | processFree process => exact (List.filter_sublist.map Prod.snd).nodup h
  | taskNew process =>
    by_cases hr : r = 0
    · rwa [show v.step r (.taskNew process) = v from if_pos hr]
    · by_cases hnil : v.tasks = []
      · rwa [Sched.step_taskNew_first hr hnil]
      · rwa [Sched.step_taskNew_next hr hnil]
  | taskFree task => exact h
  | taskSwitch task => exact h
  | newSpace process flags => exact h
  | pagingSwitch directory => exact h

/-- One call of the kernel. -/
theorem idsDistinct_step (hI : SystemInv M s) (h : s.view.IdsDistinct) (hc : c.Live s)
    (hfresh : c.FreshId s) (hs : taskStep M s c = .ok (r, t)) :
    SystemInv M t ∧ t.view.IdsDistinct := by
  obtain ⟨hIt, hview⟩ := taskStep_refines hI hc hs
  refine ⟨hIt, hview ▸ h.step fun halloc => ?_⟩
  subst halloc
  rw [view_map_snd]
  intro hmem
  obtain ⟨p, hp, hid⟩ := List.mem_map.mp hmem
  exact hfresh p hp hid

/-- With distinct ids the first process with an id is the only one. -/
theorem SystemInv.idsUnique (hI : SystemInv M s) (h : s.view.IdsDistinct) : s.IdsUnique := by
  have hnd : (s.procs.map s.kernel.processId).Nodup := view_map_snd s ▸ h
  refine ⟨hnd, fun p hp => ?_⟩
  rw [processGet_eq hI.procs]
  have hfind : (s.procs.find? fun q =>
      decide ((s.kernel.processId q : ℤ) = (s.kernel.processId p : ℤ))) = some p := by
    have hsome := List.find?_isSome (p := fun q =>
      decide ((s.kernel.processId q : ℤ) = (s.kernel.processId p : ℤ))).mpr ⟨p, hp,
        decide_eq_true rfl⟩
    obtain ⟨q, hq⟩ := Option.isSome_iff_exists.mp hsome
    have hfound := List.find?_some hq
    have hid := Int.ofNat_inj.mp (of_decide_eq_true hfound)
    rw [hq, List.inj_on_of_nodup_map hnd (List.mem_of_find?_eq_some hq) hp hid]
  rw [hfind]
  rfl

/-- After every run of calls on live processes and tasks in which no live process has the id that
`process_alloc` is about to give, the ids of the live processes are distinct, and `process_get`
finds each of them. -/
theorem ids_unique {k : Kernel H D} (hk : Unused M k) {cpu : Cpu} {calls : List TaskCall}
    (hm : Meets (taskStep M) (fun s c => c.Live s ∧ c.FreshId s) (TaskSystem.start k cpu) calls)
    {os : List ℕ} {u : TaskSystem H D}
    (hr : runList (taskStep M) (TaskSystem.start k cpu) calls = .ok (os, u)) : u.IdsUnique := by
  have hinv := @runList_invariant _ _ _ _ _ _ (fun s => SystemInv M s ∧ s.view.IdsDistinct)
    (fun _ _ _ _ hI hc hs => idsDistinct_step hI.1 hI.2 hc.1 hc.2 hs)
    _ _ _ _ ⟨hk.inv cpu, List.nodup_nil⟩ hm hr
  exact hinv.1.idsUnique hinv.2

end Unique

/-- Two processes, the first freed, and another one in its block. -/
theorem ids_unique_reused :
    let M := singleFileMachine [0x42]
    let start := TaskSystem.start (Kernel.boot (KHeap.init 0x10000) ()) ⟨0, 0, 0⟩
    ∃ os u, runList (taskStep M) start
        [.processAlloc, .processAlloc, .processFree 65552, .processAlloc] = .ok (os, u) ∧
      u.IdsUnique := by
  intro M start
  have hok : (runList (taskStep M) start
      [.processAlloc, .processAlloc, .processFree 65552, .processAlloc]).isOk = true := by
    decide +kernel
  have hlive : checkRun (taskStep M) (fun s c => decide (c.Live s ∧ c.FreshId s)) start
      [.processAlloc, .processAlloc, .processFree 65552, .processAlloc] = true := by
    decide +kernel
  cases hr : runList (taskStep M) start
      [.processAlloc, .processAlloc, .processFree 65552, .processAlloc] with
  | error e =>
    rw [hr] at hok
    cases hok
  | ok r =>
    exact ⟨r.1, r.2, rfl, ids_unique (unused_boot _ _)
      (meets_of_checkRun _ (fun _ _ h => of_decide_eq_true h) hlive) hr⟩

/-! ### A run with one -/

/-- The heap of one process that lives and one that comes and goes: two blocks in the list, the
second one free. -/
structure OneSlot (h : KHeap) : Prop where
  base : h.globalBase = 65536
  kept : (h.block 65536).free = false
  next : (h.block 65536).next = 65648
  free : (h.block 65648).free = true
  size : (h.block 65648).size = 96

/-- A process is put into the free block. -/
theorem OneSlot.kmallocInt {h : KHeap} (hs : OneSlot h) :
    h.kmallocInt 96 false = some (65664, h.reuse 65648) := by
  have hfind : h.findFreeBlock 96 chainFuel h.globalBase h.globalBase = some (65648, 65536) := by
    have hfuel : chainFuel = 4294967294 + 1 + 1 := rfl
    have hkept : ¬ h.Fits 96 65536 := fun hf => Bool.false_ne_true (hs.kept.symm.trans hf.1)
    have hslot : h.Fits 96 65648 := ⟨hs.free, hs.size.ge⟩
    rw [hs.base, hfuel, KHeap.findFreeBlock, if_pos ⟨by decide, hkept⟩, KHeap.next, hs.next,
      KHeap.findFreeBlock, if_neg fun hc => hc.2 hslot]
  unfold KHeap.kmallocInt
  rw [if_neg (by decide), if_neg (by rw [hs.base]; decide), hfind]
  rfl

/-- The block is freed again. -/
theorem OneSlot.kfree {h : KHeap} (hs : OneSlot h) : OneSlot ((h.reuse 65648).kfree 65664) := by
  have hslot : (h.reuse 65648).block 65648 =
      { h.block 65648 with free := false, magic := magicReused } := KHeap.setBlock_self h _ _
  have hfree : (h.reuse 65648).kfree 65664 =
      (h.reuse 65648).setBlock 65648 { (h.reuse 65648).block 65648 with free := true } := by
    unfold KHeap.kfree
    rw [if_neg (by decide), show u32Sub 65664 16 = 65648 by decide]
    exact if_neg fun hc => hc.2 (by rw [hslot])
  have hkept : ((h.reuse 65648).setBlock 65648
      { (h.reuse 65648).block 65648 with free := true }).block 65536 = h.block 65536 := by
    rw [KHeap.setBlock_ne _ _ (by decide)]
    exact KHeap.setBlock_ne _ _ (by decide)
  rw [hfree]
  refine ⟨hs.base, ?_, ?_, ?_, ?_⟩
  · rw [hkept, hs.kept]
  · rw [hkept, hs.next]
  · rw [KHeap.setBlock_self]
  · rw [KHeap.setBlock_self, hslot]
    exact hs.size

/-- The machine of the run. -/
abbrev slotMachine : Machine KHeap Unit := singleFileMachine [0x42]

/-- The first process, with the id `1`, is the only one, and `n` processes have been allocated. -/
structure Alone (n : ℕ) (s : TaskSystem KHeap Unit) : Prop where
  lists : SystemInv slotMachine s
  procs : s.procs = [65552]
  id : s.kernel.processId 65552 = 1
  count : s.kernel.proc.currentId = n
  live : s.kernel.live = [⟨65552, 96⟩]
  heap : OneSlot s.kernel.heap

/-- A process is allocated beside the first one. -/
structure Visited (n : ℕ) (s : TaskSystem KHeap Unit) : Prop where
  lists : SystemInv slotMachine s
  procs : s.procs = [65552, 65664]
  id : s.kernel.processId 65552 = 1
  newId : s.kernel.processId 65664 = n % 65536
  count : s.kernel.proc.currentId = n
  live : s.kernel.live = [⟨65664, 96⟩, ⟨65552, 96⟩]
  heap : ∃ h, OneSlot h ∧ s.kernel.heap = h.reuse 65648

section Cycle

variable {n : ℕ} {s : TaskSystem KHeap Unit}

theorem Alone.visit (h : Alone n s) :
    ∃ t, taskStep slotMachine s .processAlloc = .ok (65664, t) ∧ Visited (n + 1) t := by
  -- the slot that was freed is given out again
  have hans : slotMachine.heap.kmallocInt 96 false s.kernel.heap =
      some (65664, s.kernel.heap.reuse 65648) :=
    h.heap.kmallocInt
  have hU : Usable slotMachine s.kernel 96 false 65664 := by
    refine ⟨by decide, fun h0 => absurd h0 Bool.false_ne_true, fun a ha => ?_⟩
    rw [h.live] at ha
    cases List.mem_singleton.mp ha
    decide
  have hE : ∀ e, kmallocInt slotMachine 96 false s.kernel = .error e → False := by
    intro e he
    unfold VibeKernel.kmallocInt at he
    rw [hans] at he
    dsimp only at he
    rw [if_neg (by decide), if_neg (by decide), if_pos hU] at he
    cases he
  have hwp : wp (fun _ => False) (TaskCall.run slotMachine .processAlloc)
      (fun r u => r = 65664 ∧ Visited (n + 1) ⟨u, TaskCall.procs s.procs r .processAlloc, s.tasks⟩)
      s.system := by
    unfold TaskCall.run
    rw [wp_onKernel, wp_map]
    refine processAlloc_list_wp hE h.lists.procs (fun h' h0 => ?_) fun p k h0 hk => ?_
    · cases hans.symm.trans h0
    -- the new process stands in the slot
    obtain ⟨rfl, hheap⟩ : 65664 = p ∧ s.kernel.heap.reuse 65648 = k.heap := by
      have hsame := hans.symm.trans hk.answer
      exact Prod.mk.inj (Option.some.inj hsame)
    have hprocs : TaskCall.procs s.procs 65664 .processAlloc = [65552, 65664] := by
      rw [h.procs]
      rfl
    have hT : TaskList slotMachine k s.tasks :=
      h.lists.tasks.frame hk.step.frame hk.step.arena (fun hk => nomatch hk) fun hk => nomatch hk
    have hmem : 65552 ∈ s.procs := h.procs ▸ List.mem_singleton_self _
    refine ⟨rfl, ⟨?_, hT⟩, hprocs, (hk.ids _ hmem).trans h.id, ?_, ?_, ?_, _, h.heap, hheap.symm⟩
    · rw [hprocs]
      have hL := hk.list
      rwa [h.procs] at hL
    · exact hk.id.trans (by rw [h.count])
    · exact hk.count.trans (by rw [h.count])
    · exact hk.live.trans (by rw [h.live])
  obtain ⟨r, u, hrun, rfl, hV⟩ := hwp.total
  refine ⟨_, ?_, hV⟩
  unfold taskStep
  rw [hrun]
  rfl

theorem Visited.leave (h : Visited n s) :
    ∃ t, taskStep slotMachine s (.processFree 65664) = .ok (0, t) ∧ Alone n t := by
  have hmem : 65664 ∈ s.procs := h.procs ▸ List.mem_cons_of_mem _ (List.mem_singleton_self _)
  have herase : s.procs.erase 65664 = [65552] := by
    rw [h.procs]
    decide
  have hwp : wp (fun _ => False) (TaskCall.run slotMachine (.processFree 65664))
      (fun r u => r = 0 ∧ Alone n ⟨u, s.procs.erase 65664, s.tasks⟩) s.system := by
    unfold TaskCall.run
    rw [wp_onKernel, wp_map]
    refine processFree_list_wp h.lists.procs hmem fun k hk => ?_
    have hT : TaskList slotMachine k s.tasks :=
      h.lists.tasks.frame hk.frame hk.list.arena (fun hk => nomatch hk) fun hk => nomatch hk
    obtain ⟨h', hslot, hheap⟩ := h.heap
    refine ⟨rfl, ⟨hk.list, hT⟩, herase, ?_, hk.count.trans h.count, ?_, ?_⟩
    · exact (hk.ids 65552 (herase ▸ List.mem_singleton_self _)).trans h.id
    · refine hk.blocks.2.trans ?_
      rw [h.live]
      decide
    · change OneSlot k.heap
      rw [hk.blocks.1, hheap]
      exact hslot.kfree
  obtain ⟨r, u, hrun, rfl, hA⟩ := hwp.total
  refine ⟨_, ?_, hA⟩
  unfold taskStep
  rw [hrun]
  rfl

/-- `m` processes that come and go. -/
def visits : ℕ → List TaskCall
  | 0 => []
  | m + 1 => .processAlloc :: .processFree 65664 :: visits m

/-- A run of visits leaves the first process alone, and moves the counter on. -/
theorem Alone.visits (m : ℕ) : ∀ {n : ℕ} {s : TaskSystem KHeap Unit}, Alone n s →
    ∃ os t, runList (taskStep slotMachine) s (visits m) = .ok (os, t) ∧ Alone (n + m) t ∧
      Meets (taskStep slotMachine) (fun s c => c.Live s) s (VibeKernel.visits m) := by
  induction m with
  | zero => exact fun {n s} h => ⟨[], s, rfl, h, trivial⟩
  | succ m ih =>
    intro n s h
    obtain ⟨t, hs, ht⟩ := h.visit
    obtain ⟨u, hs', hu⟩ := ht.leave
    obtain ⟨os, v, hr, hv, hm⟩ := ih hu
    refine ⟨65664 :: 0 :: os, v, ?_, ?_, trivial, fun o t' h₁ => ?_⟩
    · exact runList_cons_ok.mpr ⟨_, t, _, hs, runList_cons_ok.mpr ⟨_, u, _, hs', hr, rfl⟩, rfl⟩
    · rwa [Nat.add_right_comm, Nat.add_assoc] at hv
    · cases hs.symm.trans h₁
      refine ⟨?_, fun o u' h₂ => ?_⟩
      · change 65664 ∈ t.procs
        rw [ht.procs]
        decide
      · cases hs'.symm.trans h₂
        exact hm

end Cycle

/-- The first process, the first visitor, and 65534 more; then one process that stays. -/
@[irreducible] def longRun : List TaskCall :=
  [.processAlloc, .processAlloc, .processFree 65664] ++ visits 65534 ++ [.processAlloc]

/-- What the first three calls leave. -/
theorem alone_start :
    ∃ os t, runList (taskStep slotMachine)
        (TaskSystem.start (Kernel.boot (KHeap.init 0x10000) ()) ⟨0, 0, 0⟩)
        [.processAlloc, .processAlloc, .processFree 65664] = .ok (os, t) ∧ Alone 2 t ∧
      Meets (taskStep slotMachine) (fun s c => c.Live s)
        (TaskSystem.start (Kernel.boot (KHeap.init 0x10000) ()) ⟨0, 0, 0⟩)
        [.processAlloc, .processAlloc, .processFree 65664] := by
  have hlive : checkRun (taskStep slotMachine) (fun s c => decide (c.Live s))
      (TaskSystem.start (Kernel.boot (KHeap.init 0x10000) ()) ⟨0, 0, 0⟩)
      [.processAlloc, .processAlloc, .processFree 65664] = true := by decide +kernel
  have hfacts : ((runList (taskStep slotMachine)
      (TaskSystem.start (Kernel.boot (KHeap.init 0x10000) ()) ⟨0, 0, 0⟩)
      [.processAlloc, .processAlloc, .processFree 65664]).toOption.map fun r =>
        decide (r.2.procs = [65552] ∧ r.2.kernel.processId 65552 = 1 ∧
          r.2.kernel.proc.currentId = 2 ∧ r.2.kernel.live = [⟨65552, 96⟩] ∧
          r.2.kernel.heap.globalBase = 65536 ∧ (r.2.kernel.heap.block 65536).free = false ∧
          (r.2.kernel.heap.block 65536).next = 65648 ∧ (r.2.kernel.heap.block 65648).free = true ∧
          (r.2.kernel.heap.block 65648).size = 96)) = some true := by decide +kernel
  cases hr : runList (taskStep slotMachine)
      (TaskSystem.start (Kernel.boot (KHeap.init 0x10000) ()) ⟨0, 0, 0⟩)
      [.processAlloc, .processAlloc, .processFree 65664] with
  | error e =>
    rw [hr] at hfacts
    cases hfacts
  | ok r =>
    have hm := @meets_of_checkRun _ _ _ _ _ (fun s c => TaskCall.Live s c) _
      (fun _ _ h => of_decide_eq_true h) _ _ hlive
    rw [hr] at hfacts
    obtain ⟨hprocs, hid, hcount, hblocks, hbase, hkept, hnext, hfree, hsize⟩ :=
      of_decide_eq_true (Option.some.inj hfacts)
    exact ⟨r.1, r.2, rfl, ⟨taskRun_inv (unused_boot _ _) hm hr, hprocs, hid, hcount, hblocks,
      ⟨hbase, hkept, hnext, hfree, hsize⟩⟩, hm⟩

/-- After 65535 other processes the id of the first one is given again: two live processes have the
id `1`, and `process_get` does not find the second one. -/
theorem ids_repeat :
    (∀ c ∈ longRun, c = .processAlloc ∨ c = .processFree 65664) ∧
      Meets (taskStep slotMachine) (fun s c => c.Live s)
        (TaskSystem.start (Kernel.boot (KHeap.init 0x10000) ()) ⟨0, 0, 0⟩) longRun ∧
      ∃ os u, runList (taskStep slotMachine)
          (TaskSystem.start (Kernel.boot (KHeap.init 0x10000) ()) ⟨0, 0, 0⟩) longRun = .ok (os, u) ∧
        u.procs = [65552, 65664] ∧ u.kernel.processId 65552 = 1 ∧ u.kernel.processId 65664 = 1 ∧
        ¬ u.IdsUnique := by
  have hvisits : ∀ m, ∀ c ∈ visits m, c = .processAlloc ∨ c = .processFree 65664 := by
    intro m
    induction m with
    | zero => exact fun c hc => nomatch hc
    | succ m ih =>
      intro c hc
      rcases List.mem_cons.mp hc with rfl | hc
      · exact Or.inl rfl
      · rcases List.mem_cons.mp hc with rfl | hc
        · exact Or.inr rfl
        · exact ih c hc
  -- process 1, then 65535 processes one after the other in a slot
  obtain ⟨os₁, s, hr₁, h₁, hm₁⟩ := alone_start
  obtain ⟨os₂, t, hr₂, h₂, hm₂⟩ := h₁.visits 65534
  obtain ⟨u, hs, h₃⟩ := h₂.visit
  have hrun := runList_append (runList_append hr₁ hr₂)
    (runList_cons_ok.mpr ⟨_, u, _, hs, runList_nil u, rfl⟩)
  unfold longRun
  refine ⟨fun c hc => ?_, ?_, _, u, hrun, h₃.procs, h₃.id, h₃.newId, fun hu => ?_⟩
  · rcases List.mem_append.mp hc with hc | hc
    · rcases List.mem_append.mp hc with hc | hc
      · rcases hc with _ | ⟨_, _ | ⟨_, _ | ⟨_, hc⟩⟩⟩
        · exact Or.inl rfl
        · exact Or.inl rfl
        · exact Or.inr rfl
        · cases hc
      · exact hvisits _ c hc
    · exact Or.inl (List.mem_singleton.mp hc)
  · exact meets_append (meets_append hm₁ fun os v hv => by
      cases hr₁.symm.trans hv
      exact hm₂) fun os v hv => ⟨trivial, fun _ _ _ => trivial⟩
  · have hnd := hu.1
    rw [h₃.procs, List.map_cons, List.map_singleton, h₃.id, h₃.newId] at hnd
    exact absurd hnd (by decide)

end VibeKernel
