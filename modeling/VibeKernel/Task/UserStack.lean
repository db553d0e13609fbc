import VibeKernel.Fs.Isolation
import VibeKernel.Task.Task

/-!
# The user stack of a task

`task_init` maps four pages from the page on in which the user stack begins. The stack is as long as
four pages, so if it does not begin at a page boundary its end lies in a fifth one, whose entry
stays what it was. `userStack_usable_iff` says when all of the stack is usable.
-/

namespace VibeKernel

open Verif

variable {H D : Type}

/-- The page of the address is mapped to itself, present, writeable and accessible to the user. -/
def MapsToItself (s : Kernel H D) (dir virt : ℕ) : Prop :=
  s.walk dir virt / 4096 = virt / 4096 ∧ ∀ bit < 3, s.grants dir virt bit = true

section Stack

variable {M : Machine H D} {s t : Kernel H D} {proc dir : ℕ} {W m : ℕ → ℕ}

/-- Whether an address is mapped to itself depends on the entry of its page. -/
theorem DirRefines.mapsToItself_iff (hR : DirRefines s dir W m) {virt : ℕ}
    (hvirt : virt < 4294967296) :
    MapsToItself s dir virt ↔ m (virt / 4096) / 4096 = virt / 4096 ∧
      ∀ bit < 3, (m (virt / 4096)).testBit bit = true := by
  unfold MapsToItself
  rw [hR.walk_eq hvirt]
  exact and_congr_right fun _ => forall₂_congr fun bit hbit => by rw [hR.grants_eq hvirt hbit]

/-- The entry of a user page for the page itself. -/
theorem userEntry_self {page : ℕ} (hpage : page < 1048576) :
    (u32 (4096 * page) ||| 7) / 4096 = page ∧
      ∀ bit < 3, (u32 (4096 * page) ||| 7).testBit bit = true := by
  constructor
  · rw [u32_of_lt (by omega), or_flags (by omega) (by norm_num)]
    omega
  · intro bit hbit
    have hseven : Nat.testBit 7 bit = true := by interval_cases bit <;> rfl
    rw [Nat.testBit_lor, hseven, Bool.or_true]

/-- The pages of the stack after `task_init`: four are mapped to themselves, all others are as they
were. -/
theorem TaskMade.mapsToItself_iff {task us virt : ℕ} (h : TaskMade M s t proc dir m task us)
    (hR : DirRefines s dir W m) (hvirt : virt < 4294967296) :
    MapsToItself t dir virt ↔
      (us / 4096 ≤ virt / 4096 ∧ virt / 4096 < us / 4096 + 4) ∨ MapsToItself s dir virt := by
  obtain ⟨W', hS⟩ := h.space
  have hhigh : us + 16384 ≤ identityTop := h.high
  unfold identityTop at hhigh
  rw [hS.refines.mapsToItself_iff hvirt, hR.mapsToItself_iff hvirt]
  by_cases hin : us / 4096 ≤ virt / 4096 ∧ virt / 4096 < us / 4096 + 4
  · -- page `virt / 4096 - us / 4096` of the loop
    have hhit := @userMap_hit (us - us % 4096) (us - us % 4096) (by omega) 4 0
      (virt / 4096 - us / 4096) m rfl (by norm_num) (by omega)
    have hpage : us - us % 4096 + 0 + 4096 * (virt / 4096 - us / 4096) = 4096 * (virt / 4096) := by
      omega
    rw [hpage, u32_of_lt (by omega : 4096 * (virt / 4096) < 4294967296),
      Nat.mul_div_cancel_left _ (by norm_num : 0 < 4096)] at hhit
    have hentry := userEntry_self (by omega : virt / 4096 < 1048576)
    rw [u32_of_lt (by omega : 4096 * (virt / 4096) < 4294967296)] at hentry
    rw [hhit]
    exact iff_of_true hentry (Or.inl hin)
  · rw [userMap_miss fun _ j hj => ?_]
    · exact ⟨Or.inr, fun h => h.resolve_left hin⟩
    · rw [u32_of_lt (by omega)]
      omega

/-- **The user stack is usable** as a whole exactly if the heap has a place for it at a page
boundary, or the page of its last byte was usable before. -/
theorem userStack_usable_iff (hA : ArenaInv M s) (hS : HasSpace s proc dir W m) {task : ℕ}
    (hrun : taskNew M proc s = .ok (task, t)) (h0 : task ≠ 0) :
    ∃ x us, t.store task = some (.task x) ∧ x.userStack = us ∧ x.esp = us + 16383 ∧
      userStackSlot M s = some us ∧
      ((∀ a, us ≤ a → a < us + 16384 → MapsToItself t dir a) ↔
        us % 4096 = 0 ∨ MapsToItself s dir (us + 16383)) := by
  obtain ⟨us, hslot, hT⟩ : ∃ us, userStackSlot M s = some us ∧
      TaskMade M s t proc dir m task us := by
    refine (taskNew_wp (E := fun _ => True) (Q := fun task t => task ≠ 0 →
      ∃ us, userStackSlot M s = some us ∧ TaskMade M s t proc dir m task us)
      (fun _ => trivial) hA hS
        (fun _ h => absurd rfl h) fun task us t _ hslot hT _ => ⟨us, hslot, hT⟩).ok hrun h0
  obtain ⟨x, hx, hus, hesp⟩ := hT.task
  have hhigh : us + 16384 ≤ identityTop := hT.high
  unfold identityTop at hhigh
  refine ⟨x, us, hx, hus, hesp, hslot, ?_⟩
  constructor
  · intro hall
    by_cases halign : us % 4096 = 0
    · exact Or.inl halign
    · -- the last byte lies in the fifth page
      refine Or.inr ?_
      have hlast := (hT.mapsToItself_iff hS.refines (by omega)).mp
          (hall (us + 16383) (by omega) (by omega))
      exact hlast.resolve_left (by omega)
  · intro hcond a hlow ha
    rw [hT.mapsToItself_iff hS.refines (by omega)]
    by_cases hin : a / 4096 < us / 4096 + 4
    · exact Or.inl ⟨Nat.div_le_div_right hlow, hin⟩
    · rcases hcond with halign | hlast
      · omega
      · refine Or.inr ?_
        rw [hS.refines.mapsToItself_iff (by omega)] at hlast ⊢
        rwa [show a / 4096 = (us + 16383) / 4096 by omega]

end Stack

/-! ### The first task -/

/-- A process with a directory, and nothing else. -/
def bareProcess (M : Machine H D) (flags : ℕ) : KM H D ℕ := do
  let (res, proc) ← processAlloc M
  if res ≠ 0 then Exec.stop .badBlock
  else do
    newPagingChunk M proc flags
    pure proc

theorem bareProcess_wp {M : Machine H D} {s : Kernel H D} (hA : ArenaInv M s) {flags : ℕ}
    (hlt : flags < 256) (hodd : flags % 2 = 1) :
    wp (fun _ => True) (bareProcess M flags)
      (fun proc t => ArenaInv M t ∧ ∃ dir W, HasSpace t proc dir W (identityMap flags)) s := by
  unfold bareProcess
  rw [wp_bind]
  refine processAlloc_wp (fun _ _ => trivial) hA (Or.inr trivial) (fun h _ => ?_)
    fun proc t hmade => ?_
  · dsimp only
    rw [if_pos (by decide)]
    trivial
  dsimp only
  rw [if_neg (by decide), wp_bind]
  refine newPagingChunk_wp (fun _ _ => trivial) hmade.step.arena hmade.process hlt hodd
    fun u dir W hstep hspace _ => ?_
  exact ⟨hstep.arena, dir, W, hspace⟩

/-- A process and a task for it: the directory, the task and the process. -/
def bareTask (M : Machine H D) (flags : ℕ) : KM H D (ℕ × ℕ × ℕ) := do
  let proc ← bareProcess M flags
  let directory ← processDirectory proc
  let task ← taskNew M proc
  pure (directory, task, proc)

/-- The stack of the first task, for a process with the flags of `elf_load`: it starts in a page,
and the user cannot use all of it. -/
theorem userStack_usable_iff_first :
    let M := singleFileMachine [0x42]
    let boot := Kernel.boot (KHeap.init 0x10000) ()
    ∃ s t dir x, bareProcess M 3 boot = .ok (65552, s) ∧ taskNew M 65552 s = .ok (204836, t) ∧
      t.store 204836 = some (.task x) ∧ x.userStack = 204920 ∧ x.esp = 221303 ∧
      204920 % 4096 = 120 ∧ ¬ MapsToItself s dir 221303 ∧
      ¬ ∀ a, 204920 ≤ a → a < 221304 → MapsToItself t dir a := by
  intro M boot
  -- both calls return
  have hboth : ((bareTask M 3 boot).toOption.map fun r => (r.1.2.1, r.1.2.2,
      ((r.2.store r.1.2.1).bind Obj.asTask).map Task.userStack)) =
        some (204836, 65552, some 204920) := by
    decide +kernel
  cases hrun : bareTask M 3 boot with
  | error e =>
    rw [hrun] at hboth
    cases hboth
  | ok r =>
    obtain ⟨⟨dir, task, proc⟩, t⟩ := r
    rw [hrun] at hboth
    have hvals := Option.some.inj hboth
    simp only [Prod.mk.injEq] at hvals
    obtain ⟨rfl, rfl, hstack⟩ := hvals
    obtain ⟨proc', s, hproc, hrest⟩ := Exec.bind_ok hrun
    obtain ⟨dir', s', hdir, htail⟩ := Exec.bind_ok hrest
    obtain ⟨task', t', htask, hend⟩ := Exec.bind_ok htail
    cases hend
    obtain ⟨hA, dir', W, hS⟩ :=
      (bareProcess_wp (ArenaInv.boot _ _) (by decide) (by decide)).ok hproc
    -- reading the directory changes nothing
    obtain rfl : s = s' := by
      have hread : wp (fun _ => True) (processDirectory 65552) (fun _ u => s = u) s :=
        processDirectory_wp hS rfl
      exact hread.ok hdir
    obtain ⟨x, us, hx, rfl, hesp, -, hiff⟩ := userStack_usable_iff hA hS htask (by norm_num)
    rw [hx] at hstack
    have hus : x.userStack = 204920 := Option.some.inj hstack
    rw [hus] at hesp hiff
    -- no page of the identity map is the user's
    have hno : ¬ MapsToItself s dir' 221303 := by
      rw [hS.refines.mapsToItself_iff (by norm_num)]
      exact fun h => absurd (h.2 2 (by norm_num)) (by decide)
    refine ⟨s, t, dir', x, hproc, htask, hx, hus, hesp, by norm_num, hno, fun hall => ?_⟩
    exact (hiff.mp hall).elim (by norm_num) hno

/-- The first task of the kernel: its stack starts in the middle of a page, and the page of its last
byte is not accessible to the user. -/
theorem userStack_unusable :
    let M := singleFileMachine [0x42]
    ((bareTask M (pagingIsPresent ||| pagingIsWriteable)
      (Kernel.boot (KHeap.init 0x10000) ())).toOption.map
      fun r => (((r.2.store r.1.2.1).bind Obj.asTask).map fun x =>
        (x.userStack % 4096, r.2.grants r.1.1 x.esp 2))) = some (some (120, false)) := by
  decide +kernel

end VibeKernel
