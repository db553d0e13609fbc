import VibeKernel.Kernel.Irqs

/-!
# The delivery of codes

`keyboard_delivery` says that the machine of interrupt requests does what the shell is proved for.
No other vector than 33 is ever delivered, and the shell is run with the codes as they are handled.
If the first code comes after `keyboard_init`, every code is handled, each once and in their order,
however the devices and the processor take turns. If one comes before, none ever is.

The steps account for each code (`irqStep_waiting`), and as long as one waits there is a step of the
keyboard controller or of the processor that gets closer to its handler
(`IrqSystem.InTime.progress`).
-/

namespace VibeKernel

open Verif

/-! ### Codes -/

/-- The codes that are not handled yet. -/
def IrqSystem.waiting (s : IrqSystem) : List UInt8 :=
  (s.serving.elim [] Serving.code) ++ s.ps2.output.toList ++ s.ps2.queue

section Codes

variable {s t : IrqSystem} {out : IrqOut} {event : IrqEvent} {os os' : List IrqOut}

theorem sentCodes_append : sentCodes (os ++ os') = sentCodes os ++ sentCodes os' :=
  List.filterMap_append

theorem handledCodes_append : handledCodes (os ++ os') = handledCodes os ++ handledCodes os' :=
  List.filterMap_append

theorem shellOuts_append : shellOuts (os ++ os') = shellOuts os ++ shellOuts os' :=
  List.filterMap_append

/-- What a step of `main` leaves alone, and what it does to the shell. -/
structure MainShows (s : IrqSystem) (outcome : Outcome) (out : IrqOut) (t : IrqSystem) : Prop where
  ps2 : t.ps2 = s.ps2
  serving : t.serving = s.serving
  stays : s.main = .shell → t.main = .shell
  sent : sentCodes [out] = []
  handled : handledCodes [out] = []
  shell : shellOuts [out] = [] ∧ t.shell = s.shell ∨
    ∃ o, shellStep s.shell (.main outcome) = .ok (o, t.shell) ∧ shellOuts [out] = [o]

theorem mainStep_shows {outcome : Outcome} (hstep : mainStep s outcome = .ok (out, t)) :
    MainShows s outcome out t := by
  unfold mainStep at hstep
  cases hmain : s.main with
  | install k =>
    rw [hmain] at hstep
    dsimp only at hstep
    split at hstep <;> cases hstep <;>
      exact ⟨rfl, rfl, fun hm => by simp [hmain] at hm, rfl, rfl, Or.inl ⟨rfl, rfl⟩⟩
  | sti =>
    rw [hmain] at hstep
    cases hstep
    exact ⟨rfl, rfl, fun hm => by simp [hmain] at hm, rfl, rfl, Or.inl ⟨rfl, rfl⟩⟩
  | register =>
    rw [hmain] at hstep
    cases hstep
    exact ⟨rfl, rfl, fun _ => rfl, rfl, rfl, Or.inl ⟨rfl, rfl⟩⟩
  | shell =>
    rw [hmain] at hstep
    dsimp only at hstep
    split_ifs at hstep
    · cases hstep
      exact ⟨rfl, rfl, fun hm => hm, rfl, rfl, Or.inl ⟨rfl, rfl⟩⟩
    · cases hshell : shellStep s.shell (.main outcome) with
      | error e =>
        rw [hshell] at hstep
        cases hstep
      | ok r =>
        rw [hshell] at hstep
        cases hstep
        exact ⟨rfl, rfl, fun _ => rfl, rfl, rfl, Or.inr ⟨r.1, hshell, rfl⟩⟩

/-- **What a step does to the shell**: nothing, a step of `main`, or the interrupt of a code. -/
theorem irqStep_shell (hstep : irqStep s event = .ok (out, t)) :
    (handledCodes [out] = [] ∧ (shellOuts [out] = [] ∧ t.shell = s.shell ∨
        ∃ outcome o, shellStep s.shell (.main outcome) = .ok (o, t.shell) ∧
        shellOuts [out] = [o])) ∨
      ∃ code o, s.serving = some (.handle code) ∧ out = .handled code o ∧
        shellStep s.shell (.interrupt code) = .ok (o, t.shell) := by
  cases event with
  | send scancode =>
    cases hstep
    exact Or.inl ⟨rfl, Or.inl ⟨rfl, rfl⟩⟩
  | load =>
    unfold irqStep at hstep
    dsimp only at hstep
    split at hstep <;> cases hstep <;> exact Or.inl ⟨rfl, Or.inl ⟨rfl, rfl⟩⟩
  | line irq level =>
    unfold irqStep at hstep
    dsimp only at hstep
    split_ifs at hstep
    cases hstep
    exact Or.inl ⟨rfl, Or.inl ⟨rfl, rfl⟩⟩
  -- only statements of the processor reach the shell
  | cpu outcome =>
    unfold irqStep at hstep
    cases hserving : s.serving with
    | some x =>
      rw [hserving] at hstep
      cases x with
      | handle code =>
        cases hstep
        exact Or.inr ⟨code, _, rfl, rfl, rfl⟩
      | _ =>
        cases hstep
        exact Or.inl ⟨rfl, Or.inl ⟨rfl, rfl⟩⟩
    | none =>
      rw [hserving] at hstep
      dsimp only at hstep
      split_ifs at hstep
      · cases hstep
        exact Or.inl ⟨rfl, Or.inl ⟨rfl, rfl⟩⟩
      · have hmain := mainStep_shows hstep
        exact Or.inl ⟨hmain.handled, hmain.shell.imp_right fun ⟨o, ho⟩ => ⟨outcome, o, ho⟩⟩

/-- **No code is lost or doubled by a step** in time. -/
theorem irqStep_waiting (hs : s.InTime) (hstep : irqStep s event = .ok (out, t)) :
    s.waiting ++ sentCodes [out] = handledCodes [out] ++ t.waiting := by
  cases event with
  | send scancode =>
    cases hstep
    exact List.append_assoc _ _ _
  | load =>
    unfold irqStep at hstep
    cases houtput : s.ps2.output with
    | some code =>
      rw [houtput] at hstep
      cases hstep
      exact List.append_nil _
    | none =>
      cases hqueue : s.ps2.queue with
      | nil =>
        rw [houtput, hqueue] at hstep
        cases hstep
        exact List.append_nil _
      | cons code queue =>
        -- the code goes from the queue to the buffer
        rw [houtput, hqueue] at hstep
        cases hstep
        unfold IrqSystem.waiting
        rw [houtput, hqueue]
        simp [sentCodes, handledCodes]
  | line irq level =>
    unfold irqStep at hstep
    dsimp only at hstep
    split_ifs at hstep
    cases hstep
    exact List.append_nil _
  | cpu outcome =>
    unfold irqStep at hstep
    cases hserving : s.serving with
    | some x =>
      rw [hserving] at hstep
      have hunread := hs.unread
      rw [hserving] at hunread
      unfold IrqSystem.waiting
      rw [hserving]
      cases x with
      | read =>
        -- the code goes from the buffer to the handler
        obtain ⟨code, hcode⟩ := Option.isSome_iff_exists.mp (hunread rfl)
        cases hstep
        rw [hcode]
        simp [sentCodes, handledCodes, Serving.code]
      | dispatch v =>
        cases hstep
        cases s.handlers v <;> simp [sentCodes, handledCodes, Serving.code]
      | wait =>
        cases hstep
        cases s.ps2.output <;> simp [sentCodes, handledCodes, Serving.code]
      | _ =>
        cases hstep
        simp [sentCodes, handledCodes, Serving.code]
    | none =>
      rw [hserving] at hstep
      dsimp only at hstep
      have hsame : ∀ {u : IrqSystem}, u.ps2 = s.ps2 → u.serving.elim [] Serving.code = [] →
          s.waiting = u.waiting := fun hps2 hcode => by
        unfold IrqSystem.waiting
        rw [hps2, hcode, hserving]
        rfl
      split_ifs at hstep
      · cases hstep
        exact (List.append_nil _).trans (hsame rfl rfl)
      · have hmain := mainStep_shows hstep
        rw [hmain.sent, hmain.handled, List.append_nil]
        exact hsame hmain.ps2 (by rw [hmain.serving, hserving]; rfl)

end Codes

/-! ### Progress -/

/-- How far `main` is from the shell. -/
def MainAt.left : MainAt → ℕ
  | .install k => 13 - k
  | .sti => 2
  | .register => 1
  | .shell => 0

/-- How far an interrupt is from its end. -/
def Serving.left : Serving → ℕ
  | .stub _ => 7
  | .eoi _ => 6
  | .dispatch _ => 5
  | .wait => 4
  | .read => 3
  | .handle _ => 2
  | .iret => 1

theorem Serving.left_pos (x : Serving) : 0 < x.left := by
  cases x <;> exact Nat.succ_pos _

/-- What is left to do until all codes are handled. -/
def IrqSystem.todo (s : IrqSystem) : ℕ :=
  9 * s.ps2.queue.length + s.main.left + s.serving.elim 0 Serving.left +
    if s.ps2.output.isSome && !s.serving.any Serving.unread then 8 else 0

section Progress

variable {s t : IrqSystem}

theorem todo_lt_of_main (hps2 : t.ps2 = s.ps2) (hserving : t.serving = s.serving)
    (h : t.main.left < s.main.left) : t.todo < s.todo := by
  unfold IrqSystem.todo
  rw [hps2, hserving]
  omega

/-- In front of the shell nothing is asked for. -/
theorem IrqSystem.InTime.quiet (hs : s.InTime) (hmain : s.main ≠ .shell) :
    (s.main.enabled && s.pics.asks) = false := by
  obtain ⟨-, hserving, hrequested⟩ := hs.early hmain
  have hset := hs.core.setting
  have hservice := hs.core.service
  rw [hserving] at hservice
  cases hm : s.main with
  | register =>
    rw [hm] at hset hrequested
    unfold PicPair.asks
    rw [pending_idle hset hservice, hrequested (by decide)]
    rfl
  | shell => exact absurd hm hmain
  | _ => rfl

/-- **`main` gets to the shell.** -/
theorem IrqSystem.InTime.progress_main (hs : s.InTime) (hmain : s.main ≠ .shell) :
    ∃ out t, irqStep s (.cpu notFound) = .ok (out, t) ∧ sentCodes [out] = [] ∧ t.todo < s.todo := by
  have hstep : irqStep s (.cpu notFound) = mainStep s notFound := by
    unfold irqStep
    rw [(hs.early hmain).2.1]
    dsimp only
    rw [hs.quiet hmain]
    rfl
  have hset := hs.core.setting
  rw [hstep]
  unfold mainStep
  cases hm : s.main with
  | install k =>
    rw [hm] at hset
    dsimp only
    by_cases hk : k < 10
    · obtain ⟨port, b, hwrite, -⟩ := picWrite_spec hk hset
      rw [hwrite]
      refine ⟨_, _, rfl, rfl, todo_lt_of_main rfl rfl ?_⟩
      rw [hm]
      change 13 - (k + 1) < 13 - k
      omega
    · rw [picWrites_done (not_lt.mp hk)]
      refine ⟨_, _, rfl, rfl, todo_lt_of_main rfl rfl ?_⟩
      have hten : k ≤ 10 := by
        have hwrites := hs.core.writes
        rwa [hm] at hwrites
      rw [hm]
      change 2 < 13 - k
      omega
  | sti =>
    refine ⟨_, _, rfl, rfl, todo_lt_of_main rfl rfl ?_⟩
    rw [hm]
    exact Nat.lt_succ_self 1
  | register =>
    refine ⟨_, _, rfl, rfl, todo_lt_of_main rfl rfl ?_⟩
    rw [hm]
    exact Nat.lt_succ_self 0
  | shell => exact absurd hm hmain

theorem todo_of_serving {x : Serving} (h : s.serving = some x) :
    s.todo = 9 * s.ps2.queue.length + s.main.left + x.left +
      if s.ps2.output.isSome && !x.unread then 8 else 0 := by
  unfold IrqSystem.todo
  rw [h]
  rfl

theorem todo_of_idle (h : s.serving = none) :
    s.todo = 9 * s.ps2.queue.length + s.main.left + if s.ps2.output.isSome then 8 else 0 := by
  unfold IrqSystem.todo
  rw [h, Option.any_none, Bool.not_false, Bool.and_true]
  rfl

theorem todo_lt_of_serving {x y : Serving} (hx : s.serving = some x) (hy : t.serving = some y)
    (hqueue : t.ps2.queue = s.ps2.queue) (hmain : t.main = s.main)
    (houtput : (t.ps2.output.isSome && !y.unread) = (s.ps2.output.isSome && !x.unread))
    (h : y.left < x.left) : t.todo < s.todo := by
  rw [todo_of_serving hx, todo_of_serving hy, hqueue, hmain, houtput]
  omega

/-- **The interrupt gets on.** -/
theorem IrqSystem.InTime.progress_serving (hs : s.InTime) (hmain : s.main = .shell) {x : Serving}
    (hserving : s.serving = some x) :
    ∃ out t, servingStep s x = .ok (out, t) ∧ sentCodes [out] = [] ∧ t.todo < s.todo := by
  have hunread := hs.unread
  rw [hserving, Option.any_some] at hunread
  cases x with
  | stub v =>
    exact ⟨_, _, rfl, rfl, todo_lt_of_serving hserving rfl rfl rfl rfl (Nat.lt_succ_self 6)⟩
  | eoi v =>
    exact ⟨_, _, rfl, rfl, todo_lt_of_serving hserving rfl rfl rfl rfl (Nat.lt_succ_self 5)⟩
  | dispatch v =>
    cases hs.core.vector _ hserving v rfl
    have hhandler := hs.core.handlers
    rw [if_pos hmain] at hhandler
    unfold servingStep
    dsimp only
    rw [hhandler]
    exact ⟨_, _, rfl, rfl, todo_lt_of_serving hserving rfl rfl rfl rfl (Nat.lt_succ_self 4)⟩
  | wait =>
    -- there is a code to wait for
    unfold servingStep
    dsimp only
    rw [if_pos (hunread rfl)]
    exact ⟨_, _, rfl, rfl, todo_lt_of_serving hserving rfl rfl rfl rfl (Nat.lt_succ_self 3)⟩
  | read =>
    exact ⟨_, _, rfl, rfl, todo_lt_of_serving hserving rfl rfl rfl (Bool.and_false _).symm
      (Nat.lt_succ_self 2)⟩
  | handle code =>
    exact ⟨_, _, rfl, rfl, todo_lt_of_serving hserving rfl rfl rfl rfl (Nat.lt_succ_self 1)⟩
  | iret =>
    refine ⟨_, _, rfl, rfl, ?_⟩
    rw [todo_of_serving hserving, todo_of_idle rfl]
    change _ < 9 * s.ps2.queue.length + s.main.left + 1 +
      if s.ps2.output.isSome && true then 8 else 0
    rw [Bool.and_true]
    exact Nat.add_lt_add_right (Nat.lt_succ_self _) _

/-- **A code that waits is asked for.** -/
theorem IrqSystem.InTime.asks (hs : s.InTime) (hmain : s.main = .shell)
    (hserving : s.serving = none) (houtput : s.ps2.output.isSome = true) : s.pics.asks = true := by
  have hset := hs.core.setting
  have hservice := hs.core.service
  have hasked := hs.asked hmain
  rw [hmain] at hset
  rw [hserving] at hservice hasked
  unfold PicPair.asks
  rw [pending_idle hset hservice, hasked, houtput]
  rfl

/-- **The next step.** As long as there is something to do, the controller moves a code, or the
processor gets closer. -/
theorem IrqSystem.InTime.progress (hs : s.InTime) (htodo : s.todo ≠ 0) :
    ∃ event out t, (event = .load ∨ event = .cpu notFound) ∧ LoadsInTime s event ∧
      irqStep s event = .ok (out, t) ∧ sentCodes [out] = [] ∧ t.todo < s.todo := by
  have hcpu : LoadsInTime s (.cpu notFound) := loadsInTime_of_ne (by simp)
  by_cases hmain : s.main = .shell
  swap
  · obtain ⟨out, t, hstep⟩ := hs.progress_main hmain
    exact ⟨_, out, t, Or.inr rfl, hcpu, hstep⟩
  cases hserving : s.serving with
  | some x =>
    -- the handler gets on
    obtain ⟨out, t, hstep, hrest⟩ := hs.progress_serving hmain hserving
    refine ⟨_, out, t, Or.inr rfl, hcpu, ?_, hrest⟩
    unfold irqStep
    rw [hserving]
    exact hstep
  | none =>
    cases houtput : s.ps2.output with
    | some code =>
      -- the processor is interrupted
      have hasks := hs.asks hmain hserving (by rw [houtput]; rfl)
      refine ⟨.cpu notFound, .vector s.pics.ack.1,
        { s with pics := s.pics.ack.2, serving := some (.stub s.pics.ack.1) }, Or.inr rfl,
        hcpu, ?_, rfl, ?_⟩
      · unfold irqStep
        rw [hserving]
        dsimp only
        rw [hasks, hmain]
        rfl
      · rw [todo_of_idle hserving, todo_of_serving rfl, houtput]
        change 9 * s.ps2.queue.length + s.main.left + 7 + 0 < 9 * s.ps2.queue.length +
          s.main.left + 8
        omega
    | none =>
      cases hqueue : s.ps2.queue with
      | nil =>
        refine absurd ?_ htodo
        unfold IrqSystem.todo
        rw [hserving, houtput, hqueue, hmain]
        rfl
      | cons code queue =>
        -- the next code is moved to the buffer, and its line rises
        refine ⟨.load, .quiet, { s with ps2 := ⟨queue, some code⟩, pics := s.pics.setLine 1 true },
          Or.inl rfl, fun _ => Or.inr hmain, ?_, rfl, ?_⟩
        · unfold irqStep
          rw [houtput, hqueue]
        · have hloaded := @todo_of_idle
            { s with ps2 := ⟨queue, some code⟩, pics := s.pics.setLine 1 true } hserving
          rw [todo_of_idle hserving, hloaded, houtput, hqueue]
          change 9 * queue.length + s.main.left + 8 < 9 * (queue.length + 1) + s.main.left + 0
          omega

end Progress

/-! ### Delivery -/

section Delivery

variable {pics : PicPair} {screen : Screen} {s t : IrqSystem} {os : List IrqOut} {out : IrqOut}
  {event : IrqEvent} {events : List IrqEvent}

/-- What holds in every run: no other vector is delivered, and the shell is run with the handled
codes. -/
structure Delivered (screen : Screen) (os : List IrqOut) (s : IrqSystem) : Prop where
  core : s.Core
  vector : ∀ v, .vector v ∈ os → v = 33
  shell : ∃ es, runList shellStep (Shell.boot screen) es = .ok (shellOuts os, s.shell) ∧
    interruptCodes es = handledCodes os

theorem Delivered.step (h : Delivered screen os s) (hstep : irqStep s event = .ok (out, t)) :
    Delivered screen (os ++ [out]) t := by
  have hkeeps := irqStep_keeps h.core hstep
  obtain ⟨es, hrun, hcodes⟩ := h.shell
  refine ⟨hkeeps.core, fun v hv => ?_, ?_⟩
  · rcases List.mem_append.mp hv with hv | hv
    · exact h.vector v hv
    · exact hkeeps.vector v (List.mem_singleton.mp hv).symm
  rw [shellOuts_append, handledCodes_append, ← hcodes]
  rcases irqStep_shell hstep with ⟨hnone, ⟨hquiet, hshell⟩ | ⟨outcome, o, hmain, hout⟩⟩ |
    ⟨code, o, -, rfl, hint⟩
  · -- the shell does not see the step
    refine ⟨es, ?_, ?_⟩
    · rw [hquiet, List.append_nil, hshell]
      exact hrun
    · rw [hnone, List.append_nil]
  · -- a step of `main`
    refine ⟨es ++ [.main outcome], ?_, ?_⟩
    · rw [hout]
      exact runList_append hrun (runList_cons_ok.mpr ⟨o, t.shell, [], hmain, rfl, rfl⟩)
    · unfold interruptCodes
      rw [hnone, List.filterMap_append]
      rfl
  · -- the interrupt of a code
    refine ⟨es ++ [.interrupt code], ?_, ?_⟩
    · exact runList_append hrun (runList_cons_ok.mpr ⟨o, t.shell, [], hint, rfl, rfl⟩)
    · unfold interruptCodes
      rw [List.filterMap_append]
      rfl

/-- All codes are handled or wait. -/
structure Accounted (os : List IrqOut) (s : IrqSystem) : Prop where
  inTime : s.InTime
  codes : sentCodes os = handledCodes os ++ s.waiting
  boots : s.main ≠ .shell → handledCodes os = []

/-- None is handled. -/
structure Lost (os : List IrqOut) (s : IrqSystem) : Prop where
  stuck : s.Stuck
  unhandled : handledCodes os = []

/-- No step in front of the shell handles a code. -/
theorem handledCodes_step (hstep : irqStep s event = .ok (out, t))
    (hs : s.serving.any Serving.inHandler = false) : handledCodes [out] = [] := by
  rcases irqStep_shell hstep with ⟨hnone, -⟩ | ⟨code, o, hserving, -⟩
  · exact hnone
  · rw [hserving] at hs
    cases hs

/-- `main` does not leave the shell. -/
theorem irqStep_main (hstep : irqStep s event = .ok (out, t)) (ht : t.main ≠ .shell) :
    s.main ≠ .shell := by
  intro hm
  refine ht ?_
  cases event with
  | send scancode =>
    cases hstep
    exact hm
  | load =>
    unfold irqStep at hstep
    dsimp only at hstep
    split at hstep <;> cases hstep <;> exact hm
  | line irq level =>
    unfold irqStep at hstep
    dsimp only at hstep
    split_ifs at hstep
    cases hstep
    exact hm
  | cpu outcome =>
    unfold irqStep at hstep
    cases hserving : s.serving with
    | some x =>
      rw [hserving] at hstep
      cases x <;> cases hstep <;> exact hm
    | none =>
      rw [hserving] at hstep
      dsimp only at hstep
      split_ifs at hstep
      · cases hstep
        exact hm
      · exact (mainStep_shows hstep).stays hm

theorem Accounted.step (h : Accounted os s) (hin : LoadsInTime s event)
    (hstep : irqStep s event = .ok (out, t)) : Accounted (os ++ [out]) t := by
  refine ⟨(irqStep_keeps h.inTime.core hstep).inTime h.inTime hin, ?_, fun hm => ?_⟩
  · rw [sentCodes_append, handledCodes_append, h.codes, List.append_assoc, List.append_assoc,
      irqStep_waiting h.inTime hstep]
  · have hmain := irqStep_main hstep hm
    rw [handledCodes_append, h.boots hmain, handledCodes_step hstep]
    · rfl
    · rw [(h.inTime.early hmain).2.1]
      rfl

theorem Accounted.lost (h : Accounted os s) (hin : ¬ LoadsInTime s event)
    (hstep : irqStep s event = .ok (out, t)) : Lost (os ++ [out]) t := by
  have hmain : s.main ≠ .shell := fun hm => hin fun _ => Or.inr hm
  refine ⟨(irqStep_keeps h.inTime.core hstep).stuck h.inTime hin, ?_⟩
  rw [handledCodes_append, h.boots hmain, handledCodes_step hstep]
  · rfl
  · rw [(h.inTime.early hmain).2.1]
    rfl

theorem Lost.step (h : Lost os s) (hstep : irqStep s event = .ok (out, t)) :
    Lost (os ++ [out]) t := by
  refine ⟨(irqStep_keeps h.stuck.core hstep).stays h.stuck, ?_⟩
  rw [handledCodes_append, h.unhandled, handledCodes_step hstep h.stuck.outside]
  rfl

/-- **All codes are handled** by steps of the controller of the keyboard and of the processor
alone. -/
theorem Accounted.finish (h : Accounted os s) :
    ∃ es os' t, (∀ e ∈ es, e = .load ∨ e = .cpu notFound) ∧ runList irqStep s es = .ok (os', t) ∧
      handledCodes (os ++ os') = sentCodes os := by
  induction hw : s.todo using Nat.strong_induction_on generalizing s os with
  | _ w ih =>
    by_cases htodo : s.todo = 0
    · -- nothing waits any more
      refine ⟨[], [], s, nofun, rfl, ?_⟩
      have hwaiting : s.waiting = [] := by
        have hserving : s.serving = none := by
          cases hserving : s.serving with
          | none => rfl
          | some x =>
            rw [todo_of_serving hserving] at htodo
            have hleft := x.left_pos
            omega
        rw [todo_of_idle hserving] at htodo
        have hqueue : s.ps2.queue = [] := List.length_eq_zero_iff.mp (by omega)
        have houtput : s.ps2.output = none := by
          cases houtput : s.ps2.output with
          | none => rfl
          | some code =>
            rw [houtput, Option.isSome_some, if_pos rfl] at htodo
            omega
        unfold IrqSystem.waiting
        rw [hqueue, hserving, houtput]
        rfl
      rw [List.append_nil, h.codes, hwaiting, List.append_nil]
    · obtain ⟨event, out, t, hevent, hin, hstep, hsent, hlt⟩ := h.inTime.progress htodo
      obtain ⟨es, os', u, hes, hrun, hcodes⟩ := ih t.todo (hw ▸ hlt) (h.step hin hstep) rfl
      refine ⟨event :: es, out :: os', u, ?_,
        runList_cons_ok.mpr ⟨out, t, os', hstep, hrun, rfl⟩, ?_⟩
      · rintro e he
        rcases List.mem_cons.mp he with rfl | he
        · exact hevent
        · exact hes e he
      · rw [sentCodes_append, hsent, List.append_nil, List.append_assoc] at hcodes
        exact hcodes

/-- **Delivery.** From controllers with nothing in service and the line of the keyboard low, in
every run: vector 33 is the only one that is delivered, and the shell is run with the codes as they
are handled. If no code comes into the output buffer before the handler is registered, the codes
that are handled are those that were sent, in their order, and without another event all of them
come to be handled. Otherwise none is. -/
theorem keyboard_delivery (hidle : pics.master.inService = fun _ => false)
    (hline : pics.master.line 1 = false)
    (hr : runList irqStep (IrqSystem.boot pics screen) events = .ok (os, s)) :
    (∀ v, .vector v ∈ os → v = 33) ∧
      (∃ es, runList shellStep (Shell.boot screen) es = .ok (shellOuts os, s.shell) ∧
        interruptCodes es = handledCodes os) ∧
      (Meets irqStep LoadsInTime (IrqSystem.boot pics screen) events →
        handledCodes os <+: sentCodes os ∧
        ∃ es os' t, (∀ e ∈ es, e = .load ∨ e = .cpu notFound) ∧
        runList irqStep s es = .ok (os', t) ∧ handledCodes (os ++ os') = sentCodes os) ∧
      (¬ Meets irqStep LoadsInTime (IrqSystem.boot pics screen) events → handledCodes os = []) := by
  have hcore : (IrqSystem.boot pics screen).Core :=
    { line := hline
      handlers := rfl
      setting := ⟨nofun, nofun, nofun, nofun, nofun, nofun, nofun, nofun⟩
      writes := Nat.zero_le 10
      service := hidle.trans (funext fun j => (Bool.false_and _).symm)
      vector := nofun
      disabled := fun _ => rfl }
  have htime : (IrqSystem.boot pics screen).InTime :=
    ⟨hcore, fun _ => ⟨rfl, rfl, nofun⟩, nofun, nofun⟩
  have hdelivered : Delivered screen os s := by
    have h := @runList_history _ _ _ _ irqStep (Delivered screen)
        (fun os s i o t hI hs => hI.step hs)
      [] _ _ _ _ ⟨hcore, nofun, [], rfl, rfl⟩ hr
    rwa [List.nil_append] at h
  have hswitch := @runList_switch _ _ _ _ irqStep LoadsInTime Accounted Lost
    (fun os s i o t h hin hs => h.step hin hs) (fun os s i o t h hin hs => h.lost hin hs)
    (fun os s i o t h hs => h.step hs) events [] os _ s ⟨htime, rfl, fun _ => rfl⟩ hr
  rw [List.nil_append] at hswitch
  refine ⟨hdelivered.vector, hdelivered.shell, fun hm => ?_, fun hm => ?_⟩
  · rcases hswitch with ⟨-, h⟩ | ⟨hno, -⟩
    · exact ⟨⟨_, h.codes.symm⟩, h.finish⟩
    · exact absurd hm hno
  · rcases hswitch with ⟨hyes, -⟩ | ⟨-, h⟩
    · exact absurd hyes hm
    · exact h.unhandled

end Delivery

/-- Controllers as a BIOS leaves them: the vectors are those of real mode, and nothing is in
service. -/
def biosPics : PicPair :=
  ⟨⟨fun _ => false, fun _ => false, fun _ => false, fun _ => false, 0x08, 4, false, .ocw1⟩,
    ⟨fun _ => false, fun _ => false, fun _ => false, fun _ => false, 0x70, 2, false, .ocw1⟩⟩

/-- A key is pressed and released when `main` is at the shell, and the timer ticks. -/
def keyInTime : List IrqEvent :=
  List.replicate 13 (.cpu notFound) ++ [.send 0x1E, .line 0 true, .load, .send 0x9E] ++
    List.replicate 9 (.cpu notFound)

/-- The key is pressed while `main` is at `keyboard_init`. -/
def keyTooEarly : List IrqEvent :=
  List.replicate 12 (.cpu notFound) ++ [.send 0x1E, .load, .send 0x9E] ++
    List.replicate 6 (.cpu notFound) ++ [.load] ++ List.replicate 9 (.cpu notFound)

/-- The first code is handled, and the second will be. When the key comes too early, neither is. -/
theorem keyboard_delivery_key :
    (∃ os s, runList irqStep (IrqSystem.boot biosPics (Screen.boot fun _ => 0))
      keyInTime = .ok (os, s) ∧ handledCodes os = [0x1E] ∧ (∀ v, .vector v ∈ os → v = 33) ∧
      ∃ es os' t, (∀ e ∈ es, e = .load ∨ e = .cpu notFound) ∧ runList irqStep s es = .ok (os', t) ∧
        handledCodes (os ++ os') = sentCodes os) ∧
      ∃ os s, runList irqStep (IrqSystem.boot biosPics (Screen.boot fun _ => 0))
        keyTooEarly = .ok (os, s) ∧
        sentCodes os = [0x1E, 0x9E] ∧ s.main = .shell ∧ handledCodes os = [] := by
  have hin : ((runList irqStep (IrqSystem.boot biosPics (Screen.boot fun _ => 0))
      keyInTime).toOption.map
      fun r => handledCodes r.1) = some [0x1E] := by
    decide +kernel
  have hearly : ((runList irqStep (IrqSystem.boot biosPics (Screen.boot fun _ => 0))
      keyTooEarly).toOption.map fun r => (sentCodes r.1, r.2.main, handledCodes r.1)) =
        some ([0x1E, 0x9E], .shell, []) := by
    decide +kernel
  have hmeets : Meets irqStep LoadsInTime
      (IrqSystem.boot biosPics (Screen.boot fun _ => 0)) keyInTime :=
    meets_of_checkRun (fun s e => decide (LoadsInTime s e)) (fun _ _ => of_decide_eq_true)
      (by decide +kernel)
  constructor
  · cases hr : runList irqStep (IrqSystem.boot biosPics (Screen.boot fun _ => 0)) keyInTime with
    | error e =>
      rw [hr] at hin
      cases hin
    | ok r =>
      obtain ⟨os, s⟩ := r
      rw [hr] at hin
      obtain ⟨hvector, -, htime, -⟩ := keyboard_delivery rfl rfl hr
      exact ⟨os, s, rfl, Option.some.inj hin, hvector, (htime hmeets).2⟩
  · cases hr : runList irqStep (IrqSystem.boot biosPics (Screen.boot fun _ => 0)) keyTooEarly with
    | error e =>
      rw [hr] at hearly
      cases hearly
    | ok r =>
      obtain ⟨os, s⟩ := r
      rw [hr] at hearly
      have hval := Option.some.inj hearly
      simp only [Prod.mk.injEq] at hval
      exact ⟨os, s, rfl, hval⟩

end VibeKernel
