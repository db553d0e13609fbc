import VibeKernel.Kernel.Arena
import VibeKernel.Lib.Budget

/-!
# Room for blocks

`RoomFor M rs s` says that the allocator has room for the requests `rs`: it answers each of them, in
this order, by a block that can be used, whatever is freed in between and whichever of them are left
out. It is the resource that the computations of the kernel use up: `Spends` (in `Lib/Budget.lean`)
gives each of them a list of requests, and with room for its list a computation does not stop
because of the allocator.
-/

namespace VibeKernel

open Verif

variable {H D α β : Type}

/-- A request to the allocator. -/
structure Request where
  size : ℕ
  align : Bool
  deriving DecidableEq, Repr

/-- The allocator answers the request by a block that can be used, or by `NULL` if it is empty, and
`P` holds of the state then. -/
def Answered (M : Machine H D) (r : Request) (P : Kernel H D → Prop) (s : Kernel H D) : Prop :=
  ∃ p h, M.heap.kmallocInt r.size r.align s.heap = some (p, h) ∧
    (p = 0 ∧ r.size = 0 ∧ P { s with heap := h } ∨
      p ≠ 0 ∧ p + r.size ≤ identityTop ∧ Usable M s r.size r.align p ∧ P (s.withBlock h p r.size))

/-- The allocator has room for the requests, in this order, with any blocks freed before each and
any requests left out. A pointer is a 32-bit word. -/
def RoomFor (M : Machine H D) : List Request → Kernel H D → Prop
  | [] => fun _ => True
  | r :: rs => fun s => ∀ ps : List ℕ, (∀ p ∈ ps, p < 4294967296) →
      RoomFor M rs (s.freedAll M ps) ∧ Answered M r (RoomFor M rs) (s.freedAll M ps)

section Room

variable {M : Machine H D} {s t : Kernel H D} {r : Request} {rs : List Request} {p n : ℕ}

theorem Kernel.freedAll_heap : ∀ (ps : List ℕ) (s : Kernel H D),
    (s.freedAll M ps).heap = ps.foldl (fun h p => M.heap.kfree p h) s.heap := by
  intro ps
  induction ps with
  | nil => exact fun _ => rfl
  | cons p ps ih => exact fun s => ih (s.freed M p)

/-- Room depends on the heap and the live blocks only. -/
theorem RoomFor.congr : ∀ {rs : List Request} {s t : Kernel H D}, t.heap = s.heap →
    t.live = s.live → RoomFor M rs s → RoomFor M rs t := by
  intro rs
  induction rs with
  | nil => exact fun _ _ _ => trivial
  | cons r rs ih =>
    intro s t hheap hlive h ps hps
    obtain ⟨hskip, p, h', hans, hcases⟩ := h ps hps
    have hheap' : (t.freedAll M ps).heap = (s.freedAll M ps).heap := by
      rw [Kernel.freedAll_heap, Kernel.freedAll_heap, hheap]
    have hlive' : (t.freedAll M ps).live = (s.freedAll M ps).live := by
      rw [Kernel.freedAll_live, Kernel.freedAll_live, hlive]
    refine ⟨ih hheap' hlive' hskip, p, h', by rw [hheap']; exact hans, ?_⟩
    rcases hcases with ⟨hp, hn, hrest⟩ | ⟨hp, htop, hU, hrest⟩
    · exact .inl ⟨hp, hn, ih (s := { s.freedAll M ps with heap := h' }) rfl hlive' hrest⟩
    · refine .inr ⟨hp, htop, ⟨hU.1, hU.2.1, by rw [hlive']; exact hU.2.2⟩, ?_⟩
      refine ih (s := (s.freedAll M ps).withBlock h' p r.size) rfl ?_ hrest
      exact congrArg (List.cons ⟨p, r.size⟩) hlive'

/-- Freeing a block leaves the room that there is. -/
theorem RoomFor.freed (h : RoomFor M rs s) (hp : p < 4294967296) : RoomFor M rs (s.freed M p) := by
  cases rs with
  | nil => trivial
  | cons r rs => exact fun ps hps => h (p :: ps) (List.forall_mem_cons.mpr ⟨hp, hps⟩)

/-- Requests need not be made. -/
theorem RoomFor.skip (h : RoomFor M (r :: rs) s) : RoomFor M rs s := (h [] nofun).1

/-- With room for it, a request is answered. -/
theorem RoomFor.answer {align : Bool} (h : RoomFor M (⟨n, align⟩ :: rs) s) :
    ∃ p t, kmallocInt M n align s = .ok (p, t) ∧ (0 < n → p ≠ 0) ∧ RoomFor M rs t := by
  obtain ⟨-, p, h', hans, hcases⟩ := h [] nofun
  have hans' : M.heap.kmallocInt n align s.heap = some (p, h') := hans
  unfold kmallocInt
  rw [hans']
  dsimp only
  rcases hcases with ⟨hp, hn, hrest⟩ | ⟨hp, htop, hU, hrest⟩
  · rw [if_pos hp]
    exact ⟨0, _, rfl, fun hpos => absurd hn hpos.ne', hrest⟩
  · have hU' : Usable M s n align p := hU
    rw [if_neg hp, if_neg (Nat.not_lt.mpr htop), if_pos hU']
    exact ⟨p, _, rfl, fun _ => hp, hrest⟩

/-- The room of the allocator as a budget. -/
def Machine.room (M : Machine H D) : Budget Request (Kernel H D) where
  Has := RoomFor M
  skip := RoomFor.skip

theorem RoomFor.skips {rs' : List Request} (h : RoomFor M (rs' ++ rs) s) : RoomFor M rs s :=
  Budget.skips (B := M.room) h

/-- A reason to stop that does not come from the allocator. -/
abbrev Unforced (e : Stop) : Prop := ¬ e.AllocFails

theorem unforced_overrun : Unforced .overrun := by
  rintro (h | h | h) <;> cases h

theorem unforced_clobbered : Unforced .clobbered := by
  rintro (h | h | h) <;> cases h

theorem unforced_divideError : Unforced .divideError := by
  rintro (h | h | h) <;> cases h

end Room

/-! ### What the basic operations cost -/

section Basic

variable {M : Machine H D} {E : Stop → Prop} {n p : ℕ} {align : Bool} {o : Obj}

theorem kmallocInt_spends : Spends M.room E (kmallocInt M n align) [⟨n, align⟩] := by
  intro rs s hs
  obtain ⟨p, t, hrun, -, hrest⟩ := RoomFor.answer hs
  unfold wp
  rw [hrun]
  exact hrest

theorem kmallocUnchecked_spends (hn : 0 < n) :
    Spends M.room E (kmallocUnchecked M n align) [⟨n, align⟩] := by
  intro rs s hs
  obtain ⟨p, t, hrun, hp, hrest⟩ := RoomFor.answer hs
  unfold wp kmallocUnchecked
  rw [Exec.bind_of_ok hrun, if_neg (hp hn)]
  exact hrest

/-- The pointers that are answered lie in the identity-mapped memory. -/
theorem kmallocUnchecked_answers :
    Exec.Answers (kmallocUnchecked M n align) fun p => p < 4294967296 := by
  intro s p t hrun
  have hwp : wp (fun _ => True) (kmallocUnchecked M n align) (fun p _ => p < 4294967296) s := by
    refine kmallocUnchecked_wp (fun _ _ => trivial) fun p h _ _ htop => ?_
    unfold identityTop at htop
    omega
  exact hwp.ok hrun

theorem kfree_spends (hp : p < 4294967296) : Spends M.room E (kfree M p) [] := by
  refine Spends.modify fun rs s hs => ?_
  split
  · exact hs
  · exact RoomFor.freed hs hp

/-- A change of the state that leaves the heap and the live blocks alone. -/
theorem modify_spends {g : Kernel H D → Kernel H D}
    (hg : ∀ s, (g s).heap = s.heap ∧ (g s).live = s.live) :
    Spends M.room E (Exec.modify g) [] :=
  Spends.modify fun _ s hs => RoomFor.congr (hg s).1 (hg s).2 hs

theorem readObj_spends (hE : E .clobbered) (proj : Obj → Option α) :
    Spends M.room E (readObj (H := H) (D := D) proj p) [] := by
  intro rs s hs
  unfold wp readObj
  cases (s.store p).bind proj with
  | none => exact hE
  | some x => exact hs

theorem writeObj_spends (hE : E .clobbered) : Spends M.room E (writeObj p o) [] := by
  intro rs s hs
  unfold wp writeObj
  by_cases hfit : ∃ a ∈ s.live, a.ptr = p ∧ o.size ≤ a.size
  · rw [if_pos hfit]
    exact RoomFor.congr (s := s) rfl rfl hs
  · rw [if_neg hfit]
    exact hE

theorem newObj_spends (hE : E .clobbered) (ho : 0 < o.size) :
    Spends M.room E (newObj M align o) [⟨o.size, align⟩] := by
  unfold newObj
  refine (kmallocUnchecked_spends ho).bind_last fun p => ?_
  exact (writeObj_spends hE).bind_free fun _ => Spends.pure _ _

theorem writeBytes_spends (hE : E .clobbered) (hover : E .overrun) (bs : List UInt8) :
    Spends M.room E (writeBytes p bs) [] := by
  unfold writeBytes
  refine Spends.ite (fun _ => Spends.pure _ _) fun _ => Spends.bind_gets fun s => ?_
  cases (s.store p).bind Obj.asBytes with
  | none => exact Spends.stop hover _
  | some r => exact Spends.ite (fun _ => Spends.stop hover _) fun _ => writeObj_spends hE

end Basic

end VibeKernel
