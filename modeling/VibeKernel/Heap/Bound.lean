import VibeKernel.Heap.Safety

/-!
# The size of the heap

`HEAP_SIZE` is defined in `kheap.c` and read nowhere: the check of the limit in `request_space` is
a comment. What keeps the blocks inside the heap area is therefore the condition `InRoom` on the
calls that carve. A request that breaks it gets a block that reaches behind the area, and a size
near `2 ^ 32` wraps the placement address around to below the start of the heap.
-/

namespace VibeKernel

open Verif

variable {e n : ℕ} {align : Bool} {s t : HeapState} {l : List ℕ} {c : HeapCall}

/-- `HEAP_SIZE`. -/
def heapSize : ℕ := 1024 * 1024 * 4

/-- A call that carves carves inside the heap area, and does not round down. -/
def InRoom (e : ℕ) (s : HeapState) (c : HeapCall) : Prop :=
  ∀ n align, c.request = some (n, align) → 0 < n → s.heap.Carves n align →
    s.heap.placementAddress ≤ s.heap.carvePoint align ∧
      s.heap.carvePoint align + 16 + n ≤ e + heapSize

/-- What the heap area promises of a call with result `p`: a block, header and payload, lies inside
the area, and the placement address has not moved down. -/
structure Bounded (e : ℕ) (s : HeapState) (c : HeapCall) (p : ℕ) (t : HeapState) : Prop where
  inside : ∀ n align, c.request = some (n, align) → p ≠ 0 →
    e + 16 ≤ p ∧ p + n ≤ e + heapSize
  placement : s.heap.placementAddress ≤ t.heap.placementAddress

/-- A heap whose blocks all lie in the heap area. -/
def HeapState.InArea (e : ℕ) (s : HeapState) : Prop :=
  s.heap.placementAddress ≤ e + heapSize ∧ ∃ l, HeapInv e s.heap l

theorem HeapState.InArea.initial (he : 0 < e) (htop : e + heapSize < 4294967296) :
    HeapState.InArea e (HeapState.init e) :=
  ⟨Nat.le_add_right _ _, [], HeapInv.initial he (by omega)⟩

/-- A request inside the room answers with a block inside the area. -/
theorem kmallocInt_bounded (hI : HeapInv e s.heap l) (hP : s.heap.placementAddress ≤ e + heapSize)
    (htop : e + heapSize < 4294967296) (hn : 0 < n)
    (hroom : s.heap.Carves n align → s.heap.placementAddress ≤ s.heap.carvePoint align ∧
      s.heap.carvePoint align + 16 + n ≤ e + heapSize) :
    ∃ p h', s.heap.kmallocInt n align = some (p, h') ∧ e + 16 ≤ p ∧ p + n ≤ e + heapSize ∧
      s.heap.placementAddress ≤ h'.placementAddress ∧ h'.placementAddress ≤ e + heapSize ∧
      ∃ l', HeapInv e h' l' := by
  have hw : s.heap.Carves n align → s.heap.carvePoint align + 16 + n < 4294967296 := fun hc =>
    lt_of_le_of_lt (hroom hc).2 htop
  have hstart : e ≤ s.heap.placementAddress := by
    have := hI.room
    omega
  rcases kmallocInt_cases hI hn hw with
    ⟨-, b, hb, hfit, -, heq⟩ | ⟨hc, hnil, heq⟩ | ⟨hc, pre, d, post, hl, -, -, heq⟩
  · -- a reused block lies below the placement address, which stays
    have hin := hI.within b (hI.mem_carved hb)
    have hsz := hfit.2
    exact ⟨_, _, heq, by omega, by omega, le_refl _, hP, l, hI.reuse b⟩
  · obtain ⟨hdrop, hin⟩ := hroom hc
    subst hnil
    have hplace : (s.heap.carveAt (s.heap.carvePoint align) 0 n).placementAddress =
        s.heap.carvePoint align + 16 + n := rfl
    refine ⟨_, _, heq, by omega, by omega, ?_, ?_, _, hI.carve_first hdrop (hw hc)⟩
    · rw [hplace]
      omega
    · rw [hplace]
      exact hin
  · obtain ⟨hdrop, hin⟩ := hroom hc
    have hplace : (s.heap.carveAt (s.heap.carvePoint align) d n).placementAddress =
        s.heap.carvePoint align + 16 + n := rfl
    refine ⟨_, _, heq, by omega, by omega, ?_, ?_, _, hI.carve hl hdrop (hw hc)⟩
    · rw [hplace]
      omega
    · rw [hplace]
      exact hin

/-- **The step lemma.** A call inside the room returns, stays inside the area and keeps it. -/
theorem heapStep_bounded (htop : e + heapSize < 4294967296) (hs : HeapState.InArea e s)
    (hroom : InRoom e s c) :
    ∃ p t, heapStep s c = .ok (p, t) ∧ Bounded e s c p t ∧ HeapState.InArea e t := by
  obtain ⟨hP, l, hI⟩ := hs
  cases hreq : c.request with
  | none =>
    obtain ⟨p, rfl⟩ : ∃ p, c = .kfree p := by
      cases c <;> simp only [HeapCall.request, reduceCtorEq] at hreq
      exact ⟨_, rfl⟩
    have hplace := s.heap.kfree_placement p
    refine ⟨0, _, rfl, ⟨fun n align h => ?_, ?_⟩, ?_, l, hI.kfree_any p⟩
    · rw [hreq] at h
      cases h
    · exact hplace.ge
    · exact hplace.trans_le hP
  | some r =>
    obtain ⟨n, align⟩ := r
    rw [heapStep_request hreq]
    rcases Nat.eq_zero_or_pos n with rfl | hn
    · -- `kmalloc(0)` returns `NULL` and changes nothing
      exact ⟨0, s, rfl, ⟨fun _ _ _ h => absurd rfl h, le_refl _⟩, hP, l, hI⟩
    · obtain ⟨p, h', heq, hlow, hhigh, hmono, hP', l', hI'⟩ :=
        kmallocInt_bounded hI hP htop hn (hroom n align hreq hn)
      refine ⟨p, ⟨h', ⟨p, n⟩ :: s.live⟩, ?_, ⟨fun n' align' h _ => ?_, hmono⟩, hP', l', hI'⟩
      · rw [heq]
        unfold HeapState.answer
        dsimp only
        rw [if_neg (by omega)]
      · rw [hreq] at h
        cases h
        exact ⟨hlow, hhigh⟩

/-- **The heap bound.** In every run whose carving calls find room in the heap area and do not
round the placement address down, every call returns, every block lies in the area, and the
placement address never decreases. -/
theorem heap_run_bounded {calls : List HeapCall} (he : 0 < e) (htop : e + heapSize < 4294967296)
    (hm : Meets heapStep (InRoom e) (HeapState.init e) calls) :
    Meets heapStep (fun s c => ∃ p t, heapStep s c = .ok (p, t) ∧ Bounded e s c p t)
      (HeapState.init e) calls :=
  meets_of_progress (fun _ _ hs hroom => heapStep_bounded htop hs hroom)
    (HeapState.InArea.initial he htop) hm

/-- A decidable check that a call finds room. -/
def roomyCall (e : ℕ) (s : HeapState) (c : HeapCall) : Bool :=
  match c.request with
  | none => true
  | some (n, align) => decide (s.heap.placementAddress ≤ s.heap.carvePoint align) &&
      decide (s.heap.carvePoint align + 16 + n ≤ e + heapSize)

theorem roomyCall_spec (h : roomyCall e s c = true) : InRoom e s c := by
  intro n align hreq _ _
  unfold roomyCall at h
  rw [hreq, Bool.and_eq_true] at h
  exact ⟨of_decide_eq_true h.1, of_decide_eq_true h.2⟩

/-- The bound on a run that carves with and without alignment and reuses a block. -/
theorem heap_run_bounded_run :
    Meets heapStep (fun s c => ∃ p t, heapStep s c = .ok (p, t) ∧ Bounded 0x10000 s c p t)
      (HeapState.init 0x10000) [.kmalloc 100, .kmallocA 4096, .kfree 0x10010, .kmallocP 60] :=
  heap_run_bounded (by decide) (by decide)
    (meets_of_checkRun (roomyCall 0x10000) (fun _ _ => roomyCall_spec) (by decide))

/-- **No limit.** A first request of `2 ^ 32 - 32` bytes is answered with a block that reaches far
behind the heap area, and leaves the placement address below the start of the heap. -/
theorem heap_unbounded :
    ∃ p t, heapStep (HeapState.init 0x10000) (.kmalloc 0xFFFFFFE0) = .ok (p, t) ∧ p ≠ 0 ∧
      ¬ p + 0xFFFFFFE0 ≤ 0x10000 + heapSize ∧
      ¬ (HeapState.init 0x10000).heap.placementAddress ≤ t.heap.placementAddress :=
  ⟨_, _, rfl, by decide, by decide, by decide⟩

end VibeKernel
