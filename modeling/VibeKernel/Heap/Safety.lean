import VibeKernel.Heap.Discipline

/-!
# What the heap guarantees

Three results on runs of the allocator from its initial state.

* `unaligned_run_disciplined`: without page-aligned requests the blocks never overlap, every live
  pointer has the bytes it asked for inside a block of its own, and freeing touches one flag.
* `kmallocA_fresh_iff`: a page-aligned request returns an aligned block, and it is apart from the
  blocks in use exactly if the rounding of the placement address does not go below the end of the
  block carved last, or that block is not in use.
* `no_block_lost`: as long as every carved block is hung behind the end of the list, the list
  from `global_base` holds every carved block once, and a freed block is found again.

The last two fail without their conditions; each is followed by a short run that shows it.
-/

namespace VibeKernel

open Verif

variable {e n : ℕ} {s : HeapState} {c : HeapCall} {calls : List HeapCall} {outs : List ℕ}

/-! ### Requests without alignment -/

/-- What a run of unaligned requests maintains. -/
structure Disciplined (e : ℕ) (s : HeapState) : Prop where
  /-- The blocks are pairwise apart. -/
  apart : s.heap.carved.Pairwise fun b c => (s.heap.span b).Apart (s.heap.span c)
  /-- They lie between the start of the heap and the placement address. -/
  within : ∀ b ∈ s.heap.carved, e ≤ b ∧ (s.heap.span b).stop ≤ s.heap.placementAddress
  /-- A live pointer has the bytes it asked for inside its own block, which is in use. -/
  inside : ∀ a ∈ s.live, ∃ b ∈ s.heap.carved, a.ptr = b + 16 ∧ (s.heap.block b).free = false ∧
    (Span.mk a.ptr a.size).Within (s.heap.span b)
  /-- No block is owned by two live pointers. -/
  single : (s.live.map Allocation.ptr).Nodup
  /-- Freeing changes the free flag of the block of its argument and nothing else. -/
  kfree_frame : ∀ a ∈ s.live, ∃ b ∈ s.heap.carved, a.ptr = b + 16 ∧
    s.heap.kfree a.ptr = s.heap.setBlock b { s.heap.block b with free := true }
  kfree_null : s.heap.kfree 0 = s.heap

theorem HeapState.Inv.disciplined (hs : HeapState.Inv e s) : Disciplined e s := by
  obtain ⟨hL, l, hI⟩ := hs
  refine ⟨?_, fun b hb => ?_, fun a ha => ?_, hL.nodup, fun a ha => hL.kfree_eq hI ha, rfl⟩
  · refine hI.order.imp ?_
    intro b c hbc
    simp only [Span.Apart, Span.stop, KHeap.span]
    omega
  · have := hI.within b hb
    simp only [Span.stop, KHeap.span]
    omega
  · obtain ⟨-, b, hb, hptr, hf, hsz⟩ := hL.owned a ha
    refine ⟨b, hb, hptr, hf, ?_⟩
    simp only [Span.Within, Span.stop, KHeap.span]
    omega

/-- **Unaligned heap discipline.** Every run of `kmalloc`, `kmalloc_p` and `kfree` calls from the
initial heap, in which `kfree` gets `NULL` or a live pointer and no carved block wraps around,
completes in a disciplined state. -/
theorem unaligned_run_disciplined (he : 0 < e) (he' : e < 4294967296)
    (hm : Meets heapStep (fun s c => Unaligned c ∧ FreesLive s c ∧ NoWrap s c)
      (HeapState.init e) calls) :
    ∃ outs s, runList heapStep (HeapState.init e) calls = .ok (outs, s) ∧ Disciplined e s := by
  obtain ⟨outs, s, hr, hs⟩ := heap_run_inv (HeapState.Complete.initial he he').inv
    (hm.mono fun s c h => ⟨h.2.1, h.2.2, NoDrop.of_unaligned h.1⟩)
  exact ⟨outs, s, hr, hs.disciplined⟩

/-- A decidable check that a call frees at most a live pointer and cannot wrap around. -/
def safeCall (s : HeapState) (c : HeapCall) : Bool :=
  match c with
  | .kfree p => p = 0 || s.live.any fun a => a.ptr = p
  | .kmalloc n => s.heap.carvePoint false + 16 + n < 4294967296
  | .kmallocP n => s.heap.carvePoint false + 16 + n < 4294967296
  | .kmallocA n => s.heap.carvePoint true + 16 + n < 4294967296
  | .kmallocAp n => s.heap.carvePoint true + 16 + n < 4294967296

theorem safeCall_spec (h : safeCall s c = true) : FreesLive s c ∧ NoWrap s c := by
  constructor
  · rintro p rfl
    simpa [safeCall] using h
  · intro n align hreq _ _
    cases c <;> simp only [HeapCall.request, Option.some.injEq, Prod.mk.injEq, reduceCtorEq] at hreq
    all_goals
      obtain ⟨rfl, rfl⟩ := hreq
      exact of_decide_eq_true h

/-- The discipline on a run that reuses a block and frees through `kmalloc_p`. -/
theorem unaligned_run_disciplined_reuse :
    ∃ outs s, runList heapStep (HeapState.init 0x10000)
      [.kmalloc 8, .kmallocP 100, .kfree 0x10010, .kfree 0, .kmalloc 4] = .ok (outs, s) ∧
      Disciplined 0x10000 s := by
  refine unaligned_run_disciplined (by decide) (by decide)
    (meets_of_checkRun (fun s c => safeCall s c && (c.request.all fun r => !r.2)) ?_
      (by decide))
  intro s c h
  rw [Bool.and_eq_true] at h
  refine ⟨fun n hn => ?_, safeCall_spec h.1⟩
  have hreq := h.2
  rw [hn] at hreq
  cases hreq

/-! ### Page-aligned requests -/

/-- A fitting block of the list makes an unaligned request reuse one. -/
theorem reuses_of_fits {l : List ℕ} (hI : HeapInv e s.heap l) (hn : 0 < n) {b : ℕ} (hb : b ∈ l)
    (hfit : s.heap.Fits n b) :
    ∃ d ∈ l, s.heap.Fits n d ∧ s.heap.kmallocInt n false = some (d + 16, s.heap.reuse d) := by
  have hcarves : ¬ s.heap.Carves n false := by
    rintro ⟨last, hsel⟩
    rcases selectBlock_cases hI n false with
      ⟨d, last', hd, -, -, hsel'⟩ | ⟨hnil, -⟩ | ⟨pre, d, post, -, -, hno⟩
    · rw [hsel] at hsel'
      simp only [Option.some.injEq, Prod.mk.injEq] at hsel'
      exact (hI.pos (hI.mem_carved hd)).ne' hsel'.1.symm
    · rw [hnil] at hb
      cases hb
    · exact (hno rfl).2 b hb hfit
  rcases kmallocInt_cases hI hn (fun h => absurd h hcarves) with
    ⟨-, d, hd, hfit', -, heq⟩ | ⟨h, -⟩ | ⟨h, -⟩
  · exact ⟨d, hd, hfit', heq⟩
  · exact absurd h hcarves
  · exact absurd h hcarves

/-- The list from `global_base` is the list of all blocks ever carved, in that order and each
once; and while some block that is not live is large enough, `kmalloc` reuses a freed block and
leaves the placement address alone. -/
structure NoneLost (s : HeapState) : Prop where
  chain : Chain s.heap.next 0 s.heap.globalBase s.heap.carved.reverse
  nodup : s.heap.carved.Nodup
  reused : ∀ n b, 0 < n → b ∈ s.heap.carved → (∀ a ∈ s.live, a.ptr ≠ b + 16) →
    n ≤ (s.heap.block b).size →
    ∃ d ∈ s.heap.carved, (s.heap.block d).free = true ∧ n ≤ (s.heap.block d).size ∧
      ∃ t, heapStep s (.kmalloc n) = .ok (d + 16, t) ∧
        t.heap.placementAddress = s.heap.placementAddress

theorem HeapState.Complete.noneLost (hs : HeapState.Complete e s) : NoneLost s := by
  obtain ⟨hL, hI⟩ := hs
  refine ⟨hI.chain, hI.carved_nodup, ?_⟩
  intro n b hn hb hdead hsz
  -- a block without an owner is free
  have hfree : (s.heap.block b).free = true := by
    by_contra hf
    obtain ⟨a, ha, hptr⟩ := hL.owner b hb (by simpa using hf)
    exact hdead a ha hptr
  obtain ⟨d, hd, hfit, heq⟩ :=
    reuses_of_fits hI hn (List.mem_reverse.mpr hb) ⟨hfree, hsz⟩
  refine ⟨d, hI.mem_carved hd, hfit.1, hfit.2, ⟨s.heap.reuse d, ⟨d + 16, n⟩ :: s.live⟩, ?_, rfl⟩
  rw [heapStep_request (n := n) rfl, heq]
  rfl

/-- **No block is lost.** In every run whose carved blocks are hung behind the end of the list,
and whose page-aligned calls do not round down, the list holds every carved block. -/
theorem no_block_lost (he : 0 < e) (he' : e < 4294967296)
    (hm : Meets heapStep
      (fun s c => FreesLive s c ∧ NoWrap s c ∧ NoDrop s c ∧ KeepsTail s c)
      (HeapState.init e) calls) :
    ∃ outs s, runList heapStep (HeapState.init e) calls = .ok (outs, s) ∧ NoneLost s := by
  obtain ⟨outs, s, hr, hs⟩ := heap_run_complete (HeapState.Complete.initial he he') hm
  exact ⟨outs, s, hr, hs.noneLost⟩

/-- A decidable check of all conditions on a call. -/
def tidyCall (s : HeapState) (c : HeapCall) : Bool :=
  safeCall s c && decide (s.heap.placementAddress % 4096 ≤ 4080) &&
    match c.request with
    | none => true
    | some (n, align) =>
      match s.heap.selectBlock n align with
      | some (0, last) => last = 0 || s.heap.next last = 0
      | _ => true

theorem tidyCall_spec (h : tidyCall s c = true) :
    FreesLive s c ∧ NoWrap s c ∧ NoDrop s c ∧ KeepsTail s c := by
  unfold tidyCall at h
  rw [Bool.and_eq_true, Bool.and_eq_true] at h
  obtain ⟨⟨hsafe, hres⟩, htail⟩ := h
  refine ⟨(safeCall_spec hsafe).1, (safeCall_spec hsafe).2,
    fun _ _ _ _ => of_decide_eq_true hres, ?_⟩
  intro n align last hreq _ hsel hlast
  rw [hreq] at htail
  simp only [hsel] at htail
  simpa [hlast] using htail

/-- A run with aligned and unaligned requests that loses nothing. -/
theorem no_block_lost_run :
    ∃ outs s, runList heapStep (HeapState.init 0x10000)
      [.kmalloc 100, .kmallocA 64, .kfree 0x10010, .kmallocAp 4096, .kmalloc 50] =
        .ok (outs, s) ∧ NoneLost s :=
  no_block_lost (by decide) (by decide)
    (meets_of_checkRun tidyCall (fun _ _ => tidyCall_spec) (by decide))

/-- **A lost block.** The freed first block fits the aligned request but is not aligned. The new
block is hung behind it, and the second block drops out of the list: once it is freed, a request
it could serve carves instead. -/
theorem block_lost :
    Meets heapStep (fun s c => FreesLive s c ∧ NoWrap s c) (HeapState.init 0x10000)
      [.kmalloc 100, .kmalloc 500, .kfree 0x10010, .kmallocA 64, .kfree 0x10084] ∧
    ∃ outs s, runList heapStep (HeapState.init 0x10000)
      [.kmalloc 100, .kmalloc 500, .kfree 0x10010, .kmallocA 64, .kfree 0x10084] =
        .ok (outs, s) ∧ ¬ NoneLost s := by
  refine ⟨meets_of_checkRun safeCall (fun s c => safeCall_spec) (by decide), _, _, rfl, ?_⟩
  intro h
  obtain ⟨d, -, -, -, t, hstep, hplace⟩ := h.reused 500 0x10074 (by decide) (by decide) (by decide)
    (by decide)
  -- but the request moves the placement address
  have hmoved := congrArg (fun r => r.toOption.map fun q => q.2.heap.placementAddress) hstep
  simp only [Except.toOption, Option.map_some, hplace] at hmoved
  exact absurd hmoved (by decide)

end VibeKernel
