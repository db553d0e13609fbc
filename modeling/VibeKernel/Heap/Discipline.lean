import VibeKernel.Heap.Invariant
import VibeKernel.Lib.Run

/-!
# The heap over whole runs

A run is a list of calls of the allocator's interface. Next to the heap its state records the live
allocations: the pointers handed out and not yet freed, with the size that was asked for.

`LiveInv` ties the live allocations to the blocks that are not free. Together with `HeapInv` it is
an invariant of every run in which pointers are freed once and no address wraps around, as long as
rounding for a page-aligned request never moves the placement address down (`NoDrop`). For
requests without alignment this is automatic, and the list from `global_base` then holds every
carved block. For page-aligned requests neither is: an offset of more than `4080` in the page makes
the rounding go down (`overlap_of_drop`), and a fitting but unaligned block makes `request_space`
overwrite a successor in the middle of the list.
-/

namespace VibeKernel

open Verif

/-- A pointer handed out for a request of `size` bytes. -/
structure Allocation where
  ptr : ℕ
  size : ℕ
  deriving DecidableEq, Repr

/-- Header and requested payload of an allocation. -/
def Allocation.span (a : Allocation) : Span := ⟨a.ptr - 16, 16 + a.size⟩

/-- The heap together with the live allocations. -/
structure HeapState where
  heap : KHeap
  live : List Allocation

/-- The state before the first call. -/
def HeapState.init (e : ℕ) : HeapState := ⟨KHeap.init e, []⟩

/-- The calls of the interface in `kheap.h`. -/
inductive HeapCall
  | kmalloc (size : ℕ)
  | kmallocA (size : ℕ)
  | kmallocP (size : ℕ)
  | kmallocAp (size : ℕ)
  | kfree (ptr : ℕ)
  deriving DecidableEq, Repr

/-- The size and the alignment a call asks for. -/
def HeapCall.request : HeapCall → Option (ℕ × Bool)
  | .kmalloc n => some (n, false)
  | .kmallocA n => some (n, true)
  | .kmallocP n => some (n, false)
  | .kmallocAp n => some (n, true)
  | .kfree _ => none

/-- Record the answer of an allocating call. -/
def HeapState.answer (s : HeapState) (size : ℕ) :
    Option (ℕ × KHeap) → Except Stop (ℕ × HeapState)
  | none => .error .diverges
  | some (p, h) => .ok (p, ⟨h, if p = 0 then s.live else ⟨p, size⟩ :: s.live⟩)

/-- One call. The output is the pointer returned, `0` for `kfree`. -/
def heapStep (s : HeapState) : HeapCall → Except Stop (ℕ × HeapState)
  | .kmalloc n => s.answer n (s.heap.kmalloc n)
  | .kmallocA n => s.answer n (s.heap.kmallocA n)
  | .kmallocP n => s.answer n ((s.heap.kmallocP n).map fun ((p, _), h) => (p, h))
  | .kmallocAp n => s.answer n ((s.heap.kmallocAp n).map fun ((p, _), h) => (p, h))
  | .kfree p => .ok (0, ⟨s.heap.kfree p, s.live.filter fun a => a.ptr ≠ p⟩)

/-- Every allocating call is `kmalloc_int` with its size and alignment. -/
theorem heapStep_request {s : HeapState} {c : HeapCall} {n : ℕ} {align : Bool}
    (hc : c.request = some (n, align)) :
    heapStep s c = s.answer n (s.heap.kmallocInt n align) := by
  cases c <;> simp only [HeapCall.request, Option.some.injEq, Prod.mk.injEq, reduceCtorEq] at hc
  all_goals obtain ⟨rfl, rfl⟩ := hc
  · rfl
  · rfl
  · simp only [heapStep, KHeap.kmallocP, Option.map_map]
    exact congrArg _ (congrFun Option.map_id _)
  · simp only [heapStep, KHeap.kmallocAp, Option.map_map]
    exact congrArg _ (congrFun Option.map_id _)

/-! ### Conditions on a call -/

/-- `kfree` gets `NULL` or a live pointer. -/
def FreesLive (s : HeapState) (c : HeapCall) : Prop :=
  ∀ p, c = .kfree p → p = 0 ∨ ∃ a ∈ s.live, a.ptr = p

/-- The block a call carves ends below `2 ^ 32`. -/
def NoWrap (s : HeapState) (c : HeapCall) : Prop :=
  ∀ n align, c.request = some (n, align) → 0 < n → s.heap.Carves n align →
    s.heap.carvePoint align + 16 + n < 4294967296

/-- A page-aligned call that carves finds the placement address at an offset of at most `4080`
in its page. -/
def NoDrop (s : HeapState) (c : HeapCall) : Prop :=
  ∀ n, c.request = some (n, true) → 0 < n → s.heap.Carves n true →
    s.heap.placementAddress % 4096 ≤ 4080

/-- A call that carves hangs its block behind the end of the list. -/
def KeepsTail (s : HeapState) (c : HeapCall) : Prop :=
  ∀ n align last, c.request = some (n, align) → 0 < n →
    s.heap.selectBlock n align = some (0, last) → last ≠ 0 → s.heap.next last = 0

/-- The call does not ask for alignment. -/
def Unaligned (c : HeapCall) : Prop := ∀ n, c.request ≠ some (n, true)

theorem NoDrop.of_unaligned {s : HeapState} {c : HeapCall} (hc : Unaligned c) : NoDrop s c :=
  fun n hn => absurd hn (hc n)

/-! ### The live allocations -/

/-- The live allocations own exactly the carved blocks that are not free, one each. -/
structure LiveInv (h : KHeap) (live : List Allocation) : Prop where
  /-- An allocation owns the block in front of its pointer, which is large enough. -/
  owned : ∀ a ∈ live, 0 < a.size ∧ ∃ b ∈ h.carved,
    a.ptr = b + 16 ∧ (h.block b).free = false ∧ a.size ≤ (h.block b).size
  nodup : (live.map Allocation.ptr).Nodup
  /-- A block that is not free is owned. -/
  owner : ∀ b ∈ h.carved, (h.block b).free = false → ∃ a ∈ live, a.ptr = b + 16

namespace LiveInv

variable {e n : ℕ} {h : KHeap} {l : List ℕ} {live : List Allocation}

theorem initial (e : ℕ) : LiveInv (KHeap.init e) [] where
  owned := by simp
  nodup := List.nodup_nil
  owner := by simp [KHeap.init]

/-- No live allocation owns a free block. -/
theorem ne_of_free (hL : LiveInv h live) {b : ℕ} (hf : (h.block b).free = true)
    {a : Allocation} (ha : a ∈ live) : a.ptr ≠ b + 16 := by
  intro heq
  obtain ⟨-, c, -, hc, hcf, -⟩ := hL.owned a ha
  have hbc : b = c := by omega
  rw [hbc, hcf] at hf
  cases hf

theorem reuse (hL : LiveInv h live) {b : ℕ} (hb : b ∈ h.carved) (hf : h.Fits n b) (hn : 0 < n) :
    LiveInv (h.reuse b) (⟨b + 16, n⟩ :: live) where
  owned := by
    intro a ha
    rcases List.mem_cons.mp ha with rfl | ha
    · refine ⟨hn, b, hb, rfl, ?_, ?_⟩
      · unfold KHeap.reuse
        rw [KHeap.setBlock_self]
      · unfold KHeap.reuse
        rw [KHeap.setBlock_self]
        exact hf.2
    · obtain ⟨hpos, c, hc, hptr, hcf, hsz⟩ := hL.owned a ha
      have hcb : c ≠ b := by
        intro hcb
        exact hL.ne_of_free hf.1 ha (hcb ▸ hptr)
      refine ⟨hpos, c, hc, hptr, ?_⟩
      unfold KHeap.reuse
      rw [KHeap.setBlock_ne _ _ hcb]
      exact ⟨hcf, hsz⟩
  nodup := by
    rw [List.map_cons, List.nodup_cons]
    refine ⟨?_, hL.nodup⟩
    rw [List.mem_map]
    rintro ⟨a, ha, hptr⟩
    exact hL.ne_of_free hf.1 ha hptr
  owner := by
    intro c hc hcf
    by_cases hcb : c = b
    · exact ⟨⟨b + 16, n⟩, List.mem_cons_self, by rw [hcb]⟩
    · unfold KHeap.reuse at hcf
      rw [KHeap.setBlock_ne _ _ hcb] at hcf
      obtain ⟨a, ha, hptr⟩ := hL.owner c hc hcf
      exact ⟨a, List.mem_cons_of_mem _ ha, hptr⟩

theorem carve (hL : LiveInv h live) {q last : ℕ} (hq : ∀ b ∈ h.carved, b ≠ q) (hn : 0 < n) :
    LiveInv (h.carveAt q last n) (⟨q + 16, n⟩ :: live) where
  owned := by
    intro a ha
    rcases List.mem_cons.mp ha with rfl | ha
    · refine ⟨hn, q, List.mem_cons_self, rfl, ?_, ?_⟩
      · rw [HeapInv.carveAt_self]
      · rw [HeapInv.carveAt_self]
    · obtain ⟨hpos, c, hc, hptr, hcf, hsz⟩ := hL.owned a ha
      obtain ⟨m, hm⟩ := HeapInv.carveAt_old (hq c hc)
      refine ⟨hpos, c, List.mem_cons_of_mem _ hc, hptr, ?_⟩
      rw [hm]
      exact ⟨hcf, hsz⟩
  nodup := by
    rw [List.map_cons, List.nodup_cons]
    refine ⟨?_, hL.nodup⟩
    rw [List.mem_map]
    rintro ⟨a, ha, hptr⟩
    obtain ⟨-, c, hc, hptr', -⟩ := hL.owned a ha
    exact hq c hc (by dsimp only at hptr; omega)
  owner := by
    intro c hc hcf
    rcases List.mem_cons.mp hc with rfl | hc
    · exact ⟨⟨c + 16, n⟩, List.mem_cons_self, rfl⟩
    · obtain ⟨m, hm⟩ := HeapInv.carveAt_old (hq c hc)
      rw [hm] at hcf
      obtain ⟨a, ha, hptr⟩ := hL.owner c hc hcf
      exact ⟨a, List.mem_cons_of_mem _ ha, hptr⟩

/-- The block of a live allocation contains its header and requested payload. -/
theorem span_within (hL : LiveInv h live) {a : Allocation} (ha : a ∈ live) :
    ∃ b ∈ h.carved, a.ptr = b + 16 ∧ (h.block b).free = false ∧ a.span.Within (h.span b) := by
  obtain ⟨-, b, hb, hptr, hf, hsz⟩ := hL.owned a ha
  refine ⟨b, hb, hptr, hf, ?_⟩
  simp only [Span.Within, Span.stop, Allocation.span, KHeap.span]
  omega

/-- Freeing a live pointer sets the free flag of its block and changes nothing else. -/
theorem kfree_eq (hI : HeapInv e h l) (hL : LiveInv h live) {a : Allocation} (ha : a ∈ live) :
    ∃ b ∈ h.carved, a.ptr = b + 16 ∧
      h.kfree a.ptr = h.setBlock b { h.block b with free := true } := by
  obtain ⟨-, b, hb, hptr, -, -⟩ := hL.owned a ha
  refine ⟨b, hb, hptr, ?_⟩
  have hsub : u32Sub a.ptr 16 = b := by
    rw [hptr, u32Sub_of_le (by omega) (hI.add_lt hb)]
    omega
  have hmagic : ¬ ((h.block b).magic ≠ magicCarved ∧ (h.block b).magic ≠ magicReused) := by
    rintro ⟨h1, h2⟩
    exact (hI.magic b hb).elim h1 h2
  unfold KHeap.kfree
  rw [if_neg (by omega : a.ptr ≠ 0), hsub]
  exact if_neg hmagic

/-- Freeing keeps the live allocations in step with the blocks. -/
theorem kfree (hI : HeapInv e h l) (hL : LiveInv h live) {p : ℕ}
    (hp : p = 0 ∨ ∃ a ∈ live, a.ptr = p) :
    LiveInv (h.kfree p) (live.filter fun a => a.ptr ≠ p) := by
  have hzero : ∀ a ∈ live, a.ptr ≠ 0 := by
    intro a ha
    obtain ⟨-, b, -, hptr, -⟩ := hL.owned a ha
    omega
  rcases hp with rfl | ⟨a, ha, rfl⟩
  · -- `kfree(NULL)` returns at once, and no live pointer is `NULL`
    have hall : live.filter (fun a => a.ptr ≠ 0) = live :=
      List.filter_eq_self.mpr fun a ha => by simpa using hzero a ha
    rw [hall]
    exact hL
  · obtain ⟨b, hb, hptr, heq⟩ := hL.kfree_eq hI ha
    rw [heq]
    refine ⟨?_, ?_, ?_⟩
    · intro c hc
      obtain ⟨hc, hne⟩ := List.mem_filter.mp hc
      obtain ⟨hpos, d, hd, hdptr, hdf, hsz⟩ := hL.owned c hc
      have hdb : d ≠ b := by
        rintro rfl
        exact (of_decide_eq_true hne) (hdptr.trans hptr.symm)
      refine ⟨hpos, d, hd, hdptr, ?_⟩
      rw [KHeap.setBlock_ne _ _ hdb]
      exact ⟨hdf, hsz⟩
    · exact hL.nodup.sublist (List.filter_sublist.map _)
    · intro c hc hcf
      have hcb : c ≠ b := by
        rintro rfl
        rw [KHeap.setBlock_self] at hcf
        cases hcf
      rw [KHeap.setBlock_ne _ _ hcb] at hcf
      obtain ⟨d, hd, hdptr⟩ := hL.owner c hc hcf
      refine ⟨d, List.mem_filter.mpr ⟨hd, ?_⟩, hdptr⟩
      exact decide_eq_true fun h => hcb (by omega)

end LiveInv

theorem HeapInv.kfree {e : ℕ} {h : KHeap} {l : List ℕ} {live : List Allocation}
    (hI : HeapInv e h l) (hL : LiveInv h live) {p : ℕ} (hp : p = 0 ∨ ∃ a ∈ live, a.ptr = p) :
    HeapInv e (h.kfree p) l := by
  rcases hp with rfl | ⟨a, ha, rfl⟩
  · exact hI
  · obtain ⟨b, -, -, heq⟩ := hL.kfree_eq hI ha
    rw [heq]
    exact hI.setFree b true fun hb => hI.magic b hb

/-- The carved blocks do not change when a pointer is freed. -/
theorem KHeap.kfree_carved (h : KHeap) (p : ℕ) : (h.kfree p).carved = h.carved := by
  unfold KHeap.kfree
  split
  · rfl
  · dsimp only
    split <;> rfl

/-! ### One call -/

section Call

variable {e n : ℕ} {align : Bool} {s : HeapState} {l : List ℕ}

/-- **A request.** From an invariant state a request of positive size returns a fresh block:
non-`NULL`, aligned if asked for, apart from every block in use. The invariant is kept, and so
is completeness of the list, if what is carved is hung behind its end. -/
theorem request_spec (hI : HeapInv e s.heap l) (hL : LiveInv s.heap s.live) (hn : 0 < n)
    (hw : s.heap.Carves n align → s.heap.carvePoint align + 16 + n < 4294967296)
    (hd : s.heap.Carves n align → s.heap.placementAddress ≤ s.heap.carvePoint align) :
    ∃ p h', s.heap.kmallocInt n align = some (p, h') ∧ p ≠ 0 ∧
      (align = true → p % 4096 = 0) ∧
      (∀ b ∈ s.heap.carved, (s.heap.block b).free = false →
        (Allocation.span ⟨p, n⟩).Apart (s.heap.span b)) ∧
      LiveInv h' (⟨p, n⟩ :: s.live) ∧
      ∃ l', HeapInv e h' l' ∧
        (l = s.heap.carved.reverse →
          (∀ last, s.heap.selectBlock n align = some (0, last) → last ≠ 0 →
            s.heap.next last = 0) → l' = h'.carved.reverse) := by
  -- a carved block lies behind all earlier ones
  have happart : s.heap.Carves n align → ∀ b ∈ s.heap.carved, (s.heap.block b).free = false →
      (Allocation.span ⟨s.heap.carvePoint align + 16, n⟩).Apart (s.heap.span b) := by
    intro hc b hb _
    have hq := hd hc
    have hb' := (hI.within b hb).2
    simp only [Span.Apart, Span.stop, Allocation.span, KHeap.span]
    omega
  have hnew : s.heap.Carves n align → ∀ b ∈ s.heap.carved, b ≠ s.heap.carvePoint align := by
    intro hc b hb
    have hq := hd hc
    have := (hI.within b hb).2
    omega
  have halign : align = true → (s.heap.carvePoint align + 16) % 4096 = 0 := by
    rintro rfl
    exact s.heap.carvePoint_aligned
  rcases kmallocInt_cases hI hn hw with
    ⟨-, b, hb, hfit, hal, heq⟩ | ⟨hc, hnil, heq⟩ | ⟨hc, pre, c, post, hl, hsel, -, heq⟩
  · -- the block was free, so it is none of the blocks in use
    have hbc := hI.mem_carved hb
    refine ⟨_, _, heq, by omega, hal, ?_, hL.reuse hbc hfit hn, l, hI.reuse b, fun h _ => h⟩
    intro c hc hcf
    have hne : b ≠ c := by
      rintro rfl
      rw [hfit.1] at hcf
      cases hcf
    have hin : (Allocation.span ⟨b + 16, n⟩).Within (s.heap.span b) := by
      have := hfit.2
      simp only [Span.Within, Span.stop, Allocation.span, KHeap.span]
      omega
    exact ((hI.apart hbc hc hne).symm.within hin).symm
  · subst hnil
    refine ⟨_, _, heq, by omega, halign, happart hc, hL.carve (hnew hc) hn, _,
      hI.carve_first (hd hc) (hw hc), fun _ _ => ?_⟩
    change [_] = (_ :: s.heap.carved).reverse
    rw [hI.nonempty rfl]
    rfl
  · refine ⟨_, _, heq, by omega, halign, happart hc, hL.carve (hnew hc) hn, _,
      hI.carve hl (hd hc) (hw hc), fun hfull htail => ?_⟩
    have hc0 : c ≠ 0 := (hI.pos (hI.mem_carved (by rw [hl]; simp))).ne'
    have hnext : s.heap.next c = 0 := htail c hsel hc0
    -- a member whose successor is `NULL` is the last one
    have hpost : post = [] := by
      obtain ⟨r, -, -, hr⟩ := seg_append.mp (hl ▸ hI.chain).1
      rw [hnext] at hr
      have hmem : 0 ∉ post := fun hm =>
        (hl ▸ hI.chain).2 (List.mem_append_right _ (List.mem_cons_of_mem _ hm))
      exact Chain.eq_nil ⟨hr, hmem⟩
    subst hpost
    change pre ++ [c, _] = (_ :: s.heap.carved).reverse
    rw [List.reverse_cons, ← hfull, hl]
    simp

end Call

/-! ### Runs -/

section Runs

variable {e n : ℕ} {s : HeapState} {l : List ℕ} {c : HeapCall}

/-- **The step lemma.** A call that frees at most a live pointer, wraps around no address and does
not round down returns and keeps the invariant; if it also hangs a carved block behind the end of
the list, it keeps the list complete. -/
theorem heapStep_inv (hI : HeapInv e s.heap l) (hL : LiveInv s.heap s.live)
    (hf : FreesLive s c) (hw : NoWrap s c) (hd : NoDrop s c) :
    ∃ p t, heapStep s c = .ok (p, t) ∧ LiveInv t.heap t.live ∧
      ∃ l', HeapInv e t.heap l' ∧
        (l = s.heap.carved.reverse → KeepsTail s c → l' = t.heap.carved.reverse) := by
  cases hreq : c.request with
  | none =>
    obtain ⟨p, rfl⟩ : ∃ p, c = .kfree p := by
      cases c <;> simp only [HeapCall.request, reduceCtorEq] at hreq
      exact ⟨_, rfl⟩
    have hp := hf p rfl
    refine ⟨0, _, rfl, hL.kfree hI hp, l, hI.kfree hL hp, fun hfull _ => ?_⟩
    rw [hfull]
    exact congrArg _ (s.heap.kfree_carved p).symm
  | some r =>
    obtain ⟨n, align⟩ := r
    rw [heapStep_request hreq]
    rcases Nat.eq_zero_or_pos n with rfl | hn
    · -- `kmalloc(0)` returns `NULL` and changes nothing
      exact ⟨0, s, rfl, hL, l, hI, fun h _ => h⟩
    · have hdrop : s.heap.Carves n align → s.heap.placementAddress ≤ s.heap.carvePoint align := by
        intro hc
        rw [KHeap.le_carvePoint_iff]
        rintro rfl
        exact hd n hreq hn hc
      obtain ⟨p, h', heq, hp, -, -, hL', l', hI', hfull⟩ :=
        request_spec hI hL hn (hw n align hreq hn) hdrop
      refine ⟨p, ⟨h', ⟨p, n⟩ :: s.live⟩, ?_, hL', l', hI', fun h hk => hfull h ?_⟩
      · rw [heq]
        unfold HeapState.answer
        dsimp only
        rw [if_neg hp]
      · exact fun last => hk n align last hreq hn

/-- The state of a run: an invariant heap with its live allocations. -/
def HeapState.Inv (e : ℕ) (s : HeapState) : Prop :=
  LiveInv s.heap s.live ∧ ∃ l, HeapInv e s.heap l

/-- The state of a run whose list from `global_base` holds every carved block. -/
def HeapState.Complete (e : ℕ) (s : HeapState) : Prop :=
  LiveInv s.heap s.live ∧ HeapInv e s.heap s.heap.carved.reverse

theorem HeapState.Complete.initial (he : 0 < e) (he' : e < 4294967296) :
    HeapState.Complete e (HeapState.init e) :=
  ⟨LiveInv.initial e, HeapInv.initial he he'⟩

theorem HeapState.Complete.inv (h : HeapState.Complete e s) : HeapState.Inv e s :=
  ⟨h.1, _, h.2⟩

/-- **The run lemma.** -/
theorem heap_run_inv {calls : List HeapCall} (hs : HeapState.Inv e s)
    (hm : Meets heapStep (fun s c => FreesLive s c ∧ NoWrap s c ∧ NoDrop s c) s calls) :
    ∃ outs t, runList heapStep s calls = .ok (outs, t) ∧ HeapState.Inv e t := by
  refine runList_progress ?_ hs hm
  rintro s c ⟨hL, l, hI⟩ ⟨hf, hw, hd⟩
  obtain ⟨p, t, heq, hL', l', hI', -⟩ := heapStep_inv hI hL hf hw hd
  exact ⟨p, t, heq, hL', l', hI'⟩

/-- **The run lemma for complete lists.** -/
theorem heap_run_complete {calls : List HeapCall} (hs : HeapState.Complete e s)
    (hm : Meets heapStep
      (fun s c => FreesLive s c ∧ NoWrap s c ∧ NoDrop s c ∧ KeepsTail s c) s calls) :
    ∃ outs t, runList heapStep s calls = .ok (outs, t) ∧ HeapState.Complete e t := by
  refine runList_progress ?_ hs hm
  rintro s c ⟨hL, hI⟩ ⟨hf, hw, hd, hk⟩
  obtain ⟨p, t, heq, hL', l', hI', hfull⟩ := heapStep_inv hI hL hf hw hd
  exact ⟨p, t, heq, hL', hfull rfl hk ▸ hI'⟩

/-- In a complete list a request without alignment carves behind the end. -/
theorem KeepsTail.of_unaligned (hI : HeapInv e s.heap l) (hc : Unaligned c) : KeepsTail s c := by
  intro n align last hreq hn hsel hlast
  have halign : align = false := by
    cases align with
    | false => rfl
    | true => exact absurd hreq (hc n)
  rcases selectBlock_cases hI n align with
    ⟨b, last', hb, -, -, hsel'⟩ | ⟨-, hsel'⟩ | ⟨pre, d, post, hl, hsel', hpost⟩
  · -- a reused block is not `NULL`
    rw [hsel] at hsel'
    simp only [Option.some.injEq, Prod.mk.injEq] at hsel'
    exact absurd hsel'.1.symm (hI.pos (hI.mem_carved hb)).ne'
  · rw [hsel] at hsel'
    simp only [Option.some.injEq, Prod.mk.injEq, true_and] at hsel'
    exact absurd hsel' hlast
  · rw [hsel] at hsel'
    simp only [Option.some.injEq, Prod.mk.injEq, true_and] at hsel'
    rw [(hpost halign).1] at hl
    rw [hsel']
    exact (hl ▸ hI.chain).next_last

end Runs

end VibeKernel
