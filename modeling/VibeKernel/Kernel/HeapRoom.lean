import VibeKernel.Heap.Discipline
import VibeKernel.Kernel.LowHeap
import VibeKernel.Kernel.Room

/-!
# The room of the kernel's own heap

The two allocators of the kernel work on the heap of `kheap.c`, on all heaps or on those in the
identity-mapped memory; a `HeapView` is what they have in common. `HeapSound` is the invariant of
that heap with its live blocks, and it stays when any word is freed.

Each request may be served by a freed block or by a new one behind all others. So there is room for
a list of requests if all of them fit behind the placement address (`roomNeeded`), and if none that
asks for a page-aligned block can find the placement address in the last bytes of a page, where the
rounding goes down into the block in front (`PagesFit`).
-/

namespace VibeKernel

open Verif

variable {H D : Type}

/-! ### Freeing any word -/

section Free

variable {e : ℕ} {h : KHeap} {l : List ℕ} {live : List Allocation} {p : ℕ}

/-- The word in front of whose header a block lies. -/
theorem eq_add_of_u32Sub {b : ℕ} (hp : p < 4294967296) (hb : b + 16 < 4294967296)
    (h : b = u32Sub p 16) : p = b + 16 := by
  have h16 : u32 16 = 16 := u32_of_lt (by norm_num)
  unfold u32Sub at h
  rw [h16, u32_eq] at h
  omega

/-- Freeing a word that is no live pointer changes no block that is in use. -/
theorem LiveInv.kfree_other (hI : HeapInv e h l) (hL : LiveInv h live) (hp : p < 4294967296)
    (hnot : ∀ a ∈ live, a.ptr ≠ p) : LiveInv (h.kfree p) live := by
  have hfreed : ∀ c, h.kfree p = h.setBlock c { h.block c with free := true } →
      (∀ b ∈ h.carved, (h.block b).free = false → b ≠ c) → LiveInv (h.kfree p) live := by
    intro c heq hother
    rw [heq]
    refine ⟨fun a ha => ?_, hL.nodup, fun b hb hbf => ?_⟩
    · obtain ⟨hpos, b, hb, hptr, hbf, hsz⟩ := hL.owned a ha
      refine ⟨hpos, b, hb, hptr, ?_⟩
      rw [KHeap.setBlock_ne _ _ (hother b hb hbf)]
      exact ⟨hbf, hsz⟩
    · by_cases hbc : b = c
      · subst hbc
        rw [KHeap.setBlock_self] at hbf
        cases hbf
      · rw [KHeap.setBlock_ne _ _ hbc] at hbf
        exact hL.owner b hb hbf
  -- the block in front of the word is not in use
  have hfree : ∀ b ∈ h.carved, (h.block b).free = false → b ≠ u32Sub p 16 := by
    intro b hb hbf heq
    obtain ⟨a, ha, hptr⟩ := hL.owner _ hb hbf
    exact hnot a ha (hptr.trans (eq_add_of_u32Sub hp (hI.add_lt hb) heq).symm)
  by_cases h0 : p = 0
  · unfold KHeap.kfree
    rw [if_pos h0]
    exact hL
  by_cases hmagic : (h.block (u32Sub p 16)).magic ≠ magicCarved ∧
      (h.block (u32Sub p 16)).magic ≠ magicReused
  · unfold KHeap.kfree
    rw [if_neg h0, if_pos hmagic]
    exact hL
  · refine hfreed (u32Sub p 16) ?_ hfree
    unfold KHeap.kfree
    rw [if_neg h0, if_neg hmagic]

/-- Freeing any word keeps the live blocks in step with the heap. -/
theorem LiveInv.kfree_any (hI : HeapInv e h l) (hL : LiveInv h live) (hp : p < 4294967296) :
    LiveInv (h.kfree p) (live.filter fun a => a.ptr ≠ p) := by
  by_cases hlive : ∃ a ∈ live, a.ptr = p
  · exact hL.kfree hI (.inr hlive)
  · have hnot : ∀ a ∈ live, a.ptr ≠ p := fun a ha hap => hlive ⟨a, ha, hap⟩
    rw [List.filter_eq_self.mpr fun a ha => decide_eq_true (hnot a ha)]
    exact hL.kfree_other hI hp hnot

/-- Where a block comes from: it was carved before, or it is put behind the placement address. -/
theorem kmallocInt_placement {n : ℕ} {align : Bool} {h' : KHeap} (hI : HeapInv e h l) (hn : 0 < n)
    (hw : h.Carves n align → h.carvePoint align + 16 + n < 4294967296)
    (hans : h.kmallocInt n align = some (p, h')) :
    (h'.placementAddress = h.placementAddress ∧ e + 16 ≤ p ∧ p + n ≤ h.placementAddress) ∨
      (h'.placementAddress = h.carvePoint align + 16 + n ∧ p = h.carvePoint align + 16) := by
  rcases kmallocInt_cases hI hn hw with
    ⟨-, b, hb, hfit, -, heq⟩ | ⟨-, -, heq⟩ | ⟨-, pre, c, post, -, -, -, heq⟩
  · rw [hans] at heq
    obtain ⟨rfl, rfl⟩ := Prod.mk.inj (Option.some.inj heq)
    have hin := hI.within b (hI.mem_carved hb)
    have hsize := hfit.2
    exact .inl ⟨rfl, by omega, by omega⟩
  · rw [hans] at heq
    obtain ⟨rfl, rfl⟩ := Prod.mk.inj (Option.some.inj heq)
    exact .inr ⟨rfl, rfl⟩
  · rw [hans] at heq
    obtain ⟨rfl, rfl⟩ := Prod.mk.inj (Option.some.inj heq)
    exact .inr ⟨rfl, rfl⟩

end Free

/-! ### Allocators on the kernel's heap -/

/-- An allocator that works on the heap of the kernel, as far as its blocks stay in the
identity-mapped memory. -/
structure HeapView (A : Allocator H) where
  view : H → KHeap
  kmalloc : ∀ {n align h p h'}, 0 < n → (view h).kmallocInt n align = some (p, h') →
    p + n ≤ identityTop → ∃ k, A.kmallocInt n align h = some (p, k) ∧ view k = h'
  kmalloc_zero : ∀ align h, ∃ k, A.kmallocInt 0 align h = some (0, k) ∧ view k = view h
  kfree : ∀ p h, view (A.kfree p h) = (view h).kfree p

/-- The heap of the kernel. -/
def kheapView : HeapView kheap where
  view := id
  kmalloc _ hans _ := ⟨_, hans, rfl⟩
  kmalloc_zero _ h := ⟨h, rfl, rfl⟩
  kfree _ _ := rfl

/-- The heap of the kernel in the identity-mapped memory. -/
def lowKheapView : HeapView lowKheap where
  view h := h.1
  kmalloc := by
    intro n align h p h' hn hans htop
    refine ⟨⟨h', (h.2.kmallocInt hn.ne' hans).2 htop⟩, ?_, rfl⟩
    change LowHeap.kmallocInt n align h = _
    unfold LowHeap.kmallocInt
    split
    · rename_i hnone
      rw [hans] at hnone
      cases hnone
    · rename_i q h'' hsome
      rw [hans] at hsome
      obtain ⟨rfl, rfl⟩ := Prod.mk.inj (Option.some.inj hsome)
      rw [dif_neg hn.ne', dif_pos htop]
  kmalloc_zero align h := by
    refine ⟨h, ?_, rfl⟩
    change LowHeap.kmallocInt 0 align h = _
    unfold LowHeap.kmallocInt
    split
    · rename_i hnone
      cases hnone
    · rename_i p h'' hsome
      cases hsome
      rw [dif_pos rfl]
  kfree _ _ := rfl

/-- The heap with the live blocks of the kernel is sound. -/
structure HeapSound {M : Machine H D} (V : HeapView M.heap) (s : Kernel H D) : Prop where
  live : LiveInv (V.view s.heap) s.live
  blocks : ∃ e l, M.imageEnd ≤ e ∧ HeapInv e (V.view s.heap) l

section Sound

variable {M : Machine H D} {V : HeapView M.heap} {s : Kernel H D}

/-- The first state of the kernel. -/
theorem HeapSound.boot {h : H} (hview : V.view h = KHeap.init M.imageEnd)
    (hend : 0 < M.imageEnd ∧ M.imageEnd < 4294967296) (d : D) : HeapSound V (Kernel.boot h d) where
  live := by
    change LiveInv (V.view h) []
    rw [hview]
    exact LiveInv.initial _
  blocks := by
    refine ⟨M.imageEnd, [], le_refl _, ?_⟩
    change HeapInv _ (V.view h) []
    rw [hview]
    exact HeapInv.initial hend.1 hend.2

theorem HeapSound.freed (hS : HeapSound V s) {p : ℕ} (hp : p < 4294967296) :
    HeapSound V (s.freed M p) := by
  obtain ⟨e, l, he, hI⟩ := hS.blocks
  have hview : V.view (s.freed M p).heap = (V.view s.heap).kfree p := V.kfree p s.heap
  refine ⟨?_, e, l, he, ?_⟩
  · rw [hview]
    exact hS.live.kfree_any hI hp
  · rw [hview]
    exact hI.kfree_any p

theorem HeapSound.freedAll : ∀ (ps : List ℕ) {s : Kernel H D}, (∀ p ∈ ps, p < 4294967296) →
    HeapSound V s → HeapSound V (s.freedAll M ps) ∧
      (V.view (s.freedAll M ps).heap).placementAddress = (V.view s.heap).placementAddress := by
  intro ps
  induction ps with
  | nil => exact fun _ hS => ⟨hS, rfl⟩
  | cons p ps ih =>
    intro s hps hS
    rw [List.forall_mem_cons] at hps
    obtain ⟨hS', hplace⟩ := ih hps.2 (hS.freed hps.1)
    refine ⟨hS', hplace.trans ?_⟩
    rw [show V.view (s.freed M p).heap = (V.view s.heap).kfree p from V.kfree p s.heap]
    exact KHeap.kfree_placement _ _

end Sound

/-! ### How much room requests need -/

/-- The bytes behind the placement address that new blocks for all requests take at most. -/
def roomNeeded (rs : List Request) : ℕ :=
  (rs.map fun r => 16 + r.size + if r.align then 4095 else 0).sum

/-- With the placement address at most at the offset `o` of its page, no page-aligned request finds
it behind the offset `4080`, whichever requests are served by new blocks. -/
def PagesFit : List Request → ℕ → Prop
  | [], _ => True
  | ⟨n, false⟩ :: rs, o => PagesFit rs (o + 16 + n)
  | ⟨n, true⟩ :: rs, o => o ≤ 4080 ∧ PagesFit rs (max o (n % 4096))

instance PagesFit.decidable : ∀ (rs : List Request) (o : ℕ), Decidable (PagesFit rs o)
  | [], _ => inferInstanceAs (Decidable True)
  | ⟨n, false⟩ :: rs, o => PagesFit.decidable rs (o + 16 + n)
  | ⟨n, true⟩ :: rs, o =>
    have := PagesFit.decidable rs (max o (n % 4096))
    inferInstanceAs (Decidable (_ ∧ _))

/-- A smaller offset is better. -/
theorem PagesFit.anti : ∀ {rs : List Request} {o o' : ℕ}, o ≤ o' → PagesFit rs o' →
    PagesFit rs o := by
  intro rs
  induction rs with
  | nil => exact fun _ _ => trivial
  | cons r rs ih =>
    obtain ⟨n, align⟩ := r
    intro o o' hle h
    cases align with
    | false => exact ih (by omega) h
    | true => exact ⟨hle.trans h.1, ih (max_le_max_right _ hle) h.2⟩

/-- A request need not be made. -/
theorem PagesFit.skip {r : Request} {rs : List Request} {o : ℕ} (h : PagesFit (r :: rs) o) :
    PagesFit rs o := by
  obtain ⟨n, align⟩ := r
  cases align with
  | false => exact PagesFit.anti (by omega) h
  | true => exact PagesFit.anti (le_max_left _ _) h.2

section RoomFor

variable {M : Machine H D} {V : HeapView M.heap}

/-- The placement address leaves room for the requests. -/
structure RoomBehind (V : HeapView M.heap) (rs : List Request) (o : ℕ) (s : Kernel H D) : Prop where
  sound : HeapSound V s
  space : (V.view s.heap).placementAddress + roomNeeded rs ≤ identityTop
  offset : (V.view s.heap).placementAddress % 4096 ≤ o
  pages : PagesFit rs o

theorem roomNeeded_cons (n : ℕ) (align : Bool) (rs : List Request) :
    roomNeeded (⟨n, align⟩ :: rs) = 16 + n + (if align then 4095 else 0) + roomNeeded rs := rfl

variable {rs : List Request} {n o : ℕ} {align : Bool} {s : Kernel H D}

theorem RoomBehind.skip (h : RoomBehind V (⟨n, align⟩ :: rs) o s) : RoomBehind V rs o s where
  sound := h.sound
  space := by
    have := h.space
    rw [roomNeeded_cons] at this
    omega
  offset := h.offset
  pages := h.pages.skip

/-- A new block goes behind the placement address, and stays in the memory. -/
theorem RoomBehind.carvePoint (h : RoomBehind V (⟨n, align⟩ :: rs) o s) :
    (V.view s.heap).placementAddress ≤ (V.view s.heap).carvePoint align ∧
      (V.view s.heap).carvePoint align + 16 + n + roomNeeded rs ≤ identityTop := by
  have hspace := h.space
  have hoffset := h.offset
  rw [roomNeeded_cons] at hspace
  rw [KHeap.le_carvePoint_iff]
  cases align with
  | false =>
    rw [KHeap.carvePoint_false]
    exact ⟨nofun, by simpa using by omega⟩
  | true =>
    have hpage : o ≤ 4080 := h.pages.1
    refine ⟨fun _ => hoffset.trans hpage, ?_⟩
    unfold KHeap.carvePoint
    rw [if_pos rfl] at hspace
    split <;> omega

/-- **A request is answered**, and there is room for the others behind it. -/
theorem RoomBehind.answered (h : RoomBehind V (⟨n, align⟩ :: rs) o s) (P : Kernel H D → Prop)
    (hP : ∀ t o', RoomBehind V rs o' t → P t) : Answered M ⟨n, align⟩ P s := by
  obtain ⟨e, l, he, hI⟩ := h.sound.blocks
  rcases Nat.eq_zero_or_pos n with rfl | hn
  · -- nothing is asked for
    obtain ⟨k, hans, hview⟩ := V.kmalloc_zero align s.heap
    refine ⟨0, k, hans, .inl ⟨rfl, rfl, hP _ o ?_⟩⟩
    have hskip := h.skip
    exact ⟨⟨hview ▸ hskip.sound.live, hview ▸ hskip.sound.blocks⟩, hview ▸ hskip.space,
      hview ▸ hskip.offset, hskip.pages⟩
  obtain ⟨hle, hend⟩ := h.carvePoint
  have htop : identityTop = 67108864 := rfl
  have hwrap : (V.view s.heap).carvePoint align + 16 + n < 4294967296 := by omega
  obtain ⟨p, h', hans, hp, halign, hapart, hL', l', hI', -⟩ :=
    @request_spec e n align ⟨V.view s.heap, s.live⟩ l hI h.sound.live hn (fun _ => hwrap)
      fun _ => hle
  have hplace := kmallocInt_placement (e := e) hI hn (fun _ => by omega) hans
  have hstart := hI.room
  have hspace := h.space
  rw [roomNeeded_cons] at hspace
  have hpend : e + 16 ≤ p ∧ p + n ≤ identityTop := by
    rcases hplace with ⟨-, hlow, hhigh⟩ | ⟨-, rfl⟩
    · exact ⟨hlow, by omega⟩
    · exact ⟨by omega, by omega⟩
  obtain ⟨k, hk, hview⟩ := V.kmalloc hn hans hpend.2
  refine ⟨p, k, hk, .inr ⟨hp, hpend.2, ⟨by omega, halign, fun a ha => ?_⟩, ?_⟩⟩
  · -- the block of a live pointer is in use
    obtain ⟨b, hb, -, hbf, hin⟩ := h.sound.live.span_within ha
    exact (hapart b hb hbf).within hin
  have hsound : HeapSound V (s.withBlock k p n) :=
    ⟨by change LiveInv (V.view k) _; rw [hview]; exact hL',
      e, l', he, by change HeapInv e (V.view k) l'; rw [hview]; exact hI'⟩
  have hheap : V.view (s.withBlock k p n).heap = h' := hview
  rcases hplace with ⟨hsame, -, -⟩ | ⟨hnew, -⟩
  · exact hP _ o ⟨hsound, by rw [hheap, hsame]; omega, by rw [hheap, hsame]; exact h.offset,
      h.pages.skip⟩
  · cases align with
    | false =>
      refine hP _ (o + 16 + n) ⟨hsound, by rw [hheap, hnew]; omega, ?_, h.pages⟩
      have hoffset := h.offset
      rw [hheap, hnew, KHeap.carvePoint_false]
      omega
    | true =>
      refine hP _ (max o (n % 4096)) ⟨hsound, by rw [hheap, hnew]; omega, ?_, h.pages.2⟩
      have hpage := KHeap.carvePoint_aligned (V.view s.heap)
      rw [hheap, hnew]
      refine le_max_of_le_right ?_
      omega

/-- **There is room** for requests that fit behind the placement address. -/
theorem RoomBehind.hasRoom : ∀ {rs : List Request} {o : ℕ} {s : Kernel H D},
    RoomBehind V rs o s → RoomFor M rs s := by
  intro rs
  induction rs with
  | nil => exact fun _ => trivial
  | cons r rs ih =>
    intro o s h ps hps
    obtain ⟨hsound, hplace⟩ := h.sound.freedAll ps hps
    have hfreed : RoomBehind V (r :: rs) o (s.freedAll M ps) :=
      ⟨hsound, hplace ▸ h.space, hplace ▸ h.offset, h.pages⟩
    exact ⟨ih hfreed.skip, hfreed.answered _ fun _ _ => ih⟩

/-- The room of the first state. -/
theorem RoomFor.boot (V : HeapView M.heap) {h : H} (hview : V.view h = KHeap.init M.imageEnd)
    (hend : 0 < M.imageEnd ∧ M.imageEnd + roomNeeded rs ≤ identityTop)
    (hpages : PagesFit rs (M.imageEnd % 4096)) (d : D) : RoomFor M rs (Kernel.boot h d) := by
  have hplace : (V.view (Kernel.boot h d).heap).placementAddress = M.imageEnd :=
    congrArg KHeap.placementAddress hview
  have htop : identityTop = 67108864 := rfl
  refine RoomBehind.hasRoom (V := V) (o := M.imageEnd % 4096)
    ⟨HeapSound.boot hview ⟨hend.1, by omega⟩ d, ?_, ?_, hpages⟩
  · rw [hplace]
    exact hend.2
  · rw [hplace]

end RoomFor

end VibeKernel
