import VibeKernel.Kernel.State

/-!
# Blocks, structures and frames

`ArenaInv` is what the checks at each allocation add up to: the live blocks lie apart from each
other in the identity-mapped memory behind the kernel image, and every structure lies in a live
block. So a new block is none of the old ones, and writing to it changes no structure.

`Frame K s t` says that going from `s` to `t` left alone every block that holds no structure of the
kinds in `K`, and the static variables of the other parts of the kernel. It is what one part of the
kernel promises to the rest: an invariant of a part is an invariant of every step that frames it
(`Frame.trans` composes them).
-/

namespace VibeKernel

open Verif

variable {H D α : Type}

/-- An allocation failed: the allocator does not return, the block is out of reach, or its answer
cannot be used. -/
def Stop.AllocFails (e : Stop) : Prop := e = .diverges ∨ e = .pageFault ∨ e = .badBlock

/-- The machine hangs, or an exception handler has halted it. -/
def Stop.Halts (e : Stop) : Prop := e = .diverges ∨ e = .pageFault ∨ e = .divideError

/-- The computation keeps to its blocks: it completes, or the machine is halted. At the other stops
the code of the kernel would go on, with an answer of the allocator that it cannot use, or in memory
that it does not own. -/
def KeepsToBlocks (x : KM H D α) (s : Kernel H D) : Prop := ∀ e, x s = .error e → e.Halts

theorem KeepsToBlocks.of_ok {x : KM H D α} {s : Kernel H D} {r : α × Kernel H D} (h : x s = .ok r) :
    KeepsToBlocks x s := by
  intro e he
  rw [h] at he
  cases he

/-- The live blocks are apart and hold the structures. -/
structure ArenaInv (M : Machine H D) (s : Kernel H D) : Prop where
  low : ∀ a ∈ s.live, M.imageEnd + 16 ≤ a.ptr
  high : ∀ a ∈ s.live, a.ptr + a.size ≤ identityTop
  apart : s.live.Pairwise fun a b => a.span.Apart b.span
  stored : ∀ p o, s.store p = some o → ∃ a ∈ s.live, a.ptr = p ∧ o.size ≤ a.size

/-- Blocks without a structure of a kind in `K`, and the static variables of other parts, are
unchanged. -/
structure Frame (K : Kind → Prop) (s t : Kernel H D) : Prop where
  blocks : ∀ a ∈ s.live, (∀ o, s.store a.ptr = some o → ¬ K o.kind) →
    a ∈ t.live ∧ t.store a.ptr = s.store a.ptr
  fs : ¬ K .fs → t.fs = s.fs ∧ t.drives = s.drives
  proc : ¬ K .process → t.proc = s.proc
  tasks : ¬ K .task → t.tasks = s.tasks

namespace Frame

variable {K K' : Kind → Prop} {s t u : Kernel H D}

theorem refl (K : Kind → Prop) (s : Kernel H D) : Frame K s s where
  blocks := fun _ ha _ => ⟨ha, rfl⟩
  fs := fun _ => ⟨rfl, rfl⟩
  proc := fun _ => rfl
  tasks := fun _ => rfl

theorem trans (h₁ : Frame K s t) (h₂ : Frame K t u) : Frame K s u where
  blocks := by
    intro a ha hK
    obtain ⟨ha', hst⟩ := h₁.blocks a ha hK
    -- the block still holds what it held, so the second step leaves it alone too
    obtain ⟨ha'', htu⟩ := h₂.blocks a ha' (by rw [hst]; exact hK)
    exact ⟨ha'', htu.trans hst⟩
  fs hK := ⟨(h₂.fs hK).1.trans (h₁.fs hK).1, (h₂.fs hK).2.trans (h₁.fs hK).2⟩
  proc hK := (h₂.proc hK).trans (h₁.proc hK)
  tasks hK := (h₂.tasks hK).trans (h₁.tasks hK)

theorem mono (h : Frame K s t) (hK : ∀ k, K k → K' k) : Frame K' s t where
  blocks a ha ho := h.blocks a ha fun o hs hk => ho o hs (hK _ hk)
  fs hn := h.fs fun hk => hn (hK _ hk)
  proc hn := h.proc fun hk => hn (hK _ hk)
  tasks hn := h.tasks fun hk => hn (hK _ hk)

end Frame

namespace ArenaInv

variable {M : Machine H D} {s : Kernel H D} {n p : ℕ} {align : Bool}

theorem boot (h : H) (d : D) : ArenaInv M (Kernel.boot h d) where
  low := by simp [Kernel.boot]
  high := by simp [Kernel.boot]
  apart := List.Pairwise.nil
  stored := by simp [Kernel.boot]

/-- Two live blocks with one address are one block. -/
theorem unique (hA : ArenaInv M s) {a b : Allocation} (ha : a ∈ s.live) (hb : b ∈ s.live)
    (hab : a.ptr = b.ptr) : a = b := by
  by_contra hne
  have happ : a.span.Apart b.span := Span.apart_of_mem hA.apart ha hb hne
  simp only [Span.Apart, Span.stop, Allocation.span] at happ
  omega

/-- A structure lies in a live block, which is not at `NULL`. -/
theorem ne_zero (hA : ArenaInv M s) {p : ℕ} {o : Obj} (h : s.store p = some o) : p ≠ 0 := by
  obtain ⟨a, ha, rfl, -⟩ := hA.stored p o h
  have := hA.low a ha
  omega

/-- A usable block is at none of the addresses of live blocks. -/
theorem usable_ne (hU : Usable M s n align p) {a : Allocation} (ha : a ∈ s.live) : a.ptr ≠ p := by
  have happ := hU.2.2 a ha
  have hlow := hU.1
  simp only [Span.Apart, Span.stop, Allocation.span] at happ
  omega

theorem usable_store (hA : ArenaInv M s) (hU : Usable M s n align p) : s.store p = none := by
  cases hs : s.store p with
  | none => rfl
  | some o =>
    obtain ⟨a, ha, hp, -⟩ := hA.stored p o hs
    exact absurd hp (usable_ne hU ha)

/-- A usable block joins the live blocks. -/
theorem withBlock (hA : ArenaInv M s) (hU : Usable M s n align p) (htop : p + n ≤ identityTop)
    (h : H) : ArenaInv M (s.withBlock h p n) where
  low := List.forall_mem_cons.mpr ⟨hU.1, hA.low⟩
  high := List.forall_mem_cons.mpr ⟨htop, hA.high⟩
  apart := List.pairwise_cons.mpr ⟨hU.2.2, hA.apart⟩
  stored q o hq := by
    obtain ⟨a, ha, hp⟩ := hA.stored q o hq
    exact ⟨a, List.mem_cons_of_mem _ ha, hp⟩

/-- Writing a structure that fits. -/
theorem put (hA : ArenaInv M s) {o : Obj} (hfit : ∃ a ∈ s.live, a.ptr = p ∧ o.size ≤ a.size) :
    ArenaInv M (s.put p o) where
  low := hA.low
  high := hA.high
  apart := hA.apart
  stored q o' hq := by
    unfold Kernel.put at hq
    dsimp only at hq
    by_cases hqp : q = p
    · rw [hqp, Function.update_self] at hq
      cases hq
      rw [hqp]
      exact hfit
    · rw [Function.update_of_ne hqp] at hq
      exact hA.stored q o' hq

/-- Overwriting a structure with one of the same size. -/
theorem overwrite (hA : ArenaInv M s) {o o' : Obj} (h : s.store p = some o')
    (hsize : o.size = o'.size) : ArenaInv M (s.put p o) :=
  hA.put (hsize ▸ hA.stored p o' h)

theorem freed (hA : ArenaInv M s) : ArenaInv M (s.freed M p) where
  low a ha := hA.low a (List.mem_of_mem_filter ha)
  high a ha := hA.high a (List.mem_of_mem_filter ha)
  apart := hA.apart.filter _
  stored q o hq := by
    unfold Kernel.freed at hq
    dsimp only at hq
    by_cases hqp : q = p
    · rw [hqp, Function.update_self] at hq
      cases hq
    · rw [Function.update_of_ne hqp] at hq
      obtain ⟨a, ha, rfl, hsize⟩ := hA.stored q o hq
      exact ⟨a, List.mem_filter.mpr ⟨ha, decide_eq_true hqp⟩, rfl, hsize⟩

end ArenaInv

/-! ### What the operations change -/

/-- The block at `p`, if there is one, holds a structure of a kind in `K`. -/
def MayChange (K : Kind → Prop) (s : Kernel H D) (p : ℕ) : Prop :=
  ∀ a ∈ s.live, a.ptr = p → ∃ o, s.store p = some o ∧ K o.kind

section Change

variable {M : Machine H D} {K : Kind → Prop} {s t : Kernel H D} {n p q : ℕ} {align : Bool} {o : Obj}

theorem MayChange.of_store (h : s.store p = some o) (hK : K o.kind) : MayChange K s p :=
  fun _ _ _ => ⟨o, h, hK⟩

theorem MayChange.of_usable (hU : Usable M s n align p) : MayChange K s p :=
  fun _ ha hp => absurd hp (ArenaInv.usable_ne hU ha)

@[simp] theorem Kernel.put_store_self : (s.put p o).store p = some o := Function.update_self _ _ _

theorem Kernel.put_store_ne (h : q ≠ p) : (s.put p o).store q = s.store q :=
  Function.update_of_ne h _ _

theorem Kernel.freed_store_ne (h : q ≠ p) : (s.freed M p).store q = s.store q :=
  Function.update_of_ne h _ _

/-- A new block changes nothing. -/
theorem Frame.withBlock (hF : Frame K s t) (h : H) : Frame K s (t.withBlock h p n) where
  blocks a ha hK := ⟨List.mem_cons_of_mem _ (hF.blocks a ha hK).1, (hF.blocks a ha hK).2⟩
  fs := hF.fs
  proc := hF.proc
  tasks := hF.tasks

/-- Writing at an address that was not in use, or held a structure of a kind in `K`. -/
theorem Frame.put (hF : Frame K s t) (hp : MayChange K s p) : Frame K s (t.put p o) where
  blocks := by
    intro a ha hK
    have hne : a.ptr ≠ p := by
      intro hap
      obtain ⟨o', ho', hk⟩ := hp a ha hap
      exact hK o' (hap ▸ ho') hk
    refine ⟨(hF.blocks a ha hK).1, ?_⟩
    rw [Kernel.put_store_ne hne]
    exact (hF.blocks a ha hK).2
  fs := hF.fs
  proc := hF.proc
  tasks := hF.tasks

/-- Freeing a block that was not in use, or held a structure of a kind in `K`. -/
theorem Frame.freed (hF : Frame K s t) (hp : MayChange K s p) : Frame K s (t.freed M p) where
  blocks := by
    intro a ha hK
    have hne : a.ptr ≠ p := by
      intro hap
      obtain ⟨o', ho', hk⟩ := hp a ha hap
      exact hK o' (hap ▸ ho') hk
    refine ⟨List.mem_filter.mpr ⟨(hF.blocks a ha hK).1, decide_eq_true hne⟩, ?_⟩
    rw [Kernel.freed_store_ne hne]
    exact (hF.blocks a ha hK).2
  fs := hF.fs
  proc := hF.proc
  tasks := hF.tasks

/-- A structure of a protected kind is still there. -/
theorem Frame.store_eq (hF : Frame K s t) (hA : ArenaInv M s) (h : s.store p = some o)
    (hK : ¬ K o.kind) : t.store p = some o := by
  obtain ⟨a, ha, rfl, -⟩ := hA.stored p o h
  rw [(hF.blocks a ha (by rw [h]; rintro _ ⟨⟩; exact hK)).2, h]

end Change

/-! ### Specifications of the basic operations -/

section Basic

variable {M : Machine H D} {E : Stop → Prop} {s : Kernel H D} {n p : ℕ} {align : Bool} {o : Obj}

/-- An allocation returns what the allocator answers: `NULL` or a usable block. -/
theorem kmallocInt_wp_answer (hE : ∀ e, e.AllocFails → E e) {Q : ℕ → Kernel H D → Prop}
    (hnull : ∀ h, M.heap.kmallocInt n align s.heap = some (0, h) → Q 0 { s with heap := h })
    (hblock : ∀ p h, M.heap.kmallocInt n align s.heap = some (p, h) → p ≠ 0 →
      Usable M s n align p → p + n ≤ identityTop → Q p (s.withBlock h p n)) :
    wp E (kmallocInt M n align) Q s := by
  unfold wp kmallocInt
  cases hans : M.heap.kmallocInt n align s.heap with
  | none => exact hE _ (Or.inl rfl)
  | some r =>
    obtain ⟨p, h⟩ := r
    dsimp only
    by_cases hp : p = 0
    · rw [if_pos hp]
      subst hp
      exact hnull h hans
    · rw [if_neg hp]
      by_cases htop : identityTop < p + n
      · rw [if_pos htop]
        exact hE _ (Or.inr (Or.inl rfl))
      · rw [if_neg htop]
        by_cases hU : Usable M s n align p
        · rw [if_pos hU]
          exact hblock p h hans hp hU (Nat.le_of_not_lt htop)
        · rw [if_neg hU]
          exact hE _ (Or.inr (Or.inr rfl))

/-- An allocation returns `NULL` or a usable block. -/
theorem kmallocInt_wp (hE : ∀ e, e.AllocFails → E e) {Q : ℕ → Kernel H D → Prop}
    (hnull : ∀ h, Q 0 { s with heap := h })
    (hblock : ∀ p h, p ≠ 0 → Usable M s n align p → p + n ≤ identityTop →
      Q p (s.withBlock h p n)) :
    wp E (kmallocInt M n align) Q s :=
  kmallocInt_wp_answer hE (fun h _ => hnull h) fun p h _ => hblock p h

theorem kmallocUnchecked_wp (hE : ∀ e, e.AllocFails → E e) {Q : ℕ → Kernel H D → Prop}
    (hblock : ∀ p h, p ≠ 0 → Usable M s n align p → p + n ≤ identityTop →
      Q p (s.withBlock h p n)) :
    wp E (kmallocUnchecked M n align) Q s := by
  unfold kmallocUnchecked
  rw [wp_bind]
  refine kmallocInt_wp hE (fun h => ?_) fun p h hp hU htop => ?_
  · rw [if_pos rfl]
    exact hE _ (Or.inr (Or.inr rfl))
  · rw [if_neg hp]
    exact hblock p h hp hU htop

theorem kfree_wp {Q : Unit → Kernel H D → Prop} (hnull : p = 0 → Q () s)
    (hfreed : p ≠ 0 → Q () (s.freed M p)) : wp E (kfree M p) Q s := by
  unfold kfree
  rw [wp_modify]
  split
  · exact hnull ‹_›
  · exact hfreed ‹_›

theorem readObj_wp {proj : Obj → Option α} {x : α} {Q : α → Kernel H D → Prop}
    (h : s.store p = some o) (hproj : proj o = some x) (hQ : Q x s) :
    wp E (readObj proj p) Q s := by
  unfold wp readObj
  rw [h, Option.bind_some, hproj]
  exact hQ

theorem writeObj_wp {Q : Unit → Kernel H D → Prop}
    (hfit : ∃ a ∈ s.live, a.ptr = p ∧ o.size ≤ a.size) (hQ : Q () (s.put p o)) :
    wp E (writeObj p o) Q s := by
  unfold wp writeObj
  rw [if_pos hfit]
  exact hQ

/-- Overwriting a structure with one of the same size. -/
theorem overwrite_wp (hA : ArenaInv M s) {w : Obj} {Q : Unit → Kernel H D → Prop}
    (h : s.store p = some w) (hsize : o.size = w.size) (hQ : Q () (s.put p o)) :
    wp E (writeObj p o) Q s := by
  refine writeObj_wp ?_ hQ
  rw [hsize]
  exact hA.stored p w h

/-- Clearing a block. -/
theorem clearBlock_wp {Q : Unit → Kernel H D → Prop} (hlive : ⟨p, n⟩ ∈ s.live)
    (hQ : Q () (s.put p (.bytes n fun _ => 0))) : wp E (clearBlock p n) Q s :=
  writeObj_wp ⟨_, hlive, rfl, le_refl _⟩ hQ

/-- Writing into a block of bytes from its start on, which leaves the block if it is too short. -/
theorem writeBytes_wp {bs : List UInt8} {cells : ℕ → UInt8} {Q : Unit → Kernel H D → Prop}
    (hstore : s.store p = some (.bytes n cells)) (hlive : ⟨p, n⟩ ∈ s.live)
    (hover : n < bs.length → E .overrun)
    (hQ : bs.length ≤ n →
      Q () (s.put p (.bytes n fun i => if h : i < bs.length then bs[i] else cells i))) :
    wp E (writeBytes p bs) Q s := by
  unfold writeBytes
  by_cases hnil : bs = []
  · subst hnil
    have hsame : s.put p (.bytes n fun i => if h : i < ([] : List UInt8).length then [][i]
        else cells i) =
        s := by
      have hcells : (fun i => if h : i < ([] : List UInt8).length then [][i]
          else cells i) = cells :=
        funext fun i => dif_neg (Nat.not_lt_zero i)
      unfold Kernel.put
      rw [hcells, ← hstore, Function.update_eq_self]
    rw [if_pos rfl]
    rw [hsame] at hQ
    exact hQ (Nat.zero_le n)
  · rw [if_neg hnil, wp_bind, wp_gets]
    dsimp only [id]
    rw [hstore]
    change wp E (if n < bs.length then Exec.stop .overrun else _) Q s
    by_cases hlong : n < bs.length
    · rw [if_pos hlong]
      exact hover hlong
    · rw [if_neg hlong]
      exact writeObj_wp ⟨_, hlive, rfl, le_refl _⟩ (hQ (Nat.le_of_not_lt hlong))

/-- Writing where there is no block: nothing is written, or it is outside of every block. -/
theorem writeBytes_none_wp {bs : List UInt8} {Q : Unit → Kernel H D → Prop}
    (hstore : s.store p = none) (hover : bs ≠ [] → E .overrun) (hQ : bs = [] → Q () s) :
    wp E (writeBytes p bs) Q s := by
  unfold writeBytes
  by_cases hnil : bs = []
  · rw [if_pos hnil]
    exact hQ hnil
  · rw [if_neg hnil, wp_bind, wp_gets]
    dsimp only [id]
    rw [hstore]
    exact hover hnil

/-- A new structure lies at an address that was not in use. -/
theorem newObj_wp (hE : ∀ e, e.AllocFails → E e) {Q : ℕ → Kernel H D → Prop}
    (hQ : ∀ p h, p ≠ 0 → Usable M s o.size align p → p + o.size ≤ identityTop →
      Q p ((s.withBlock h p o.size).put p o)) :
    wp E (newObj M align o) Q s := by
  unfold newObj
  rw [wp_bind]
  refine kmallocUnchecked_wp hE fun p h hp hU htop => ?_
  rw [wp_bind]
  refine writeObj_wp ⟨_, List.mem_cons_self, rfl, le_refl _⟩ ?_
  exact hQ p h hp hU htop

/-- The state after a new structure: still apart, and nothing else changed. -/
theorem newObj_state (hA : ArenaInv M s) (h : H) (hU : Usable M s o.size align p)
    (htop : p + o.size ≤ identityTop) (K : Kind → Prop) :
    ArenaInv M ((s.withBlock h p o.size).put p o) ∧
      Frame K s ((s.withBlock h p o.size).put p o) :=
  ⟨(hA.withBlock hU htop h).put ⟨_, List.mem_cons_self, rfl, le_refl _⟩,
    ((Frame.refl K s).withBlock h).put (MayChange.of_usable hU)⟩

end Basic

/-! ### Blocks without a structure -/

/-- The state with several new live blocks, and nothing written to them. -/
def Kernel.alloc (s : Kernel H D) (h : H) (new : List Allocation) : Kernel H D :=
  { s with heap := h, live := new ++ s.live }

/-- The state with the blocks at all of `ps` freed. -/
def Kernel.freedAll (M : Machine H D) (s : Kernel H D) (ps : List ℕ) : Kernel H D :=
  ps.foldl (fun s p => s.freed M p) s

section Blocks

variable {M : Machine H D} {s t : Kernel H D} {h h' : H} {p n : ℕ} {align : Bool}
  {new new' : List Allocation} {ps : List ℕ}

@[simp] theorem Kernel.alloc_live : (s.alloc h new).live = new ++ s.live := rfl
@[simp] theorem Kernel.alloc_store : (s.alloc h new).store = s.store := rfl
@[simp] theorem Kernel.alloc_fs : (s.alloc h new).fs = s.fs := rfl
@[simp] theorem Kernel.alloc_drives : (s.alloc h new).drives = s.drives := rfl

/-- Blocks that hold nothing are in nobody's way. -/
theorem Frame.alloc (K : Kind → Prop) (s : Kernel H D) (h : H) (new : List Allocation) :
    Frame K s (s.alloc h new) where
  blocks _ ha _ := ⟨List.mem_append_right _ ha, rfl⟩
  fs := fun _ => ⟨rfl, rfl⟩
  proc := fun _ => rfl
  tasks := fun _ => rfl

@[simp] theorem Kernel.freedAll_live : ∀ (ps : List ℕ) (s : Kernel H D),
    (s.freedAll M ps).live = s.live.filter fun a => a.ptr ∉ ps := by
  intro ps
  induction ps with
  | nil => exact fun s => (List.filter_eq_self.mpr (by simp)).symm
  | cons p ps ih =>
    intro s
    change ((s.freed M p).freedAll M ps).live = _
    rw [ih]
    change (s.live.filter fun a => a.ptr ≠ p).filter _ = _
    rw [List.filter_filter]
    refine List.filter_congr fun a _ => ?_
    simp [not_or, Bool.and_comm]

theorem Kernel.freedAll_store : ∀ (ps : List ℕ) (s : Kernel H D) (q : ℕ),
    (s.freedAll M ps).store q = if q ∈ ps then none else s.store q := by
  intro ps
  induction ps with
  | nil => exact fun s q => rfl
  | cons p ps ih =>
    intro s q
    change ((s.freed M p).freedAll M ps).store q = _
    rw [ih]
    by_cases hqp : q = p
    · rw [hqp, if_pos List.mem_cons_self]
      split
      · rfl
      · exact Function.update_self _ _ _
    · rw [Kernel.freed_store_ne hqp]
      simp [hqp]

theorem Kernel.freedAll_statics : ∀ (ps : List ℕ) (s : Kernel H D),
    (s.freedAll M ps).fs = s.fs ∧ (s.freedAll M ps).drives = s.drives ∧
      (s.freedAll M ps).proc = s.proc ∧ (s.freedAll M ps).tasks = s.tasks := by
  intro ps
  induction ps with
  | nil => exact fun _ => ⟨rfl, rfl, rfl, rfl⟩
  | cons p ps ih => exact fun s => ih (s.freed M p)

theorem ArenaInv.freedAll (hA : ArenaInv M s) : ArenaInv M (s.freedAll M ps) := by
  induction ps generalizing s with
  | nil => exact hA
  | cons p ps ih => exact ih (hA.freed (p := p))

/-- Freeing blocks that were not in use before. -/
theorem Frame.freedAll {K : Kind → Prop} (hF : Frame K s t)
    (hps : ∀ p ∈ ps, ∀ a ∈ s.live, a.ptr ≠ p) : Frame K s (t.freedAll M ps) := by
  induction ps generalizing t with
  | nil => exact hF
  | cons p ps ih =>
    refine ih (hF.freed fun a ha hap => ?_) fun q hq => hps q (List.mem_cons_of_mem _ hq)
    exact absurd hap (hps p List.mem_cons_self a ha)

/-- Freeing a block that was just allocated. -/
theorem Kernel.freed_alloc (hA : ArenaInv M s) (hU : Usable M s n align p) :
    (s.withBlock h p n).freed M p = { s with heap := M.heap.kfree p h } := by
  have hlive : (⟨p, n⟩ :: s.live).filter (fun a => a.ptr ≠ p) = s.live := by
    rw [List.filter_cons_of_neg (by simp), List.filter_eq_self]
    exact fun a ha => decide_eq_true (ArenaInv.usable_ne hU ha)
  have hstore : Function.update s.store p none = s.store := by
    rw [← hA.usable_store hU, Function.update_eq_self]
  unfold Kernel.freed Kernel.withBlock
  dsimp only
  rw [hlive, hstore]

/-- Live blocks have different addresses. -/
theorem ArenaInv.nodup (hA : ArenaInv M s) : (s.live.map Allocation.ptr).Nodup := by
  refine List.pairwise_map.mpr (hA.apart.imp ?_)
  intro a b hab hptr
  simp only [Span.Apart, Span.stop, Allocation.span] at hab
  omega

end Blocks

/-! ### Steps that only add blocks -/

/-- Blocks are only added, and only structures of kinds in `K` change. -/
structure Extends (M : Machine H D) (K : Kind → Prop) (s t : Kernel H D) : Prop where
  arena : ArenaInv M t
  frame : Frame K s t
  live : ∀ a ∈ s.live, a ∈ t.live

namespace Extends

variable {M : Machine H D} {K K' : Kind → Prop} {s t u : Kernel H D} {n p : ℕ} {align : Bool}
  {o : Obj}

theorem refl (hA : ArenaInv M s) : Extends M K s s := ⟨hA, Frame.refl K s, fun _ h => h⟩

theorem trans (h₁ : Extends M K s t) (h₂ : Extends M K t u) : Extends M K s u :=
  ⟨h₂.arena, h₁.frame.trans h₂.frame, fun a ha => h₂.live a (h₁.live a ha)⟩

theorem mono (h : Extends M K s t) (hK : ∀ k, K k → K' k) : Extends M K' s t :=
  ⟨h.arena, h.frame.mono hK, h.live⟩

/-- A change of the allocator alone. -/
theorem heap (hA : ArenaInv M s) (h : H) : Extends M K s { s with heap := h } where
  arena := ⟨hA.low, hA.high, hA.apart, hA.stored⟩
  frame := ⟨fun _ ha _ => ⟨ha, rfl⟩, fun _ => ⟨rfl, rfl⟩, fun _ => rfl, fun _ => rfl⟩
  live _ ha := ha

theorem withBlock (hA : ArenaInv M s) (h : H) (hU : Usable M s n align p)
    (htop : p + n ≤ identityTop) : Extends M K s (s.withBlock h p n) :=
  ⟨hA.withBlock hU htop h, (Frame.refl K s).withBlock h, fun _ ha => List.mem_cons_of_mem _ ha⟩

theorem newObj (hA : ArenaInv M s) (h : H) (hU : Usable M s o.size align p)
    (htop : p + o.size ≤ identityTop) : Extends M K s ((s.withBlock h p o.size).put p o) :=
  ⟨(newObj_state hA h hU htop K).1, (newObj_state hA h hU htop K).2,
    fun _ ha => List.mem_cons_of_mem _ ha⟩

/-- A structure of a kind in `K` is overwritten. -/
theorem overwrite (hA : ArenaInv M s) {w : Obj} (h : s.store p = some w) (hsize : o.size = w.size)
    (hK : K w.kind) : Extends M K s (s.put p o) :=
  ⟨hA.overwrite h hsize, (Frame.refl K s).put (MayChange.of_store h hK), fun _ ha => ha⟩

/-- A structure is written into a block that the first state did not have. -/
theorem putNew (h : Extends M K s t) (hfit : ∃ a ∈ t.live, a.ptr = p ∧ o.size ≤ a.size)
    (hnew : ∀ a ∈ s.live, a.ptr ≠ p) : Extends M K s (t.put p o) :=
  ⟨h.arena.put hfit, h.frame.put fun a ha hap => absurd hap (hnew a ha), h.live⟩

/-- A block that the first state did not have is freed. -/
theorem freedNew (h : Extends M K s t) (hnew : ∀ a ∈ s.live, a.ptr ≠ p) :
    Extends M K s (t.freed M p) where
  arena := h.arena.freed
  frame := h.frame.freed fun a ha hap => absurd hap (hnew a ha)
  live a ha := List.mem_filter.mpr ⟨h.live a ha, decide_eq_true (hnew a ha)⟩

/-- A structure that the first state did not have is overwritten by one of the same size. -/
theorem overwriteNew (h : Extends M K s t) {w : Obj} (hw : t.store p = some w)
    (hsize : o.size = w.size) (hnew : ∀ a ∈ s.live, a.ptr ≠ p) : Extends M K s (t.put p o) :=
  h.putNew (hsize ▸ h.arena.stored p w hw) hnew

/-- The static variables of the processes change. -/
theorem proc (hA : ArenaInv M s) (hK : K .process) (x : ProcessStatics) :
    Extends M K s { s with proc := x } where
  arena := ⟨hA.low, hA.high, hA.apart, hA.stored⟩
  frame := ⟨fun _ ha _ => ⟨ha, rfl⟩, fun _ => ⟨rfl, rfl⟩, fun h => absurd hK h, fun _ => rfl⟩
  live _ ha := ha

/-- The static variables of the tasks change. -/
theorem tasks (hA : ArenaInv M s) (hK : K .task) (x : TaskStatics) :
    Extends M K s { s with tasks := x } where
  arena := ⟨hA.low, hA.high, hA.apart, hA.stored⟩
  frame := ⟨fun _ ha _ => ⟨ha, rfl⟩, fun _ => ⟨rfl, rfl⟩, fun _ => rfl, fun h => absurd hK h⟩
  live _ ha := ha

end Extends

end VibeKernel
