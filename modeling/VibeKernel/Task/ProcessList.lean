import VibeKernel.Lib.Chain
import VibeKernel.Task.Process

/-!
# The list of processes

`process_free`, `process_get` and `process_current` of `src/task/process.c`. `ProcessList M s ps`
says that the list in the memory is `ps`: the processes are linked from `process_head` on in this
order, and `process_tail` is the last of them. `process_alloc` appends to it and `process_free`
takes a member out; `process_get` finds the first member with an id.

The walks along the list have fuel for one step more than there are live blocks, which is enough for
every list of live processes.
-/

namespace VibeKernel

open Verif

variable {H D : Type}

/-! ### The functions of the source -/

/-- The `id` of a process. -/
def idAt (x : ℕ → UInt8) : ℕ := le16 (slice x 0 2) 0

/-- The loop of `process_free` that looks for the predecessor, from `p` on. -/
def processFindPrev (process : ℕ) : ℕ → ℕ → KM H D ℕ
  | 0, _ => Exec.stop .diverges
  | n + 1, p =>
    if p = 0 then pure 0
    else do
      let x ← readObj Obj.asProcess p
      if wordAt x processNextOffset ≠ process then
        processFindPrev process n (wordAt x processNextOffset)
      else pure p

/-- The loop of `process_free` that looks for the last process, from `p` on. -/
def processLast : ℕ → ℕ → KM H D ℕ
  | 0, _ => Exec.stop .diverges
  | n + 1, p =>
    if p = 0 then pure 0
    else do
      let x ← readObj Obj.asProcess p
      if wordAt x processNextOffset ≠ 0 then processLast n (wordAt x processNextOffset) else pure p

/-- The first half of `process_free`: the process is taken out of the chain. -/
def processUnlink (process : ℕ) : KM H D Unit := do
  let s ← Exec.gets id
  if process = s.proc.processHead then do
    let x ← readObj Obj.asProcess process
    Exec.modify fun s =>
      { s with proc := { s.proc with processHead := wordAt x processNextOffset } }
  else do
    let p ← processFindPrev process (s.live.length + 1) s.proc.processHead
    if p ≠ 0 then do
      let x ← readObj Obj.asProcess process
      modifyProcess p fun y => putWord y processNextOffset (wordAt x processNextOffset)
    else pure ()

/-- `process_free`. -/
def processFree (M : Machine H D) (process : ℕ) : KM H D Unit := do
  processUnlink process
  let s ← Exec.gets id
  if process = s.proc.processTail then do
    let p ← processLast (s.live.length + 1) s.proc.processHead
    Exec.modify fun s => { s with proc := { s.proc with processTail := p } }
  else pure ()
  kfree M process

/-- The loop of `process_get`, from `proc` on. -/
def processGetLoop (processId : ℤ) : ℕ → ℕ → KM H D ℕ
  | 0, _ => Exec.stop .diverges
  | n + 1, proc =>
    if proc = 0 then pure 0
    else do
      let x ← readObj Obj.asProcess proc
      if (idAt x : ℤ) = processId then pure proc
      else processGetLoop processId n (wordAt x processNextOffset)

/-- `process_get`, with `0` for `NULL`. -/
def processGet (processId : ℤ) : KM H D ℕ := do
  let s ← Exec.gets id
  processGetLoop processId (s.live.length + 1) s.proc.processHead

/-- `process_current`. -/
def processCurrent : KM H D ℕ := Exec.gets fun s => s.proc.currentProcess

/-! ### The list in the memory -/

/-- The successor of a process. -/
def Kernel.processNext (s : Kernel H D) (p : ℕ) : ℕ :=
  match (s.store p).bind Obj.asProcess with
  | some x => wordAt x processNextOffset
  | none => 0

/-- The id of a process. -/
def Kernel.processId (s : Kernel H D) (p : ℕ) : ℕ :=
  match (s.store p).bind Obj.asProcess with
  | some x => idAt x
  | none => 0

/-- The list of processes is `ps`. -/
structure ProcessList (M : Machine H D) (s : Kernel H D) (ps : List ℕ) : Prop where
  arena : ArenaInv M s
  chain : Chain s.processNext 0 s.proc.processHead ps
  tail : s.proc.processTail = ps.getLast?.getD 0
  stored : ∀ p ∈ ps, ∃ x, s.store p = some (.process x)

section Lists

variable {M : Machine H D} {E : Stop → Prop} {s t u : Kernel H D} {ps : List ℕ} {p q : ℕ}
  {x : ℕ → UInt8}

theorem Kernel.processNext_of (h : s.store p = some (.process x)) :
    s.processNext p = wordAt x processNextOffset := by
  unfold Kernel.processNext
  rw [h]
  rfl

theorem Kernel.processId_of (h : s.store p = some (.process x)) : s.processId p = idAt x := by
  unfold Kernel.processId
  rw [h]
  rfl

theorem Kernel.processNext_congr (h : t.store p = s.store p) :
    t.processNext p = s.processNext p := by
  unfold Kernel.processNext
  rw [h]

theorem Kernel.processId_congr (h : t.store p = s.store p) : t.processId p = s.processId p := by
  unfold Kernel.processId
  rw [h]

/-- Storing bytes behind the id leaves it alone. -/
theorem idAt_putBytes {offset : ℕ} {bs : List UInt8} (h : 2 ≤ offset) :
    idAt (putBytes x offset bs) = idAt x := by
  unfold idAt
  rw [slice_congr fun i hi => putBytes_other (by omega)]

/-- The id is what the low half of a word says. -/
theorem idAt_wordBytes (w : ℕ) : idAt (putBytes x 0 ((wordBytes w).take 2)) = w % 65536 := by
  change (UInt8.ofNat (w % 256)).toNat + 256 * (UInt8.ofNat (w / 256 % 256)).toNat = w % 65536
  simp only [UInt8.toNat_ofNat']
  omega

/-- A process has an address of 32 bits. -/
theorem ArenaInv.stored_lt (hA : ArenaInv M s) {o : Obj} (h : s.store p = some o) :
    p < 4294967296 := by
  obtain ⟨a, ha, rfl, -⟩ := hA.stored p o h
  have hhigh := hA.high a ha
  unfold identityTop at hhigh
  omega

/-- There are no more members than live blocks. -/
theorem ProcessList.length_le (h : ProcessList M s ps) : ps.length ≤ s.live.length := by
  have hsub : ps ⊆ s.live.map Allocation.ptr := fun p hp => by
    obtain ⟨x, hx⟩ := h.stored p hp
    obtain ⟨a, ha, hap, -⟩ := h.arena.stored p _ hx
    exact List.mem_map.mpr ⟨a, ha, hap⟩
  have hle := (List.subperm_of_subset h.chain.nodup hsub).length_le
  rwa [List.length_map] at hle

/-- Steps that change no member and none of the two pointers keep the list. -/
theorem ProcessList.congr (h : ProcessList M s ps) (hA : ArenaInv M t)
    (hstore : ∀ p ∈ ps, t.store p = s.store p) (hhead : t.proc.processHead = s.proc.processHead)
    (htail : t.proc.processTail = s.proc.processTail) : ProcessList M t ps where
  arena := hA
  chain := by
    rw [hhead]
    exact h.chain.congr fun b hb => Kernel.processNext_congr (hstore b hb)
  tail := htail.trans h.tail
  stored p hp := by
    obtain ⟨x, hx⟩ := h.stored p hp
    exact ⟨x, (hstore p hp).trans hx⟩

/-- A step of the other parts of the kernel keeps the list. -/
theorem ProcessList.frame (h : ProcessList M s ps) {K : Kind → Prop} (hF : Frame K s t)
    (hA : ArenaInv M t) (hK : ¬ K .process) : ProcessList M t ps := by
  refine h.congr hA (fun p hp => ?_) ?_ ?_
  · obtain ⟨x, hx⟩ := h.stored p hp
    rw [hF.store_eq h.arena hx hK, hx]
  · rw [hF.proc hK]
  · rw [hF.proc hK]

/-! ### Appending -/

/-- The id of a process is not in the word of its successor. -/
theorem Kernel.processId_put (hx : s.store p = some (.process x)) (w : ℕ) (q : ℕ) :
    (s.put p (.process (putWord x processNextOffset w))).processId q = s.processId q := by
  by_cases hq : q = p
  · subst hq
    rw [Kernel.processId_of Kernel.put_store_self, Kernel.processId_of hx]
    exact idAt_putBytes (by decide)
  · exact Kernel.processId_congr (Kernel.put_store_ne hq)

/-- The end of `process_alloc`. -/
theorem processLink_list_wp (h : ProcessList M t ps) (hx : t.store p = some (.process x))
    (hnext : wordAt x processNextOffset = 0) (hp : p ∉ ps) {Q : Unit → Kernel H D → Prop}
    (hQ : ∀ u, Extends M (· = .process) t u → ProcessList M u (ps ++ [p]) →
      (∀ q, u.processId q = t.processId q) → u.proc.currentProcess = t.proc.currentProcess →
      u.proc.currentId = t.proc.currentId → u.heap = t.heap → u.live = t.live → Q () u) :
    wp E (processLink p) Q t := by
  have hp0 : p ≠ 0 := h.arena.ne_zero hx
  have hlast : (ps ++ [p]).getLast?.getD 0 = p := by rw [List.getLast?_concat, Option.getD_some]
  unfold processLink
  rw [wp_bind, wp_gets]
  dsimp only [id]
  by_cases hhead : t.proc.processHead = 0
  · -- the first process is head and tail
    rw [if_pos hhead, wp_modify]
    obtain rfl : ps = [] := h.chain.start_eq_nil.mp hhead
    refine hQ _ (Extends.proc (K := (· = .process)) h.arena rfl _)
      ⟨⟨h.arena.low, h.arena.high, h.arena.apart, h.arena.stored⟩,
      chain_cons.mpr ⟨rfl, hp0, chain_nil.mpr ?_⟩, hlast.symm, fun q hq => ?_⟩ (fun _ => rfl)
      rfl rfl rfl rfl
    · exact (Kernel.processNext_of hx).trans hnext
    · cases List.mem_singleton.mp hq
      exact ⟨x, hx⟩
  rw [if_neg hhead, wp_bind]
  have hne : ps ≠ [] := fun h0 => hhead (h.chain.start_eq_nil.mpr h0)
  -- otherwise the last one points to the new one
  obtain ⟨l, b, hps⟩ := (List.eq_nil_or_concat ps).resolve_left hne
  rw [List.concat_eq_append] at hps
  subst hps
  have htail : t.proc.processTail = b := by
    rw [h.tail, List.getLast?_concat, Option.getD_some]
  have hb : b ∈ l ++ [b] := List.mem_append_right _ List.mem_cons_self
  have hbp : b ≠ p := fun heq => hp (heq ▸ hb)
  obtain ⟨y, hy⟩ := h.stored b hb
  rw [htail]
  refine modifyProcess_wp h.arena hy ?_
  rw [wp_modify]
  have hput : Extends M (· = .process) t _ :=
    Extends.overwrite (o := .process (putWord y processNextOffset p)) h.arena hy rfl rfl
  refine hQ _ (hput.trans (Extends.proc (K := (· = .process)) hput.arena rfl _)) ⟨?_, ?_,
    hlast.symm, fun q hq => ?_⟩
    (fun q => Kernel.processId_put hy p q) rfl rfl rfl rfl
  · exact ⟨hput.arena.low, hput.arena.high, hput.arena.apart, hput.arena.stored⟩
  · -- the chain goes on to the new process and ends there
    have happ := @Chain.append _ _ _
        (t.put b (.process (putWord y processNextOffset p))).processNext _ _ _
      _ h.chain hp0 (fun c hc hn => ?_) (fun c hc => ?_) ?_
    · rwa [if_neg hhead] at happ
    · refine Kernel.processNext_congr (Kernel.put_store_ne ?_)
      rintro rfl
      exact hn List.getLast?_concat
    · rw [List.getLast?_concat, Option.some.injEq] at hc
      subst hc
      rw [Kernel.processNext_of Kernel.put_store_self, wordAt_putWord (h.arena.stored_lt hx)]
    · rw [Kernel.processNext_congr (Kernel.put_store_ne hbp.symm), Kernel.processNext_of hx, hnext]
  · by_cases hqb : q = b
    · exact ⟨_, by rw [hqb]; exact Kernel.put_store_self⟩
    · obtain ⟨z, hz⟩ : ∃ z, t.store q = some (.process z) := by
        rcases List.mem_append.mp hq with hq | hq
        · exact h.stored q hq
        · cases List.mem_singleton.mp hq
          exact ⟨x, hx⟩
      exact ⟨z, (Kernel.put_store_ne hqb).trans hz⟩

/-- What `process_alloc` does if it succeeds. -/
structure ProcessAppended (M : Machine H D) (s t : Kernel H D) (ps : List ℕ) (p : ℕ) : Prop where
  answer : M.heap.kmallocInt 96 false s.heap = some (p, t.heap)
  live : t.live = ⟨p, 96⟩ :: s.live
  step : Extends M (· = .process) s t
  list : ProcessList M t (ps ++ [p])
  id : t.processId p = (s.proc.currentId + 1) % 65536
  ids : ∀ q ∈ ps, t.processId q = s.processId q
  current : t.proc.currentProcess = s.proc.currentProcess
  count : t.proc.currentId = s.proc.currentId + 1

/-- **`process_alloc`** fails and changes nothing, or appends a new process with the next id. It
stops only if the allocation does. -/
theorem processAlloc_list_wp (hE : ∀ e, kmallocInt M 96 false s = .error e → E e)
    (h : ProcessList M s ps) {Q : ℤ × ℕ → Kernel H D → Prop}
    (hnull : ∀ h', M.heap.kmallocInt 96 false s.heap = some (0, h') →
      Q (-1, 0) { s with heap := h' })
    (hok : ∀ p t, p ≠ 0 → ProcessAppended M s t ps p → Q (0, p) t) :
    wp E (processAlloc M) Q s := by
  unfold processAlloc
  rw [wp_bind]
  refine wp_of_ok (kmallocInt_wp_answer (fun _ _ => trivial) (fun h' hans => ?_)
    fun p h' hans h0 hU htop => ?_) hE
  · rw [if_pos rfl]
    exact hnull h' hans
  -- the block is new, so none of the listed processes lies there
  have hold : ∀ q ∈ ps, q ≠ p := by
    rintro q hq rfl
    obtain ⟨x, hx⟩ := h.stored q hq
    rw [h.arena.usable_store hU] at hx
    cases hx
  rw [if_neg h0, wp_bind]
  refine writeObj_wp ⟨_, List.mem_cons_self, rfl, le_refl _⟩ ?_
  -- the block holds zeros, then the counter is advanced, then the block has its id
  have h₁ : Extends M (· = .process) s _ :=
    Extends.newObj (o := .process fun _ => 0) h.arena h' hU htop
  have h₂ := h₁.trans (Extends.proc (K := (· = .process)) h₁.arena rfl
    { s.proc with currentId := s.proc.currentId + 1 })
  unfold processGetFreeSlot
  rw [wp_bind, wp_bind, wp_modify, wp_bind, wp_gets, wp_pure, wp_bind]
  refine modifyProcess_wp h₂.arena Kernel.put_store_self ?_
  have h₃ := h₂.trans (Extends.overwrite h₂.arena (o := .process
    (putBytes (fun _ => 0) 0 ((wordBytes (u32 (s.proc.currentId + 1))).take 2)))
    Kernel.put_store_self rfl rfl)
  have hL := h.congr h₃.arena
    (fun q hq => (Kernel.put_store_ne (hold q hq)).trans (Kernel.put_store_ne (hold q hq))) rfl rfl
  rw [wp_bind]
  refine processLink_list_wp hL Kernel.put_store_self ?_ (fun hm => hold p hm rfl)
    fun u hstep hLu hid hcur hcount hheap hlive => ?_
  · -- the id leaves the `next` field zero
    have hlow : 0 + ((wordBytes (u32 (s.proc.currentId + 1))).take 2).length ≤
        processNextOffset := by
      change (2 : ℕ) ≤ 92
      decide
    rw [wordAt_putBytes (Or.inr hlow)]
    rfl
  · refine hok p u h0 ⟨hheap ▸ hans, hlive, h₃.trans hstep, hLu, ?_, fun q hq => ?_, hcur, hcount⟩
    · rw [hid, Kernel.processId_of Kernel.put_store_self, idAt_wordBytes, u32_eq]
      exact Nat.mod_mod_of_dvd _ (by decide)
    · rw [hid]
      exact Kernel.processId_congr
        ((Kernel.put_store_ne (hold q hq)).trans (Kernel.put_store_ne (hold q hq)))

/-! ### Taking a process out -/

/-- The walk to the predecessor of a member that is not the first. -/
theorem processFindPrev_wp {c : ℕ} {l₂ : List ℕ} {Q : ℕ → Kernel H D → Prop} :
    ∀ {n p : ℕ} {l₁ : List ℕ}, Chain s.processNext 0 p (l₁ ++ c :: l₂) →
      (∀ b ∈ l₁, ∃ x, s.store b = some (.process x)) → l₁ ≠ [] → l₁.length ≤ n →
      Q (l₁.getLast?.getD 0) s → wp E (processFindPrev c n p) Q s := by
  intro n
  induction n with
  | zero =>
    intro p l₁ _ _ hne hlen _
    exact absurd (List.length_eq_zero_iff.mp (Nat.le_zero.mp hlen)) hne
  | succ n ih =>
    intro p l₁ hc hstored hne hlen hQ
    obtain ⟨b, l, rfl⟩ := List.exists_cons_of_ne_nil hne
    obtain ⟨rfl, hb0, hrest⟩ := chain_cons.mp hc
    obtain ⟨x, hx⟩ := hstored p List.mem_cons_self
    have hnext := Kernel.processNext_of hx
    rw [processFindPrev, if_neg hb0, wp_bind]
    refine readObj_wp hx rfl ?_
    rw [← hnext]
    cases l with
    | nil =>
      -- the next one is the member
      rw [if_neg (fun h => h (chain_cons.mp hrest).1)]
      exact hQ
    | cons b' l =>
      have hb' : s.processNext p = b' := (chain_cons.mp hrest).1
      have hbc : s.processNext p ≠ c := by
        rw [hb']
        rintro rfl
        have hnd := hrest.nodup
        exact (List.nodup_cons.mp hnd).1 (List.mem_append_right _ List.mem_cons_self)
      rw [if_pos hbc]
      refine ih hrest (fun d hd => hstored d (List.mem_cons_of_mem _ hd)) (List.cons_ne_nil _ _)
        (Nat.le_of_succ_le_succ hlen) ?_
      rwa [List.getLast?_cons_cons] at hQ

/-- The walk to the last process. -/
theorem processLast_wp {Q : ℕ → Kernel H D → Prop} :
    ∀ {n p : ℕ} {l : List ℕ}, Chain s.processNext 0 p l →
      (∀ b ∈ l, ∃ x, s.store b = some (.process x)) → l.length < n → Q (l.getLast?.getD 0) s →
      wp E (processLast n p) Q s := by
  intro n
  induction n with
  | zero => exact fun _ _ hlen => absurd hlen (Nat.not_lt_zero _)
  | succ n ih =>
    intro p l hc hstored hlen hQ
    cases l with
    | nil =>
      rw [processLast, if_pos (chain_nil.mp hc)]
      exact hQ
    | cons b l =>
      obtain ⟨rfl, hb0, hrest⟩ := chain_cons.mp hc
      obtain ⟨x, hx⟩ := hstored p List.mem_cons_self
      have hnext := Kernel.processNext_of hx
      rw [processLast, if_neg hb0, wp_bind]
      refine readObj_wp hx rfl ?_
      rw [← hnext]
      cases l with
      | nil =>
        rw [if_neg (fun h => h (chain_nil.mp hrest))]
        exact hQ
      | cons b' l =>
        rw [if_pos (fun h0 => (chain_cons.mp hrest).2.1 ((chain_cons.mp hrest).1 ▸ h0))]
        refine ih hrest (fun d hd => hstored d (List.mem_cons_of_mem _ hd))
          (Nat.lt_of_succ_lt_succ hlen) ?_
        rwa [List.getLast?_cons_cons] at hQ

/-- What taking a process out leaves: the chain is that of the others, and apart from successors
nothing changed but `process_head`. -/
structure Unlinked (M : Machine H D) (s t : Kernel H D) (ps : List ℕ) (p : ℕ) : Prop where
  step : Extends M (· = .process) s t
  chain : Chain t.processNext 0 t.proc.processHead (ps.erase p)
  stored : ∀ q ∈ ps, ∃ x, t.store q = some (.process x)
  id : ∀ q, t.processId q = s.processId q
  statics : t.proc.processTail = s.proc.processTail ∧
    t.proc.currentProcess = s.proc.currentProcess ∧
    t.proc.currentId = s.proc.currentId
  blocks : t.heap = s.heap ∧ t.live = s.live

theorem processUnlink_wp (h : ProcessList M s ps) (hp : p ∈ ps) {Q : Unit → Kernel H D → Prop}
    (hQ : ∀ t, Unlinked M s t ps p → Q () t) : wp E (processUnlink p) Q s := by
  obtain ⟨x, hx⟩ := h.stored p hp
  have hlen := h.length_le
  -- the list is split at the process, which is in neither half
  obtain ⟨l₁, l₂, rfl⟩ := List.append_of_mem hp
  have hnd := h.chain.nodup
  have hp₁ : p ∉ l₁ := fun hm => (List.nodup_append.mp hnd).2.2 p hm p List.mem_cons_self rfl
  have hp₂ : p ∉ l₂ := (List.nodup_cons.mp (List.nodup_append.mp hnd).2.1).1
  have herase : (l₁ ++ p :: l₂).erase p = l₁ ++ l₂ := by
    rw [List.erase_append_right _ hp₁, List.erase_cons_head]
  have hnext := Kernel.processNext_of hx
  unfold processUnlink
  rw [wp_bind, wp_gets]
  dsimp only [id]
  by_cases hhead : p = s.proc.processHead
  · -- the first one: `process_head` moves on
    rw [if_pos hhead, wp_bind]
    refine readObj_wp hx rfl ?_
    rw [wp_modify, ← hnext]
    refine hQ _ ⟨Extends.proc (K := (· = .process)) h.arena rfl _, ?_, h.stored, fun _ => rfl,
      ⟨rfl, rfl, rfl⟩, rfl, rfl⟩
    have hchain := @Chain.unlink _ _ _ s.processNext _ _ _ _ _ h.chain (fun _ _ _ => rfl)
        fun b hb => ?_
    · rw [if_pos hhead.symm] at hchain
      rwa [herase]
    · -- there is none in front of the first one
      have hstart := h.chain.start
      cases l₁ with
      | nil => cases hb
      | cons a l₁ => exact absurd (hhead.trans hstart) fun heq => hp₁ (heq ▸ List.mem_cons_self)
  -- any other: the one in front is searched for
  rw [if_neg hhead, wp_bind]
  have hne : l₁ ≠ [] := by
    rintro rfl
    exact hhead (chain_cons.mp h.chain).1.symm
  refine processFindPrev_wp h.chain (fun b hb => h.stored b (List.mem_append_left _ hb)) hne ?_ ?_
  · rw [List.length_append] at hlen
    omega
  obtain ⟨l, b, hl⟩ := (List.eq_nil_or_concat l₁).resolve_left hne
  rw [List.concat_eq_append] at hl
  subst hl
  rw [List.getLast?_concat, Option.getD_some]
  have hb : b ∈ (l ++ [b]) ++ p :: l₂ :=
    List.mem_append_left _ (List.mem_append_right _ List.mem_cons_self)
  obtain ⟨y, hy⟩ := h.stored b hb
  have hbp : b ≠ p := fun heq => hp₁ (heq ▸ List.mem_append_right _ List.mem_cons_self)
  rw [if_pos (h.arena.ne_zero hy), wp_bind]
  refine readObj_wp hx rfl ?_
  -- its `next` is redirected over the process
  refine modifyProcess_wp h.arena hy ?_
  rw [← hnext]
  refine hQ _ ⟨Extends.overwrite h.arena hy rfl rfl, ?_, fun q hq => ?_, Kernel.processId_put hy _,
    ⟨rfl, rfl, rfl⟩, rfl, rfl⟩
  · -- the pointer that is stored is that of a process or `NULL`
    have hlt : s.processNext p < 4294967296 := by
      by_cases h0 : s.processNext p = 0
      · omega
      · obtain ⟨l', hl'⟩ := h.chain.behind.head h0
        obtain ⟨z, hz⟩ := h.stored (s.processNext p)
          (List.mem_append_right _ (List.mem_cons_of_mem _ (hl' ▸ List.mem_cons_self)))
        exact h.arena.stored_lt hz
    have hchain := @Chain.unlink _ _ _
      (s.put b (.process (putWord y processNextOffset (s.processNext p)))).processNext
      _ _ _ _ _ h.chain (fun c hc hn => ?_) fun c hc => ?_
    · rw [if_neg fun heq => hhead heq.symm] at hchain
      rwa [herase]
    · refine Kernel.processNext_congr (Kernel.put_store_ne ?_)
      rintro rfl
      exact hn List.getLast?_concat
    · rw [List.getLast?_concat, Option.some.injEq] at hc
      subst hc
      rw [Kernel.processNext_of Kernel.put_store_self, wordAt_putWord hlt]
  · -- the other structures stay where they are
    by_cases hqb : q = b
    · exact ⟨_, by rw [hqb]; exact Kernel.put_store_self⟩
    · obtain ⟨z, hz⟩ := h.stored q hq
      exact ⟨z, (Kernel.put_store_ne hqb).trans hz⟩

/-- The last member of a list without a member: if the member was the last one it is another. -/
theorem getLast_erase {l : List ℕ} {c : ℕ} (hnd : l.Nodup) (hc : c ∈ l)
    (hlast : c ≠ l.getLast?.getD 0) : (l.erase c).getLast?.getD 0 = l.getLast?.getD 0 := by
  obtain ⟨l₁, l₂, rfl⟩ := List.append_of_mem hc
  have hc₁ : c ∉ l₁ := fun hm => (List.nodup_append.mp hnd).2.2 c hm c List.mem_cons_self rfl
  rw [List.erase_append_right _ hc₁, List.erase_cons_head]
  rcases List.eq_nil_or_concat l₂ with rfl | ⟨l, b, rfl⟩
  · exact absurd (by rw [List.getLast?_concat]; rfl) hlast
  · rw [List.concat_eq_append, ← List.append_assoc, ← List.cons_append, ← List.append_assoc,
      List.getLast?_concat, List.getLast?_concat]

/-- What `process_free` of a member does. -/
structure ProcessRemoved (M : Machine H D) (s t : Kernel H D) (ps : List ℕ) (p : ℕ) : Prop where
  blocks : t.heap = M.heap.kfree p s.heap ∧ t.live = s.live.filter fun a => a.ptr ≠ p
  frame : Frame (· = .process) s t
  list : ProcessList M t (ps.erase p)
  ids : ∀ q ∈ ps.erase p, t.processId q = s.processId q
  current : t.proc.currentProcess = s.proc.currentProcess
  count : t.proc.currentId = s.proc.currentId

/-- **`process_free`** of a member takes it out of the list. -/
theorem processFree_list_wp (h : ProcessList M s ps) (hp : p ∈ ps) {Q : Unit → Kernel H D → Prop}
    (hQ : ∀ t, ProcessRemoved M s t ps p → Q () t) : wp E (processFree M p) Q s := by
  have hnd := h.chain.nodup
  have hpe : p ∉ ps.erase p := fun hm => (hnd.mem_erase_iff.mp hm).1 rfl
  obtain ⟨x, hx⟩ := h.stored p hp
  have hp0 := h.arena.ne_zero hx
  unfold processFree
  rw [wp_bind]
  refine processUnlink_wp h hp fun t ht => ?_
  obtain ⟨htail, hcur, hcount⟩ := ht.statics
  -- the state before `kfree`, with the tail repaired
  have hfree : ∀ tail, tail = (ps.erase p).getLast?.getD 0 →
      wp E (kfree M p) Q { t with proc := { t.proc with processTail := tail } } := by
    intro tail hlast
    refine kfree_wp (fun h0 => absurd h0 hp0) fun _ => ?_
    have hstep := ht.step.trans (Extends.proc (K := (· = .process)) ht.step.arena rfl
      { t.proc with processTail := tail })
    have hstore : ∀ q ∈ ps.erase p,
        (Kernel.freed M { t with proc := { t.proc with processTail := tail } } p).store q =
          t.store q := by
      intro q hq
      exact Kernel.freed_store_ne fun heq => hpe (heq ▸ hq)
    have hblocks : M.heap.kfree p t.heap = M.heap.kfree p s.heap ∧
        (t.live.filter fun a => a.ptr ≠ p) = s.live.filter fun a => a.ptr ≠ p := by
      rw [ht.blocks.1, ht.blocks.2]
      exact ⟨rfl, rfl⟩
    refine hQ _ ⟨hblocks, hstep.frame.freed (MayChange.of_store hx rfl),
      ⟨hstep.arena.freed, ?_, hlast, fun q hq => ?_⟩, fun q hq => ?_, hcur, hcount⟩
    · exact ht.chain.congr fun b hb => Kernel.processNext_congr (hstore b hb)
    · obtain ⟨z, hz⟩ := ht.stored q (List.mem_of_mem_erase hq)
      exact ⟨z, (hstore q hq).trans hz⟩
    · rw [Kernel.processId_congr (hstore q hq), ht.id]
  rw [wp_bind, wp_gets]
  dsimp only [id]
  by_cases hlast : p = t.proc.processTail
  · rw [if_pos hlast, wp_bind]
    refine processLast_wp ht.chain (fun b hb => ht.stored b (List.mem_of_mem_erase hb)) ?_ ?_
    · rw [ht.blocks.2]
      have hlen := h.length_le
      have hle := (List.erase_sublist (a := p) (l := ps)).length_le
      omega
    · rw [wp_bind, wp_modify]
      exact hfree _ rfl
  · rw [if_neg hlast]
    have htail' : t.proc.processTail = (ps.erase p).getLast?.getD 0 := by
      rw [htail, h.tail] at hlast ⊢
      rw [getLast_erase hnd hp hlast]
    exact hfree _ htail'

/-! ### Searching -/

/-- The walk of `process_get` finds the first member with the id. -/
theorem processGetLoop_wp {processId : ℤ} {Q : ℕ → Kernel H D → Prop} :
    ∀ {n p : ℕ} {l : List ℕ}, Chain s.processNext 0 p l →
      (∀ b ∈ l, ∃ x, s.store b = some (.process x)) → l.length < n →
      Q ((l.find? fun q => decide ((s.processId q : ℤ) = processId)).getD 0) s →
      wp E (processGetLoop processId n p) Q s := by
  intro n
  induction n with
  | zero => exact fun _ _ hlen => absurd hlen (Nat.not_lt_zero _)
  | succ n ih =>
    intro p l hc hstored hlen hQ
    cases l with
    | nil =>
      rw [processGetLoop, if_pos (chain_nil.mp hc)]
      exact hQ
    | cons b l =>
      obtain ⟨rfl, hb0, hrest⟩ := chain_cons.mp hc
      obtain ⟨x, hx⟩ := hstored p List.mem_cons_self
      have hnext := Kernel.processNext_of hx
      have hid := Kernel.processId_of hx
      rw [processGetLoop, if_neg hb0, wp_bind]
      refine readObj_wp hx rfl ?_
      rw [← hnext, ← hid]
      rw [List.find?_cons] at hQ
      by_cases heq : (s.processId p : ℤ) = processId
      · rw [if_pos heq]
        rw [decide_eq_true heq] at hQ
        exact hQ
      · rw [if_neg heq]
        rw [decide_eq_false heq] at hQ
        exact ih hrest (fun d hd => hstored d (List.mem_cons_of_mem _ hd))
          (Nat.lt_of_succ_lt_succ hlen) hQ

/-- **`process_get`** finds the first process of the list with the id, and changes nothing. -/
theorem processGet_eq (h : ProcessList M s ps) (processId : ℤ) :
    processGet processId s =
      .ok ((ps.find? fun q => decide ((s.processId q : ℤ) = processId)).getD 0, s) := by
  have hlen := h.length_le
  have hwp : wp (fun _ => False) (processGet processId)
      (fun r t => r = (ps.find? fun q => decide ((s.processId q : ℤ) = processId)).getD 0 ∧ t = s)
      s := by
    unfold processGet
    rw [wp_bind, wp_gets]
    exact processGetLoop_wp h.chain h.stored (Nat.lt_succ_of_le hlen) ⟨rfl, rfl⟩
  obtain ⟨r, t, hrun, rfl, rfl⟩ := hwp.total
  exact hrun

end Lists

end VibeKernel
