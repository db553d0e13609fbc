import VibeKernel.Loader.FailedLoad

/-!
# What a process owns

A process owns blocks of the heap: its page directory with the tables, the
`struct paging_4gb_chunk`, the blocks of its segments, and the user stacks of its tasks. `Owned`
says that a process owns certain blocks, and that every page its user may go to has a byte of one of
them in it, or is the VGA page.

Ownership lasts as long as nobody else touches the blocks. `Lasts F s t` says that between the two
states, outside of `F`, nothing has changed but the structures that come and go and the links of
processes. The file system lasts for everyone (`Lasts.of_frame`), and a process that is being made
touches only what is new (`Building`).
-/

namespace VibeKernel

open Verif

variable {H D : Type}

/-! ### What lasts -/

/-- The same structure, or that of the same process with the same directory. -/
def SameSpace (o o' : Option Obj) : Prop :=
  o' = o ∨ ∃ x y, o = some (.process x) ∧ o' = some (.process y) ∧
    wordAt y processPagingChunkOffset = wordAt x processPagingChunkOffset

/-- There is a block at the address, with none of the structures that come and go: those of the file
system and of the tasks. -/
def Lasting (s : Kernel H D) (p : ℕ) : Prop :=
  (∃ a ∈ s.live, a.ptr = p) ∧ ∀ o, s.store p = some o → o.kind ≠ .fs ∧ o.kind ≠ .task

/-- What lasts is still there, outside of `F`. -/
def Lasts (F : ℕ → Prop) (s t : Kernel H D) : Prop :=
  ∀ p, Lasting s p → ¬ F p → Lasting t p ∧ SameSpace (s.store p) (t.store p)

/-- Nowhere. -/
abbrev nowhere (_ : ℕ) : Prop := False

section Lasts

variable {M : Machine H D} {F G : ℕ → Prop} {s t u : Kernel H D} {K : Kind → Prop}
    {p q n : ℕ} {o : Obj}

theorem SameSpace.refl (o : Option Obj) : SameSpace o o := .inl rfl

theorem SameSpace.trans {o o' o'' : Option Obj} (h : SameSpace o o') (h' : SameSpace o' o'') :
    SameSpace o o'' := by
  rcases h with rfl | ⟨x, y, rfl, rfl, hxy⟩
  · exact h'
  · rcases h' with rfl | ⟨y', z, hy, rfl, hyz⟩
    · exact .inr ⟨x, y, rfl, rfl, hxy⟩
    · cases hy
      exact .inr ⟨x, z, rfl, rfl, hyz.trans hxy⟩

/-- Only a process may have changed. -/
theorem SameSpace.eq_of_kind {o' : Option Obj} (h : SameSpace (some o) o')
    (hk : o.kind ≠ .process) :
    o' = some o := by
  rcases h with rfl | ⟨x, y, hx, -⟩
  · rfl
  · cases hx
    exact absurd rfl hk

theorem Lasts.refl (F : ℕ → Prop) (s : Kernel H D) : Lasts F s s := fun _ h _ => ⟨h, .refl _⟩

/-- Steps that touch only `F`, or what did not last anyway. -/
theorem Lasts.trans (h : Lasts F s t) (h' : Lasts G t u) (hG : ∀ q, G q → F q ∨ ¬ Lasting s q) :
    Lasts F s u := by
  intro p hp hF
  obtain ⟨hpt, hsame⟩ := h p hp hF
  have hGp : ¬ G p := fun hg => (hG p hg).elim hF fun hno => hno hp
  obtain ⟨hpu, hsame'⟩ := h' p hpt hGp
  exact ⟨hpu, hsame.trans hsame'⟩

/-- What does not last now did not last before, or is in `F`. -/
theorem Lasts.spare (h : Lasts F s t) (hq : ¬ Lasting t q) : F q ∨ ¬ Lasting s q := by
  by_cases hF : F q
  · exact .inl hF
  · exact .inr fun hs => hq (h q hs hF).1

/-- A structure of a kind that lasts does. -/
theorem Lasting.of_store (hA : ArenaInv M s) (h : s.store p = some o) (hfs : o.kind ≠ .fs)
    (htask : o.kind ≠ .task) : Lasting s p := by
  obtain ⟨a, ha, hp, -⟩ := hA.stored p o h
  refine ⟨⟨a, ha, hp⟩, fun o' ho' => ?_⟩
  cases h.symm.trans ho'
  exact ⟨hfs, htask⟩

/-- Where there is no block, nothing lasts. -/
theorem not_lasting_of_new (h : ∀ a ∈ s.live, a.ptr ≠ p) : ¬ Lasting s p := by
  rintro ⟨⟨a, ha, hp⟩, -⟩
  exact h a ha hp

/-- Nor does a task. -/
theorem not_lasting_of_task {x : Task} (h : s.store p = some (.task x)) : ¬ Lasting s p :=
  fun hp => (hp.2 _ h).2 rfl

/-- Steps of the file system, and steps on tasks. -/
theorem Lasts.of_frame (hF : Frame K s t) (hK : ∀ k, K k → k = .fs ∨ k = .task) :
    Lasts nowhere s t := by
  rintro p ⟨⟨a, ha, rfl⟩, hkind⟩ -
  obtain ⟨hlive, hsame⟩ := hF.blocks a ha fun o ho hk =>
    (hK _ hk).elim (hkind o ho).1 (hkind o ho).2
  exact ⟨⟨⟨a, hlive, rfl⟩, by rw [hsame]; exact hkind⟩, .inl hsame⟩

/-- Steps on a page directory. -/
theorem Lasts.of_paging (h : PagingStep F s t) : Lasts F s t := by
  rintro p ⟨⟨a, ha, rfl⟩, hkind⟩ hF
  have hsame : t.store a.ptr = s.store a.ptr := by
    cases hs : s.store a.ptr with
    | some o => exact h.others _ o hs hF
    | none =>
      have hkept := (h.frame.blocks a ha (by rw [hs]; exact fun _ h => nomatch h)).2
      rw [hkept, hs]
  exact ⟨⟨⟨a, h.live a ha, rfl⟩, by rw [hsame]; exact hkind⟩, .inl hsame⟩

/-- A structure is written. -/
theorem Lasts.put (s : Kernel H D) (p : ℕ) (o : Obj) : Lasts (· = p) s (s.put p o) := by
  rintro q ⟨hlive, hkind⟩ hq
  have hsame : (s.put p o).store q = s.store q := Kernel.put_store_ne hq
  exact ⟨⟨hlive, by rw [hsame]; exact hkind⟩, .inl hsame⟩

/-- A block is freed. -/
theorem Lasts.freed (M : Machine H D) (s : Kernel H D) (p : ℕ) : Lasts (· = p) s (s.freed M p) := by
  rintro q ⟨⟨a, ha, rfl⟩, hkind⟩ hq
  have hsame : (s.freed M p).store a.ptr = s.store a.ptr := Kernel.freed_store_ne hq
  have hmem : a ∈ (s.freed M p).live := List.mem_filter.mpr ⟨ha, decide_eq_true hq⟩
  exact ⟨⟨⟨a, hmem, rfl⟩, by rw [hsame]; exact hkind⟩, .inl hsame⟩

/-- A process is written that keeps its directory. -/
theorem Lasts.putProcess {x y : ℕ → UInt8} (hx : s.store p = some (.process x))
    (hxy : wordAt y processPagingChunkOffset = wordAt x processPagingChunkOffset) :
    Lasts nowhere s (s.put p (.process y)) := by
  rintro q ⟨hlive, hkind⟩ -
  by_cases hq : q = p
  · subst hq
    refine ⟨⟨hlive, fun o ho => ?_⟩, .inr ⟨x, y, hx, Kernel.put_store_self, hxy⟩⟩
    rw [Kernel.put_store_self] at ho
    cases ho
    simp [Obj.kind]
  · exact Lasts.put s p _ q ⟨hlive, hkind⟩ hq

/-- Static variables and the state of the allocator are no structures. -/
theorem Lasts.of_eq (hlive : t.live = s.live) (hstore : t.store = s.store) : Lasts F s t := by
  rintro p ⟨hp, hkind⟩ -
  exact ⟨⟨by rw [hlive]; exact hp, by rw [hstore]; exact hkind⟩, .inl (by rw [hstore])⟩

end Lasts

/-! ### What is owned -/

/-- The page with this number has a byte of the block in it. -/
def Overlaps (p n page : ℕ) : Prop := p < 4096 * page + 4096 ∧ 4096 * page < p + n

/-- The user gets to the VGA page, and to pages with bytes of the blocks. -/
def UserIn (t : Kernel H D) (own : ℕ → Prop) (m : ℕ → ℕ) : Prop :=
  ∀ page < 1048576, (m page).testBit 2 = true → m page / 4096 = 0xB8 ∨
    ∃ p n cells, own p ∧ t.store p = some (.bytes n cells) ∧ Overlaps p n (m page / 4096)

/-- The process owns the blocks: its directory is made of them, and its user gets to nothing else
but the VGA page. -/
structure Owned (t : Kernel H D) (proc dir : ℕ) (own : ℕ → Prop) : Prop where
  aligned : dir % 4096 = 0
  space : ∃ W m, HasSpace t proc dir W m ∧ (∀ q, Footprint dir W q → own q) ∧ UserIn t own m
  chunk : ∀ x, t.store proc = some (.process x) → own (wordAt x processPagingChunkOffset)
  kinds : ∀ q, own q → ∃ o, t.store q = some o ∧ (o.kind = .paging ∨ o.kind = .raw)

section Owned

variable {M : Machine H D} {F G : ℕ → Prop} {s t u : Kernel H D} {proc dir : ℕ} {own : ℕ → Prop}

/-- What is owned lasts. -/
theorem Owned.lasting (h : Owned s proc dir own) (hA : ArenaInv M s) {q : ℕ} (hq : own q) :
    Lasting s q := by
  obtain ⟨o, ho, hk⟩ := h.kinds q hq
  rcases hk with hk | hk
  · exact Lasting.of_store hA ho (by simp [hk]) (by simp [hk])
  · exact Lasting.of_store hA ho (by simp [hk]) (by simp [hk])

/-- What is owned is kept by those who do not touch it. -/
theorem Owned.keep (h : Owned s proc dir own) (hA : ArenaInv M s) (hL : Lasts F s t)
    (hown : ∀ q, own q → ¬ F q) (hproc : ¬ F proc) : Owned t proc dir own := by
  have hsame : ∀ q o, own q → s.store q = some o → t.store q = some o := by
    intro q o hq ho
    obtain ⟨o', ho', hk⟩ := h.kinds q hq
    cases ho.symm.trans ho'
    have hspace := (hL q (h.lasting hA hq) (hown q hq)).2
    rw [ho] at hspace
    refine hspace.eq_of_kind fun hp => ?_
    simp [hp] at hk
  obtain ⟨W, m, hspace, hfoot, huser⟩ := h.space
  obtain ⟨x, hx, hchunk⟩ := hspace.process
  -- the process may have got new links
  obtain ⟨y, hy, hxy⟩ : ∃ y, t.store proc = some (.process y) ∧
      wordAt y processPagingChunkOffset = wordAt x processPagingChunkOffset := by
    have hlast : Lasting s proc :=
      Lasting.of_store hA hx (by simp [Obj.kind]) (by simp [Obj.kind])
    rcases (hL proc hlast hproc).2 with heq | ⟨x', y, hx', hy, hxy⟩
    · exact ⟨x, heq.trans hx, rfl⟩
    · cases hx.symm.trans hx'
      exact ⟨y, hy, hxy⟩
  refine ⟨h.aligned, ⟨W, m, ⟨⟨y, hy, ?_⟩, hspace.refines.congr fun q hq => ?_⟩, hfoot,
    fun page hpage hbit => ?_⟩, fun z hz => ?_, fun q hq => ?_⟩
  · rw [hxy]
    exact hsame _ _ (h.chunk x hx) hchunk
  · obtain ⟨U, hU⟩ := hspace.refines.footprint hq
    rw [hsame q _ (hfoot q hq) hU, hU]
  · refine (huser page hpage hbit).imp_right fun hblock => ?_
    obtain ⟨p, n, cells, hp, hstore, hover⟩ := hblock
    exact ⟨p, n, cells, hp, hsame p _ hp hstore, hover⟩
  · cases hy.symm.trans hz
    rw [hxy]
    exact h.chunk x hx
  · obtain ⟨o, ho, hk⟩ := h.kinds q hq
    exact ⟨o, hsame q o hq ho, hk⟩

end Owned

/-! ### Making a process -/

/-- A process that owns its blocks is being made, or made larger. Of what lasted since the state
`s`, only `F` has been touched, and what is owned is new or in `F`. -/
structure Building (M : Machine H D) (F : ℕ → Prop) (s t : Kernel H D) (proc dir : ℕ)
    (own : ℕ → Prop) :
    Prop where
  sound : FsSound M (fun _ _ => True) t
  lasts : Lasts F s t
  owned : Owned t proc dir own
  mine : ∀ q, own q → F q ∨ ¬ Lasting s q

section Building

variable {M : Machine H D} {F G : ℕ → Prop} {s t u : Kernel H D} {proc dir p n : ℕ} {own : ℕ → Prop}
  {cells : ℕ → UInt8}

/-- A step on other blocks. -/
theorem Building.step (h : Building M F s t proc dir own) (hS : FsSound M (fun _ _ => True) u)
    (hL : Lasts G t u) (hG : ∀ q, G q → F q ∨ ¬ Lasting s q)
    (hother : ∀ q, G q → ¬ own q ∧ q ≠ proc) :
    Building M F s u proc dir own where
  sound := hS
  lasts := h.lasts.trans hL hG
  owned := h.owned.keep h.sound.arena hL (fun q hq hg => (hother q hg).1 hq) fun hg =>
    (hother _ hg).2 rfl
  mine := h.mine

/-- A step that touches nothing that lasts. -/
theorem Building.quiet (h : Building M F s t proc dir own) (hS : FsSound M (fun _ _ => True) u)
    (hL : Lasts nowhere t u) : Building M F s u proc dir own :=
  h.step hS hL (fun _ hg => hg.elim) fun _ hg => hg.elim

/-- A step on new blocks and on nothing else. -/
theorem Building.extends (h : Building M F s t proc dir own) {K : Kind → Prop}
    (hext : Extends M K t u) (hK : ∀ k, K k → k = .task) : Building M F s u proc dir own :=
  h.quiet (h.sound.extend hext fun hfs => nomatch hK _ hfs)
    (Lasts.of_frame hext.frame fun k hk => .inr (hK k hk))

/-- What lies at an address that is not owned. -/
theorem Building.not_own (h : Building M F s t proc dir own) {o : Obj} (ho : t.store p = some o)
    (hk : o.kind = .task) : ¬ own p ∧ p ≠ proc := by
  obtain ⟨-, -, ⟨⟨x, hx, -⟩, -⟩, -⟩ := h.owned.space
  refine ⟨fun hp => ?_, ?_⟩
  · obtain ⟨o', ho', hk'⟩ := h.owned.kinds p hp
    cases ho.symm.trans ho'
    simp [hk] at hk'
  · rintro rfl
    cases ho.symm.trans hx
    cases hk

/-- A block that is neither owned nor of the file system is overwritten. -/
theorem Building.put (h : Building M F s t proc dir own) {o : Obj}
    (hfit : ∃ a ∈ t.live, a.ptr = p ∧ o.size ≤ a.size)
    (hfs : ∀ o', t.store p = some o' → o'.kind ≠ .fs)
    (hmine : F p ∨ ¬ Lasting s p) (hown : ¬ own p) (hproc : p ≠ proc) :
    Building M F s (t.put p o) proc dir own := by
  have hkeep : KeepsFs t (t.put p o) := by
    refine ⟨rfl, fun q o' hq hk => ⟨o', ?_, Obj.Alike.refl o'⟩⟩
    refine (Kernel.put_store_ne ?_).trans hq
    rintro rfl
    exact hfs o' hq hk
  refine h.step (h.sound.keep hkeep (h.sound.arena.put hfit)) (Lasts.put t p o) ?_ ?_
  · rintro q rfl
    exact hmine
  · rintro q rfl
    exact ⟨hown, hproc⟩

/-- A block that is neither owned nor of the file system is freed. -/
theorem Building.freed (h : Building M F s t proc dir own)
    (hfs : ∀ o', t.store p = some o' → o'.kind ≠ .fs) (hmine : F p ∨ ¬ Lasting s p) (hown : ¬ own p)
    (hproc : p ≠ proc) : Building M F s (t.freed M p) proc dir own := by
  refine h.step (h.sound.keep (KeepsFs.freed hfs) h.sound.arena.freed) (Lasts.freed M t p) ?_ ?_
  · rintro q rfl
    exact hmine
  · rintro q rfl
    exact ⟨hown, hproc⟩

/-- The process gets other fields. -/
theorem Building.modify_wp (h : Building M F s t proc dir own) {f : (ℕ → UInt8) → ℕ → UInt8}
    (hf : ∀ x, wordAt (f x) processPagingChunkOffset = wordAt x processPagingChunkOffset)
    {Q : Unit → Kernel H D → Prop} (hQ : ∀ u, Building M F s u proc dir own → Q () u) :
    wp (fun _ => True) (modifyProcess proc f) Q t := by
  obtain ⟨-, -, ⟨⟨x, hx, -⟩, -⟩, -⟩ := h.owned.space
  refine modifyProcess_wp h.sound.arena hx (hQ _ ?_)
  have hext : Extends M (· = .process) t (t.put proc (.process (f x))) :=
    Extends.overwrite h.sound.arena hx rfl rfl
  exact h.quiet (h.sound.extend hext (by simp)) (Lasts.putProcess hx (hf x))

/-- An address where nothing lay before a paging operation, and something lies after it, is new. -/
theorem PagingStep.new_block (h : PagingStep F t u) (hnone : t.store p = none) {o : Obj}
    (ho : u.store p = some o) : ¬ Lasting t p := by
  rintro ⟨⟨a, ha, rfl⟩, -⟩
  have hkept := (h.frame.blocks a ha (by rw [hnone]; exact fun _ h => nomatch h)).2
  rw [hnone, ho] at hkept
  cases hkept

/-- The map after a loop that maps pages has the entries of the loop and those it had. -/
theorem userMap_cases {virt phys page : ℕ} : ∀ {n b : ℕ} {m : ℕ → ℕ},
    userMap virt phys m b n page = m page ∨
      ∃ j < n, userMap virt phys m b n page = u32 (phys + b + 4096 * j) ||| 7 := by
  intro n
  induction n with
  | zero => exact fun {_ _} => .inl rfl
  | succ n ih =>
    intro b m
    rw [userMap]
    split
    · rcases @ih (b + 4096) (Function.update m (u32 (virt + b) / 4096) (u32 (phys + b) ||| 7)) with
        h | ⟨j, hj, h⟩
      · rw [h]
        -- this is the first page of the loop, or none of it
        by_cases hp : page = u32 (virt + b) / 4096
        · rw [hp, Function.update_self]
          exact .inr ⟨0, Nat.succ_pos n, rfl⟩
        · rw [Function.update_of_ne hp]
          exact .inl rfl
      · refine .inr ⟨j + 1, Nat.succ_lt_succ hj, ?_⟩
        rw [h]
        congr 2
        ring
    · exact .inl rfl

/-- The page of an entry of the loop. -/
theorem userEntry_page {v : ℕ} (hv : v % 4096 = 0) (hlt : v < 4294967296) :
    (u32 v ||| 7) / 4096 = v / 4096 := by
  rw [u32_of_lt hlt, or_flags hv (by norm_num)]
  omega

/-- The block at `p` has a byte in each of the pages from `phys` on. -/
def CoversPages (t : Kernel H D) (p phys pages : ℕ) : Prop :=
  pages ≠ 0 → phys % 4096 = 0 ∧ phys + 4096 * pages ≤ 4294967296 ∧
    ∃ n cells, t.store p = some (.bytes n cells) ∧
    ∀ j < pages, Overlaps p n ((phys + 4096 * j) / 4096)

/-- **A paging operation** on the directory leaves a process that owns its blocks, with the new
tables, and with the blocks that the new pages are of. -/
theorem Building.paging (h : Building M F s t proc dir own) {W W' m m' : ℕ → ℕ}
    (hspace : HasSpace t proc dir W m) (hfoot : ∀ q, Footprint dir W q → own q)
    (hspace' : HasSpace u proc dir W' m') (hA : ArenaInv M u)
    (hst : PagingStep (Footprint dir W) t u)
    (hgrow : ∀ q, Footprint dir W' q → Footprint dir W q ∨ t.store q = none) {blocks : ℕ → Prop}
    (hblocks : ∀ q, blocks q → (∃ n cells, t.store q = some (.bytes n cells)) ∧
      (F q ∨ ¬ Lasting s q))
    (huser : UserIn t (fun q => own q ∨ blocks q) m') : ∃ own', Building M F s u proc dir own' := by
  have hraw : ∀ q n cells, t.store q = some (.bytes n cells) → u.store q = some (.bytes n cells) :=
    fun q n cells hq => hst.frame.store_eq h.sound.arena hq (by simp [Obj.kind])
  have hfootF : ∀ q, Footprint dir W q → F q ∨ ¬ Lasting s q := fun q hq => h.mine q (hfoot q hq)
  -- what is not a table before is none of those of the directory
  have hnot : ∀ q o, t.store q = some o → (∀ U, o ≠ .table U) → ¬ Footprint dir W q := by
    intro q o ho hne hF
    obtain ⟨U, hU⟩ := hspace.refines.footprint hF
    cases ho.symm.trans hU
    exact hne U rfl
  refine ⟨fun q => (own q ∧ ¬ Footprint dir W q) ∨ blocks q ∨ Footprint dir W' q, ?_, ?_,
    ⟨h.owned.aligned, ⟨W', m', hspace', fun q hq => .inr (.inr hq), fun page hpage hbit => ?_⟩,
      fun x hx => ?_, fun q hq => ?_⟩, fun q hq => ?_⟩
  · exact h.sound.extend ⟨hA, hst.frame, hst.live⟩ (by simp)
  · exact h.lasts.trans (Lasts.of_paging hst) hfootF
  · refine (huser page hpage hbit).imp_right fun hblock => ?_
    obtain ⟨q, n, cells, hq, hstore, hover⟩ := hblock
    refine ⟨q, n, cells, ?_, hraw q n cells hstore, hover⟩
    exact hq.imp (fun hq => ⟨hq, hnot q _ hstore (by simp)⟩) fun hq => .inl hq
  · obtain ⟨y, hy, hchunk⟩ := hspace.process
    have hy' := hst.frame.store_eq h.sound.arena hy (by simp [Obj.kind])
    cases hx.symm.trans hy'
    exact .inl ⟨h.owned.chunk x hy, hnot _ _ hchunk (by simp)⟩
  · rcases hq with ⟨hq, hF⟩ | hq | hq
    · obtain ⟨o, ho, hk⟩ := h.owned.kinds q hq
      exact ⟨o, hst.others q o ho hF, hk⟩
    · obtain ⟨⟨n, cells, hstore⟩, -⟩ := hblocks q hq
      exact ⟨_, hraw q n cells hstore, .inr rfl⟩
    · obtain ⟨U, hU⟩ := hspace'.refines.footprint hq
      exact ⟨_, hU, .inl rfl⟩
  · rcases hq with ⟨hq, -⟩ | hq | hq
    · exact h.mine q hq
    · exact (hblocks q hq).2
    · rcases hgrow q hq with hF | hnone
      · exact hfootF q hF
      · obtain ⟨U, hU⟩ := hspace'.refines.footprint hq
        exact h.lasts.spare (hst.new_block hnone hU)

/-- **Mapping pages** gives the user a block that covers them. -/
theorem Building.map_wp (h : Building M F s t proc dir own) {virt phys pages : ℕ}
    (hcover : CoversPages t p phys pages) (hmine : F p ∨ ¬ Lasting s p)
    {Q : Unit → Kernel H D → Prop}
    (hQ : ∀ u own', Building M F s u proc dir own' → Q () u) :
    wp (fun _ => True) (mapUserPages M proc virt phys 0 pages) Q t := by
  obtain ⟨W, m, hspace, hfoot, huser⟩ := h.owned.space
  have hblocks : ∀ q, q = p ∧ pages ≠ 0 →
      (∃ n cells, t.store q = some (.bytes n cells)) ∧ (F q ∨ ¬ Lasting s q) := by
    rintro q ⟨rfl, h0⟩
    obtain ⟨-, -, n, cells, hstore, -⟩ := hcover h0
    exact ⟨⟨n, cells, hstore⟩, hmine⟩
  have huser' : UserIn t (fun q => own q ∨ q = p ∧ pages ≠ 0) (userMap virt phys m 0 pages) := by
    intro page hpage hbit
    rcases @userMap_cases virt phys page pages 0 m with heq | ⟨j, hj, heq⟩
    · -- the page has the entry that it had
      rw [heq] at hbit ⊢
      refine (huser page hpage hbit).imp_right fun hblock => ?_
      obtain ⟨q, n, cells, hq, hrest⟩ := hblock
      exact ⟨q, n, cells, .inl hq, hrest⟩
    · obtain ⟨halign, hfits, n, cells, hstore, hover⟩ := hcover (by omega)
      refine .inr ⟨p, n, cells, .inr ⟨rfl, by omega⟩, hstore, ?_⟩
      rw [heq, userEntry_page (by omega) (by omega)]
      exact hover j hj
  refine mapUserPages_wp (fun _ _ => trivial) pages 0 t W m _ rfl h.sound.arena hspace
    fun u W' hA hspace' hst hgrow => ?_
  obtain ⟨own', hown'⟩ := h.paging hspace hfoot hspace' hA hst hgrow hblocks huser'
  exact hQ u own' hown'

/-- **The VGA page.** -/
theorem Building.mapVga_wp (h : Building M F s t proc dir own) {Q : Unit → Kernel H D → Prop}
    (hQ : ∀ u own', Building M F s u proc dir own' → Q () u) :
    wp (fun _ => True) (mapVga M proc) Q t := by
  obtain ⟨W, m, hspace, hfoot, huser⟩ := h.owned.space
  have huser' : UserIn t (fun q => own q ∨ nowhere q)
      (Function.update m (0xB8000 / 4096) (0xB8000 ||| 7)) := by
    intro page hpage hbit
    by_cases hp : page = 0xB8000 / 4096
    · rw [hp, Function.update_self]
      exact .inl rfl
    · rw [Function.update_of_ne hp] at hbit ⊢
      refine (huser page hpage hbit).imp_right fun hblock => ?_
      obtain ⟨q, n, cells, hq, hrest⟩ := hblock
      exact ⟨q, n, cells, .inl hq, hrest⟩
  unfold mapVga
  rw [wp_bind]
  refine processDirectory_wp hspace ?_
  rw [wp_bind, userFlags]
  refine pagingSet_wp (fun _ _ => trivial) h.sound.arena hspace.refines (by norm_num)
    (fun h => absurd rfl h) fun _ u W' hA hR hst hgrow => ?_
  rw [wp_pure]
  obtain ⟨own', hown'⟩ := h.paging hspace hfoot (hspace.paging h.sound.arena hst hR) hA hst hgrow
    (fun _ hq => hq.elim) huser'
  exact hQ u own' hown'

end Building

end VibeKernel
