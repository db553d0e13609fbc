import VibeKernel.Loader.Mappings
import VibeKernel.Loader.Ownership
import VibeKernel.Task.TaskList

/-!
# Loaded processes own what they reach

`process_load`, followed from the first `fopen` to the last page that it maps: whatever is on the
disks, a process that is loaded owns its blocks, and nothing that was there before is touched
(`processLoad_owned`). The proof goes along the source. Up to `paging_new_4gb` there is only the new
`struct process` (`NewProcess`), and from there on a process that owns its blocks (`Building`).
-/

namespace VibeKernel

open Verif

variable {H D : Type} {M : Machine H D}

/-! ### Steps of the file system -/

section Files

variable {s t u : Kernel H D}

theorem fclose_frame (hS : FsSound M (fun _ _ => True) t) (fd : ℤ) :
    wp (fun _ => True) (fclose M fd) (fun _ u => FsSound M (fun _ _ => True) u ∧
      Frame FsKind t u) t :=
  fclose_wp hS.arena hS.inv (fun _ => ⟨hS, Frame.refl _ t⟩) fun _ _ _ _ _ _ hclosed =>
    ⟨⟨hclosed.arena, hclosed.inv⟩, hclosed.frame⟩

theorem fseek_moves (hS : FsSound M (fun _ _ => True) t) (fd v : ℤ) :
    wp (fun _ => True) (fseek fd v .set) (fun _ u => FsSound M (fun _ _ => True) u ∧
      FsMoves M t u) t :=
  (anyReader M fd).fseek_wp (a := ()) hS fun _ _ _ _ hmoves hS' => ⟨hS', hmoves⟩

theorem fread_moves (hS : FsSound M (fun _ _ => True) t) (size nmemb : ℕ) (fd : ℤ) :
    wp (fun _ => True) (fread M size nmemb fd)
      (fun _ u => FsSound M (fun _ _ => True) u ∧ FsMoves M t u) t :=
  fread_wp hS.arena hS.inv (fun _ => ⟨hS, FsMoves.refl hS.arena⟩) fun _ _ _ _ _ _ _ =>
    ⟨fun _ _ => trivial, fun _ _ _ _ _ hmoved =>
      ⟨⟨hmoved.arena, hmoved.inv⟩, hmoved.arena, hmoved.frame, hmoved.live⟩⟩

theorem fopen_frame (hS : FsSound M (fun _ _ => True) t) (path mode : CString) :
    wp (fun _ => True) (fopen M path mode)
      (fun _ u => FsSound M (fun _ _ => True) u ∧ Frame FsKind t u) t :=
  (fopen_extends hS path mode).mono fun _ _ h => ⟨h.1, h.2.frame⟩

/-- The file system lasts. -/
theorem Lasts.of_fs (hF : Frame FsKind t u) : Lasts nowhere t u :=
  Lasts.of_frame hF fun _ hk => .inl hk

end Files

/-! ### The segments of an ELF file -/

section Segments

variable {F : ℕ → Prop} {s t u : Kernel H D} {proc dir p : ℕ} {own : ℕ → Prop}

theorem Building.fs (h : Building M F s t proc dir own) (hS : FsSound M (fun _ _ => True) u)
    (hF : Frame FsKind t u) : Building M F s u proc dir own :=
  h.quiet hS (Lasts.of_fs hF)

/-- A new block is not owned, and may be written. -/
theorem Building.new_block (h : Building M F s t proc dir own) (hnew : ∀ a ∈ t.live, a.ptr ≠ p) :
    (F p ∨ ¬ Lasting s p) ∧ ¬ own p ∧ p ≠ proc := by
  have hspare := not_lasting_of_new hnew
  obtain ⟨-, -, ⟨⟨x, hx, -⟩, -⟩, -⟩ := h.owned.space
  refine ⟨h.lasts.spare hspare, fun hp => hspare (h.owned.lasting h.sound.arena hp), ?_⟩
  rintro rfl
  exact hspare (Lasting.of_store h.sound.arena hx (by simp [Obj.kind]) (by simp [Obj.kind]))

/-- The block of a segment of this size, or none if the size is zero. -/
def SegmentBlock (t : Kernel H D) (p memsz : ℕ) : Prop :=
  (memsz = 0 ∧ t.store p = none) ∨ (memsz ≠ 0 ∧ p % 4096 = 0 ∧ ⟨p, memsz⟩ ∈ t.live ∧
    ∃ cells, t.store p = some (.bytes memsz cells))

theorem SegmentBlock.moves {memsz : ℕ} (h : SegmentBlock t p memsz) (hA : ArenaInv M t)
    (hmoves : FsMoves M t u) : SegmentBlock u p memsz := by
  rcases h with ⟨h0, hnone⟩ | ⟨h0, halign, hlive, cells, hstore⟩
  · exact .inl ⟨h0, hmoves.store_none hnone⟩
  · refine .inr ⟨h0, halign, by rw [hmoves.live]; exact hlive, cells, ?_⟩
    exact hmoves.frame.store_eq hA hstore (by simp [Obj.kind])

theorem SegmentBlock.not_fs {memsz : ℕ} (h : SegmentBlock t p memsz) :
    ∀ o, t.store p = some o → o.kind ≠ .fs := by
  intro o ho
  rcases h with ⟨-, hnone⟩ | ⟨-, -, -, cells, hstore⟩
  · rw [hnone] at ho
    cases ho
  · rw [hstore] at ho
    cases ho
    simp [Obj.kind]

/-- The block of a segment has a byte in each of its pages. -/
theorem SegmentBlock.covers {memsz : ℕ} (h : SegmentBlock t p memsz) (hA : ArenaInv M t) :
    CoversPages t p p ((memsz + 4095) / 4096) := by
  intro hpages
  rcases h with ⟨rfl, -⟩ | ⟨h0, halign, hlive, cells, hstore⟩
  · exact absurd rfl hpages
  · have hhigh := hA.high _ hlive
    unfold identityTop at hhigh
    dsimp only at hhigh
    refine ⟨halign, by omega, memsz, cells, hstore, fun j hj => ?_⟩
    unfold Overlaps
    omega

/-- The bytes of a segment are stored in its block. -/
theorem Building.writeSegment_wp (h : Building M F s t proc dir own) {memsz : ℕ}
    (hseg : SegmentBlock t p memsz)
    (hmine : F p ∨ ¬ Lasting s p) (hown : ¬ own p) (hproc : p ≠ proc) (bytes : List UInt8)
    {Q : Unit → Kernel H D → Prop}
    (hQ : ∀ u, Building M F s u proc dir own → SegmentBlock u p memsz → Q () u) :
    wp (fun _ => True) (writeBytes p bytes) Q t := by
  have hfs := hseg.not_fs
  rcases hseg with ⟨h0, hnone⟩ | ⟨h0, halign, hlive, cells, hstore⟩
  · exact writeBytes_none_wp hnone (fun _ => trivial) fun _ => hQ t h (.inl ⟨h0, hnone⟩)
  · refine writeBytes_wp hstore hlive (fun _ => trivial) fun _ => hQ _ ?_ ?_
    · exact h.put ⟨_, hlive, rfl, le_refl _⟩ hfs hmine hown hproc
    · exact .inr ⟨h0, halign, hlive, _, Kernel.put_store_self⟩

/-- **A segment** is loaded or not, and the process owns its blocks. -/
theorem Building.elfLoadSegment_wp (h : Building M F s t proc dir own) (fd : ℤ) (phdr : ElfPhdr)
    {Q : ℤ × ℕ → Kernel H D → Prop}
    (hQ : ∀ r u own', r.1 ≤ 0 → Building M F s u proc dir own' → Q r u) :
    wp (fun _ => True) (elfLoadSegment M fd proc phdr) Q t := by
  have hneg : (-1 : ℤ) ≤ 0 := by decide
  unfold elfLoadSegment
  rw [wp_bind]
  refine elfSegmentBlock_wp (fun _ _ => trivial) (fun _ _ _ _ _ => trivial) h.sound.arena
    fun p t₁ hext hnew hempty hblock => ?_
  obtain ⟨hmine, hown, hproc⟩ := h.new_block hnew
  have h₁ := h.extends hext fun _ hk => hk.elim
  have hseg₁ : SegmentBlock t₁ p phdr.memsz := by
    by_cases h0 : phdr.memsz = 0
    · exact .inl ⟨h0, hempty h0⟩
    · obtain ⟨halign, hlive, hstore⟩ := hblock h0
      exact .inr ⟨h0, halign, hlive, _, hstore⟩
  rw [wp_bind]
  refine (anyReader M fd).ftell_wp (a := ()) h₁.sound fun v _ => ?_
  refine wp_seq (fseek_moves h₁.sound fd _) fun _ t₂ ht₂ => ?_
  have h₂ := h₁.fs ht₂.1 ht₂.2.frame
  have hseg₂ := hseg₁.moves h₁.sound.arena ht₂.2
  refine wp_seq (fread_moves h₂.sound _ 1 fd) fun r t₃ ht₃ => ?_
  have h₃ := h₂.fs ht₃.1 ht₃.2.frame
  have hseg₃ := hseg₂.moves h₂.sound.arena ht₃.2
  dsimp only
  rw [wp_bind]
  refine h₃.writeSegment_wp hseg₃ hmine hown hproc r.2 fun t₄ h₄ hseg₄ => ?_
  split_ifs
  · -- the block is given back
    rw [wp_bind]
    refine kfree_wp (fun _ => hQ _ t₄ own hneg h₄) fun _ => hQ _ _ own hneg ?_
    exact h₄.freed hseg₄.not_fs hmine hown hproc
  · refine wp_seq (fseek_moves h₄.sound fd v) fun _ t₅ ht₅ => ?_
    have h₅ := h₄.fs ht₅.1 ht₅.2.frame
    have hseg₅ := hseg₄.moves h₄.sound.arena ht₅.2
    rw [wp_bind]
    exact h₅.map_wp (hseg₅.covers h₅.sound.arena) hmine fun u own' hu => hQ _ u own' (le_refl 0) hu

/-- **The loop over the program headers.** -/
theorem Building.elfSegments_wp (fd : ℤ) : ∀ (n : ℕ) {t : Kernel H D} {own : ℕ → Prop},
    Building M F s t proc dir own → ∀ {Q : ℤ × List ElfSegment → Kernel H D → Prop},
      (∀ r u own', r.1 ≤ 0 → Building M F s u proc dir own' → Q r u) →
        wp (fun _ => True) (elfSegments M fd proc n) Q t := by
  have hneg : (-1 : ℤ) ≤ 0 := by decide
  intro n
  induction n with
  | zero => exact fun h _ hQ => hQ _ _ _ (le_refl 0) h
  | succ n ih =>
    intro t own h Q hQ
    rw [elfSegments]
    refine wp_seq (fread_moves h.sound elfPhdrSize 1 fd) fun r t₁ ht₁ => ?_
    have h₁ := h.fs ht₁.1 ht₁.2.frame
    dsimp only
    split_ifs with hcount
    · exact hQ _ t₁ own hneg h₁
    -- what follows the header, however it ended
    have hrest : ∀ (r' : ℤ × ℕ) u own', r'.1 ≤ 0 → Building M F s u proc dir own' →
        wp (fun _ => True) (if r'.1 ≠ 0 then pure (r'.1, []) else do
          let out ← elfSegments M fd proc n
          pure (out.1, ⟨ElfPhdr.decode r.2, r'.2⟩ :: out.2)) Q u := by
      intro r' u own' hres hu
      split_ifs
      · exact hQ _ u own' hres hu
      · rw [wp_bind]
        exact ih hu fun _ v own'' hres' hv => hQ _ v own'' hres' hv
    rw [wp_bind]
    unfold elfSegment
    split_ifs
    · exact h₁.elfLoadSegment_wp fd _ hrest
    · exact hrest (0, 0) t₁ own (le_refl 0) h₁

end Segments

/-! ### A new process -/

/-- There is a process that the first state did not have, and nothing that lasts has been
touched. -/
structure NewProcess (M : Machine H D) (s t : Kernel H D) (proc : ℕ) : Prop where
  sound : FsSound M (fun _ _ => True) t
  lasts : Lasts nowhere s t
  process : ∃ x, t.store proc = some (.process x)
  fresh : ¬ Lasting s proc

section Process

variable {s t u : Kernel H D} {proc p : ℕ} {filename : CString}

/-- A step that touches nothing that lasts. -/
theorem NewProcess.quiet (h : NewProcess M s t proc) (hS : FsSound M (fun _ _ => True) u)
    (hL : Lasts nowhere t u) : NewProcess M s u proc where
  sound := hS
  lasts := h.lasts.trans hL fun _ hq => hq.elim
  process := by
    obtain ⟨x, hx⟩ := h.process
    have hlast : Lasting t proc :=
      Lasting.of_store h.sound.arena hx (by simp [Obj.kind]) (by simp [Obj.kind])
    rcases (hL proc hlast fun hq => hq).2 with heq | ⟨-, y, -, hy, -⟩
    · exact ⟨x, heq.trans hx⟩
    · exact ⟨y, hy⟩
  fresh := h.fresh

/-- The structure of the process is overwritten. -/
theorem NewProcess.modify_wp (h : NewProcess M s t proc) (f : (ℕ → UInt8) → ℕ → UInt8)
    {Q : Unit → Kernel H D → Prop} (hQ : ∀ y, NewProcess M s (t.put proc (.process y)) proc →
      Q () (t.put proc (.process y))) : wp (fun _ => True) (modifyProcess proc f) Q t := by
  obtain ⟨x, hx⟩ := h.process
  refine modifyProcess_wp h.sound.arena hx (hQ _ ?_)
  have hext : Extends M (· = .process) t (t.put proc (.process (f x))) :=
    Extends.overwrite h.sound.arena hx rfl rfl
  refine ⟨h.sound.extend hext (by simp), h.lasts.trans (Lasts.put t proc _) ?_,
    ⟨f x, Kernel.put_store_self⟩, h.fresh⟩
  rintro q rfl
  exact .inr h.fresh

/-- A process is overwritten that keeps its directory. -/
theorem modifyProcess_quiet (hS : FsSound M (fun _ _ => True) t) (p : ℕ)
    {f : (ℕ → UInt8) → ℕ → UInt8}
    (hf : ∀ x, wordAt (f x) processPagingChunkOffset = wordAt x processPagingChunkOffset) :
    wp (fun _ => True) (modifyProcess p f)
      (fun _ u => FsSound M (fun _ _ => True) u ∧ Lasts nowhere t u) t := by
  unfold modifyProcess
  rw [wp_bind]
  refine readObj_wp_any fun o x ho hx => ?_
  have hp : t.store p = some (.process x) := by
    rw [ho]
    cases o <;> cases hx
    rfl
  refine overwrite_wp hS.arena hp rfl ⟨?_, Lasts.putProcess hp (hf x)⟩
  have hext : Extends M (· = .process) t (t.put p (.process (f x))) :=
    Extends.overwrite hS.arena hp rfl rfl
  exact hS.extend hext (by simp)

/-- Static variables of the processes are no concern of the file system. -/
theorem FsSound.processStatics (hS : FsSound M (fun _ _ => True) t) (x : ProcessStatics) :
    FsSound M (fun _ _ => True) { t with proc := x } :=
  hS.extend (Extends.proc (K := (· = .process)) hS.arena rfl x) (by simp)

/-- **`process_alloc`** touches nothing that lasts but the link of the last process. -/
theorem processAlloc_new (hS : FsSound M (fun _ _ => True) t) (hL : Lasts nowhere s t) :
    wp (fun _ => True) (processAlloc M) (fun r u => FsSound M (fun _ _ => True) u ∧
      Lasts nowhere s u ∧ (¬ r.1 < 0 → NewProcess M s u r.2)) t := by
  have hneg : (-1 : ℤ) < 0 := by decide
  have hword : ∀ (x : ℕ → UInt8) (w : ℕ), wordAt (putWord x processNextOffset w)
      processPagingChunkOffset = wordAt x processPagingChunkOffset :=
    fun x w => wordAt_putWord_other (by decide)
  unfold processAlloc
  rw [wp_bind]
  refine kmallocInt_wp (fun _ _ => trivial) (fun h => ?_) fun proc h h0 hU htop => ?_
  · have hext : Extends M (fun _ => False) t { t with heap := h } := Extends.heap hS.arena h
    rw [if_pos rfl]
    exact ⟨hS.extend hext fun h => h,
      hL.trans (Lasts.of_eq (F := nowhere) rfl rfl) (fun _ hq => hq.elim),
      fun hno => absurd hneg hno⟩
  rw [if_neg h0, wp_bind]
  refine writeObj_wp ⟨_, List.mem_cons_self, rfl, le_refl _⟩ ?_
  have hext : Extends M (fun _ => False) t
      ((t.withBlock h proc 96).put proc (.process fun _ => 0)) :=
    Extends.newObj (o := .process fun _ => 0) hS.arena h hU htop
  have hfresh : ¬ Lasting s proc :=
    (hL.spare (not_lasting_of_new fun a ha => ArenaInv.usable_ne hU ha)).resolve_left fun hq => hq
  set w := (t.withBlock h proc 96).put proc (.process fun _ => 0) with hw
  have h₁ : NewProcess M s w proc :=
    ⟨hS.extend hext fun h => h, hL.trans (Lasts.of_frame hext.frame fun _ hk => hk.elim)
      (fun _ hq => hq.elim), ⟨_, Kernel.put_store_self⟩, hfresh⟩
  have hid : NewProcess M s
      { w with proc := { w.proc with currentId := w.proc.currentId + 1 } } proc :=
    h₁.quiet (h₁.sound.processStatics _) (Lasts.of_eq rfl rfl)
  unfold processGetFreeSlot
  rw [wp_bind, wp_bind, wp_modify, wp_bind, wp_gets, wp_pure, wp_bind]
  refine hid.modify_wp _ fun y h₂ => ?_
  -- the process is appended to the list
  refine wp_seq (P := fun _ u => NewProcess M s u proc) ?_ fun _ u hu => ?_
  · unfold processLink
    rw [wp_bind, wp_gets]
    dsimp only [id]
    split_ifs
    · rw [wp_modify]
      exact h₂.quiet (h₂.sound.processStatics _) (Lasts.of_eq rfl rfl)
    · refine wp_seq (modifyProcess_quiet h₂.sound _ fun x => hword x proc) fun _ u hu => ?_
      have h₃ := h₂.quiet hu.1 hu.2
      rw [wp_modify]
      exact h₃.quiet (h₃.sound.processStatics _) (Lasts.of_eq rfl rfl)
  · exact ⟨hu.sound, hu.lasts, fun _ => hu⟩

/-- A new directory is a page. -/
theorem pagingNew4gb_aligned (flags : ℕ) (t : Kernel H D) :
    wp (fun _ => True) (pagingNew4gb M flags)
      (fun chunk u => ∀ dir, u.store chunk = some (.chunk dir) → dir % 4096 = 0) t := by
  unfold pagingNew4gb
  rw [wp_bind]
  refine newObj_wp (fun _ _ => trivial) fun dir h _ hU _ => ?_
  refine wp_seq (wp_true _ _) fun _ u _ => newObj_wp (fun _ _ => trivial) fun chunk h' _ _ _ => ?_
  intro dir' hdir
  rw [Kernel.put_store_self] at hdir
  cases hdir
  exact hU.2.1 rfl

/-- **A new directory**, of blocks of its own, gives the user nothing yet. -/
theorem NewProcess.newPagingChunk_wp (h : NewProcess M s t proc) {Q : Unit → Kernel H D → Prop}
    (hQ : ∀ u dir own, Building M nowhere s u proc dir own →
      (∀ q n cells, t.store q = some (.bytes n cells) →
        u.store q = some (.bytes n cells)) → Q () u) :
    wp (fun _ => True) (newPagingChunk M proc (pagingIsPresent ||| pagingIsWriteable)) Q t := by
  obtain ⟨x, hx⟩ := h.process
  unfold newPagingChunk
  rw [wp_bind]
  refine ((pagingNew4gb_wp (Q := fun chunk u => ∃ dir W, ArenaInv M u ∧
    u.store chunk = some (.chunk dir) ∧
    DirRefines u dir W (identityMap (pagingIsPresent ||| pagingIsWriteable)) ∧
    PagingStep nowhere t u ∧
    (∀ q, Footprint dir W q → t.store q = none) ∧ t.store chunk = none) (fun _ _ => trivial)
    h.sound.arena (by decide) (by decide) fun chunk u dir W hA hchunk hR hst hfoot hnone =>
      ⟨dir, W, hA, hchunk, hR, hst, hfoot, hnone⟩).and (pagingNew4gb_aligned _ t)).mono ?_
  rintro chunk u ⟨⟨dir, W, hA, hchunk, hR, hst, hfoot, hnone⟩, haligned⟩
  have hx' : u.store proc = some (.process x) :=
    hst.frame.store_eq h.sound.arena hx (by simp [Obj.kind])
  refine modifyProcess_wp hA hx' ?_
  set y := putWord x processPagingChunkOffset chunk with hy
  have hpaging : Extends M (· = .paging) t u := ⟨hA, hst.frame, hst.live⟩
  have hS : FsSound M (fun _ _ => True) u := h.sound.extend hpaging (by simp)
  have hext : Extends M (· = .process) u (u.put proc (.process y)) :=
    Extends.overwrite hA hx' rfl rfl
  -- neither the chunk nor the directory is the process
  have hput : ∀ q o, u.store q = some o → o.kind ≠ .process →
      (u.put proc (.process y)).store q = some o := by
    intro q o hq hk
    refine (Kernel.put_store_ne ?_).trans hq
    rintro rfl
    cases hx'.symm.trans hq
    exact hk rfl
  have hchunk32 : chunk < 4294967296 := by
    obtain ⟨a, ha, rfl, -⟩ := hA.stored chunk _ hchunk
    have hhigh := hA.high a ha
    unfold identityTop at hhigh
    omega
  have hword : wordAt y processPagingChunkOffset = chunk := wordAt_putWord hchunk32
  have hspace : HasSpace (u.put proc (.process y)) proc dir W
      (identityMap (pagingIsPresent ||| pagingIsWriteable)) := by
    refine ⟨⟨y, Kernel.put_store_self, ?_⟩, hR.congr fun q hq => ?_⟩
    · rw [hword]
      exact hput _ _ hchunk (by simp [Obj.kind])
    · obtain ⟨U, hU⟩ := hR.footprint hq
      rw [hU]
      exact hput q _ hU (by simp [Obj.kind])
  refine hQ _ dir (fun q => Footprint dir W q ∨ q = chunk)
    ⟨hS.extend hext (by simp), ?_,
      ⟨haligned dir hchunk, ⟨_, _, hspace, fun q hq => .inl hq, ?_⟩, ?_, ?_⟩,
      ?_⟩ ?_
  · refine (h.lasts.trans (Lasts.of_paging hst) fun _ hq => hq.elim).trans (Lasts.put u proc _) ?_
    rintro q rfl
    exact .inr h.fresh
  · intro page _ hbit
    rw [identityMap_user page] at hbit
    cases hbit
  · intro z hz
    rw [Kernel.put_store_self] at hz
    cases hz
    exact .inr hword
  · rintro q (hq | rfl)
    · obtain ⟨U, hU⟩ := hspace.refines.footprint hq
      exact ⟨_, hU, .inl rfl⟩
    · exact ⟨_, hput _ _ hchunk (by simp [Obj.kind]), .inl rfl⟩
  · rintro q (hq | rfl)
    · obtain ⟨U, hU⟩ := hR.footprint hq
      exact h.lasts.spare (hst.new_block (hfoot q hq) hU)
    · exact h.lasts.spare (hst.new_block hnone hchunk)
  · intro q n cells hq
    exact hput q _ (hst.frame.store_eq h.sound.arena hq (by simp [Obj.kind])) (by simp [Obj.kind])

/-- The name of the process is written. -/
theorem NewProcess.setName_wp (h : NewProcess M s t proc) (filename : CString)
    {Q : Unit → Kernel H D → Prop} (hQ : ∀ u, NewProcess M s u proc → Q () u) :
    wp (fun _ => True) (processSetName M proc filename) Q t := by
  unfold processSetName
  rw [wp_bind, wp_gets]
  split_ifs
  · exact h.modify_wp _ fun y hy => hQ _ hy
  · trivial

/-- How a loader ends: nothing that lasts has been touched, and what is loaded owns its blocks. -/
def LoadEnds (M : Machine H D) (s : Kernel H D) (r : ℤ × ℕ) (u : Kernel H D) : Prop :=
  FsSound M (fun _ _ => True) u ∧ Lasts nowhere s u ∧
    (¬ r.1 < 0 → ¬ Lasting s r.2 ∧ ∃ dir own, Building M nowhere s u r.2 dir own)

theorem LoadEnds.failed (hS : FsSound M (fun _ _ => True) u) (hL : Lasts nowhere s u) {r : ℤ × ℕ}
    (hr : r.1 < 0) : LoadEnds M s r u := ⟨hS, hL, fun h => absurd hr h⟩

/-- **The rest of `elf_load`.** -/
theorem NewProcess.elfLoadNamed_ends (h : NewProcess M s t proc) (filename : CString) (fd : ℤ)
    (header : ElfEhdr) : wp (fun _ => True) (elfLoadNamed M filename fd header proc)
    (LoadEnds M s) t := by
  unfold elfLoadNamed
  rw [wp_bind]
  refine h.setName_wp filename fun t₁ h₁ => ?_
  rw [wp_bind]
  refine h₁.newPagingChunk_wp fun t₂ dir own h₂ _ => ?_
  rw [wp_bind]
  refine h₂.mapVga_wp fun t₃ own₃ h₃ => ?_
  refine wp_seq (fseek_moves h₃.sound fd _) fun _ t₄ ht₄ => ?_
  rw [wp_bind]
  refine (h₃.fs ht₄.1 ht₄.2.frame).elfSegments_wp fd header.phnum fun r u own' hres hu => ?_
  dsimp only
  split_ifs with h0
  · exact LoadEnds.failed hu.sound hu.lasts (lt_of_le_of_ne hres h0)
  · rw [wp_bind]
    refine hu.modify_wp (fun x => wordAt_putWord_other (by decide)) fun v hv => ?_
    exact ⟨hv.sound, hv.lasts, fun _ => ⟨h.fresh, dir, own', hv⟩⟩

/-- A raw image is a block of its own. -/
theorem rawBlock_new (h : NewProcess M s t proc) (size : ℕ) {Q : ℕ → Kernel H D → Prop}
    (hnull : ∀ u, NewProcess M s u proc → Q 0 u)
    (hok : ∀ p u, p ≠ 0 → NewProcess M s u proc → ¬ Lasting s p → p ≠ proc → p % 4096 = 0 →
      p + size ≤ identityTop → ⟨p, size⟩ ∈ u.live →
        u.store p = some (.bytes size fun _ => 0) → Q p u) :
    wp (fun _ => True) (rawBlock M size) Q t := by
  unfold rawBlock
  rw [wp_bind]
  refine kmallocInt_wp (fun _ _ => trivial) (fun heap => ?_) fun p heap hp hU htop => ?_
  · have hext : Extends M (fun _ => False) t { t with heap := heap } :=
      Extends.heap h.sound.arena heap
    rw [if_pos rfl]
    exact hnull _ (h.quiet (h.sound.extend hext fun h => h) (Lasts.of_eq rfl rfl))
  · rw [if_neg hp, wp_bind]
    refine writeObj_wp ⟨_, List.mem_cons_self, rfl, le_refl _⟩ ?_
    have hext : Extends M (fun _ => False) t
        ((t.withBlock heap p size).put p (.bytes size fun _ => 0)) :=
      Extends.newObj (o := .bytes size fun _ => 0) h.sound.arena heap hU htop
    have hspare := not_lasting_of_new fun a ha => ArenaInv.usable_ne hU ha
    refine hok p _ hp (h.quiet (h.sound.extend hext fun h => h)
      (Lasts.of_frame hext.frame fun _ hk => hk.elim))
        ((h.lasts.spare hspare).resolve_left fun h => h) ?_
      (hU.2.1 rfl) htop List.mem_cons_self Kernel.put_store_self
    rintro rfl
    obtain ⟨x, hx⟩ := h.process
    exact hspare (Lasting.of_store h.sound.arena hx (by simp [Obj.kind]) (by simp [Obj.kind]))

/-- **The raw branch.** -/
theorem NewProcess.rawLoadFile_ends (h : NewProcess M s t proc) (filename : CString) :
    wp (fun _ => True) (rawLoadFile M filename proc) (LoadEnds M s) t := by
  have hneg : (-1 : ℤ) < 0 := by decide
  unfold rawLoadFile
  refine wp_seq (fopen_frame h.sound filename [0x72]) fun fd t₁ ht₁ => ?_
  have h₁ := h.quiet ht₁.1 (Lasts.of_fs ht₁.2)
  by_cases hfd : fd < 0
  · rw [if_pos hfd]
    exact LoadEnds.failed h₁.sound h₁.lasts hneg
  rw [if_neg hfd, wp_bind]
  refine fstat_wp h₁.sound.inv (fun _ => LoadEnds.failed h₁.sound h₁.lasts hneg)
    fun slot i f _ _ => ?_
  dsimp only
  set size := (fat16Stat f).filesize
  rw [wp_bind]
  refine h₁.modify_wp _ fun y₂ h₂ => ?_
  rw [wp_bind]
  refine rawBlock_new h₂ size (fun t₃ h₃ => ?_)
    fun p t₃ hp h₃ hfresh hproc halign htop hlive hstore => ?_
  · rw [wp_bind]
    refine h₃.modify_wp _ fun y₄ h₄ => ?_
    rw [if_pos rfl]
    exact LoadEnds.failed h₄.sound h₄.lasts hneg
  rw [wp_bind]
  refine h₃.modify_wp _ fun y₄ h₄ => ?_
  rw [if_neg hp]
  have hstore₄ : (t₃.put proc (.process y₄)).store p = some (.bytes size fun _ => 0) :=
    (Kernel.put_store_ne hproc).trans hstore
  refine wp_seq (fread_moves h₄.sound _ 1 fd) fun r t₅ ht₅ => ?_
  have h₅ := h₄.quiet ht₅.1 (Lasts.of_fs ht₅.2.frame)
  have hstore₅ := ht₅.2.frame.store_eq h₄.sound.arena hstore₄ (by simp [Obj.kind])
  have hlive₅ : ⟨p, size⟩ ∈ t₅.live := by
    rw [ht₅.2.live]
    exact hlive
  rw [wp_bind]
  refine writeBytes_wp hstore₅ hlive₅ (fun _ => trivial) fun _ => ?_
  set cells : ℕ → UInt8 := fun i => if h : i < r.2.length then r.2[i] else 0
  have hext₆ : Extends M (· = .raw) t₅ (t₅.put p (.bytes size cells)) :=
    Extends.overwrite h₅.sound.arena hstore₅ rfl rfl
  have h₆ : NewProcess M s (t₅.put p (.bytes size cells)) proc := by
    obtain ⟨x, hx⟩ := h₅.process
    refine ⟨h₅.sound.extend hext₆ (by simp), h₅.lasts.trans (Lasts.put t₅ p _) ?_,
      ⟨x, (Kernel.put_store_ne hproc.symm).trans hx⟩, h₅.fresh⟩
    rintro q rfl
    exact .inr hfresh
  split_ifs
  · exact LoadEnds.failed h₆.sound h₆.lasts hneg
  refine wp_seq (fclose_frame h₆.sound fd) fun _ t₇ ht₇ => ?_
  have h₇ := h₆.quiet ht₇.1 (Lasts.of_fs ht₇.2)
  have hstore₇ : t₇.store p = some (.bytes size cells) :=
    ht₇.2.store_eq h₆.sound.arena Kernel.put_store_self (by simp [Obj.kind])
  -- the address space of the process
  unfold rawMap
  rw [wp_bind]
  refine h₇.newPagingChunk_wp fun t₈ dir own h₈ hraw => ?_
  have hcover : CoversPages t₈ p p ((size + 4095) / 4096) := by
    intro _
    unfold identityTop at htop
    refine ⟨halign, by omega, size, cells, hraw p size cells hstore₇, fun j hj => ?_⟩
    unfold Overlaps
    omega
  rw [wp_bind]
  refine h₈.map_wp hcover (.inr hfresh) fun t₉ own₉ h₉ => ?_
  rw [wp_bind]
  refine h₉.mapVga_wp fun t₁₀ own₁₀ h₁₀ => ?_
  rw [wp_bind]
  refine h₁₀.modify_wp (fun x => wordAt_putWord_other (by decide)) fun u hu => ?_
  exact ⟨hu.sound, hu.lasts, fun _ => ⟨h.fresh, dir, own₁₀, hu⟩⟩

/-- Reading the first bytes of a file. -/
theorem processMagic_frame (hS : FsSound M (fun _ _ => True) s) (filename : CString) :
    wp (fun _ => True) (processMagic M filename)
      (fun _ t => FsSound M (fun _ _ => True) t ∧ Frame FsKind s t) s := by
  unfold processMagic
  refine wp_seq (fopen_frame hS filename [0x72]) fun fd t₁ ht₁ => ?_
  split_ifs
  · exact ht₁
  refine wp_seq (fread_moves ht₁.1 4 1 fd) fun r t₂ ht₂ => ?_
  refine wp_seq (fclose_frame ht₂.1 fd) fun _ t₃ ht₃ => ?_
  have hF := ht₁.2.trans (ht₂.2.frame.trans ht₃.2)
  split_ifs
  · exact ⟨ht₃.1, hF⟩
  · exact ⟨ht₃.1, hF⟩

/-- Opening an ELF file. -/
theorem elfOpen_frame (hS : FsSound M (fun _ _ => True) s) (filename : CString) :
    wp (fun _ => True) (elfOpen M filename)
      (fun _ t => FsSound M (fun _ _ => True) t ∧ Frame FsKind s t) s := by
  unfold elfOpen
  refine wp_seq (fopen_frame hS filename [0x72]) fun fd t₁ ht₁ => ?_
  split_ifs
  · exact ht₁
  refine wp_seq (fread_moves ht₁.1 elfEhdrSize 1 fd) fun r t₂ ht₂ => ?_
  have hF := ht₁.2.trans ht₂.2.frame
  dsimp only
  split_ifs
  · exact ⟨ht₂.1, hF⟩
  · exact wp_seq (fclose_frame ht₂.1 fd) fun _ t₃ ht₃ => ⟨ht₃.1, hF.trans ht₃.2⟩

/-- **`process_load`**, of any file on any disks: nothing that lasts is touched, and a process that
is loaded owns its blocks, which are new. -/
theorem processLoad_owned (hS : FsSound M (fun _ _ => True) s) (filename : CString) :
    wp (fun _ => True) (processLoad M filename) (LoadEnds M s) s := by
  have hneg : (-1 : ℤ) < 0 := by decide
  rw [processLoad_eq]
  unfold processLoadHead
  rw [wp_bind]
  refine wp_seq (processMagic_frame hS filename) fun magic t₁ ht₁ => ?_
  have hL₁ := Lasts.of_fs ht₁.2
  cases magic with
  | none => exact LoadEnds.failed ht₁.1 hL₁ hneg
  | some magic =>
    dsimp only
    split_ifs
    · -- an ELF file
      refine wp_seq (elfOpen_frame ht₁.1 filename) fun file t₂ ht₂ => ?_
      have hL₂ := Lasts.of_fs (ht₁.2.trans ht₂.2)
      cases file with
      | none => exact LoadEnds.failed ht₂.1 hL₂ hneg
      | some file =>
        refine wp_seq (processAlloc_new ht₂.1 hL₂) fun made t₃ ht₃ => ?_
        obtain ⟨hS₃, hL₃, hmade⟩ := ht₃
        obtain ⟨res, proc⟩ := made
        obtain ⟨fd, header⟩ := file
        rw [wp_pure]
        -- the file is closed at the end, whatever has happened
        have hclose : ∀ out t₄, LoadEnds M s out t₄ → wp (fun _ => True) (do
            let _ ← fclose M fd
            pure out) (LoadEnds M s) t₄ := by
          intro out t₄ ht₄
          obtain ⟨hS₄, hL₄, hown⟩ := ht₄
          refine wp_seq (fclose_frame hS₄ fd) fun _ u hu => ⟨hu.1, ?_, fun hres => ?_⟩
          · exact hL₄.trans (Lasts.of_fs hu.2) fun _ hq => hq.elim
          · obtain ⟨hfresh, dir, own, h⟩ := hown hres
            exact ⟨hfresh, dir, own, h.fs hu.1 hu.2⟩
        unfold processLoadTail
        dsimp only
        split_ifs with hres
        · exact hclose _ _ (LoadEnds.failed hS₃ hL₃ hres)
        · exact wp_seq ((hmade hres).elfLoadNamed_ends filename fd header) hclose
    · -- a raw image
      refine wp_seq (processAlloc_new ht₁.1 hL₁) fun made t₂ ht₂ => ?_
      obtain ⟨hS₂, hL₂, hmade⟩ := ht₂
      obtain ⟨res, proc⟩ := made
      rw [wp_pure]
      unfold processLoadTail
      dsimp only
      split_ifs with hres
      · exact LoadEnds.failed hS₂ hL₂ hres
      · rw [wp_bind]
        exact (hmade hres).setName_wp filename fun u hu => hu.rawLoadFile_ends filename

end Process

end VibeKernel
