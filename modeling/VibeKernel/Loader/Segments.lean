import VibeKernel.Loader.FileReader
import VibeKernel.Loader.Elf

/-!
# The loop over the program headers

`elfSegments_wp` is what the loop of `elf_load` does to the memory: each `PT_LOAD` header gets a new
block with the bytes of its segment (`SegmentInMemory`) and the pages of the block are given to the
process one after the other (`mapSegments`). What the loop reads is a matter of the file, and
`FileReader.Loop` describes it in terms of a reader alone: a claim about the bytes of a file is
proved by induction on that relation, without the kernel.
-/

namespace VibeKernel

open Verif

variable {H D : Type} {M : Machine H D} {E : Stop → Prop} {fd : ℤ} {σ : Type}

/-! ### What is read -/

/-- The bytes of a segment are read: from a position the descriptor is moved to `p_offset` and read
there, after `ftell` has answered `v`. -/
def FileReader.SegmentReads (R : FileReader M fd E σ) (phdr : ElfPhdr) (a : σ) (r : ℤ × List UInt8)
    (v : ℤ) (c : σ) : Prop :=
  R.Tells a v ∧ ∃ b, R.Seeks a (asInt32 phdr.offset) b ∧ R.Reads b phdr.filesz r c

/-- A program header that was read, with the bytes of its segment if it has one. -/
abbrev ReadHeader := ElfPhdr × List UInt8

/-- What the loop makes of the headers behind one that it has gone through. -/
def behindHeader (x : ReadHeader) : Option (ℤ × List ReadHeader) → Option (ℤ × List ReadHeader) :=
  Option.map fun out => (out.1, x :: out.2)

/-- What the loop over `n` headers from a position on makes of what it reads: its result with the
headers it has gone through, or `none` if the bytes of a segment do not fit into its block. -/
inductive FileReader.Loop (R : FileReader M fd E σ) : ℕ → σ → Option (ℤ × List ReadHeader) → Prop
  | finished (a : σ) : R.Loop 0 a (some (0, []))
  | noHeader {n : ℕ} {a b : σ} {r : ℤ × List UInt8} :
      R.Reads a elfPhdrSize r b → r.1 ≠ 1 → R.Loop (n + 1) a (some (-1, []))
  | skipped {n : ℕ} {a b : σ} {r : ℤ × List UInt8} {out : Option (ℤ × List ReadHeader)} :
      R.Reads a elfPhdrSize r b → r.1 = 1 → (ElfPhdr.decode r.2).type ≠ ptLoad → R.Loop n b out →
      R.Loop (n + 1) a (behindHeader (ElfPhdr.decode r.2, []) out)
  | overrun {n : ℕ} {a b c : σ} {r seg : ℤ × List UInt8} {v : ℤ} :
      R.Reads a elfPhdrSize r b → r.1 = 1 → (ElfPhdr.decode r.2).type = ptLoad →
      R.SegmentReads (ElfPhdr.decode r.2) b seg v c → (ElfPhdr.decode r.2).memsz < seg.2.length →
      R.Loop (n + 1) a none
  | noSegment {n : ℕ} {a b c : σ} {r seg : ℤ × List UInt8} {v : ℤ} :
      R.Reads a elfPhdrSize r b → r.1 = 1 → (ElfPhdr.decode r.2).type = ptLoad →
      R.SegmentReads (ElfPhdr.decode r.2) b seg v c → seg.2.length ≤ (ElfPhdr.decode r.2).memsz →
      seg.1 ≠ 1 → R.Loop (n + 1) a (some (-1, []))
  | loaded {n : ℕ} {a b c d : σ} {r seg : ℤ × List UInt8} {v : ℤ}
      {out : Option (ℤ × List ReadHeader)} :
      R.Reads a elfPhdrSize r b → r.1 = 1 → (ElfPhdr.decode r.2).type = ptLoad →
      R.SegmentReads (ElfPhdr.decode r.2) b seg v c → seg.2.length ≤ (ElfPhdr.decode r.2).memsz →
      seg.1 = 1 → R.Seeks c v d → R.Loop n d out →
      R.Loop (n + 1) a (behindHeader (ElfPhdr.decode r.2, seg.2) out)

/-! ### What is written -/

/-- The kinds of structures that the loop changes, apart from new blocks. -/
abbrev LoadKind (k : Kind) : Prop := k = .fs ∨ k = .paging

/-- A segment in memory: its bytes, and zeros up to its size. -/
structure SegmentInMemory (t : Kernel H D) (phdr : ElfPhdr) (phys : ℕ)
    (bytes : List UInt8) : Prop where
  fits : bytes.length ≤ phdr.memsz
  block : phdr.memsz ≠ 0 → phys % 4096 = 0 ∧ ⟨phys, phdr.memsz⟩ ∈ t.live ∧
    t.store phys = some (.bytes phdr.memsz fun i => bytes.getD i 0)

/-- The number of pages of a segment. -/
def ElfPhdr.pages (phdr : ElfPhdr) : ℕ := (phdr.memsz + 4095) / 4096

/-- The map after a header: the pages of a segment get the entries of its block. -/
def mapSegment (m : ℕ → ℕ) (x : ElfSegment) : ℕ → ℕ :=
  if x.phdr.type = ptLoad then userMap x.phdr.vaddr x.phys m 0 x.phdr.pages else m

/-- The map after a list of headers. -/
def mapSegments (m : ℕ → ℕ) (segments : List ElfSegment) : ℕ → ℕ := segments.foldl mapSegment m

/-- The headers gone through, with what was read for them, and blocks that the first state did not
have. -/
def Loaded (s t : Kernel H D) (x : ElfSegment) (h : ReadHeader) : Prop :=
  x.phdr = h.1 ∧ (h.1.type = ptLoad → SegmentInMemory t h.1 x.phys h.2 ∧
    ∀ a ∈ s.live, a.ptr ≠ x.phys)

/-- The body of the loop of `elf_load` for a `PT_LOAD` header in front of the mapping of its
pages. -/
def elfReadSegment (M : Machine H D) (fd : ℤ) (phdr : ElfPhdr) : KM H D (ℤ × ℕ) := do
  let physPtr ← elfSegmentBlock M phdr.memsz
  let currentPos ← ftell fd
  let _ ← fseek fd (asInt32 phdr.offset) .set
  let (n, bytes) ← fread M phdr.filesz 1 fd
  writeBytes physPtr bytes
  if n ≠ 1 then do
    kfree M physPtr
    pure (-1, physPtr)
  else do
    let _ ← fseek fd currentPos .set
    pure (0, physPtr)

/-- A segment is read, and its pages are mapped. -/
theorem elfLoadSegment_eq (M : Machine H D) (fd : ℤ) (proc : ℕ) (phdr : ElfPhdr) :
    elfLoadSegment M fd proc phdr = (do
      let r ← elfReadSegment M fd phdr
      if r.1 ≠ 0 then pure r
      else do
        mapUserPages M proc phdr.vaddr r.2 0 phdr.pages
        pure (0, r.2)) := by
  unfold elfLoadSegment elfReadSegment
  simp only [bind_assoc]
  congr 1
  funext physPtr
  congr 1
  funext pos
  congr 1
  funext _
  congr 1
  funext out
  congr 1
  funext _
  by_cases hn : out.1 ≠ 1
  · simp only [if_pos hn, bind_assoc, pure_bind]
    rfl
  · simp only [if_neg hn, bind_assoc, pure_bind]
    rfl

section Block

variable {s t : Kernel H D} {memsz : ℕ}

/-- The allocator answers `NULL` for a segment that is not empty only if that may be the end. -/
def NullStops (M : Machine H D) (E : Stop → Prop) : Prop :=
  ∀ n h h', n ≠ 0 → M.heap.kmallocInt n true h = some (0, h') → E .overrun

/-- The block of a segment is new, and cleared. -/
theorem elfSegmentBlock_wp (hE : ∀ e, e.AllocFails → E e) (hnull : NullStops M E)
    (hA : ArenaInv M s) {Q : ℕ → Kernel H D → Prop}
    (hQ : ∀ p t, Extends M (fun _ => False) s t → (∀ a ∈ s.live, a.ptr ≠ p) →
      (memsz = 0 → t.store p = none) →
      (memsz ≠ 0 → p % 4096 = 0 ∧ ⟨p, memsz⟩ ∈ t.live ∧
        t.store p = some (.bytes memsz fun _ => 0)) → Q p t) :
    wp E (elfSegmentBlock M memsz) Q s := by
  unfold elfSegmentBlock
  rw [wp_bind]
  refine kmallocInt_wp_answer hE (fun h hans => ?_) fun p h _ hp hU htop => ?_
  · by_cases h0 : memsz = 0
    · rw [if_pos h0]
      refine hQ 0 _ (Extends.heap hA h) (fun a ha => ?_) (fun _ => ?_) (absurd h0)
      · have hlow := hA.low a ha
        omega
      · -- nothing lies at `NULL`
        by_contra hne
        obtain ⟨o, ho⟩ := Option.ne_none_iff_exists'.mp hne
        exact hA.ne_zero ho rfl
    · rw [if_neg h0, if_pos rfl]
      exact hnull memsz _ h h0 hans
  · by_cases h0 : memsz = 0
    · rw [if_pos h0]
      exact hQ p _ (Extends.withBlock hA h hU htop) (fun a ha => ArenaInv.usable_ne hU ha)
        (fun _ => hA.usable_store hU) (absurd h0)
    · rw [if_neg h0, if_neg hp, wp_bind]
      refine clearBlock_wp List.mem_cons_self ?_
      rw [wp_pure]
      have hstep : Extends M (fun _ => False) s _ :=
        Extends.newObj (o := .bytes memsz fun _ => 0) hA h hU htop
      refine hQ p _ hstep (fun a ha => ArenaInv.usable_ne hU ha) (absurd · h0) fun _ => ?_
      exact ⟨hU.2.1 rfl, List.mem_cons_self, Kernel.put_store_self⟩

/-- Steps of other parts leave a segment in memory. -/
theorem SegmentInMemory.keep {phdr : ElfPhdr} {phys : ℕ} {bytes : List UInt8}
    (h : SegmentInMemory s phdr phys bytes) {K : Kind → Prop} (hF : Frame K s t) (hK : ¬ K .raw) :
    SegmentInMemory t phdr phys bytes where
  fits := h.fits
  block h0 := by
    obtain ⟨halign, hlive, hstore⟩ := h.block h0
    obtain ⟨hlive', hsame⟩ := hF.blocks _ hlive (by rw [hstore]; rintro _ ⟨⟩; exact hK)
    exact ⟨halign, hlive', hsame.trans hstore⟩

end Block

section Segment

variable {R : FileReader M fd E σ} {s t : Kernel H D} {proc dir : ℕ} {W m : ℕ → ℕ} {a : σ}
  {phdr : ElfPhdr}

/-- Freeing a block that holds no structure of the file system. -/
theorem KeepsFs.freed {p : ℕ} (hp : ∀ o, s.store p = some o → o.kind ≠ .fs) :
    KeepsFs s (s.freed M p) where
  fs := rfl
  objs q o hq hk := by
    have hne : q ≠ p := by
      rintro rfl
      exact hp o hq hk
    exact ⟨o, by rw [Kernel.freed_store_ne hne, hq], Obj.Alike.refl o⟩

/-- **The bytes of a segment** are in its block, or not all of them are in the file. -/
theorem elfReadSegment_wp (hE : ∀ e, e.AllocFails → E e) (hnull : NullStops M E) (hAt : R.At a s)
    (hfilesz : phdr.filesz < 4294967296) {Q : ℤ × ℕ → Kernel H D → Prop}
    (hover : ∀ r v c, R.SegmentReads phdr a r v c → phdr.memsz < r.2.length → E .overrun)
    (hfail : ∀ r v c p t, R.SegmentReads phdr a r v c → r.2.length ≤ phdr.memsz → r.1 ≠ 1 →
      R.Open t → Extends M LoadKind s t → Q (-1, p) t)
    (hok : ∀ r v c d p t, R.SegmentReads phdr a r v c → r.2.length ≤ phdr.memsz → r.1 = 1 →
      R.Seeks c v d → R.At d t → Extends M FsKind s t → SegmentInMemory t phdr p r.2 →
      (∀ a ∈ s.live, a.ptr ≠ p) → Q (0, p) t) :
    wp E (elfReadSegment M fd phdr) Q s := by
  have hA := R.arena (R.open_of_at hAt)
  unfold elfReadSegment
  rw [wp_bind]
  refine elfSegmentBlock_wp hE hnull hA fun p s₁ hstep₁ hnew hempty hblock => ?_
  have hAt₁ := R.at_keep hAt (hstep₁.frame.keepsFs hA fun h => h) hstep₁.arena
  rw [wp_bind]
  refine R.ftell_wp hAt₁ fun v hv => ?_
  rw [wp_bind]
  refine R.fseek_wp hAt₁ fun _ b s₂ hb hmoves₂ hAt₂ => ?_
  rw [wp_bind]
  refine R.fread_wp hAt₂ hfilesz fun r c s₃ hc hmoves₃ hopen₃ hAt₃ => ?_
  obtain ⟨n, bytes⟩ := r
  dsimp only at hAt₃ ⊢
  have hreads : R.SegmentReads phdr a (n, bytes) v c := ⟨hv, b, hb, hc⟩
  -- up to here there is a new block, and the file system has moved
  have hfs : Extends M FsKind s₁ s₃ := hmoves₂.extends.trans hmoves₃.extends
  have hext₃ : Extends M FsKind s s₃ := (hstep₁.mono fun _ h => h.elim).trans hfs
  have hwrite : wp E (writeBytes p bytes) (fun _ u => Extends M FsKind s u ∧
      SegmentInMemory u phdr p bytes ∧ R.Open u ∧ (n = 1 → R.At c u) ∧
      ∀ o, u.store p = some o → o.kind ≠ .fs) s₃ := by
    by_cases h0 : phdr.memsz = 0
    · -- an empty block: there is nothing to write, or it does not fit
      have hnone : s₃.store p = none := hmoves₃.store_none (hmoves₂.store_none (hempty h0))
      refine writeBytes_none_wp hnone (fun hne => ?_) fun hnil => ?_
      · refine hover _ v c hreads ?_
        rw [h0]
        exact List.length_pos_iff.mpr hne
      · refine ⟨hext₃, ⟨by rw [hnil]; exact Nat.zero_le _, absurd h0⟩, hopen₃, hAt₃, ?_⟩
        rw [hnone]
        simp
    · obtain ⟨halign, hlive, hstore⟩ := hblock h0
      have hlive₃ := hfs.live _ hlive
      have hstore₃ := hfs.frame.store_eq hstep₁.arena hstore (by simp [Obj.kind])
      refine writeBytes_wp hstore₃ hlive₃ (hover _ v c hreads) fun hle => ?_
      set o := Obj.bytes phdr.memsz fun i => if h : i < bytes.length then bytes[i] else 0 with ho
      have hput : Extends M (· = .raw) s₃ (s₃.put p o) :=
        Extends.overwrite hfs.arena hstore₃ rfl rfl
      have hkeep := hput.frame.keepsFs hfs.arena (by simp)
      refine ⟨hext₃.overwriteNew hstore₃ rfl hnew, ⟨hle, fun _ => ⟨halign, hlive₃, ?_⟩⟩,
        R.open_keep hopen₃ hkeep hput.arena, fun h1 => R.at_keep (hAt₃ h1) hkeep hput.arena, ?_⟩
      · rw [Kernel.put_store_self, ho]
        refine congrArg some (congrArg (Obj.bytes phdr.memsz) (funext fun i => ?_))
        by_cases hi : i < bytes.length
        · rw [dif_pos hi, List.getD_eq_getElem _ _ hi]
        · rw [dif_neg hi, List.getD_eq_default _ _ (Nat.le_of_not_lt hi)]
      · rw [Kernel.put_store_self]
        rintro _ ⟨⟩
        simp [ho, Obj.kind]
  rw [wp_bind]
  refine hwrite.mono ?_
  rintro - u ⟨hext, hmem, hopen, hat, hkind⟩
  by_cases hn : n ≠ 1
  · -- the block is given back
    rw [if_pos hn, wp_bind]
    have hload : Extends M LoadKind s u := hext.mono fun _ h => Or.inl h
    refine kfree_wp (fun _ => ?_) fun _ => ?_
    · exact hfail _ v c p u hreads hmem.fits hn hopen hload
    · exact hfail _ v c p _ hreads hmem.fits hn
        (R.open_keep hopen (KeepsFs.freed hkind) hext.arena.freed) (hload.freedNew hnew)
  · rw [not_not] at hn
    rw [if_neg (not_not_intro hn), wp_bind]
    refine R.fseek_wp (hat hn) fun _ d t hd hmoves hAt' => ?_
    exact hok _ v c d p t hreads hmem.fits hn hd hAt' (hext.trans hmoves.extends)
      (hmem.keep hmoves.frame (by simp)) hnew

/-- **A segment** is loaded, or its bytes are not all in the file. -/
theorem elfLoadSegment_wp (hE : ∀ e, e.AllocFails → E e) (hnull : NullStops M E) (hAt : R.At a s)
    (hS : HasSpace s proc dir W m) (hfilesz : phdr.filesz < 4294967296)
    {Q : ℤ × ℕ → Kernel H D → Prop}
    (hover : ∀ r v c, R.SegmentReads phdr a r v c → phdr.memsz < r.2.length → E .overrun)
    (hfail : ∀ r v c p t, R.SegmentReads phdr a r v c → r.2.length ≤ phdr.memsz → r.1 ≠ 1 →
      R.Open t → Extends M LoadKind s t → Q (-1, p) t)
    (hok : ∀ r v c d p t W', R.SegmentReads phdr a r v c → r.2.length ≤ phdr.memsz → r.1 = 1 →
      R.Seeks c v d → R.At d t → Extends M LoadKind s t →
      HasSpace t proc dir W' (userMap phdr.vaddr p m 0 phdr.pages) →
      SegmentInMemory t phdr p r.2 → (∀ a ∈ s.live, a.ptr ≠ p) → Q (0, p) t) :
    wp E (elfLoadSegment M fd proc phdr) Q s := by
  have hA := R.arena (R.open_of_at hAt)
  rw [elfLoadSegment_eq, wp_bind]
  refine elfReadSegment_wp hE hnull hAt hfilesz hover
    (fun r v c p t hreads hfits hone hopen hext => ?_)
    fun r v c d p u hreads hfits hone hd hAt' hext hmem hnew => ?_
  · have hneg : (-1 : ℤ) ≠ 0 := by decide
    rw [if_pos hneg]
    exact hfail r v c p t hreads hfits hone hopen hext
  · rw [if_neg (not_not_intro rfl), wp_bind]
    refine mapUserPages_wp hE _ 0 u W m _ rfl hext.arena
      (hS.frame hA hext.frame (by simp) (by simp)) fun t W' hAt hSt hst _ => ?_
    have hpaging : Extends M LoadKind u t :=
      ⟨hAt, hst.frame.mono fun _ h => Or.inr h, hst.live⟩
    exact hok r v c d p t W' hreads hfits hone hd
      (R.at_keep hAt' (hst.frame.keepsFs hext.arena (by simp)) hAt)
      ((hext.mono fun _ h => Or.inl h).trans hpaging) hSt (hmem.keep hpaging.frame (by simp)) hnew

/-! ### The loop -/

/-- What was loaded stays loaded, and what was new stays new. -/
theorem Loaded.keep {u : Kernel H D} {x : ElfSegment} {h : ReadHeader} (hx : Loaded s t x h)
    {K : Kind → Prop} (hF : Frame K t u) (hK : ¬ K .raw) : Loaded s u x h :=
  ⟨hx.1, fun hload => ⟨(hx.2 hload).1.keep hF hK, (hx.2 hload).2⟩⟩

/-- What is new to a state is new to those it extends. -/
theorem Loaded.behind {u : Kernel H D} {x : ElfSegment} {h : ReadHeader} (hx : Loaded t u x h)
    {K : Kind → Prop} (hstep : Extends M K s t) : Loaded s u x h :=
  ⟨hx.1, fun hload => ⟨(hx.2 hload).1, fun a ha => (hx.2 hload).2 a (hstep.live a ha)⟩⟩

/-- The fields of a header are words. -/
theorem ElfPhdr.decode_bounds (b : List UInt8) :
    (ElfPhdr.decode b).offset < 4294967296 ∧ (ElfPhdr.decode b).vaddr < 4294967296 ∧
      (ElfPhdr.decode b).filesz < 4294967296 ∧ (ElfPhdr.decode b).memsz < 4294967296 :=
  ⟨le32_lt _ _, le32_lt _ _, le32_lt _ _, le32_lt _ _⟩

/-- The state after the loop, if it has gone through the headers `out`. -/
structure LoopDone (R : FileReader M fd E σ) (s t : Kernel H D) (proc dir : ℕ) (m : ℕ → ℕ)
    (segments : List ElfSegment) (out : List ReadHeader) : Prop where
  isOpen : R.Open t
  step : Extends M LoadKind s t
  space : ∃ W, HasSpace t proc dir W (mapSegments m segments)
  loaded : List.Forall₂ (Loaded s t) segments out

/-- **The loop over the program headers.** -/
theorem elfSegments_wp (hE : ∀ e, e.AllocFails → E e) (hnull : NullStops M E) :
    ∀ (n : ℕ) (a : σ) (s : Kernel H D) (W m : ℕ → ℕ)
      (Q : ℤ × List ElfSegment → Kernel H D → Prop), R.At a s → HasSpace s proc dir W m →
      (R.Loop n a none → E .overrun) →
      (∀ res segments out t, R.Loop n a (some (res, out)) → R.Open t → Extends M LoadKind s t →
        (res = 0 → LoopDone R s t proc dir m segments out) → Q (res, segments) t) →
      wp E (elfSegments M fd proc n) Q s := by
  intro n
  induction n with
  | zero =>
    intro a s W m Q hAt hS _ hQ
    have hopen := R.open_of_at hAt
    have hrefl : Extends M LoadKind s s := Extends.refl (R.arena hopen)
    exact hQ 0 [] [] s (.finished a) hopen hrefl fun _ => ⟨hopen, hrefl, ⟨W, hS⟩, .nil⟩
  | succ n ih =>
    intro a s W m Q hAt hS hover hQ
    have hA := R.arena (R.open_of_at hAt)
    rw [elfSegments, wp_bind]
    refine R.fread_wp hAt (by decide) fun r b s₁ hr hmoves hopen hAt₁ => ?_
    have hext₁ : Extends M LoadKind s s₁ := hmoves.extends.mono fun _ h => Or.inl h
    obtain ⟨count, bytes⟩ := r
    dsimp only at hAt₁ ⊢
    by_cases hcount : count ≠ 1
    · rw [if_pos hcount]
      exact hQ _ [] [] s₁ (.noHeader hr hcount) hopen hext₁ fun h => absurd h (by decide)
    rw [not_not] at hcount
    rw [if_neg (not_not_intro hcount)]
    set phdr := ElfPhdr.decode bytes with hphdr
    have hS₁ := hS.frame hA hmoves.frame (by simp) (by simp)
    rw [wp_bind]
    -- the rest of the loop, behind a header that was gone through
    have hrest : ∀ d p t W' x, R.At d t → Extends M LoadKind s t →
        HasSpace t proc dir W' (mapSegment m ⟨phdr, p⟩) → Loaded s t ⟨phdr, p⟩ (phdr, x) →
        (∀ out, R.Loop n d out → R.Loop (n + 1) a (behindHeader (phdr, x) out)) →
        wp E (elfSegments M fd proc n >>= fun r => pure (r.1, ⟨phdr, p⟩ :: r.2)) Q t := by
      intro d p t W' x hAt' hext hS' hloaded hcons
      rw [wp_bind]
      refine ih d t W' _ _ hAt' hS' (fun h => hover (hcons none h)) ?_
      intro res segments out u hloop hopen' hext' hdone
      refine hQ res _ _ u (hcons _ hloop) hopen' (hext.trans hext') fun h0 => ?_
      obtain ⟨-, -, hspace, hall⟩ := hdone h0
      refine ⟨hopen', hext.trans hext', hspace, .cons (hloaded.keep hext'.frame (by simp)) ?_⟩
      exact hall.imp fun _ _ h => h.behind hext
    unfold elfSegment
    by_cases htype : phdr.type = ptLoad
    swap
    · rw [if_neg htype, wp_pure]
      refine hrest b 0 s₁ W [] (hAt₁ hcount) hext₁ ?_ ⟨rfl, fun h => absurd h htype⟩
        fun out hloop => .skipped hr hcount htype hloop
      unfold mapSegment
      rw [if_neg htype]
      exact hS₁
    · rw [if_pos htype]
      refine elfLoadSegment_wp hE hnull (hAt₁ hcount) hS₁ (ElfPhdr.decode_bounds bytes).2.2.1
        (fun seg v c hseg hlong => hover (.overrun hr hcount htype hseg hlong)) ?_ ?_
      · intro seg v c p t hseg hfits hfail hopen' hext
        have hneg : (-1 : ℤ) ≠ 0 := by decide
        rw [if_pos hneg]
        exact hQ _ [] [] t (.noSegment hr hcount htype hseg hfits hfail) hopen' (hext₁.trans hext)
          fun h => absurd h hneg
      · intro seg v c d p t W' hseg hfits hone hd hAt' hext hS' hmem hnew
        refine hrest d p t W' seg.2 hAt' (hext₁.trans hext) ?_ ⟨rfl, fun _ => ⟨hmem, ?_⟩⟩
          fun out hloop => .loaded hr hcount htype hseg hfits hone hd hloop
        · unfold mapSegment
          rw [if_pos htype]
          exact hS'
        · exact fun a ha => hnew a (hext₁.live a ha)

end Segment

end VibeKernel
