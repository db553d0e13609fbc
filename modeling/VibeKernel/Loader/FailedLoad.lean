import VibeKernel.Loader.ElfFile
import VibeKernel.Loader.ProcessName

/-!
# What a failed `process_load` leaves behind

Every failure of `process_load` should leave the kernel as it was, apart from the disks it has
mounted (`KernelRestored`). A file that was opened is closed again on each exit in front of
`process_alloc` (`Borrowed`), and nothing else has been taken there. But no exit behind
`process_alloc` takes the new process out of the list or frees it (`OwnsProcess`), so
`processLoad_failed_iff` puts the line exactly there. The only other leak is that of an `fopen` that
finds the table of descriptors full. This is about calls that keep to their blocks: a name or bytes
of the file that run into another block may overwrite what is to be restored.
-/

namespace VibeKernel

open Verif

variable {H D : Type}

/-! ### What is restored -/

/-- The blocks belong, or have belonged, to mounts. -/
def MountBlocks (t : Kernel H D) (new : List Allocation) : Prop :=
  ∀ a ∈ new, ∃ o, t.store a.ptr = some o ∧ o.IsMount

/-- The open files, the processes and their list, and the live blocks are what they were, apart from
new blocks of mounts. -/
structure KernelRestored (s t : Kernel H D) : Prop where
  descriptors : SameTable s t
  head : t.proc.processHead = s.proc.processHead
  tail : t.proc.processTail = s.proc.processTail
  processes : ∀ p x, s.store p = some (.process x) → t.store p = some (.process x)
  blocks : ∃ new, t.live = new ++ s.live ∧ MountBlocks t new

/-- The file system has mounted disks, and all that it has opened is closed again. -/
structure FsRestored (M : Machine H D) (s t : Kernel H D) : Prop where
  sound : FsSound M (fun _ _ => True) t
  table : SameTable s t
  frame : Frame FsKind s t
  mounts : MountsKept s t
  blocks : ∃ new, t.live = new ++ s.live ∧ MountBlocks t new

/-- A file is open in the slot that was empty, in two blocks of its own, and nothing else is. -/
structure Borrowed (M : Machine H D) (s t : Kernel H D) (slot : ℕ) : Prop where
  sound : FsSound M (fun _ _ => True) t
  inRange : slot < maxFileDescriptors
  closed : s.fs.fileDescriptors slot = 0 ∧ s.openFile slot = none
  frame : Frame FsKind s t
  mounts : MountsKept s t
  files : ∃ x, t.openFile = Function.update s.openFile slot (some x)
  blocks : ∃ p fd new, p ≠ 0 ∧ t.fs.fileDescriptors = Function.update s.fs.fileDescriptors slot p ∧
    t.store p = some (.descriptor fd) ∧
    t.live = [⟨p, 16⟩, ⟨fd.priv, 44⟩] ++ (new ++ s.live) ∧ MountBlocks t new

section Restoring

variable {M : Machine H D} {s t u : Kernel H D} {new : List Allocation} {slot i : ℕ}
  {f : FatFileDescriptor}

theorem MountBlocks.keep (h : MountBlocks t new) (hM : MountsKept t u) : MountBlocks u new := by
  intro a ha
  obtain ⟨o, hp, ho⟩ := h a ha
  exact hM a.ptr o hp ho

theorem MountBlocks.append {new' : List Allocation} (h : MountBlocks t new)
    (h' : MountBlocks t new') :
    MountBlocks t (new ++ new') :=
  List.forall_mem_append.mpr ⟨h, h'⟩

theorem FsRestored.refl (hS : FsSound M (fun _ _ => True) s) : FsRestored M s s where
  sound := hS
  table := ⟨rfl, rfl⟩
  frame := Frame.refl _ s
  mounts := MountsKept.refl s
  blocks := ⟨[], rfl, List.forall_mem_nil _⟩

theorem FsRestored.trans (h : FsRestored M s t) (h' : FsRestored M t u) : FsRestored M s u where
  sound := h'.sound
  table := ⟨h'.table.slots.trans h.table.slots, h'.table.files.trans h.table.files⟩
  frame := h.frame.trans h'.frame
  mounts := h.mounts.trans h'.mounts
  blocks := by
    obtain ⟨new, hlive, hmounts⟩ := h.blocks
    obtain ⟨new', hlive', hmounts'⟩ := h'.blocks
    exact ⟨new' ++ new, by rw [hlive', hlive, List.append_assoc],
      hmounts'.append (hmounts.keep h'.mounts)⟩

theorem FsRestored.restored (h : FsRestored M s t) (hA : ArenaInv M s) : KernelRestored s t where
  descriptors := h.table
  head := by rw [h.frame.proc (by simp)]
  tail := by rw [h.frame.proc (by simp)]
  processes p x hx := h.frame.store_eq hA hx (by simp [Obj.kind])
  blocks := h.blocks

/-- A table that is the same has the same free slot. -/
theorem FsRestored.freeSlot_eq (h : FsRestored M s t) : freeSlot t.fs = freeSlot s.fs := by
  unfold freeSlot
  rw [h.table.slots]

theorem Borrowed.of_restored (h : FsRestored M s t) (h' : Borrowed M t u slot) :
    Borrowed M s u slot where
  sound := h'.sound
  inRange := h'.inRange
  closed := by rw [← h.table.slots, ← h.table.files]; exact h'.closed
  frame := h.frame.trans h'.frame
  mounts := h.mounts.trans h'.mounts
  files := by rw [← h.table.files]; exact h'.files
  blocks := by
    obtain ⟨new, hlive, hmounts⟩ := h.blocks
    obtain ⟨p, fd, new', hp, hslots, hdesc, hlive', hmounts'⟩ := h'.blocks
    refine ⟨p, fd, new' ++ new, hp, by rw [← h.table.slots, hslots], hdesc, ?_,
      hmounts'.append (hmounts.keep h'.mounts)⟩
    rw [hlive', hlive, List.append_assoc]

/-- Moving the file leaves it open. -/
theorem Borrowed.moved (h : Borrowed M s t slot)
    (hmoved : FileMoved M (fun _ _ => True) t u slot i f) : Borrowed M s u slot where
  sound := ⟨hmoved.arena, hmoved.inv⟩
  inRange := h.inRange
  closed := h.closed
  frame := h.frame.trans hmoved.frame
  mounts := h.mounts.trans hmoved.mountsKept
  files := by
    obtain ⟨x, hx⟩ := h.files
    exact ⟨(i, f), by rw [hmoved.files, hx, Function.update_idem]⟩
  blocks := by
    obtain ⟨p, fd, new, hp, hslots, hdesc, hlive, hmounts⟩ := h.blocks
    exact ⟨p, fd, new, hp, by rw [hmoved.fs, hslots], hmoved.descriptor hdesc,
      by rw [hmoved.live, hlive], hmounts.keep hmoved.mountsKept⟩

/-- Closing the file frees its two blocks and no others. -/
theorem Borrowed.closedAgain (h : Borrowed M s t slot)
    (hclosed : FileClosed M (fun _ _ => True) t u slot) : FsRestored M s u where
  sound := ⟨hclosed.arena, hclosed.inv⟩
  table := by
    obtain ⟨x, hx⟩ := h.files
    obtain ⟨p, -, -, -, hslots, -⟩ := h.blocks
    refine ⟨?_, ?_⟩
    · rw [hclosed.fs]
      dsimp only
      rw [hslots, Function.update_idem, ← h.closed.1, Function.update_eq_self]
    · rw [hclosed.files, hx, Function.update_idem, ← h.closed.2, Function.update_eq_self]
  frame := h.frame.trans hclosed.frame
  mounts := h.mounts.trans hclosed.mounts
  blocks := by
    obtain ⟨p, fd, new, hp, hslots, hdesc, hlive, hmounts⟩ := h.blocks
    obtain ⟨desc, g, hopen, hlive'⟩ := hclosed.blocks
    have hslot : t.fs.fileDescriptors slot = p := by
      rw [hslots]
      exact Function.update_self _ _ _
    rw [hslot] at hopen hlive'
    obtain rfl : desc = fd := by
      have hdesc' := hopen.descriptor
      rw [hdesc] at hdesc'
      cases hdesc'
      rfl
    refine ⟨new, ?_, hmounts.keep hclosed.mounts⟩
    -- no other block lies at the two addresses
    have hnodup : ((⟨p, 16⟩ :: ⟨desc.priv, 44⟩ :: (new ++ s.live)).map Allocation.ptr).Nodup := by
      have hnodup := h.sound.arena.nodup
      rw [hlive] at hnodup
      exact hnodup
    simp only [List.map_cons, List.nodup_cons, List.mem_cons,
      not_or] at hnodup
    obtain ⟨⟨-, hp'⟩, hpriv, -⟩ := hnodup
    rw [hlive', hlive, List.filter_append]
    have hown : ([⟨p, 16⟩, ⟨desc.priv, 44⟩] : List Allocation).filter
        (fun a => decide (a.ptr ∉ [desc.priv, p])) = [] := by
      simp
    rw [hown, List.nil_append]
    refine List.filter_eq_self.mpr fun a ha => decide_eq_true ?_
    rintro hmem
    rcases List.mem_cons.mp hmem with heq | hmem
    · exact hpriv (heq ▸ List.mem_map_of_mem ha)
    · exact hp' (List.mem_singleton.mp hmem ▸ List.mem_map_of_mem ha)

end Restoring

/-! ### Opening and closing -/

/-- The path leads to a file, and there is no slot for it. -/
def LeaksFile (M : Machine H D) (path : CString) (s : Kernel H D) : Prop :=
  freeSlot s.fs = none ∧ ∃ r, fopenLookup M path [0x72] s.drives = .ok (.inr r)

section Calls

variable {M : Machine H D} {s t : Kernel H D} {slot : ℕ} {fd : ℤ} {filename : CString}

theorem not_leaksFile (h : freeSlot s.fs = some slot) (path : CString) : ¬ LeaksFile M path s := by
  rintro ⟨hnone, -⟩
  rw [h] at hnone
  cases hnone

/-- The blocks of a new mount. -/
theorem Remounted.mountBlocks {mounts : Option ℕ} {new : List Allocation}
    (h : Remounted s t mounts new) : MountBlocks t new := by
  cases mounts with
  | none =>
    rw [h.1]
    exact List.forall_mem_nil _
  | some i =>
    obtain ⟨m, p, bpb, x, rfl, -, -, hmount, hstream⟩ := h
    exact List.forall_mem_cons.mpr ⟨⟨_, hmount, trivial⟩,
      List.forall_mem_singleton.mpr ⟨_, hstream, trivial⟩⟩

/-- **`fopen`** fails and leaves nothing behind, or it leaks a file, or the file is open. -/
theorem fopen_borrowed (hS : FsSound M (fun _ _ => True) s) (path : CString)
    {Q : ℤ → Kernel H D → Prop}
    (hno : ∀ res t, res < 0 → FsRestored M s t → ¬ LeaksFile M path s → Q res t)
    (hleak : ∀ res t, res < 0 → LeaksFile M path s → ¬ KernelRestored s t → Q res t)
    (hopen : ∀ slot t, freeSlot s.fs = some slot → Borrowed M s t slot → Q ((slot : ℤ) + 1) t) :
    wp (fun _ => True) (fopen M path [0x72]) Q s := by
  refine fopen_wp (fun _ _ => trivial) hS.arena hS.inv (fun _ _ _ => trivial) path [0x72]
    (fun _ => trivial) fun res t hpost => ?_
  obtain ⟨hinv, own, new, hgrow, hrem, hout⟩ := hpost
  unfold OpenOutcome at hout
  cases hlookup : fopenLookup M path [0x72] s.drives with
  | error e =>
    rw [hlookup] at hout
    exact hout.elim
  | ok found =>
    rw [hlookup] at hout
    rcases found with code | ⟨i, item⟩
    · -- nothing was found, so nothing was made for a file
      obtain ⟨rfl, rfl, hsame⟩ := hout
      refine hno res t (fopenLookup_neg hlookup) ?_ ?_
      · exact ⟨⟨hgrow.arena, hinv⟩, hsame, hgrow.frame, hgrow.mountsKept, new, hgrow.live,
          hrem.mountBlocks⟩
      · rintro ⟨-, r, hr⟩
        rw [hlookup] at hr
        cases hr
    · dsimp only at hout
      cases hslot : freeSlot s.fs with
      | none =>
        rw [hslot] at hout
        obtain ⟨rfl, ⟨q, rfl, g, hg⟩, -⟩ := hout
        refine hleak (-7) t (by decide) ⟨hslot, _, hlookup⟩ fun hrestored => ?_
        -- the file structure is still there
        obtain ⟨new', hlive', hmounts⟩ := hrestored.blocks
        have hnew : new' = [⟨q, 44⟩] ++ new :=
          List.append_cancel_right (hlive'.symm.trans hgrow.live)
        obtain ⟨o, ho, hmount⟩ := hmounts ⟨q, 44⟩ (by rw [hnew]; exact List.mem_cons_self)
        rw [hg] at ho
        cases ho
        cases hmount
      | some slot =>
        rw [hslot] at hout
        obtain ⟨rfl, ⟨p, q, rfl, hp, hslots, ⟨desc, hdesc, rfl⟩, -⟩, hfiles⟩ := hout
        obtain ⟨hlt, hzero⟩ := freeSlot_spec hslot
        refine hopen slot t hslot ?_
        exact
          { sound := ⟨hgrow.arena, hinv⟩
            inRange := hlt
            closed := ⟨hzero, hS.inv.openFile_none_iff.mpr hzero⟩
            frame := hgrow.frame
            mounts := hgrow.mountsKept
            files := ⟨_, hfiles⟩
            blocks := ⟨p, desc, new, hp, hslots, hdesc, by rw [hgrow.live, List.append_assoc],
              hrem.mountBlocks⟩ }

theorem fread_borrowed (h : Borrowed M s t slot) (hfd : fdSlot fd = some slot) (size nmemb : ℕ) :
    wp (fun _ => True) (fread M size nmemb fd) (fun _ u => Borrowed M s u slot) t := by
  refine fread_wp h.sound.arena h.sound.inv (fun _ => h) fun slot' i f bpb hfd' _ _ =>
    ⟨fun _ _ => trivial, fun _ f' _ _ u hmoved => ?_⟩
  rw [hfd] at hfd'
  cases hfd'
  exact h.moved hmoved

theorem fclose_borrowed (h : Borrowed M s t slot) (hfd : fdSlot fd = some slot) :
    wp (fun _ => True) (fclose M fd) (fun _ u => FsRestored M s u) t := by
  refine fclose_wp h.sound.arena h.sound.inv (fun hnone => ?_) fun slot' i f hfd' _ u hclosed => ?_
  · -- the file is open
    obtain ⟨x, hx⟩ := h.files
    rw [Kernel.entry_of_slot hfd, hx, Function.update_self] at hnone
    cases hnone
  · rw [hfd] at hfd'
    cases hfd'
    exact h.closedAgain hclosed

/-- **The look at the first bytes** closes its file again, whatever it finds. -/
theorem processMagic_restored (hS : FsSound M (fun _ _ => True) s) (filename : CString) :
    wp (fun _ => True) (processMagic M filename) (fun r t =>
      (¬ LeaksFile M filename s ∧ FsRestored M s t ∧
        (r = none ∨ ∃ slot, freeSlot s.fs = some slot)) ∨
        (r = none ∧ LeaksFile M filename s ∧ ¬ KernelRestored s t)) s := by
  unfold processMagic
  rw [wp_bind]
  refine fopen_borrowed hS filename (fun res t hres hrest hleak => ?_)
    (fun res t hres hleak hnot => ?_) fun slot t hslot hopen => ?_
  · rw [if_pos hres]
    exact .inl ⟨hleak, hrest, .inl rfl⟩
  · rw [if_pos hres]
    exact .inr ⟨rfl, hleak, hnot⟩
  · have hneg : ¬ ((slot : ℤ) + 1 < 0) := by omega
    have hfd := fdSlot_of_slot hopen.inRange
    have hleak := @not_leaksFile _ _ M s slot hslot filename
    rw [if_neg hneg]
    refine wp_seq (fread_borrowed hopen hfd 4 1) fun r u hu => ?_
    refine wp_seq (fclose_borrowed hu hfd) fun _ v hv => ?_
    split
    · exact .inl ⟨hleak, hv, .inl rfl⟩
    · exact .inl ⟨hleak, hv, .inr ⟨slot, hslot⟩⟩

/-- **Opening an ELF file** leaves it open, or closed again. -/
theorem elfOpen_borrowed (hS : FsSound M (fun _ _ => True) s)
    (hslot : ∃ slot, freeSlot s.fs = some slot) (filename : CString) :
    wp (fun _ => True) (elfOpen M filename) (fun r t => (r = none ∧ FsRestored M s t) ∨
      ∃ fd header slot, r = some (fd, header) ∧ fdSlot fd = some slot ∧ Borrowed M s t slot) s := by
  unfold elfOpen
  rw [wp_bind]
  refine fopen_borrowed hS filename (fun res t hres hrest _ => ?_) (fun res t hres hleak _ => ?_)
    fun slot t _ hopen => ?_
  · rw [if_pos hres]
    exact .inl ⟨rfl, hrest⟩
  · obtain ⟨slot, hsome⟩ := hslot
    exact absurd hleak (not_leaksFile hsome filename)
  · have hneg : ¬ ((slot : ℤ) + 1 < 0) := by omega
    have hfd := fdSlot_of_slot hopen.inRange
    rw [if_neg hneg]
    refine wp_seq (fread_borrowed hopen hfd elfEhdrSize 1) fun r u hu => ?_
    obtain ⟨count, bytes⟩ := r
    dsimp only
    split
    · exact .inr ⟨_, _, slot, rfl, hfd, hu⟩
    · exact wp_seq (fclose_borrowed hu hfd) fun _ v hv => .inl ⟨rfl, hv⟩

end Calls

/-! ### The new process -/

/-- There is a process that the first state did not have, in a block of its own. -/
structure OwnsProcess (M : Machine H D) (s t : Kernel H D) (proc : ℕ) : Prop where
  sound : FsSound M (fun _ _ => True) t
  live : ⟨proc, 96⟩ ∈ t.live
  process : ∃ x, t.store proc = some (.process x)
  fresh : ∀ a ∈ s.live, a.ptr ≠ proc

section Process

variable {M : Machine H D} {s t u : Kernel H D} {proc : ℕ} {K : Kind → Prop} {filename : CString}

/-- A new process is more than there was. -/
theorem OwnsProcess.not_restored (h : OwnsProcess M s t proc) : ¬ KernelRestored s t := by
  intro hrestored
  obtain ⟨new, hlive, hmounts⟩ := hrestored.blocks
  have hmem := h.live
  rw [hlive] at hmem
  rcases List.mem_append.mp hmem with hnew | hold
  · obtain ⟨o, ho, hmount⟩ := hmounts _ hnew
    obtain ⟨x, hx⟩ := h.process
    rw [hx] at ho
    cases ho
    cases hmount
  · exact h.fresh _ hold rfl

/-- Steps that keep the processes keep this one. -/
theorem OwnsProcess.step (h : OwnsProcess M s t proc) (hext : Extends M K t u) (hK : ¬ K .process)
    (hS : FsSound M (fun _ _ => True) u) : OwnsProcess M s u proc where
  sound := hS
  live := hext.live _ h.live
  process := by
    obtain ⟨x, hx⟩ := h.process
    exact ⟨x, hext.frame.store_eq h.sound.arena hx hK⟩
  fresh := h.fresh

/-- Steps of other parts than the file system keep it sound. -/
theorem FsSound.extend (hS : FsSound M (fun _ _ => True) t) (hext : Extends M K t u)
    (hK : ¬ K .fs) :
    FsSound M (fun _ _ => True) u :=
  hS.keep (hext.frame.keepsFs hS.arena hK) hext.arena

/-- The structure of the process is overwritten. -/
theorem OwnsProcess.put (h : OwnsProcess M s t proc) (y : ℕ → UInt8) :
    OwnsProcess M s (t.put proc (.process y)) proc := by
  obtain ⟨x, hx⟩ := h.process
  have hext : Extends M (· = .process) t (t.put proc (.process y)) :=
    Extends.overwrite h.sound.arena hx rfl rfl
  exact ⟨h.sound.extend hext (by simp), h.live, ⟨y, Kernel.put_store_self⟩, h.fresh⟩

theorem OwnsProcess.modify_wp (h : OwnsProcess M s t proc) {f : (ℕ → UInt8) → ℕ → UInt8}
    {Q : Unit → Kernel H D → Prop} (hQ : ∀ y, OwnsProcess M s (t.put proc (.process y)) proc →
      Q () (t.put proc (.process y))) :
    wp (fun _ => True) (modifyProcess proc f) Q t := by
  obtain ⟨x, hx⟩ := h.process
  exact modifyProcess_wp h.sound.arena hx (hQ _ (h.put _))

/-- `process_alloc` makes a process, or answers that there is no memory and changes nothing. -/
theorem processAlloc_owns (hS : FsSound M (fun _ _ => True) t) (hlive : ∀ a ∈ s.live, a ∈ t.live)
    {Q : ℤ × ℕ → Kernel H D → Prop} (hnull : ∀ h, Q (-1, 0) { t with heap := h })
    (hok : ∀ proc u, OwnsProcess M s u proc → Q (0, proc) u) :
    wp (fun _ => True) (processAlloc M) Q t := by
  refine processAlloc_wp (fun _ _ => trivial) hS.arena (.inr trivial) (fun h _ => hnull h)
    fun proc u hmade => hok proc u ?_
  exact ⟨hS.extend hmade.step (by simp), hmade.live, hmade.process,
    fun a ha => hmade.fresh a (hlive a ha)⟩

/-- **The rest of `elf_load`** leaves the process where it is, whatever it answers. -/
theorem elfLoadNamed_owns (h : OwnsProcess M s t proc) (filename : CString) (fd : ℤ)
    (header : ElfEhdr) :
    wp (fun _ => True) (elfLoadNamed M filename fd header proc)
      (fun _ u => OwnsProcess M s u proc) t := by
  obtain ⟨x, hx⟩ := h.process
  unfold elfLoadNamed
  rw [wp_bind]
  refine processSetName_wp h.sound.arena hx (fun _ => trivial) fun y => ?_
  have hnamed := h.put y
  rw [wp_bind]
  refine newPagingChunk_wp (fun _ _ => trivial) hnamed.sound.arena hnamed.process (by decide)
    (by decide) fun u₁ dir W hspace hS₁ _ => ?_
  have h₁ : OwnsProcess M s u₁ proc := by
    obtain ⟨z, hz, -⟩ := hS₁.process
    exact ⟨hnamed.sound.extend hspace (by simp), hspace.live _ hnamed.live, ⟨z, hz⟩, h.fresh⟩
  rw [wp_bind]
  refine mapVga_wp (fun _ _ => trivial) h₁.sound.arena hS₁ fun u₂ W₂ hvga hS₂ => ?_
  have h₂ := h₁.step hvga (by simp) (h₁.sound.extend hvga (by simp))
  rw [wp_bind]
  refine (anyReader M fd).fseek_wp (a := ()) h₂.sound fun _ b u₃ _ hmoves hS₃ => ?_
  have h₃ := h₂.step hmoves.extends (by simp) hS₃
  have hspace₃ := hS₂.frame hvga.arena hmoves.frame (by simp) (by simp)
  rw [wp_bind]
  -- the loop extends what there is, as far as it gets
  refine elfSegments_wp (R := anyReader M fd) (fun _ _ => trivial) (fun _ _ _ _ _ => trivial)
    header.phnum () u₃ W₂ _ _ hS₃ hspace₃ (fun _ => trivial)
    fun res segments out u₄ _ hS₄ hext _ => ?_
  have h₄ := h₃.step hext (by simp) hS₄
  dsimp only
  split
  · exact h₄
  · rw [wp_bind]
    exact h₄.modify_wp fun y hy => hy

/-- Opening and reading files extends what there is. -/
theorem fopen_extends (hS : FsSound M (fun _ _ => True) t) (path mode : CString) :
    wp (fun _ => True) (fopen M path mode)
      (fun _ u => FsSound M (fun _ _ => True) u ∧ Extends M FsKind t u) t := by
  refine fopen_wp (fun _ _ => trivial) hS.arena hS.inv (fun _ _ _ => trivial) path mode
    (fun _ => trivial) fun _ u hpost => ?_
  obtain ⟨own, new, hgrow, -⟩ := hpost.outcome
  refine ⟨⟨hgrow.arena, hpost.inv⟩, hgrow.arena, hgrow.frame, fun a ha => ?_⟩
  rw [hgrow.live]
  exact List.mem_append_right _ ha

theorem fread_extends (hS : FsSound M (fun _ _ => True) t) (size nmemb : ℕ) (fd : ℤ) :
    wp (fun _ => True) (fread M size nmemb fd)
      (fun _ u => FsSound M (fun _ _ => True) u ∧ Extends M FsKind t u) t :=
  fread_wp hS.arena hS.inv (fun _ => ⟨hS, Extends.refl hS.arena⟩) fun _ _ _ _ _ _ _ =>
    ⟨fun _ _ => trivial, fun _ _ _ _ u hmoved => ⟨⟨hmoved.arena, hmoved.inv⟩, hmoved.arena,
      hmoved.frame, fun a ha => by rw [hmoved.live]; exact ha⟩⟩

/-- The block of a raw image is new, if there is one. -/
theorem rawBlock_wp (hA : ArenaInv M t) {size : ℕ} {Q : ℕ → Kernel H D → Prop}
    (hnull : ∀ h, Q 0 { t with heap := h })
    (hblock : ∀ p u, p ≠ 0 → Extends M (fun _ => False) t u → ⟨p, size⟩ ∈ u.live →
      u.store p = some (.bytes size fun _ => 0) → Q p u) :
    wp (fun _ => True) (rawBlock M size) Q t := by
  unfold rawBlock
  rw [wp_bind]
  refine kmallocInt_wp (fun _ _ => trivial) (fun h => ?_) fun p h hp hU htop => ?_
  · rw [if_pos rfl]
    exact hnull h
  · rw [if_neg hp, wp_bind]
    refine writeObj_wp ⟨_, List.mem_cons_self, rfl, le_refl _⟩ ?_
    have hstep : Extends M (fun _ => False) t _ :=
      Extends.newObj (o := .bytes size fun _ => 0) hA h hU htop
    exact hblock p _ hp hstep List.mem_cons_self Kernel.put_store_self

/-- Once a raw image is read, loading it succeeds. -/
theorem rawMap_result (proc ptr size : ℕ) (s : Kernel H D) :
    wp (fun _ => True) (rawMap M proc ptr size) (fun r _ => r.1 = 0) s := by
  unfold rawMap
  refine wp_seq (wp_true _ _) fun _ _ _ => wp_seq (wp_true _ _) fun _ _ _ => ?_
  exact wp_seq (wp_true _ _) fun _ _ _ => wp_seq (wp_true _ _) fun _ _ _ => rfl

/-- **The raw branch** leaves the process where it is when it fails. -/
theorem rawLoadFile_owns (h : OwnsProcess M s t proc) (filename : CString) :
    wp (fun _ => True) (rawLoadFile M filename proc)
      (fun r u => r.1 < 0 → OwnsProcess M s u proc) t := by
  unfold rawLoadFile
  refine wp_seq (fopen_extends h.sound filename [0x72]) fun fd u₁ hu₁ => ?_
  obtain ⟨hS₁, hext₁⟩ := hu₁
  have h₁ := h.step hext₁ (by simp) hS₁
  by_cases hfd : fd < 0
  · rw [if_pos hfd]
    exact fun _ => h₁
  rw [if_neg hfd, wp_bind]
  refine fstat_wp hS₁.inv (fun _ _ => h₁) fun slot i f _ _ => ?_
  dsimp only
  rw [wp_bind]
  refine h₁.modify_wp fun y₁ h₂ => ?_
  set u₂ := u₁.put proc (.process y₁)
  rw [wp_bind]
  refine rawBlock_wp h₂.sound.arena (fun heap => ?_) fun ptr u₃ hptr hext₃ hlive₃ hstore₃ => ?_
  · have hext : Extends M (fun _ => False) u₂ { u₂ with heap := heap } :=
      Extends.heap h₂.sound.arena heap
    have h₃ := h₂.step hext (fun h => h) (h₂.sound.extend hext fun h => h)
    rw [wp_bind]
    refine h₃.modify_wp fun y₃ h₄ => ?_
    rw [if_pos rfl]
    exact fun _ => h₄
  · have h₃ := h₂.step hext₃ (fun h => h) (h₂.sound.extend hext₃ fun h => h)
    rw [wp_bind]
    refine h₃.modify_wp fun y₃ h₄ => ?_
    rw [if_neg hptr]
    -- the block is not that of the process
    have hne : ptr ≠ proc := by
      rintro rfl
      obtain ⟨x, hx⟩ := h₃.process
      rw [hstore₃] at hx
      cases hx
    have hstore₄ : (u₃.put proc (.process y₃)).store ptr =
        some (.bytes (fat16Stat f).filesize fun _ => 0) :=
      (Kernel.put_store_ne hne).trans hstore₃
    refine wp_seq (fread_extends h₄.sound _ 1 fd) fun r u₅ hu₅ => ?_
    obtain ⟨hS₅, hext₅⟩ := hu₅
    obtain ⟨count, bytes⟩ := r
    have h₅ := h₄.step hext₅ (by simp) hS₅
    have hstore₅ := hext₅.frame.store_eq h₄.sound.arena hstore₄ (by simp [Obj.kind])
    dsimp only
    rw [wp_bind]
    refine writeBytes_wp hstore₅ (hext₅.live _ hlive₃) (fun _ => trivial) fun hle => ?_
    have hext₆ : Extends M (· = .raw) u₅ (u₅.put ptr (.bytes (fat16Stat f).filesize fun i =>
        if h : i < bytes.length then bytes[i] else 0)) :=
      Extends.overwrite hS₅.arena hstore₅ rfl rfl
    split
    · exact fun _ => h₅.step hext₆ (by simp) (hS₅.extend hext₆ (by simp))
    · refine wp_seq (wp_true _ _) fun _ u₇ _ => ?_
      refine (rawMap_result proc ptr _ u₇).mono fun r _ hr hneg => ?_
      rw [hr] at hneg
      exact absurd hneg (lt_irrefl 0)

end Process

/-! ### The two parts of `process_load` -/

/-- `process_load` gets as far as making a process. -/
def MakesProcess (M : Machine H D) (filename : CString) (s : Kernel H D) : Prop :=
  ∃ file proc t, processLoadHead M filename s = .ok (some (file, 0, proc), t)

/-- How the part in front of the new process ends. -/
def HeadEnds (M : Machine H D) (filename : CString) (s : Kernel H D) :
    Option (Option (ℤ × ElfEhdr) × ℤ × ℕ) → Kernel H D → Prop
  | none, t => KernelRestored s t ↔ ¬ LeaksFile M filename s
  | some (file, res, proc), t => ¬ LeaksFile M filename s ∧
    (res = 0 ∧ OwnsProcess M s t proc ∨
      res = -1 ∧ match file with
        | none => FsRestored M s t
        | some (fd, _) => ∃ slot, fdSlot fd = some slot ∧ Borrowed M s t slot)

section Load

variable {M : Machine H D} {s t : Kernel H D} {filename : CString}

/-- A new heap is no concern of the file system. -/
theorem FsRestored.heap (h : FsRestored M s t) (h' : H) : FsRestored M s { t with heap := h' } :=
  h.trans
    { sound := h.sound.extend (Extends.heap (K := fun _ => False) h.sound.arena h') fun h => h
      table := ⟨rfl, rfl⟩
      frame := (Extends.heap h.sound.arena h').frame
      mounts := MountsKept.refl t
      blocks := ⟨[], rfl, List.forall_mem_nil _⟩ }

theorem Borrowed.heap {slot : ℕ} (h : Borrowed M s t slot) (h' : H) :
    Borrowed M s { t with heap := h' } slot where
  sound := h.sound.extend (Extends.heap (K := fun _ => False) h.sound.arena h') fun h => h
  inRange := h.inRange
  closed := h.closed
  frame := h.frame.trans (Extends.heap h.sound.arena h').frame
  mounts := h.mounts
  files := h.files
  blocks := h.blocks

/-- **Up to the new process** everything that was taken is given back on failure. -/
theorem processLoadHead_ends (hS : FsSound M (fun _ _ => True) s) (filename : CString) :
    wp (fun _ => True) (processLoadHead M filename) (HeadEnds M filename s) s := by
  unfold processLoadHead
  refine wp_seq (processMagic_restored hS filename) fun magic t ht => ?_
  rcases ht with ⟨hleak, hrest, hslot⟩ | ⟨rfl, hleak, hnot⟩
  swap
  · exact iff_of_false hnot (not_not_intro hleak)
  cases magic with
  | none => exact iff_of_true (hrest.restored hS.arena) hleak
  | some magic =>
    have hslot : ∃ slot, freeSlot t.fs = some slot := by
      rw [hrest.freeSlot_eq]
      exact hslot.resolve_left (Option.some_ne_none _)
    have hkept : ∀ a ∈ s.live, a ∈ t.live := by
      intro a ha
      obtain ⟨new, hlive, -⟩ := hrest.blocks
      rw [hlive]
      exact List.mem_append_right _ ha
    dsimp only
    split
    · refine wp_seq (elfOpen_borrowed hrest.sound hslot filename) fun file u hu => ?_
      rcases hu with ⟨rfl, hu⟩ | ⟨fd, header, slot, rfl, hfd, hu⟩
      · exact iff_of_true ((hrest.trans hu).restored hS.arena) hleak
      · have hborrowed := hu.of_restored hrest
        dsimp only
        rw [wp_bind]
        refine processAlloc_owns (s := s) hu.sound (fun a ha => ?_) (fun h => ?_)
          fun proc v hv => ?_
        · obtain ⟨p, desc, new, -, -, -, hlive, -⟩ := hborrowed.blocks
          rw [hlive]
          exact List.mem_append_right _ (List.mem_append_right _ ha)
        · exact ⟨hleak, .inr ⟨rfl, slot, hfd, hborrowed.heap h⟩⟩
        · exact ⟨hleak, .inl ⟨rfl, hv⟩⟩
    · rw [wp_bind]
      refine processAlloc_owns hrest.sound hkept (fun h => ?_) fun proc v hv => ?_
      · exact ⟨hleak, .inr ⟨rfl, hrest.heap h⟩⟩
      · exact ⟨hleak, .inl ⟨rfl, hv⟩⟩

/-- Behind the new process nothing is given back on failure. -/
theorem processLoadTail_owns {proc : ℕ} (h : OwnsProcess M s t proc) (file : Option (ℤ × ElfEhdr))
    (filename : CString) :
    wp (fun _ => True) (processLoadTail M filename (some (file, 0, proc)))
      (fun r u => r.1 < 0 → ¬ KernelRestored s u) t := by
  have hneg : ¬ (0 : ℤ) < 0 := lt_irrefl 0
  cases file with
  | none =>
    unfold processLoadTail
    dsimp only
    rw [if_neg hneg, wp_bind]
    obtain ⟨x, hx⟩ := h.process
    refine processSetName_wp h.sound.arena hx (fun _ => trivial) fun y => ?_
    exact (rawLoadFile_owns (h.put y) filename).mono fun _ _ hu hres => (hu hres).not_restored
  | some file =>
    obtain ⟨fd, header⟩ := file
    unfold processLoadTail
    dsimp only
    rw [if_neg hneg]
    refine wp_seq (elfLoadNamed_owns h filename fd header) fun out u hu => ?_
    rw [wp_bind]
    refine fclose_wp hu.sound.arena hu.sound.inv (fun _ _ => hu.not_restored)
      fun slot i f _ _ v hclosed _ => ?_
    -- closing the file frees blocks of the file system only
    obtain ⟨x, hx⟩ := hu.process
    obtain ⟨hlive, hsame⟩ :=
      hclosed.frame.blocks _ hu.live (by rw [hx]; rintro _ ⟨⟩; simp [Obj.kind])
    have hv : OwnsProcess M s v proc :=
      ⟨⟨hclosed.arena, hclosed.inv⟩, hlive, ⟨x, hsame.trans hx⟩, hu.fresh⟩
    exact hv.not_restored

/-- A failed `process_load` leaves the kernel as it was exactly if it has failed before a process
was made, and not by finding a file while the table of descriptors was full. -/
theorem kernelRestored_iff (hS : FsSound M (fun _ _ => True) s) {res : ℤ} {proc : ℕ}
    (hrun : processLoad M filename s = .ok ((res, proc), t)) (hneg : res < 0) :
    KernelRestored s t ↔ ¬ LeaksFile M filename s ∧ ¬ MakesProcess M filename s := by
  rw [processLoad_eq] at hrun
  obtain ⟨r, u, hhead, htail⟩ := Exec.bind_ok hrun
  have hends := (processLoadHead_ends hS filename).ok hhead
  -- the head tells whether a process was made
  have hmakes : MakesProcess M filename s ↔ ∃ file proc, r = some (file, 0, proc) := by
    unfold MakesProcess
    rw [hhead]
    constructor
    · rintro ⟨file, proc, v, heq⟩
      cases heq
      exact ⟨file, proc, rfl⟩
    · rintro ⟨file, proc, rfl⟩
      exact ⟨file, proc, u, rfl⟩
  rw [hmakes]
  cases r with
  | none =>
    cases htail
    refine hends.trans (and_iff_left ?_).symm
    rintro ⟨file, proc, h⟩
    cases h
  | some made =>
    obtain ⟨file, res', p⟩ := made
    obtain ⟨hleak, ⟨rfl, howns⟩ | ⟨rfl, hrest⟩⟩ := hends
    · refine iff_of_false ?_ fun h => h.2 ⟨file, p, rfl⟩
      exact (processLoadTail_owns howns file filename).ok htail hneg
    · have hminus : (-1 : ℤ) < 0 := by decide
      refine iff_of_true ?_ ⟨hleak, ?_⟩
      · cases file with
        | none =>
          unfold processLoadTail at htail
          dsimp only at htail
          rw [if_pos hminus] at htail
          cases htail
          exact hrest.restored hS.arena
        | some file =>
          obtain ⟨fd, header⟩ := file
          obtain ⟨slot, hfd, hborrowed⟩ := hrest
          unfold processLoadTail at htail
          dsimp only at htail
          rw [if_pos hminus] at htail
          obtain ⟨_, v, hout, hclose⟩ := Exec.bind_ok htail
          cases hout
          obtain ⟨_, w, hfclose, hend⟩ := Exec.bind_ok hclose
          cases hend
          exact ((fclose_borrowed hborrowed hfd).ok hfclose).restored hS.arena
      · rintro ⟨file', proc', h⟩
        cases h

/-- **A failed `process_load`.** A call that keeps to its blocks halts the machine, or it returns;
and if it has failed, it leaves the kernel as it was exactly if it has failed before a process was
made, and not by finding a file while the table of descriptors was full. -/
theorem processLoad_failed_iff (hS : FsSound M (fun _ _ => True) s)
    (hin : KeepsToBlocks (processLoad M filename) s) :
    (∃ e, processLoad M filename s = .error e ∧ e.Halts) ∨
      ∃ res proc t, processLoad M filename s = .ok ((res, proc), t) ∧
        (res < 0 → (KernelRestored s t ↔
          ¬ LeaksFile M filename s ∧ ¬ MakesProcess M filename s)) := by
  cases hrun : processLoad M filename s with
  | error e => exact .inl ⟨e, rfl, hin e hrun⟩
  | ok r =>
    obtain ⟨⟨res, proc⟩, t⟩ := r
    exact .inr ⟨res, proc, t, rfl, fun hneg => kernelRestored_iff hS hrun hneg⟩

end Load

/-! ### Two files -/

/-- A file of three bytes. -/
def shortFile : List UInt8 := [0x7F, 0x45, 0x4C]

/-- An ELF file whose program header is missing. -/
def cutFile : List UInt8 := ehdrBytes 52 1

/-- Loading a file that is too short leaves nothing behind. -/
theorem processLoad_failed_iff_short : ∃ proc t,
    processLoad (elfMachine shortFile) elfPath elfBoot = .ok ((-1, proc), t) ∧
    KernelRestored elfBoot t := by
  have hres : (processLoad (elfMachine shortFile) elfPath elfBoot).toOption.map (fun r => r.1.1) =
      some (-1) := by decide +kernel
  have hhead : (processLoadHead (elfMachine shortFile) elfPath elfBoot).toOption.map
      (fun r => r.1.isNone) = some true := by decide +kernel
  obtain ⟨slot, hslot⟩ := @freeSlot_of_zero _ _ elfBoot ⟨0, by norm_num, rfl⟩
  have hok : ∃ r, processLoad (elfMachine shortFile) elfPath elfBoot = .ok r := by
    cases hrun : processLoad (elfMachine shortFile) elfPath elfBoot with
    | error e =>
      rw [hrun] at hres
      cases hres
    | ok r => exact ⟨r, rfl⟩
  obtain ⟨r, hr⟩ := hok
  rcases processLoad_failed_iff (elfBoot_sound _) (KeepsToBlocks.of_ok hr) with
    ⟨e, hrun, -⟩ | ⟨res, proc, t, hrun, hiff⟩
  · rw [hr] at hrun
    cases hrun
  rw [hrun] at hres
  obtain rfl : res = -1 := Option.some.inj hres
  refine ⟨proc, t, hrun, (hiff (by decide)).mpr ⟨not_leaksFile hslot elfPath, ?_⟩⟩
  rintro ⟨file, proc', u, hmade⟩
  rw [hmade] at hhead
  cases hhead

/-- **A process that is left over.** The loop of `elf_load` finds no program header, and the new
process stays in the list. -/
theorem processLoad_leaves_process : ∃ proc t,
    processLoad (elfMachine cutFile) elfPath elfBoot = .ok ((-1, proc), t) ∧
      ¬ KernelRestored elfBoot t := by
  have hres : (processLoad (elfMachine cutFile) elfPath elfBoot).toOption.map
      (fun r => (r.1.1, decide (r.2.proc.processHead = 0))) = some (-1, false) := by decide +kernel
  cases hrun : processLoad (elfMachine cutFile) elfPath elfBoot with
  | error e =>
    rw [hrun] at hres
    cases hres
  | ok r =>
    obtain ⟨⟨res, proc⟩, t⟩ := r
    rw [hrun] at hres
    obtain ⟨hneg, hhead⟩ := Prod.mk.inj (Option.some.inj hres)
    dsimp only at hneg hhead
    subst hneg
    exact ⟨proc, t, rfl, fun hrestored => of_decide_eq_false hhead hrestored.head⟩

end VibeKernel
