import VibeKernel.Fs.FailedOpen
import VibeKernel.Loader.Segments

/-!
# Loading an ELF file

`elfLoadFront` is the part of `elf_load` in front of its loop and `elfLoadBack` the rest; put
together they are the function (`elfLoad_eq`). What the front leaves to the loop is a process of its
own, with the identity map and the VGA page, and the file at its program headers.
-/

namespace VibeKernel

open Verif

variable {H D : Type}

/-! ### In front of the loop and behind it -/

/-- The part of `elf_load` behind `fopen` that reads the header and checks it. -/
def elfHeader (M : Machine H D) (fd : ℤ) : KM H D (Option (ℤ × ElfEhdr)) := do
  let (count, bytes) ← fread M elfEhdrSize 1 fd
  if count = 1 ∧ elfIsValidHeader (ElfEhdr.decode bytes) then pure (some (fd, ElfEhdr.decode bytes))
  else do
    let _ ← fclose M fd
    pure none

/-- The part of `elf_load` between the check of the header and the loop: the result if it has
failed, or the file with its header, and the new process. -/
def elfStart (M : Machine H D) (filename : CString) (fd : ℤ) (header : ElfEhdr) :
    KM H D (ℤ ⊕ ℤ × ElfEhdr × ℕ) := do
  let (res, proc) ← elfNewProcess M filename
  if res < 0 then do
    let _ ← fclose M fd
    pure (.inl res)
  else do
    let _ ← fseek fd (asInt32 header.phoff) .set
    pure (.inr (fd, header, proc))

/-- `elf_load` up to its loop. -/
def elfLoadFront (M : Machine H D) (filename : CString) : KM H D (ℤ ⊕ ℤ × ElfEhdr × ℕ) := do
  match ← elfOpen M filename with
  | none => pure (.inl (-1))
  | some (fd, header) => elfStart M filename fd header

/-- The loop of `elf_load` and what follows. -/
def elfLoadBack (M : Machine H D) : ℤ ⊕ ℤ × ElfEhdr × ℕ → KM H D (ℤ × ℕ × List ElfSegment)
  | .inl res => pure (res, 0, [])
  | .inr (fd, header, proc) => do
    let (res, segments) ← elfSegments M fd proc header.phnum
    if res ≠ 0 then do
      let _ ← fclose M fd
      pure (res, 0, segments)
    else do
      modifyProcess proc fun x => putWord x processPtrOffset header.entry
      let _ ← fclose M fd
      pure (0, proc, segments)

/-- **`elf_load`** is its front and its back. -/
theorem elfLoad_eq (M : Machine H D) (filename : CString) :
    elfLoad M filename = elfLoadFront M filename >>= elfLoadBack M := by
  unfold elfLoad elfLoadFront
  rw [bind_assoc]
  congr 1
  funext file
  cases file with
  | none => rfl
  | some file =>
    obtain ⟨fd, header⟩ := file
    unfold elfLoadProcess elfStart
    dsimp only
    rw [bind_assoc, bind_assoc]
    congr 1
    funext made
    obtain ⟨res, proc⟩ := made
    dsimp only
    by_cases hres : res < 0
    · rw [if_pos hres, if_pos hres, pure_bind, bind_assoc]
      rfl
    · rw [if_neg hres, if_neg hres]
      simp only [bind_assoc, pure_bind]
      congr 1
      funext _
      unfold elfLoadBack
      congr 1
      funext out
      -- both sides close the file, whatever the segments have answered
      by_cases hout : out.1 ≠ 0
      · simp only [if_pos hout, pure_bind]
      · simp only [if_neg hout, bind_assoc, pure_bind]

/-! ### The new process -/

/-- The map of a new process: the identity, for the kernel alone, and the VGA page for everyone. -/
def processMap : ℕ → ℕ :=
  Function.update (identityMap (pagingIsPresent ||| pagingIsWriteable)) 0xB8 (0xB8000 ||| 7)

/-- The kinds of structures that a loader changes, apart from new blocks. -/
abbrev LoaderKind (k : Kind) : Prop := k = .fs ∨ k = .paging ∨ k = .process

section NewProcess

variable {M : Machine H D} {E : Stop → Prop} {s t : Kernel H D} {filename : CString} {proc : ℕ}

theorem processSetName_wp (hA : ArenaInv M s) {x : ℕ → UInt8}
    (hx : s.store proc = some (.process x))
    (hname : ¬ NameFits M s proc filename → E .overrun) {Q : Unit → Kernel H D → Prop}
    (hQ : ∀ y, Q () (s.put proc (.process y))) : wp E (processSetName M proc filename) Q s := by
  unfold processSetName
  rw [wp_bind, wp_gets]
  dsimp only [id]
  by_cases hfits : NameFits M s proc filename
  · rw [if_pos hfits]
    exact modifyProcess_wp hA hx (hQ _)
  · rw [if_neg hfits]
    exact hname hfits

/-- The name of the process that comes next fits into its block. -/
def NewNameFits (M : Machine H D) (filename : CString) (s : Kernel H D) : Prop :=
  ∀ proc t, processAlloc M s = .ok ((0, proc), t) → NameFits M t proc filename

theorem NewNameFits.of_short (h : filename.length < 94) : NewNameFits M filename s :=
  fun _ _ _ => NameFits.of_short h

/-- Steps of other parts leave the list of processes appendable. -/
theorem ProcessListInv.frame (h : ProcessListInv s) (hA : ArenaInv M s)
    {K : Kind → Prop} (hF : Frame K s t) (hK : ¬ K .process) : ProcessListInv t := by
  intro hhead
  rw [hF.proc hK] at hhead ⊢
  obtain ⟨y, hy⟩ := h hhead
  exact ⟨y, hF.store_eq hA hy hK⟩

/-- The VGA page joins the map of a process. -/
theorem mapVga_wp (hE : ∀ e, e.AllocFails → E e) (hA : ArenaInv M s) {dir : ℕ} {W m : ℕ → ℕ}
    (hS : HasSpace s proc dir W m) {Q : Unit → Kernel H D → Prop}
    (hQ : ∀ t W', Extends M (· = .paging) s t →
      HasSpace t proc dir W' (Function.update m 0xB8 (0xB8000 ||| 7)) → Q () t) :
    wp E (mapVga M proc) Q s := by
  unfold mapVga
  rw [wp_bind]
  refine processDirectory_wp hS ?_
  rw [wp_bind, userFlags]
  refine pagingSet_wp hE hA hS.refines (by norm_num) (fun h => absurd rfl h)
    fun _ t W' hAt hR hst _ => ?_
  rw [wp_pure]
  exact hQ t W' ⟨hAt, hst.frame, hst.live⟩ (hS.paging hA hst hR)

/-- **The process of an ELF file** is made, or there is no memory for its structure. -/
theorem elfNewProcess_wp (hE : ∀ e, e.AllocFails → E e) (hA : ArenaInv M s)
    (htail : ProcessListInv s ∨ E .clobbered) (hname : ¬ NewNameFits M filename s → E .overrun)
    {Q : ℤ × ℕ → Kernel H D → Prop}
    (hnull : ∀ h, M.heap.kmallocInt 96 false s.heap = some (0, h) → Q (-1, 0) { s with heap := h })
    (hok : ∀ proc t, Extends M (fun k => k = .paging ∨ k = .process) s t →
      (∃ dir W, HasSpace t proc dir W processMap) → (∀ a ∈ s.live, a.ptr ≠ proc) → proc ≠ 0 →
      ⟨proc, 96⟩ ∈ t.live → Q (0, proc) t) :
    wp E (elfNewProcess M filename) Q s := by
  unfold elfNewProcess
  rw [wp_bind]
  refine wp_of_run (processAlloc_wp hE hA htail (fun h hans _ => ?_) fun proc t hmade hrun => ?_)
  · exact hnull h hans
  have hneg : ¬ (0 : ℤ) < 0 := lt_irrefl 0
  dsimp only
  rw [if_neg hneg, wp_bind]
  obtain ⟨x, hx⟩ := hmade.process
  refine processSetName_wp hmade.step.arena hx
    (fun hnot => hname fun hfits => hnot (hfits proc t hrun)) fun y => ?_
  have hnamed : Extends M (· = .process) t _ :=
    Extends.overwrite (o := .process y) hmade.step.arena hx rfl rfl
  have hlive : ⟨proc, 96⟩ ∈ (t.put proc (.process y)).live := hmade.live
  rw [wp_bind]
  refine newPagingChunk_wp hE hnamed.arena ⟨y, Kernel.put_store_self⟩ (by decide) (by decide)
    fun u dir W hstep hS _ => ?_
  rw [wp_bind]
  refine mapVga_wp hE hstep.arena hS fun v W' hvga hSv => ?_
  rw [wp_pure]
  refine hok proc v ?_ ⟨dir, W', hSv⟩ hmade.fresh hmade.ne_zero
    (hvga.live _ (hstep.live _ hlive))
  exact (((hmade.step.trans hnamed).mono fun _ h => Or.inr h).trans hstep).trans
    (hvga.mono fun _ h => Or.inl h)

end NewProcess

/-! ### Specifications -/

section Specs

variable {M : Machine H D} {E : Stop → Prop} {s t : Kernel H D} {filename : CString} {fd : ℤ}
  {σ : Type} {R : FileReader M fd E σ} {a : σ}

/-- The header is read and accepted, or the file is closed. -/
theorem elfHeader_wp (hAt : R.At a s) {Q : Option (ℤ × ElfEhdr) → Kernel H D → Prop}
    (hno : ∀ r b t, R.Reads a elfEhdrSize r b →
      ¬ (r.1 = 1 ∧ elfIsValidHeader (ElfEhdr.decode r.2)) → Q none t)
    (hyes : ∀ r b t, R.Reads a elfEhdrSize r b → r.1 = 1 →
      elfIsValidHeader (ElfEhdr.decode r.2) → FsMoves M s t → R.At b t →
      Q (some (fd, ElfEhdr.decode r.2)) t) :
    wp E (elfHeader M fd) Q s := by
  unfold elfHeader
  rw [wp_bind]
  refine R.fread_wp hAt (by decide) fun r b t hr hmoves hopen hAt' => ?_
  obtain ⟨count, bytes⟩ := r
  dsimp only at hAt' ⊢
  by_cases hok : count = 1 ∧ elfIsValidHeader (ElfEhdr.decode bytes)
  · rw [if_pos hok]
    exact hyes _ b t hr hok.1 hok.2 hmoves (hAt' hok.1)
  · rw [if_neg hok, wp_bind]
    exact R.fclose_wp hopen fun _ u _ _ => hno _ b u hr hok

/-- The process is made and the file is moved to its program headers. -/
theorem elfStart_wp (hE : ∀ e, e.AllocFails → E e) (hAt : R.At a s)
    (htail : ProcessListInv s ∨ E .clobbered) (hname : ¬ NewNameFits M filename s → E .overrun)
    {header : ElfEhdr} {Q : ℤ ⊕ ℤ × ElfEhdr × ℕ → Kernel H D → Prop}
    (hnull : (∃ h, M.heap.kmallocInt 96 false s.heap = some (0, h)) → ∀ t, Q (.inl (-1)) t)
    (hok : ∀ proc b t, R.Seeks a (asInt32 header.phoff) b → R.At b t →
      Extends M LoaderKind s t → (∃ dir W, HasSpace t proc dir W processMap) →
      (∀ a ∈ s.live, a.ptr ≠ proc) → proc ≠ 0 → ⟨proc, 96⟩ ∈ t.live →
      Q (.inr (fd, header, proc)) t) :
    wp E (elfStart M filename fd header) Q s := by
  have hA := R.arena (R.open_of_at hAt)
  unfold elfStart
  rw [wp_bind]
  refine elfNewProcess_wp hE hA htail hname (fun h hans => ?_)
    fun proc t hstep hS hnew h0 hlive => ?_
  · have hneg : (-1 : ℤ) < 0 := by decide
    have hheap : Extends M (fun _ => False) s _ := Extends.heap hA h
    have hopen := R.open_keep (R.open_of_at hAt) (hheap.frame.keepsFs hA fun h => h) hheap.arena
    dsimp only
    rw [if_pos hneg, wp_bind]
    exact R.fclose_wp hopen fun _ u _ _ => hnull ⟨h, hans⟩ u
  · have hneg : ¬ (0 : ℤ) < 0 := lt_irrefl 0
    dsimp only
    rw [if_neg hneg, wp_bind]
    have hAt' := R.at_keep hAt (hstep.frame.keepsFs hA (by simp)) hstep.arena
    refine R.fseek_wp hAt' fun _ b u hb hmoves hAt'' => ?_
    have hext : Extends M LoaderKind s u :=
      (hstep.mono fun _ h => Or.inr h).trans (hmoves.extends.mono fun _ h => Or.inl h)
    obtain ⟨dir, W, hSt⟩ := hS
    refine hok proc b u hb hAt'' hext ⟨dir, W, ?_⟩ hnew h0 (hmoves.extends.live _ hlive)
    exact hSt.frame hstep.arena hmoves.frame (by simp) (by simp)

/-- What a loaded process is: a directory for the headers gone through, and its segments. -/
structure ProcessLoaded (s t : Kernel H D) (proc : ℕ) (segments : List ElfSegment)
    (out : List ReadHeader) : Prop where
  space : ∃ dir W, HasSpace t proc dir W (mapSegments processMap segments)
  loaded : List.Forall₂ (Loaded s t) segments out
  arena : ArenaInv M t

/-- **The loop and what follows**, for a process that was made. -/
theorem elfLoadBack_wp (hE : ∀ e, e.AllocFails → E e) (hnull : NullStops M E) (hAt : R.At a s)
    {proc : ℕ} (hS : ∃ dir W, HasSpace s proc dir W processMap) {header : ElfEhdr}
    {Q : ℤ × ℕ × List ElfSegment → Kernel H D → Prop}
    (hover : R.Loop header.phnum a none → E .overrun)
    (hfail : ∀ res segments out t, R.Loop header.phnum a (some (res, out)) → res ≠ 0 →
      Q (res, 0, segments) t)
    (hok : ∀ segments out t, R.Loop header.phnum a (some (0, out)) →
      ProcessLoaded (M := M) s t proc segments out → Q (0, proc, segments) t) :
    wp E (elfLoadBack M (.inr (fd, header, proc))) Q s := by
  obtain ⟨dir, W, hS⟩ := hS
  unfold elfLoadBack
  rw [wp_bind]
  refine elfSegments_wp hE hnull header.phnum a s W processMap _ hAt hS hover
    fun res segments out t hloop hopen hstep hdone => ?_
  dsimp only
  by_cases hres : res ≠ 0
  · rw [if_pos hres, wp_bind]
    exact R.fclose_wp hopen fun _ u _ _ => hfail res segments out u hloop hres
  · rw [not_not] at hres
    subst hres
    rw [if_neg (not_not_intro rfl), wp_bind]
    obtain ⟨-, -, ⟨W', hSt⟩, hall⟩ := hdone rfl
    obtain ⟨x, hx, -⟩ := hSt.process
    refine modifyProcess_wp hstep.arena hx ?_
    set y := putWord x processPtrOffset header.entry with hy
    have hput : Extends M (· = .process) t (t.put proc (.process y)) :=
      Extends.overwrite hstep.arena hx rfl rfl
    have hSu : HasSpace (t.put proc (.process y)) proc dir W' (mapSegments processMap segments) :=
      hSt.put hx (wordAt_putWord_other (by decide))
    have hopen' := R.open_keep hopen (hput.frame.keepsFs hstep.arena (by simp)) hput.arena
    rw [wp_bind]
    refine R.fclose_wp hopen' fun _ u hAu hF => hok segments out u hloop ?_
    exact
      { space := ⟨dir, W', hSu.frame hput.arena hF (by simp) (by simp)⟩
        loaded := hall.imp fun _ _ h => (h.keep hput.frame (by simp)).keep hF (by simp)
        arena := hAu }

end Specs

end VibeKernel
