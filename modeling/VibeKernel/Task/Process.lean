import VibeKernel.Kernel.Arena
import VibeKernel.Fs.Descriptors
import VibeKernel.Memory.PageTables

/-!
# Processes

`src/task/process.c` up to `process_load`. A `struct process` is its 96 bytes, in a block that may
be larger: `strcpy` copies a file name of any length to `name`, so a long one runs into the fields
behind it, from 94 characters on past the structure, and past the block if that ends there.
-/

namespace VibeKernel

open Verif

variable {H D : Type}

/-! ### Fields of a structure in memory -/

/-- Bytes stored at an offset. -/
def putBytes (x : ℕ → UInt8) (offset : ℕ) (bs : List UInt8) : ℕ → UInt8 := fun i =>
  if offset ≤ i ∧ i < offset + bs.length then bs.getD (i - offset) 0 else x i

/-- The bytes of a 32-bit word. -/
def wordBytes (w : ℕ) : List UInt8 :=
  [UInt8.ofNat (w % 256), UInt8.ofNat (w / 256 % 256), UInt8.ofNat (w / 65536 % 256),
    UInt8.ofNat (w / 16777216)]

/-- A 32-bit word stored at an offset. -/
def putWord (x : ℕ → UInt8) (offset w : ℕ) : ℕ → UInt8 := putBytes x offset (wordBytes w)

/-- The 32-bit word at an offset. -/
def wordAt (x : ℕ → UInt8) (offset : ℕ) : ℕ := le32 (slice x offset 4) 0

/-- `offsetof(struct process, name)`. -/
def processNameOffset : ℕ := 2

/-- `offsetof(struct process, paging_chunk)`. -/
def processPagingChunkOffset : ℕ := 80

/-- `offsetof(struct process, ptr)`. -/
def processPtrOffset : ℕ := 84

/-- `offsetof(struct process, size)`. -/
def processSizeOffset : ℕ := 88

/-- `offsetof(struct process, next)`. -/
def processNextOffset : ℕ := 92

/-! ### The functions of the source -/

/-- Change the structure of the process at `p`. -/
def modifyProcess (p : ℕ) (f : (ℕ → UInt8) → ℕ → UInt8) : KM H D Unit := do
  let x ← readObj Obj.asProcess p
  writeObj p (.process (f x))

/-- `process_get_free_slot`. -/
def processGetFreeSlot : KM H D ℕ := do
  Exec.modify fun s => { s with proc := { s.proc with currentId := s.proc.currentId + 1 } }
  let s ← Exec.gets id
  pure s.proc.currentId

/-- The end of `process_alloc`: the process is appended to the list. -/
def processLink (proc : ℕ) : KM H D Unit := do
  let s ← Exec.gets id
  if s.proc.processHead = 0 then
    Exec.modify fun s => { s with proc := { s.proc with processHead := proc, processTail := proc } }
  else do
    modifyProcess s.proc.processTail fun x => putWord x processNextOffset proc
    Exec.modify fun s => { s with proc := { s.proc with processTail := proc } }

/-- `process_alloc`: the result and what is stored at `process`. -/
def processAlloc (M : Machine H D) : KM H D (ℤ × ℕ) := do
  let proc ← kmallocInt M 96 false
  if proc = 0 then pure (-1, 0)
  else do
    writeObj proc (.process fun _ => 0)
    let newId ← processGetFreeSlot
    modifyProcess proc fun x => putBytes x 0 ((wordBytes (u32 newId)).take 2)
    processLink proc
    pure (0, proc)

/-- The name with its `NUL` ends inside the structure, or inside the block that the structure lies
in. -/
abbrev NameFits (M : Machine H D) (s : Kernel H D) (proc : ℕ) (filename : CString) : Prop :=
  FitsBlock M s proc 96 (processNameOffset + (filename.length + 1))

/-- A name of less than 94 characters fits into the structure. -/
theorem NameFits.of_short {M : Machine H D} {s : Kernel H D} {proc : ℕ} {filename : CString}
    (h : filename.length < 94) : NameFits M s proc filename := by
  refine FitsBlock.of_le ?_
  unfold processNameOffset
  omega

/-- `strcpy(proc->name, filename)`. A name that does not fit runs into the block behind, which stops
the computation. -/
def processSetName (M : Machine H D) (proc : ℕ) (filename : CString) : KM H D Unit := do
  let s ← Exec.gets id
  if NameFits M s proc filename then
    modifyProcess proc fun x => putBytes x processNameOffset (filename ++ [0])
  else Exec.stop .overrun

/-- `process->paging_chunk = paging_new_4gb(flags)`. -/
def newPagingChunk (M : Machine H D) (proc flags : ℕ) : KM H D Unit := do
  let chunk ← pagingNew4gb M flags
  modifyProcess proc fun x => putWord x processPagingChunkOffset chunk

/-- `process->paging_chunk->directory_entry`. -/
def processDirectory (proc : ℕ) : KM H D ℕ := do
  let x ← readObj Obj.asProcess proc
  readObj Obj.asChunk (wordAt x processPagingChunkOffset)

/-- `process_switch`. -/
def processSwitch (proc : ℕ) : KM H D Unit :=
  Exec.modify fun s => { s with proc := { s.proc with currentProcess := proc } }

/-- A loop that gives `n` pages from `virt` on the entries of the pages from `phys` on, present,
writeable and accessible to the user. -/
def mapUserPages (M : Machine H D) (proc virt phys : ℕ) : ℕ → ℕ → KM H D Unit
  | _, 0 => pure ()
  | b, n + 1 => do
    let directory ← processDirectory proc
    let _ ← pagingSet M directory (u32 (virt + b))
      (u32 (phys + b) ||| pagingIsPresent ||| pagingIsWriteable ||| pagingAccessFromAll)
    mapUserPages M proc virt phys (b + 4096) n

/-! ### Words and bytes -/

section Words

variable {x : ℕ → UInt8} {offset w : ℕ} {bs : List UInt8}

theorem putBytes_other {i : ℕ} (h : i < offset ∨ offset + bs.length ≤ i) :
    putBytes x offset bs i = x i := by
  unfold putBytes
  exact if_neg (by omega)

theorem putBytes_self {i : ℕ} (h : i < bs.length) : putBytes x offset bs (offset + i) = bs[i] := by
  unfold putBytes
  rw [if_pos (by omega), Nat.add_sub_cancel_left, List.getD_eq_getElem _ _ h]

/-- Storing bytes leaves the words apart from them alone. -/
theorem wordAt_putBytes {o : ℕ} (h : o + 4 ≤ offset ∨ offset + bs.length ≤ o) :
    wordAt (putBytes x offset bs) o = wordAt x o := by
  unfold wordAt
  rw [slice_congr fun i hi => putBytes_other (by omega)]

theorem wordAt_putWord_other {o : ℕ} (h : o + 4 ≤ offset ∨ offset + 4 ≤ o) :
    wordAt (putWord x offset w) o = wordAt x o := wordAt_putBytes h

theorem wordAt_putWord (hw : w < 4294967296) : wordAt (putWord x offset w) offset = w := by
  have hslice : slice (putWord x offset w) offset 4 = wordBytes w := by
    refine List.ext_getElem? fun i => ?_
    rcases lt_or_ge i 4 with hi | hi
    · rw [slice_getElem? _ hi]
      exact (congrArg some (putBytes_self hi)).trans (List.getElem?_eq_getElem hi).symm
    · rw [List.getElem?_eq_none (by rw [slice_length]; exact hi), List.getElem?_eq_none hi]
  unfold wordAt
  rw [hslice]
  change ((UInt8.ofNat (w % 256)).toNat + 256 * (UInt8.ofNat (w / 256 % 256)).toNat) +
    65536 * ((UInt8.ofNat (w / 65536 % 256)).toNat + 256 * (UInt8.ofNat (w / 16777216)).toNat) = w
  simp only [UInt8.toNat_ofNat']
  omega

end Words

/-! ### The address space of a process -/

/-- The process at `proc` has a directory at `dir`, with the words `W`, that stands for the map
`m`. -/
structure HasSpace (s : Kernel H D) (proc dir : ℕ) (W m : ℕ → ℕ) : Prop where
  process : ∃ x, s.store proc = some (.process x) ∧
    s.store (wordAt x processPagingChunkOffset) = some (.chunk dir)
  refines : DirRefines s dir W m

section Space

variable {M : Machine H D} {E : Stop → Prop} {s t : Kernel H D} {proc dir : ℕ} {W m : ℕ → ℕ}

/-- A step that touches neither processes nor directories. -/
theorem HasSpace.frame (h : HasSpace s proc dir W m) {K : Kind → Prop} (hA : ArenaInv M s)
    (hF : Frame K s t) (hproc : ¬ K .process) (hpaging : ¬ K .paging) :
      HasSpace t proc dir W m where
  process := by
    obtain ⟨x, hx, hchunk⟩ := h.process
    exact ⟨x, hF.store_eq hA hx hproc, hF.store_eq hA hchunk hpaging⟩
  refines := h.refines.congr fun q hq => by
    obtain ⟨U, hU⟩ := h.refines.footprint hq
    rw [hU, hF.store_eq hA hU hpaging]

/-- A step on the directory itself. -/
theorem HasSpace.paging (h : HasSpace s proc dir W m) {W' m' : ℕ → ℕ} (hA : ArenaInv M s)
    (hst : PagingStep (Footprint dir W) s t) (hR : DirRefines t dir W' m') :
    HasSpace t proc dir W' m' where
  process := by
    obtain ⟨x, hx, hchunk⟩ := h.process
    refine ⟨x, hst.frame.store_eq hA hx (by simp [Obj.kind]), hst.others _ _ hchunk fun hF => ?_⟩
    obtain ⟨U, hU⟩ := h.refines.footprint hF
    rw [hchunk] at hU
    cases hU
  refines := hR

theorem processDirectory_wp (h : HasSpace s proc dir W m) {Q : ℕ → Kernel H D → Prop}
    (hQ : Q dir s) :
    wp E (processDirectory proc) Q s := by
  obtain ⟨x, hx, hchunk⟩ := h.process
  unfold processDirectory
  rw [wp_bind]
  refine readObj_wp hx rfl ?_
  exact readObj_wp hchunk rfl hQ

/-- A process structure is overwritten, and still has its directory. -/
theorem HasSpace.put (h : HasSpace s proc dir W m) {p : ℕ} {x y : ℕ → UInt8}
    (hp : s.store p = some (.process x))
    (hxy : wordAt y processPagingChunkOffset = wordAt x processPagingChunkOffset) :
    HasSpace (s.put p (.process y)) proc dir W m where
  process := by
    obtain ⟨z, hz, hchunk⟩ := h.process
    have hne : wordAt z processPagingChunkOffset ≠ p := by
      intro heq
      rw [heq, hp] at hchunk
      cases hchunk
    by_cases hpp : proc = p
    · subst hpp
      rw [hp] at hz
      cases hz
      exact ⟨y, Kernel.put_store_self, by rw [hxy, Kernel.put_store_ne hne, hchunk]⟩
    · exact ⟨z, by rw [Kernel.put_store_ne hpp, hz], by rw [Kernel.put_store_ne hne, hchunk]⟩
  refines := h.refines.congr fun q hq => by
    refine Kernel.put_store_ne ?_
    rintro rfl
    obtain ⟨U, hU⟩ := h.refines.footprint hq
    rw [hp] at hU
    cases hU

/-! ### Making a process -/

theorem modifyProcess_wp (hA : ArenaInv M s) {p : ℕ} {x : ℕ → UInt8}
    (hx : s.store p = some (.process x))
    {f : (ℕ → UInt8) → ℕ → UInt8} {Q : Unit → Kernel H D → Prop}
    (hQ : Q () (s.put p (.process (f x)))) : wp E (modifyProcess p f) Q s := by
  unfold modifyProcess
  rw [wp_bind]
  exact readObj_wp hx rfl (overwrite_wp hA hx rfl hQ)

/-- The list of processes can be appended to: if it is not empty, there is a process at its tail. -/
def ProcessListInv (s : Kernel H D) : Prop :=
  s.proc.processHead ≠ 0 → ∃ x, s.store s.proc.processTail = some (.process x)

/-- A new process, the last one of the list. -/
structure ProcessMade (M : Machine H D) (s t : Kernel H D) (proc : ℕ) : Prop where
  step : Extends M (· = .process) s t
  process : ∃ x, t.store proc = some (.process x)
  fresh : ∀ a ∈ s.live, a.ptr ≠ proc
  ne_zero : proc ≠ 0
  live : ⟨proc, 96⟩ ∈ t.live
  tail : t.proc.processTail = proc

/-- Appending a process to the list: the process at the tail, if there is one, gets a successor. -/
theorem processLink_wp (hA : ArenaInv M t) {p : ℕ} {x : ℕ → UInt8}
    (hx : t.store p = some (.process x)) (htail : ProcessListInv t ∨ E .clobbered)
    {Q : Unit → Kernel H D → Prop}
    (hQ : ∀ u, Extends M (· = .process) t u → (∃ y, u.store p = some (.process y)) →
      u.proc.processTail = p → Q () u) :
    wp E (processLink p) Q t := by
  unfold processLink
  rw [wp_bind, wp_gets]
  dsimp only [id]
  by_cases hhead : t.proc.processHead = 0
  · rw [if_pos hhead, wp_modify]
    exact hQ _ (Extends.proc (K := (· = .process)) hA rfl _) ⟨x, hx⟩ rfl
  rw [if_neg hhead, wp_bind]
  by_cases hlast : ∃ y, t.store t.proc.processTail = some (.process y)
  · obtain ⟨y, hy⟩ := hlast
    refine modifyProcess_wp hA hy ?_
    rw [wp_modify]
    have hput : Extends M (· = .process) t _ :=
      Extends.overwrite (o := .process (putWord y processNextOffset p)) hA hy rfl rfl
    refine hQ _ (hput.trans (Extends.proc (K := (· = .process)) hput.arena rfl _)) ?_ rfl
    by_cases hp : p = t.proc.processTail
    · exact ⟨_, by rw [hp]; exact Kernel.put_store_self⟩
    · exact ⟨x, (Kernel.put_store_ne hp).trans hx⟩
  · have hE : E .clobbered := htail.resolve_left fun hI => hlast (hI hhead)
    -- there is no process at the tail
    have hnone : (t.store t.proc.processTail).bind Obj.asProcess = none := by
      refine Option.eq_none_iff_forall_ne_some.mpr fun y hy => hlast ⟨y, ?_⟩
      obtain ⟨o, ho, hproj⟩ := Option.bind_eq_some_iff.mp hy
      cases o <;> cases hproj
      exact ho
    unfold modifyProcess
    rw [wp_bind]
    unfold wp readObj
    rw [hnone]
    exact hE

/-- **`process_alloc`**, with a list that can be appended to. -/
theorem processAlloc_wp (hE : ∀ e, e.AllocFails → E e) (hA : ArenaInv M s)
    (htail : ProcessListInv s ∨ E .clobbered) {Q : ℤ × ℕ → Kernel H D → Prop}
    (hnull : ∀ h, M.heap.kmallocInt 96 false s.heap = some (0, h) → Q (-1, 0) { s with heap := h })
    (hok : ∀ proc t, ProcessMade M s t proc → Q (0, proc) t) :
    wp E (processAlloc M) Q s := by
  unfold processAlloc
  rw [wp_bind]
  refine kmallocInt_wp_answer hE (fun h hans => ?_) fun proc h _ h0 hU htop => ?_
  · rw [if_pos rfl]
    exact hnull h hans
  rw [if_neg h0, wp_bind]
  refine writeObj_wp ⟨_, List.mem_cons_self, rfl, le_refl _⟩ ?_
  have h₁ : Extends M (· = .process) s _ :=
    Extends.newObj (o := .process fun _ => 0) hA h hU htop
  have h₂ := h₁.trans (Extends.proc (K := (· = .process)) h₁.arena rfl
      { s.proc with currentId := s.proc.currentId + 1 })
  unfold processGetFreeSlot
  rw [wp_bind, wp_bind, wp_modify, wp_bind, wp_gets, wp_pure, wp_bind]
  refine modifyProcess_wp h₂.arena Kernel.put_store_self ?_
  have h₃ := h₂.trans (Extends.overwrite h₂.arena (o := .process
    (putBytes (fun _ => 0) 0 ((wordBytes (u32 (s.proc.currentId + 1))).take 2)))
    Kernel.put_store_self rfl rfl)
  -- the new process lies at none of the addresses of the list
  have hlist : ∀ x, s.store s.proc.processTail = some (.process x) → s.proc.processTail ≠ proc := by
    rintro x hx rfl
    rw [hA.usable_store hU] at hx
    cases hx
  rw [wp_bind]
  refine processLink_wp h₃.arena Kernel.put_store_self (htail.imp_left fun hI hhead => ?_)
    fun u hstep hproc htail' => ?_
  · obtain ⟨x, hx⟩ := hI hhead
    refine ⟨x, ?_⟩
    have hne := hlist x hx
    exact (Kernel.put_store_ne hne).trans ((Kernel.put_store_ne hne).trans hx)
  · exact hok proc u
      { step := h₃.trans hstep
        process := hproc
        fresh := fun a ha => ArenaInv.usable_ne hU ha
        ne_zero := h0
        live := hstep.live _ List.mem_cons_self
        tail := htail' }

/-- The kinds of structures that a new page directory writes. -/
abbrev SpaceKind (k : Kind) : Prop := k = .paging ∨ k = .process

/-- **A new directory** for a process stands for the identity map. -/
theorem newPagingChunk_wp (hE : ∀ e, e.AllocFails → E e) (hA : ArenaInv M s)
    (hproc : ∃ x, s.store proc = some (.process x)) {flags : ℕ} (hlt : flags < 256)
    (hodd : flags % 2 = 1) {Q : Unit → Kernel H D → Prop}
    (hQ : ∀ t dir W, Extends M SpaceKind s t → HasSpace t proc dir W (identityMap flags) →
      (∀ q, Footprint dir W q → s.store q = none) → Q () t) :
    wp E (newPagingChunk M proc flags) Q s := by
  obtain ⟨x, hx⟩ := hproc
  unfold newPagingChunk
  rw [wp_bind]
  refine pagingNew4gb_wp hE hA hlt hodd fun chunk t dir W hAt hchunk hR hst hfresh hfresh' => ?_
  have hx' : t.store proc = some (.process x) := hst.frame.store_eq hA hx fun h => nomatch h
  refine modifyProcess_wp hAt hx' ?_
  have h₁ : Extends M SpaceKind s t := ⟨hAt, hst.frame.mono fun k hk => Or.inl hk, hst.live⟩
  -- neither the chunk nor the directory is the process
  have hne : ∀ q o, t.store q = some o → o.kind ≠ .process → q ≠ proc := by
    rintro q o hq hkind rfl
    rw [hx'] at hq
    cases hq
    exact hkind rfl
  have hchunk32 : chunk < 4294967296 := by
    obtain ⟨a, ha, rfl, -⟩ := hAt.stored chunk _ hchunk
    have hhigh := hAt.high a ha
    unfold identityTop at hhigh
    omega
  refine hQ _ dir W (h₁.trans (Extends.overwrite hAt hx' rfl (Or.inr rfl))) ?_ hfresh
  refine ⟨⟨_, Kernel.put_store_self, ?_⟩, hR.congr fun q hq => ?_⟩
  · rw [wordAt_putWord hchunk32,
      Kernel.put_store_ne (hne chunk _ hchunk fun h => nomatch h), hchunk]
  · obtain ⟨U, hU⟩ := hR.footprint hq
    exact Kernel.put_store_ne (hne q _ hU fun h => nomatch h)

/-! ### Mapping pages -/

/-- The map after `n` pages from `virt` on, and offset `b`, have been given the entries of those
from `phys` on. -/
def userMap (virt phys : ℕ) (m : ℕ → ℕ) : ℕ → ℕ → ℕ → ℕ
  | _, 0 => m
  | b, n + 1 =>
    if virt % 4096 = 0 then
      userMap virt phys (Function.update m (u32 (virt + b) / 4096)
        (u32 (phys + b) ||| 7)) (b + 4096) n
    else m

/-- The pages of the loop that are not `page` leave its entry alone. -/
theorem userMap_miss {virt phys page : ℕ} : ∀ {n b : ℕ} {m : ℕ → ℕ},
    (virt % 4096 = 0 → ∀ j < n, u32 (virt + b + 4096 * j) / 4096 ≠ page) →
      userMap virt phys m b n page = m page := by
  intro n
  induction n with
  | zero => exact fun _ => rfl
  | succ n ih =>
    intro b m h
    rw [userMap]
    split
    · rename_i halign
      have hhead := h halign 0 (Nat.succ_pos n)
      rw [Nat.mul_zero, Nat.add_zero] at hhead
      rw [ih fun halign j hj => ?_, Function.update_of_ne hhead.symm]
      have hrest := h halign (j + 1) (Nat.succ_lt_succ hj)
      rw [show virt + (b + 4096) + 4096 * j = virt + b + 4096 * (j + 1) by ring]
      exact hrest
    · rfl

/-- Page `j` of the loop gets its entry, since no later page is the same one. -/
theorem userMap_hit {virt phys : ℕ} (halign : virt % 4096 = 0) : ∀ {n b j : ℕ} {m : ℕ → ℕ},
    b % 4096 = 0 → n ≤ 1048576 → j < n →
      userMap virt phys m b n (u32 (virt + b + 4096 * j) / 4096) =
        u32 (phys + b + 4096 * j) ||| 7 := by
  intro n
  induction n with
  | zero => exact fun _ _ hj => absurd hj (Nat.not_lt_zero _)
  | succ n ih =>
    intro b j m hb hn hj
    rw [userMap, if_pos halign]
    cases j with
    | zero =>
      have hlater : ∀ i < n, u32 (virt + (b + 4096) + 4096 * i) / 4096 ≠ u32 (virt + b) / 4096 := by
        intro i hi
        simp only [u32_eq]
        omega
      simp only [Nat.mul_zero, Nat.add_zero]
      rw [userMap_miss fun _ => hlater, Function.update_self]
    | succ j =>
      have hrest :=
        @ih (b + 4096) j (Function.update m (u32 (virt + b) / 4096) (u32 (phys + b) ||| 7))
        (by omega) (by omega) (by omega)
      rw [show virt + (b + 4096) + 4096 * j = virt + b + 4096 * (j + 1) by ring,
        show phys + (b + 4096) + 4096 * j = phys + b + 4096 * (j + 1) by ring] at hrest
      exact hrest

theorem userFlags (v : ℕ) :
    v ||| pagingIsPresent ||| pagingIsWriteable ||| pagingAccessFromAll = v ||| 7 := by
  rw [Nat.lor_assoc, Nat.lor_assoc]
  rfl

/-- **Mapping pages** sets the entries one after the other, if the address is aligned, and none of
them otherwise. -/
theorem mapUserPages_wp (hE : ∀ e, e.AllocFails → E e) {virt phys : ℕ} :
    ∀ (n b : ℕ) (s : Kernel H D) (W m : ℕ → ℕ) (Q : Unit → Kernel H D → Prop), b % 4096 = 0 →
      ArenaInv M s → HasSpace s proc dir W m →
      (∀ t W', ArenaInv M t → HasSpace t proc dir W' (userMap virt phys m b n) →
        PagingStep (Footprint dir W) s t →
        (∀ q, Footprint dir W' q → Footprint dir W q ∨ s.store q = none) → Q () t) →
      wp E (mapUserPages M proc virt phys b n) Q s := by
  intro n
  induction n with
  | zero =>
    intro b s W m Q _ hA hS hQ
    exact hQ s W hA hS (PagingStep.refl _ s) fun q hq => Or.inl hq
  | succ n ih =>
    intro b s W m Q hb hA hS hQ
    have halign : u32 (virt + b) % 4096 = virt % 4096 := by
      rw [u32_eq]
      omega
    rw [mapUserPages, wp_bind]
    refine processDirectory_wp hS ?_
    rw [wp_bind, userFlags]
    refine pagingSet_wp hE hA hS.refines (u32_lt _) (fun hodd => ?_)
      fun heven t W' hA' hR' hst hgrow => ?_
    · -- nothing is mapped, now or later
      have hmap : userMap virt phys m b (n + 1) = m := by
        rw [userMap, if_neg (by omega)]
      have hrest : userMap virt phys m (b + 4096) n = m := by
        cases n with
        | zero => rfl
        | succ n => rw [userMap, if_neg (by omega)]
      rw [hmap] at hQ
      refine ih (b + 4096) s W m Q (by omega) hA hS ?_
      rw [hrest]
      exact hQ
    · rw [userMap, if_pos (by omega)] at hQ
      refine ih (b + 4096) t W' _ Q (by omega) hA' (hS.paging hA hst hR')
        fun u W'' hA'' hS'' hst' hgrow' => hQ u W'' hA'' hS'' (hst.trans hst' ?_) fun q hq => ?_
      · intro q o hq hF
        rcases hgrow q hF with h | h
        · exact h
        · rw [hq] at h
          cases h
      · rcases hgrow' q hq with h | h
        · exact hgrow q h
        · by_cases hF : Footprint dir W q
          · exact Or.inl hF
          · exact Or.inr (hst.fresh h fun hF' => absurd hF' hF)

end Space

end VibeKernel
