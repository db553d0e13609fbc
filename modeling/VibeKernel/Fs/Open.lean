import VibeKernel.Fs.Mounting

/-!
# Opening a file

`fopenLookup` says in one expression what `fopen` finds under a path: the code of its error, or the
disk and the directory item. It depends on the drives only. `fopen_wp` then says what `fopen` does:
it mounts the disk if it gets that far, and if it finds a file it opens it in the first free slot of
the descriptor table (`FopenPost`). The blocks of the parsed path are gone in every case.
-/

namespace VibeKernel

open Verif

variable {H D : Type}

/-! ### What a path leads to -/

/-- What `fopen` finds on the disk `i` under the parts of a path. -/
def lookupParts (M : Machine H D) (i : ℕ) (parts : List CString) (modeStr : CString) (d : D) :
    Except Stop (ℤ ⊕ ℕ × FatDirectoryItem) :=
  match parts with
  | [] => .ok (.inl (-2))
  | part :: rest =>
    if i > 1 then .ok (.inl (-3))
    else
      match bootSector M i d with
      | .inl _ => .ok (.inl (-4))
      | .inr bpb =>
        if fsParseMode modeStr = .invalid then .ok (.inl (-5))
        else if fsParseMode modeStr ≠ .read then .ok (.inl (-6))
        else
          match fat16Find M.ata bpb M.fuel 0 part rest (afterBoot M i d).1 (afterBoot M i d).2 with
          | .error e => .error e
          | .ok (none, _) => .ok (.inl (-6))
          | .ok (some item, _) =>
            if item.IsSubdirectory then .ok (.inl (-6)) else .ok (.inr (i, item))

/-- What `fopen` finds under a path. -/
def fopenLookup (M : Machine H D) (path modeStr : CString) (d : D) :
    Except Stop (ℤ ⊕ ℕ × FatDirectoryItem) :=
  match pathParserGetDriveNo path with
  | none => .ok (.inl (-1))
  | some (i, rest) => lookupParts M i (pathParts (rest.length + 1) rest) modeStr d

/-- The disk that mounting is successful for, if it is tried on the drive `i`. -/
def mountsDrive (M : Machine H D) (i : ℕ) (d : D) : Option ℕ :=
  if i > 1 then none
  else
    match bootSector M i d with
    | .inl _ => none
    | .inr _ => some i

/-- The disk that `fopen` mounts. -/
def fopenMounts (M : Machine H D) (path : CString) (d : D) : Option ℕ :=
  match pathParserGetDriveNo path with
  | none => none
  | some (i, rest) =>
    if pathParts (rest.length + 1) rest = [] then none else mountsDrive M i d

/-! ### The postcondition -/

/-- The blocks of a new mount, if a disk was mounted. -/
def Remounted (s t : Kernel H D) : Option ℕ → List Allocation → Prop
  | none, new => new = [] ∧ t.fs.fsPrivate = s.fs.fsPrivate
  | some i, new => ∃ m p bpb x, new = [⟨m, 516⟩, ⟨p, 8⟩] ∧ m ≠ 0 ∧
      t.fs.fsPrivate = Function.update s.fs.fsPrivate i m ∧
      t.store m = some (.mount ⟨bpb, p⟩) ∧ t.store p = some (.stream x)

/-- The table of descriptors is as it was. -/
structure SameTable (s t : Kernel H D) : Prop where
  slots : t.fs.fileDescriptors = s.fs.fileDescriptors
  files : t.openFile = s.openFile

/-- The slot is filled with a file just opened, by the two blocks `new`. -/
structure Filled (s t : Kernel H D) (slot i : ℕ) (item : FatDirectoryItem)
    (new : List Allocation) : Prop where
  blocks : ∃ p q, new = [⟨p, 16⟩, ⟨q, 44⟩] ∧ p ≠ 0 ∧
    t.fs.fileDescriptors = Function.update s.fs.fileDescriptors slot p ∧
    (∃ fd, t.store p = some (.descriptor fd) ∧ fd.priv = q) ∧ ∃ f, t.store q = some (.file f)
  files : t.openFile =
    Function.update s.openFile slot (some (i, FatFileDescriptor.fresh item))

/-- What `fopen` answers and does, by what it finds: `own` are the blocks for the file. -/
def OpenOutcome (s t : Kernel H D) (res : ℤ) (own : List Allocation) :
    Except Stop (ℤ ⊕ ℕ × FatDirectoryItem) → Prop
  | .error _ => False
  | .ok (.inl code) => res = code ∧ own = [] ∧ SameTable s t
  | .ok (.inr (i, item)) =>
    match freeSlot s.fs with
    | none => res = -7 ∧ (∃ q, own = [⟨q, 44⟩] ∧ ∃ f, t.store q = some (.file f)) ∧ SameTable s t
    | some slot => res = slot + 1 ∧ Filled s t slot i item own

/-- The state after `fopen`. -/
structure FopenPost (M : Machine H D) (B : ℕ → FatBootSector → Prop) (s : Kernel H D)
    (lookup : Except Stop (ℤ ⊕ ℕ × FatDirectoryItem)) (mounts : Option ℕ) (res : ℤ)
    (t : Kernel H D) : Prop where
  inv : FsInv B t
  outcome : ∃ own new, FsGrows M s t (own ++ new) ∧ Remounted s t mounts new ∧
    OpenOutcome s t res own lookup

/-! ### Specifications -/

section Specs

variable {M : Machine H D} {E : Stop → Prop} {s t u : Kernel H D} {B : ℕ → FatBootSector → Prop}

/-- **`fat16_open`** on a mounted disk: `NULL`, or a new file structure for the item found. -/
theorem fat16Open_wp (hE : ∀ e, e.AllocFails → E e) (hA : ArenaInv M s) {i : ℕ} {m : FatPrivate}
    {x : DiskStream} (hmount : MountAt B s i (s.fs.fsPrivate i) m x) {part : PathPart}
    {rest : List PathPart} {mode : FileMode} {Q : ℕ → Kernel H D → Prop}
    (hmode : mode ≠ .read → Q 0 s)
    (hnone : mode = .read →
      (∃ y, fat16Find M.ata m.bpb M.fuel 0 part.part (rest.map PathPart.part) x s.drives =
        .ok (none, y)) → ∀ t, FsQuiet M s t → Q 0 t)
    (hitem : mode = .read → ∀ item y,
      fat16Find M.ata m.bpb M.fuel 0 part.part (rest.map PathPart.part) x s.drives =
        .ok (some item, y) →
      (item.IsSubdirectory → ∀ t, FsQuiet M s t → Q 0 t) ∧
      (¬ item.IsSubdirectory → ∀ q t, q ≠ 0 → FsGrows M s t [⟨q, 44⟩] → t.fs = s.fs →
        s.store q = none → t.store q = some (.file (FatFileDescriptor.fresh item)) → Q q t)) :
    wp E (fat16Open M i (part :: rest) mode) Q s := by
  unfold fat16Open
  by_cases hread : mode = .read
  swap
  · rw [if_pos hread]
    exact hmode hread
  rw [if_neg (not_not_intro hread), wp_bind]
  refine diskMount_wp hmount ?_
  dsimp only
  rw [wp_bind]
  -- the search moves the stream of the mount, and nothing else
  have hkeeps := fat16Find_keeps (A := M.ata) (b := m.bpb) M.fuel
      (rest.map PathPart.part) 0 part.part
    s.drives hmount.diskId
  refine withStream_wp hA hmount.stream (fun e he => ?_) fun r x' d' hfind => ?_
  · rw [he] at hkeeps
    exact hE e (Or.inl hkeeps)
  rw [hfind] at hkeeps
  have hquiet : FsQuiet M s ({ s with drives := d' }.put m.stream (.stream x')) :=
    ⟨FsGrows.streamed hA hmount.stream hmount.diskId hkeeps, rfl⟩
  cases r with
  | none => exact hnone hread ⟨_, hfind⟩ _ hquiet
  | some item =>
    obtain ⟨hdir, hfile⟩ := hitem hread item _ hfind
    dsimp only
    by_cases hsub : item.IsSubdirectory
    · rw [if_pos hsub]
      exact hdir hsub _ hquiet
    · rw [if_neg hsub]
      -- the descriptor is a block of its own
      refine newObj_wp hE fun q h hq hU htop => ?_
      have hgrow := hquiet.grows.trans (FsGrows.newObj (h := h) hquiet.grows.arena hU htop)
      refine hfile hsub q _ hq hgrow rfl ?_ Kernel.put_store_self
      have hnone := hquiet.grows.arena.usable_store hU
      rw [Kernel.put_store_ne] at hnone
      · exact hnone
      · rintro rfl
        rw [Kernel.put_store_self] at hnone
        cases hnone

/-- A block that held nothing when the files were opened is the file structure of none. -/
theorem KeepsFs.fresh_file (h : KeepsFs t u) (hI : FsInv B t) (hfs : u.fs = t.fs) {q : ℕ}
    (hq : t.store q = none) :
    ∀ slot fd g, u.fs.fileDescriptors slot ≠ 0 →
      OpenAt u slot (u.fs.fileDescriptors slot) fd g → fd.priv ≠ q := by
  intro slot fd g h0 hold hqp
  rw [hfs] at h0 hold
  obtain ⟨fd', g', hopen', -⟩ := hI.opened slot h0
  have hfd := (hopen'.keep h).descriptor.symm.trans hold.descriptor
  cases hfd
  have hg := hopen'.file
  rw [hqp, hq] at hg
  cases hg

theorem freeSlot_spec {fs : FsStatics} {slot : ℕ} (h : freeSlot fs = some slot) :
    slot < maxFileDescriptors ∧ fs.fileDescriptors slot = 0 := by
  unfold freeSlot at h
  exact ⟨List.mem_range.mp (List.mem_of_find?_eq_some h), by simpa using List.find?_some h⟩

/-- **`fs_new_descriptor`** fills the first free slot with a descriptor of the file at `q`. -/
theorem fsNewDescriptor_wp (hE : ∀ e, e.AllocFails → E e) (hA : ArenaInv M s) (hI : FsInv B s)
    {q i : ℕ} {f : FatFileDescriptor} (hfile : s.store q = some (.file f))
    (hm : s.fs.fsPrivate i ≠ 0)
    (hnew : ∀ slot fd g, s.fs.fileDescriptors slot ≠ 0 →
      OpenAt s slot (s.fs.fileDescriptors slot) fd g → fd.priv ≠ q)
    {Q : Option ℕ → Kernel H D → Prop} (hfull : freeSlot s.fs = none → Q none s)
    (hslot : ∀ slot, freeSlot s.fs = some slot → ∀ p t, p ≠ 0 → FsGrows M s t [⟨p, 16⟩] →
      FsInv B t → t.openFile = Function.update s.openFile slot (some (i, f)) →
      t.fs.fsPrivate = s.fs.fsPrivate →
      t.fs.fileDescriptors = Function.update s.fs.fileDescriptors slot p →
      (∃ fd, t.store p = some (.descriptor fd) ∧ fd.priv = q) → t.store q = some (.file f) →
      Q (some (slot + 1)) t) :
    wp E (fsNewDescriptor M .fat16 q i) Q s := by
  unfold fsNewDescriptor
  rw [wp_bind, wp_gets]
  dsimp only [id]
  cases hfree : freeSlot s.fs with
  | none => exact hfull hfree
  | some slot =>
    dsimp only
    rw [wp_bind]
    refine newObj_wp hE fun p h hp hU htop => ?_
    rw [wp_bind, wp_modify, wp_pure]
    -- the block of the descriptor is new, so the open files stay as they are
    have hgrow := FsGrows.newObj (h := h) hA hU htop
    have hpnone := hA.usable_store hU
    set s₁ := (s.withBlock h p _).put p (.descriptor ⟨slot + 1, .fat16, q, i⟩) with hs₁
    have hkeep : KeepsFs s s₁ := hgrow.keepsFs rfl
    obtain ⟨hI₁, hopen₁⟩ := hkeep.inv hI
    have hfile₁ : s₁.store q = some (.file f) := by
      rw [hs₁, Kernel.put_store_ne]
      · exact hfile
      · rintro rfl
        rw [hfile] at hpnone
        cases hpnone
    have hopen : OpenAt s₁ slot p ⟨slot + 1, .fat16, q, i⟩ f :=
      ⟨(freeSlot_spec hfree).1, Kernel.put_store_self, rfl, hfile₁⟩
    -- no other open file has the file in `q`, so the slot can be filled
    obtain ⟨hI₂, hopen₂⟩ := hI₁.fillSlot hp hopen hm (by
      intro slot' fd' g h0 hold
      obtain ⟨fd, g', hopen', -⟩ := hI.opened slot' h0
      have hfd := (hopen'.keep hkeep).descriptor.symm.trans hold.descriptor
      cases hfd
      exact hnew slot' _ g' h0 hopen')
    rw [hopen₁] at hopen₂
    exact hslot slot hfree p _ hp (hgrow.setFs _) hI₂ hopen₂ rfl rfl ⟨_,
      Kernel.put_store_self, rfl⟩ hfile₁

theorem SameTable.of_quiet (h : FsQuiet M s t) (hI : FsInv B s) : SameTable s t :=
  ⟨by rw [h.fs], (h.inv hI).2⟩

/-- A step that only moves streams before an outcome that opens nothing. -/
theorem FopenPost.of_quiet {code : ℤ} (h : FsQuiet M s t) (hI : FsInv B s) :
    FopenPost M B s (.ok (.inl code)) none code t :=
  ⟨(h.inv hI).1, [], [], h.grows, ⟨rfl, by rw [h.fs]⟩, rfl, rfl, SameTable.of_quiet h hI⟩

/-- What a mount looks like after steps that keep the structures. -/
theorem Mounted.remounted {i : ℕ} {bpb : FatBootSector} {new own : List Allocation}
    (h : Mounted M s t i bpb new) (hg : FsGrows M t u own)
    (hpriv : u.fs.fsPrivate = t.fs.fsPrivate) :
    Remounted s u (some i) new := by
  obtain ⟨p, m, hnew, hm, -, -, hfs, hmount, hstream⟩ := h.mount
  obtain ⟨o, ho, halike⟩ := hg.objs m _ hmount rfl
  obtain ⟨o', ho', halike'⟩ := hg.objs p _ hstream rfl
  cases o <;> cases halike
  cases o' with
  | stream y => exact ⟨m, p, bpb, y, hnew, hm, by rw [hpriv, hfs], ho, ho'⟩
  | _ => cases halike'

/-- A failure after the disk was mounted. -/
theorem FopenPost.of_mounted {i : ℕ} {bpb : FatBootSector} {new : List Allocation} {code : ℤ}
    (hM : Mounted M s t i bpb new) (hB : B i bpb) (hI : FsInv B s) (h : FsQuiet M t u) :
    FopenPost M B s (.ok (.inl code)) (some i) code u := by
  obtain ⟨hIt, hopen⟩ := hM.inv hB hI
  obtain ⟨hIu, hopen'⟩ := h.inv hIt
  obtain ⟨p, m, -, -, -, -, hfs, -, -⟩ := hM.mount
  refine ⟨hIu, [], new, hM.grows.trans h.grows, hM.remounted h.grows (by rw [h.fs]), rfl, rfl, ?_,
    hopen'.trans hopen⟩
  rw [h.fs, hfs]

/-- The last step of `fopen`: a found file gets a descriptor, or `-7`. -/
theorem fopenFound_wp (hE : ∀ e, e.AllocFails → E e) {i : ℕ} {bpb : FatBootSector}
    {new : List Allocation} (hB : B i bpb) (hI : FsInv B s) (hM : Mounted M s t i bpb new) {q : ℕ}
    (hgrow : FsGrows M t u [⟨q, 44⟩]) (hfs : u.fs = t.fs) (hqnone : t.store q = none)
    {item : FatDirectoryItem} (hfile : u.store q = some (.file (FatFileDescriptor.fresh item)))
    {Q : ℤ → Kernel H D → Prop}
    (hQ : ∀ res t, FopenPost M B s (.ok (.inr (i, item))) (some i) res t → Q res t) :
    wp E (fsNewDescriptor M .fat16 q i) (fun slot => wp E
      (match slot with
        | none => pure (-7)
        | some index => pure (index : ℤ)) Q) u := by
  obtain ⟨hIt, hopent⟩ := hM.inv hB hI
  obtain ⟨m, hpriv, -, -⟩ := hM.mountAt hB
  have hkeep : KeepsFs t u := hgrow.keepsFs hfs
  have hinvu : FsInv B u ∧ u.openFile = t.openFile := hkeep.inv hIt
  have hslots : u.fs.fileDescriptors = s.fs.fileDescriptors := by
    obtain ⟨_, _, -, -, -, -, hfs', -, -⟩ := hM.mount
    rw [hfs, hfs']
  have hfree : freeSlot u.fs = freeSlot s.fs := by
    unfold freeSlot
    rw [hslots]
  -- the file is new, so no open file has it
  have hown := hkeep.fresh_file hIt hfs hqnone
  refine fsNewDescriptor_wp hE hgrow.arena hinvu.1 hfile (by rw [hfs]; exact hpriv) hown
    (fun hfull => ?_) fun slot hslot p v hp hgrow' hIv hopenv hprivv hslotsv hdesc hfilev => ?_
  · -- the table is full, and the block of the file stays
    refine hQ _ _ ⟨hinvu.1, [⟨q, 44⟩], new, hM.grows.trans hgrow,
      hM.remounted hgrow (by rw [hfs]), ?_⟩
    unfold OpenOutcome
    dsimp only
    rw [hfree] at hfull
    rw [hfull]
    exact ⟨rfl, ⟨q, rfl, _, hfile⟩, hslots, hinvu.2.trans hopent⟩
  · have hgrow₂ := hgrow.trans hgrow'
    refine hQ _ _ ⟨hIv, [⟨p, 16⟩, ⟨q, 44⟩], new, hM.grows.trans hgrow₂,
      hM.remounted hgrow₂ (by rw [hprivv, hfs]), ?_⟩
    unfold OpenOutcome
    dsimp only
    rw [hfree] at hslot
    rw [hslot]
    refine ⟨by norm_num, ⟨p, q, rfl, hp, ?_, hdesc, _, hfilev⟩, ?_⟩
    · rw [hslotsv, hslots]
    · rw [hopenv, hinvu.2, hopent]

/-- **The inner part of `fopen`**: mount, look up, open. -/
theorem fopenParsed_wp (hE : ∀ e, e.AllocFails → E e) (hA : ArenaInv M s) (hI : FsInv B s)
    {root : PathRoot} (modeStr : CString)
    (hB : ∀ bpb, bootSector M root.driveNo s.drives = .inr bpb → B root.driveNo bpb)
    {Q : ℤ → Kernel H D → Prop}
    (hQ : ∀ res t, FopenPost M B s
      (lookupParts M root.driveNo (root.parts.map PathPart.part) modeStr s.drives)
      (if root.parts = [] then none else mountsDrive M root.driveNo s.drives) res t → Q res t) :
    wp E (fopenParsed M root modeStr) Q s := by
  obtain ⟨ptr, i, parts⟩ := root
  unfold fopenParsed
  dsimp only at hQ hB ⊢
  cases parts with
  | nil =>
    rw [if_pos rfl]
    exact hQ _ _ (FopenPost.of_quiet (FsQuiet.refl hA) hI)
  | cons part rest =>
    have hcons : part :: rest ≠ [] := List.cons_ne_nil _ _
    rw [if_neg hcons, List.map_cons, lookupParts] at hQ
    rw [if_neg hcons]
    unfold mountsDrive at hQ
    by_cases hi : i > 1
    · rw [if_pos hi, if_pos hi] at hQ
      rw [if_pos hi]
      exact hQ _ _ (FopenPost.of_quiet (FsQuiet.refl hA) hI)
    rw [if_neg hi, if_neg hi] at hQ
    rw [if_neg hi, wp_bind]
    refine fsResolve_wp hE hA hI (fun code t hboot hquiet => ?_) fun bpb t new hboot hM => ?_
    · rw [hboot] at hQ
      exact hQ _ _ (FopenPost.of_quiet hquiet hI)
    rw [hboot] at hQ
    dsimp only at hQ ⊢
    have hBi := hB bpb hboot
    obtain ⟨hIt, hopent⟩ := hM.inv hBi hI
    obtain ⟨m, hpriv, hbpb, hmount⟩ := hM.mountAt hBi
    have hAt := hM.grows.arena
    by_cases hinv : fsParseMode modeStr = .invalid
    · rw [if_pos hinv] at hQ ⊢
      exact hQ _ _ (FopenPost.of_mounted hM hBi hI (FsQuiet.refl hAt))
    rw [if_neg hinv] at hQ ⊢
    rw [wp_bind]
    rw [← hM.drives_eq, ← hbpb] at hQ
    -- without a file `fopen` answers `-6`
    have hnull : ∀ u, FsQuiet M t u →
        FopenPost M B s (.ok (.inl (-6))) (some i) (-6) u := fun u hu =>
      FopenPost.of_mounted hM hBi hI hu
    refine fat16Open_wp hE hAt hmount (fun hmode => ?_) (fun hmode hfind u hu => ?_)
      fun hmode item y hfind => ⟨fun hsub u hu => ?_, fun hsub q u hq hgrow hfs hqnone hfile => ?_⟩
    · rw [if_pos hmode] at hQ
      rw [if_pos rfl]
      exact hQ _ _ (hnull t (FsQuiet.refl hAt))
    · obtain ⟨y, hfind⟩ := hfind
      rw [if_neg (not_not_intro hmode), hfind] at hQ
      rw [if_pos rfl]
      exact hQ _ _ (hnull u hu)
    · rw [if_neg (not_not_intro hmode), hfind] at hQ
      dsimp only at hQ
      rw [if_pos hsub] at hQ
      rw [if_pos rfl]
      exact hQ _ _ (hnull u hu)
    · rw [if_neg (not_not_intro hmode), hfind] at hQ
      dsimp only at hQ
      rw [if_neg hsub] at hQ
      rw [if_neg hq, wp_bind]
      exact fopenFound_wp hE hBi hI hM hgrow hfs hqnone hfile hQ

/-- Freeing a parsed path touches no structure of the file system. -/
theorem freePath_keeps (hA : ArenaInv M s) {root : PathRoot} {h : H} {new : List Allocation}
    (hA₁ : ArenaInv M (s.alloc h root.blocks)) (hgrow : FsGrows M (s.alloc h root.blocks) t new) :
    FsGrows M s (t.freedAll M root.ptrs) new ∧ KeepsFs t (t.freedAll M root.ptrs) ∧
      ∀ a ∈ new, (t.freedAll M root.ptrs).store a.ptr = t.store a.ptr := by
  obtain ⟨hfree, hnew, hold, hstore⟩ :=
    FsGrows.free hA ((FsGrows.alloc hA₁).trans hgrow) fun p => root.mem_ptrs
  refine ⟨hfree, ⟨(Kernel.freedAll_statics _ _).1, fun p o hp _ => ?_⟩,
    fun a ha => hstore _ (hnew a ha)⟩
  refine ⟨o, ?_, Obj.Alike.refl o⟩
  rw [hstore]
  · exact hp
  · -- the blocks of the path never held a structure
    intro hmem
    obtain ⟨a, ha, rfl⟩ := List.mem_map.mp (root.mem_ptrs.mp hmem)
    have hnone : s.store a.ptr = none := by
      cases hs : s.store a.ptr with
      | none => rfl
      | some w =>
        obtain ⟨b, hb, hptr, -⟩ := hA.stored _ _ hs
        exact absurd (hptr ▸ hmem) (hold b hb)
    have hkept := (hgrow.frame.blocks a (List.mem_append_left _ ha) (by
      intro w hw
      rw [Kernel.alloc_store, hnone] at hw
      cases hw)).2
    rw [hp, Kernel.alloc_store, hnone] at hkept
    cases hkept

/-- Freeing the parsed path after the inner part: what it was to the state with the path it is to
the state before. -/
theorem FopenPost.freePath (hA : ArenaInv M s) {root : PathRoot} {h : H}
    (hA₁ : ArenaInv M (s.alloc h root.blocks))
    {lookup : Except Stop (ℤ ⊕ ℕ × FatDirectoryItem)} {mounts : Option ℕ} {res : ℤ}
    (hpost : FopenPost M B (s.alloc h root.blocks) lookup mounts res t) :
    FopenPost M B s lookup mounts res (t.freedAll M root.ptrs) := by
  obtain ⟨hIt, own, new, hgrow, hrem, hout⟩ := hpost
  obtain ⟨hfree, hkeep, hstore⟩ := freePath_keeps hA hA₁ hgrow
  obtain ⟨hIu, hopen⟩ := hkeep.inv hIt
  -- the blocks that stay are not those of the path
  have hown : ∀ a ∈ own, (t.freedAll M root.ptrs).store a.ptr = t.store a.ptr := fun a ha =>
    hstore a (List.mem_append_left _ ha)
  have hnew : ∀ a ∈ new, (t.freedAll M root.ptrs).store a.ptr = t.store a.ptr := fun a ha =>
    hstore a (List.mem_append_right _ ha)
  have htable : SameTable (s.alloc h root.blocks) t → SameTable s (t.freedAll M root.ptrs) :=
    fun hsame => ⟨by rw [hkeep.fs, hsame.slots]; rfl, by rw [hopen, hsame.files]; rfl⟩
  refine ⟨hIu, own, new, hfree, ?_, ?_⟩
  · -- the mount, if there is a new one
    cases mounts with
    | none =>
      refine ⟨hrem.1, ?_⟩
      rw [hkeep.fs]
      exact hrem.2
    | some i =>
      obtain ⟨m, p, bpb, x, rfl, hm, hpriv, hmount, hstream⟩ := hrem
      refine ⟨m, p, bpb, x, rfl, hm, ?_, ?_, ?_⟩
      · rw [hkeep.fs]
        exact hpriv
      · exact (hnew ⟨m, 516⟩ (by simp)).trans hmount
      · exact (hnew ⟨p, 8⟩ (by simp)).trans hstream
  · -- the descriptor and the file, if there are any
    unfold OpenOutcome at hout ⊢
    rcases lookup with e | code | ⟨i, item⟩
    · exact hout
    · exact ⟨hout.1, hout.2.1, htable hout.2.2⟩
    · dsimp only at hout ⊢
      rw [Kernel.alloc_fs] at hout
      cases hslot : freeSlot s.fs with
      | none =>
        rw [hslot] at hout
        obtain ⟨hres, ⟨q, rfl, f, hf⟩, hsame⟩ := hout
        exact ⟨hres, ⟨q, rfl, f, (hown ⟨q, 44⟩ (by simp)).trans hf⟩, htable hsame⟩
      | some slot =>
        rw [hslot] at hout
        obtain ⟨hres, ⟨p, q, rfl, hp, hslots, ⟨fd, hfd, hpriv⟩, f, hf⟩, hfiles⟩ := hout
        refine ⟨hres, ⟨p, q, rfl, hp, ?_, ⟨fd, ?_, hpriv⟩, f, ?_⟩, ?_⟩
        · rw [hkeep.fs, hslots]
          rfl
        · exact (hown ⟨p, 16⟩ (by simp)).trans hfd
        · exact (hown ⟨q, 44⟩ (by simp)).trans hf
        · rw [hopen, hfiles]
          rfl

/-- **`fopen`.** -/
theorem fopen_wp (hE : ∀ e, e.AllocFails → E e) (hA : ArenaInv M s) (hI : FsInv B s)
    (hB : ∀ i bpb, bootSector M i s.drives = .inr bpb → B i bpb) (path modeStr : CString)
    (hover : PathTooLong path → E .overrun) {Q : ℤ → Kernel H D → Prop}
    (hQ : ∀ res t, FopenPost M B s (fopenLookup M path modeStr s.drives)
      (fopenMounts M path s.drives) res t → Q res t) :
    wp E (fopen M path modeStr) Q s := by
  unfold fopen
  rw [wp_bind]
  unfold fopenLookup fopenMounts at hQ
  refine pathParserParse_wp hE hA hover (fun hdrive => ?_)
    fun i rest hdrive root h hno hparts hptrs hA₁ => ?_
  · rw [hdrive] at hQ
    exact hQ _ _ (FopenPost.of_quiet (FsQuiet.refl hA) hI)
  · rw [hdrive] at hQ
    dsimp only at hQ ⊢
    have hkeep₁ : KeepsFs s (s.alloc h root.blocks) := KeepsFs.of_store rfl fun _ _ ho => ho
    have hI₁ : FsInv B (s.alloc h root.blocks) := (hkeep₁.inv hI).1
    rw [wp_bind]
    subst hno
    refine fopenParsed_wp hE hA₁ hI₁ modeStr (fun bpb hb => hB _ bpb hb) fun res t hpost => ?_
    rw [wp_bind]
    refine pathParserFree_wp hptrs ?_
    rw [wp_pure]
    have hnil : root.parts = [] ↔ pathParts (rest.length + 1) rest = [] := by
      rw [← hparts, List.map_eq_nil_iff]
    refine hQ _ _ ?_
    rw [hparts] at hpost
    simp only [hnil] at hpost
    exact hpost.freePath hA hA₁

end Specs

end VibeKernel
