import VibeKernel.Fs.Open

/-!
# Opening a file with room in the heap

`fopen` asks the allocator for the blocks of the parsed path, for the stream and the mount of the
disk, and for the file with its descriptor (`fopenRequests`). With room for them nothing but the
search for the file and a part of the path that does not fit into its buffer can keep it from
returning (`fopen_returns`). The calls on a descriptor ask for nothing.
-/

namespace VibeKernel

open Verif

variable {H D α : Type}

/-- What mounting a disk asks the allocator for. -/
def mountRequests : List Request := [⟨8, false⟩, ⟨516, false⟩]

/-- What an open file asks the allocator for. -/
def fileRequests : List Request := [⟨44, false⟩, ⟨16, false⟩]

/-- What `fopen` asks the allocator for. -/
def fopenRequests (path : CString) : List Request :=
  pathRequests path ++ (mountRequests ++ fileRequests)

section Cost

variable {M : Machine H D} {E : Stop → Prop} {s : Kernel H D} {rs : List Request} {p : ℕ}

/-! ### The parts of `fopen` -/

theorem newObj_answers {align : Bool} {o : Obj} :
    Exec.Answers (newObj M align o) fun p => p < 4294967296 := by
  intro s p t hrun
  have hwp : wp (fun _ => True) (newObj M align o) (fun p _ => p < 4294967296) s := by
    refine newObj_wp (fun _ _ => trivial) fun p h _ _ htop => ?_
    unfold identityTop at htop
    omega
  exact hwp.ok hrun

/-- A function of the drives on a stream asks for no block. -/
theorem withStream_spends (hE : E .clobbered)
    {f : DiskStream → D → Except Stop (α × DiskStream × D)}
    (hf : ∀ x d e, f x d = .error e → E e) : Spends M.room E (withStream p f) [] := by
  unfold withStream
  refine (readObj_spends hE _).bind_free fun stream => Spends.bind_gets fun s => ?_
  cases hrun : f stream s.drives with
  | error e => exact Spends.stop (hf _ _ _ hrun) _
  | ok r =>
    refine (modify_spends (by exact fun _ => ⟨rfl, rfl⟩)).bind_free fun _ => ?_
    exact (writeObj_spends hE).bind_free fun _ => Spends.pure _ _

theorem fat16Resolve_spends (hE : E .clobbered) {disk : ℕ} :
    Spends M.room E (fat16Resolve M disk) mountRequests := by
  unfold fat16Resolve diskstreamNew
  change Spends M.room E _ ([⟨8, false⟩] ++ [⟨516, false⟩])
  refine Spends.bind_answer (newObj_spends (o := .stream ⟨0, disk⟩) hE (Nat.succ_pos _))
    newObj_answers fun stream hp => ?_
  refine (withStream_spends hE fun _ _ _ h => by cases h).bind_free fun r => ?_
  obtain ⟨res, bytes⟩ := r
  dsimp only
  refine Spends.ite (fun _ => ?_) fun _ => ?_
  · exact ((kfree_spends hp).bind_free fun _ => Spends.pure _ _).of_free _
  · cases (FatBootSector.decode bytes).check with
    | some code => exact ((kfree_spends hp).bind_free fun _ => Spends.pure _ _).of_free _
    | none =>
      unfold fat16Mount
      refine Spends.bind_last
        (newObj_spends (o := .mount ⟨FatBootSector.decode bytes, stream⟩) hE (Nat.succ_pos _))
        fun priv => ?_
      exact (modify_spends (by exact fun _ => ⟨rfl, rfl⟩)).bind_free fun _ => Spends.pure _ _

theorem fsNewDescriptor_spends (hE : E .clobbered) {fs : Filesystem} {priv disk : ℕ} :
    Spends M.room E (fsNewDescriptor M fs priv disk) [⟨16, false⟩] := by
  unfold fsNewDescriptor
  refine Spends.bind_gets fun s => ?_
  dsimp only [id]
  cases freeSlot s.fs with
  | none => exact Spends.pure _ _
  | some i =>
    refine Spends.bind_last
      (newObj_spends (o := .descriptor ⟨i + 1, fs, priv, disk⟩) hE (Nat.succ_pos _)) fun desc => ?_
    exact (modify_spends (by exact fun _ => ⟨rfl, rfl⟩)).bind_free fun _ => Spends.pure _ _

/-- The FAT16 file system is the only one that is tried. -/
theorem fsResolve_room {B : ℕ → FatBootSector → Prop} (hE : E .clobbered)
    (hI : FsInv B s) {disk : ℕ} (hroom : RoomFor M (mountRequests ++ rs) s) :
    wp E (fsResolve M disk) (fun _ t => RoomFor M rs t) s := by
  unfold fsResolve
  rw [wp_bind, wp_gets]
  dsimp only [id]
  rw [hI.registered, fsResolveIn]
  refine wp_seq (fat16Resolve_spends hE rs s hroom) fun res t ht => ?_
  split
  · exact ht
  · rw [fsResolveIn_none]
    exact ht

/-- `fat16_open` asks for the structure of the file, if the search ends. -/
theorem fat16Open_room {B : ℕ → FatBootSector → Prop} (hE : E .clobbered)
    (hA : ArenaInv M s) {i : ℕ}
    {m : FatPrivate} {x : DiskStream} (hmount : MountAt B s i (s.fs.fsPrivate i) m x)
    {part : PathPart} {rest : List PathPart} {mode : FileMode}
    (hfind : mode = .read → ∀ e, fat16Find M.ata m.bpb M.fuel 0 part.part (rest.map PathPart.part) x
      s.drives = .error e → E e)
    (hroom : RoomFor M (⟨44, false⟩ :: rs) s) :
    wp E (fat16Open M i (part :: rest) mode) (fun _ t => RoomFor M rs t) s := by
  unfold fat16Open
  by_cases hread : mode = .read
  swap
  · rw [if_pos hread]
    exact hroom.skip
  rw [if_neg (not_not_intro hread), wp_bind]
  refine diskMount_wp hmount ?_
  dsimp only
  rw [wp_bind]
  refine withStream_wp hA hmount.stream (hfind hread) fun r x' d' _ => ?_
  -- moving the stream leaves the room
  have hroom' : RoomFor M (⟨44, false⟩ :: rs) ({ s with drives := d' }.put m.stream (.stream x')) :=
    RoomFor.congr (s := s) rfl rfl hroom
  cases r with
  | none => exact hroom'.skip
  | some item =>
    dsimp only
    split
    · exact hroom'.skip
    · exact newObj_spends (o := .file (FatFileDescriptor.fresh item)) hE
        (Nat.succ_pos _) rs _ hroom'

end Cost

/-! ### Calls on a descriptor -/

section Descriptor

variable {M : Machine H D} {E : Stop → Prop} {fd : ℤ}

theorem fsGetDescriptor_spends (hE : E .clobbered) :
    Spends M.room E (fsGetDescriptor fd) [] := by
  unfold fsGetDescriptor
  refine Spends.bind_gets fun s => Spends.ite (fun _ => Spends.pure _ _) fun _ => ?_
  refine Spends.ite (fun _ => Spends.pure _ _) fun _ => ?_
  exact (readObj_spends hE _).bind_free fun _ => Spends.pure _ _

theorem fat16ReadAt_spends (hE : E .clobbered) (hdiv : E .divideError) {disk priv size nmemb : ℕ} :
    Spends M.room E (fat16ReadAt M disk priv size nmemb) [] := by
  unfold fat16ReadAt diskMount
  refine Spends.bind_free (Spends.bind_gets fun s => readObj_spends hE _) fun mount => ?_
  refine (readObj_spends hE _).bind_free fun desc => ?_
  refine (withStream_spends hE fun x d e he => ?_).bind_free fun out => ?_
  · -- the only error of the read is its own
    cases hread : fat16Read M.ata mount.bpb size nmemb desc x d with
    | error e' =>
      rw [hread] at he
      cases he
      rw [(fat16Read_error hread).1]
      exact hdiv
    | ok r =>
      rw [hread] at he
      cases he
  · exact (writeObj_spends hE).bind_free fun _ => Spends.pure _ _

theorem fread_spends (hE : E .clobbered) (hdiv : E .divideError) {size nmemb : ℕ} :
    Spends M.room E (fread M size nmemb fd) [] := by
  unfold fread
  refine (fsGetDescriptor_spends hE).bind_free fun r => ?_
  cases r with
  | none => exact Spends.pure _ _
  | some r => exact fat16ReadAt_spends hE hdiv

theorem fseek_spends (hE : E .clobbered) {offset : ℤ} {whence : FileSeekMode} :
    Spends M.room E (fseek fd offset whence) [] := by
  unfold fseek fat16SeekAt
  refine (fsGetDescriptor_spends hE).bind_free fun r => ?_
  cases r with
  | none => exact Spends.pure _ _
  | some r =>
    refine (readObj_spends hE _).bind_free fun desc => ?_
    exact (writeObj_spends hE).bind_free fun _ => Spends.pure _ _

theorem ftell_spends (hE : E .clobbered) : Spends M.room E (ftell fd) [] := by
  unfold ftell
  refine (fsGetDescriptor_spends hE).bind_free fun r => ?_
  cases r with
  | none => exact Spends.pure _ _
  | some r => exact (readObj_spends hE _).bind_free fun _ => Spends.pure _ _

/-- Closing a descriptor asks for no block. -/
theorem fclose_unforced (s : Kernel H D) : wp Unforced (fclose M fd) (fun _ _ => True) s := by
  unfold fclose
  refine wp_seq (@fsGetDescriptor_spends _ _ M _ _ unforced_clobbered [] s trivial) fun r t _ => ?_
  cases r with
  | none => trivial
  | some r => trivial

end Descriptor

/-! ### `fopen` -/

section Open

variable {M : Machine H D} {s : Kernel H D} {B : ℕ → FatBootSector → Prop} {rs : List Request}

/-- What `fs_resolve` has done when it returns. -/
theorem fsResolve_completed (hA : ArenaInv M s) (hI : FsInv B s) {i : ℕ} :
    wp (fun _ => True) (fsResolve M i) (fun r t => r = none ∨ r = some .fat16 ∧
      ∃ bpb new, bootSector M i s.drives = .inr bpb ∧ Mounted M s t i bpb new) s :=
  fsResolve_wp (fun _ _ => trivial) hA hI (fun _ _ _ _ => .inl rfl)
    fun bpb _ new hboot hM => .inr ⟨rfl, bpb, new, hboot, hM⟩

theorem fopenParsed_room (hA : ArenaInv M s) (hI : FsInv B s) {root : PathRoot} {mode : CString}
    (hB : ∀ bpb, bootSector M root.driveNo s.drives = .inr bpb → B root.driveNo bpb)
    (hlookup : ∃ r, lookupParts M root.driveNo (root.parts.map PathPart.part) mode s.drives = .ok r)
    (hroom : RoomFor M (mountRequests ++ fileRequests ++ rs) s) :
    wp Unforced (fopenParsed M root mode) (fun _ t => RoomFor M rs t) s := by
  obtain ⟨ptr, i, parts⟩ := root
  have hskip : RoomFor M rs s := RoomFor.skips hroom
  unfold fopenParsed
  dsimp only at hB hlookup ⊢
  cases parts with
  | nil =>
    rw [if_pos rfl]
    exact hskip
  | cons part rest =>
    rw [if_neg (List.cons_ne_nil _ _)]
    by_cases hi : i > 1
    · rw [if_pos hi]
      exact hskip
    rw [if_neg hi]
    rw [List.append_assoc] at hroom
    refine wp_seq ((fsResolve_room unforced_clobbered hI hroom).and_completed
      (fsResolve_completed hA hI)) fun res t ht => ?_
    obtain ⟨ht, rfl | ⟨rfl, bpb, new, hboot, hM⟩⟩ := ht
    · exact RoomFor.skips ht
    rw [List.map_cons, lookupParts, if_neg hi, hboot] at hlookup
    dsimp only at hlookup ⊢
    by_cases hinv : fsParseMode mode = .invalid
    · rw [if_pos hinv]
      exact RoomFor.skips ht
    rw [if_neg hinv] at hlookup ⊢
    obtain ⟨m, -, hbpb, hmount⟩ := hM.mountAt (hB bpb hboot)
    -- the search is the one of the lookup, which ends
    have hends : fsParseMode mode = .read → ∀ e, fat16Find M.ata m.bpb M.fuel 0 part.part
        (rest.map PathPart.part) (afterBoot M i s.drives).1 t.drives = .error e → Unforced e := by
      intro hread e he
      rw [hM.drives_eq, hbpb] at he
      rw [if_neg (not_not_intro hread), he] at hlookup
      obtain ⟨r, hr⟩ := hlookup
      cases hr
    refine wp_seq (fat16Open_room unforced_clobbered hM.grows.arena hmount hends ht)
      fun priv u hu => ?_
    by_cases hpriv : priv = 0
    · rw [if_pos hpriv]
      exact RoomFor.skip hu
    rw [if_neg hpriv]
    refine wp_seq (fsNewDescriptor_spends unforced_clobbered rs u hu) fun slot v hv => ?_
    cases slot with
    | none => exact hv
    | some index => exact hv

/-- What parsing a path has done when it returns. -/
theorem pathParserParse_completed (hA : ArenaInv M s) (path : CString) :
    wp (fun _ => True) (pathParserParse M path) (fun r t => r = none ∨
      ∃ driveNo rest root h, r = some root ∧ pathParserGetDriveNo path = some (driveNo, rest) ∧
        root.driveNo = driveNo ∧
        root.parts.map PathPart.part = pathParts (rest.length + 1) rest ∧
        ArenaInv M (s.alloc h root.blocks) ∧ t = s.alloc h root.blocks) s :=
  pathParserParse_wp (fun _ _ => trivial) hA (fun _ => trivial) (fun _ => .inl rfl)
    fun driveNo rest hdrive root h hno hparts _ hA' =>
      .inr ⟨driveNo, rest, root, h, rfl, hdrive, hno, hparts, hA', rfl⟩

/-- The blocks of a parsed path lie in the identity-mapped memory. -/
theorem PathRoot.ptrs_lt {root : PathRoot} {h : H} (hA : ArenaInv M (s.alloc h root.blocks)) :
    ∀ p ∈ root.ptrs, p < 4294967296 := by
  intro p hp
  obtain ⟨a, ha, rfl⟩ := List.mem_map.mp (root.mem_ptrs.mp hp)
  have hhigh := hA.high a (List.mem_append_left _ ha)
  unfold identityTop at hhigh
  omega

/-- **What `fopen` costs**, if the search for the file ends. -/
theorem fopen_room (hA : ArenaInv M s) (hI : FsInv B s)
    (hB : ∀ i bpb, bootSector M i s.drives = .inr bpb → B i bpb) {path mode : CString}
    (hlookup : ∃ r, fopenLookup M path mode s.drives = .ok r)
    (hroom : RoomFor M (fopenRequests path ++ rs) s) :
    wp Unforced (fopen M path mode) (fun _ t => RoomFor M rs t) s := by
  unfold fopen
  unfold fopenRequests at hroom
  rw [List.append_assoc] at hroom
  refine wp_seq ((pathParserParse_spends unforced_overrun path _ s hroom).and_completed
    (pathParserParse_completed hA path)) fun r t ht => ?_
  obtain ⟨ht, rfl | ⟨driveNo, rest, root, h, rfl, hdrive, rfl, hparts, hA', rfl⟩⟩ := ht
  · exact RoomFor.skips ht
  dsimp only
  unfold fopenLookup at hlookup
  rw [hdrive] at hlookup
  dsimp only at hlookup
  have hkeep : KeepsFs s (s.alloc h root.blocks) := KeepsFs.of_store rfl fun _ _ ho => ho
  have hI' : FsInv B (s.alloc h root.blocks) := (hkeep.inv hI).1
  rw [← hparts] at hlookup
  refine wp_seq (fopenParsed_room hA' hI' (fun bpb hb => hB _ bpb hb) hlookup ht) fun res u hu => ?_
  refine wp_seq (pathParserFree_spends (PathRoot.ptrs_lt hA') rs u hu) fun _ v hv => ?_
  exact hv

/-- **`fopen` returns** if the allocator has room, the parts of the path fit into their buffers, and
the search for the file ends. -/
theorem fopen_returns (hA : ArenaInv M s) (hI : FsInv B s)
    (hB : ∀ i bpb, bootSector M i s.drives = .inr bpb → B i bpb) {path mode : CString}
    (hpath : ¬ PathTooLong path) (hlookup : ∃ r, fopenLookup M path mode s.drives = .ok r)
    (hroom : RoomFor M (fopenRequests path) s) :
    ∃ out t, fsStep M s (.fopen path mode) = .ok (out, t) := by
  rw [← List.append_nil (fopenRequests path)] at hroom
  have hstops : wp Stop.AllocFails (fopen M path mode) (fun _ _ => True) s :=
    fopen_wp (fun _ h => h) hA hI hB path mode (fun h => absurd h hpath)
      fun _ _ _ => trivial
  obtain ⟨res, t, hrun, -⟩ := hstops.total_of_and (fopen_room hA hI hB hlookup hroom)
    fun _ h h' => h' h
  exact ⟨.ofResult res, t, by
    change (FsOut.ofResult <$> fopen M path mode) s = _
    rw [map_eq_pure_bind, Exec.bind_of_ok hrun]
    rfl⟩

end Open

end VibeKernel
