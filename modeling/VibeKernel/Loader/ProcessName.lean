import VibeKernel.Fs.PathComponents
import VibeKernel.Loader.ProcessLoad

/-!
# Where a process name is stored

`process_load` stores its file name in pieces, the components in the buffers of the path parser, and
as a whole, in the field `name` of the new process. A component of a path that leads to a file
matches a name in a directory, which has at most 12 characters, so it fits into its buffer. But the
path as a whole can have any length, and the `strcpy` of both loaders is not bounded. It stays
inside the field exactly if the path has less than 32 characters (`processLoad_names_iff`). A longer
one runs over the fields behind it, from 94 characters on over the end of the structure, and from
there as far as the block goes: the structure can lie in a buffer that the path parser has given
back.
-/

namespace VibeKernel

open Verif

variable {H D : Type}

/-! ### Components -/

section Components

variable {A : Ata D} {bpb : FatBootSector} {M : Machine H D}

/-- What matches a name in a directory is not longer than the names there. -/
theorem strncasecmp_short {b : List UInt8} {name : CString} (hname : 0 ∉ name)
    (h : strncasecmp 13 (fat16GetFullRelativeFilename (FatDirectoryItem.decode b)) name = 0) :
    name.length < 13 := by
  obtain ⟨hlen, hnul⟩ := fullRelativeFilename_spec b
  have hsame := congrArg List.length ((strncasecmp_eq_zero_iff hlen hnul hname).mp h)
  rw [List.length_map, List.length_map] at hsame
  omega

theorem fat16ScanItems_short {name : CString} (hname : 0 ∉ name) :
    ∀ (n : ℕ) (stream : DiskStream) (d : D) {item : FatDirectoryItem},
      (fat16ScanItems A name n stream d).1 = .found item → name.length < 13 := by
  intro n
  induction n with
  | zero => exact fun _ _ _ h => nomatch h
  | succ n ih =>
    intro stream d item h
    rw [fat16ScanItems] at h
    generalize diskstreamRead A stream 32 d = r at h
    obtain ⟨⟨res, bytes⟩, stream₁, d₁⟩ := r
    dsimp only at h
    split_ifs at h with hres hend hdel hcmp
    · exact ih _ _ h
    · exact strncasecmp_short hname hcmp
    · exact ih _ _ h

theorem fat16ScanClusters_short {name : CString} (hname : 0 ∉ name) :
    ∀ (fuel cluster : ℕ) (stream : DiskStream) (d : D) {item : FatDirectoryItem}
      {x : DiskStream × D},
      fat16ScanClusters A bpb name fuel cluster stream d = .ok (.inr item, x) →
        name.length < 13 := by
  intro fuel
  induction fuel with
  | zero => exact fun _ _ _ _ _ h => nomatch h
  | succ fuel ih =>
    intro cluster stream d item x h
    rw [fat16ScanClusters] at h
    split_ifs at h
    · have hscan := @fat16ScanItems_short _ A name hname (bpb.clusterSize / 32)
        (diskstreamSeek stream (u32 (bpb.clusterToSector cluster * bpb.bytesPerSector))) d
      dsimp only at h
      generalize fat16ScanItems A name (bpb.clusterSize / 32) _ d = r at h hscan
      obtain ⟨scan, stream₁, d₁⟩ := r
      cases scan with
      | found item' => exact hscan rfl
      | unreadable => cases h
      | endMark => cases h
      | exhausted => exact ih _ _ _ h
    · cases h

/-- A name that is found in a directory has at most 12 characters. -/
theorem fat16GetDirectoryEntry_short {name : CString} (hname : 0 ∉ name) {fuel cluster : ℕ}
    {stream : DiskStream} {d : D} {item : FatDirectoryItem} {x : DiskStream × D}
    (h : fat16GetDirectoryEntry A bpb fuel cluster name stream d = .ok (.inr item, x)) :
    name.length < 13 := by
  unfold fat16GetDirectoryEntry at h
  split_ifs at h
  · have hscan := @fat16ScanItems_short _ A name hname bpb.rootDirEntries
      (diskstreamSeek stream (u32 (bpb.rootDirectorySector * bpb.bytesPerSector))) d
    dsimp only at h
    generalize fat16ScanItems A name bpb.rootDirEntries _ d = r at h hscan
    obtain ⟨scan, stream₁, d₁⟩ := r
    cases scan with
    | found item' => exact hscan rfl
    | unreadable => cases h
    | endMark => cases h
    | exhausted => cases h
  · exact fat16ScanClusters_short hname fuel cluster stream d h

/-- All parts of a path that leads to an item are that short. -/
theorem fat16Find_short {fuel : ℕ} :
    ∀ (rest : List CString) {cluster : ℕ} {part : CString} {stream : DiskStream} {d : D}
      {item : FatDirectoryItem} {x : DiskStream × D}, (∀ p ∈ part :: rest, (0 : UInt8) ∉ p) →
      fat16Find A bpb fuel cluster part rest stream d = .ok (some item, x) →
      ∀ p ∈ part :: rest, p.length < 13 := by
  intro rest
  induction rest with
  | nil =>
    intro cluster part stream d item x hnul h p hp
    obtain rfl := List.mem_singleton.mp hp
    rw [fat16Find] at h
    cases hget : fat16GetDirectoryEntry A bpb fuel cluster p stream d with
    | error e =>
      rw [hget] at h
      cases h
    | ok r =>
      obtain ⟨code | found, y⟩ := r
      · rw [hget] at h
        cases h
      · exact fat16GetDirectoryEntry_short (hnul p List.mem_cons_self) hget
  | cons next rest ih =>
    intro cluster part stream d item x hnul h
    rw [fat16Find] at h
    cases hget : fat16GetDirectoryEntry A bpb fuel cluster part stream d with
    | error e =>
      rw [hget] at h
      cases h
    | ok r =>
      obtain ⟨code | found, y⟩ := r
      · rw [hget] at h
        cases h
      · rw [hget] at h
        dsimp only at h
        split_ifs at h
        · refine List.forall_mem_cons.mpr ⟨?_,
            ih (fun p hp => hnul p (List.mem_cons_of_mem _ hp)) h⟩
          exact fat16GetDirectoryEntry_short (hnul part List.mem_cons_self) hget
        · cases h

/-- **No component of a path that leads to a file is too long** for its buffer. -/
theorem fopenLookup_short {path mode : CString} {d : D} {r : ℕ × FatDirectoryItem}
    (h : fopenLookup M path mode d = .ok (.inr r)) : ¬ PathTooLong path := by
  rintro ⟨i, rest, hdrive, p, hp, hlong⟩
  unfold fopenLookup at h
  rw [hdrive] at h
  dsimp only at h
  have hnul := @pathParts_no_nul (rest.length + 1) rest
  generalize pathParts (rest.length + 1) rest = parts at h hp hnul
  unfold lookupParts at h
  cases parts with
  | nil => cases hp
  | cons part parts =>
    dsimp only at h
    by_cases hi : i > 1
    · rw [if_pos hi] at h
      cases h
    rw [if_neg hi] at h
    cases hboot : bootSector M i d with
    | inl code =>
      rw [hboot] at h
      cases h
    | inr bpb =>
      rw [hboot] at h
      dsimp only at h
      by_cases hinvalid : fsParseMode mode = .invalid
      · rw [if_pos hinvalid] at h
        cases h
      rw [if_neg hinvalid] at h
      by_cases hmode : fsParseMode mode ≠ .read
      · rw [if_pos hmode] at h
        cases h
      rw [if_neg hmode] at h
      -- every part has been found as the name of an entry
      cases hfind : fat16Find M.ata bpb M.fuel 0 part parts (afterBoot M i d).1
        (afterBoot M i d).2 with
      | error e =>
        rw [hfind] at h
        cases h
      | ok y =>
        obtain ⟨found, x⟩ := y
        cases found with
        | none =>
          rw [hfind] at h
          cases h
        | some item =>
          have hshort := fat16Find_short parts hnul hfind p hp
          omega

end Components

/-! ### The name of the process -/

/-- The size of the field `name`. -/
def processNameSize : ℕ := 32

/-- Storing the file name of a call of `process_load` changes nothing but the buffers of the path
parser and the field `name` of the process. -/
structure NamesStayInside (M : Machine H D) (filename : CString) (s : Kernel H D) : Prop where
  /-- Wherever the path is parsed, no component leaves its buffer. -/
  components : ∀ t, pathParserParse M filename t ≠ .error .overrun
  /-- Whatever the new structure holds, `strcpy` changes nothing but its field `name`. -/
  name : ∀ file proc t, processLoadHead M filename s = .ok (some (file, 0, proc), t) →
    ∀ x, ∃ x', processSetName M proc filename (t.put proc (.process x)) =
        .ok ((), t.put proc (.process x')) ∧
      ∀ i, ¬ (processNameOffset ≤ i ∧ i < processNameOffset + processNameSize) → x' i = x i

section Name

variable {M : Machine H D} {s t : Kernel H D}

/-- `strcpy` into a process that is there, with a name that fits into its block. -/
theorem processSetName_fits {proc : ℕ} (hlive : ⟨proc, 96⟩ ∈ t.live) {filename : CString}
    (hfits : NameFits M t proc filename) (x : ℕ → UInt8) :
    processSetName M proc filename (t.put proc (.process x)) =
      .ok ((), t.put proc (.process (putBytes x processNameOffset (filename ++ [0])))) := by
  have hstore : ((t.put proc (.process x)).store proc).bind Obj.asProcess = some x := by
    rw [Kernel.put_store_self]
    rfl
  have hfit : ∃ a ∈ (t.put proc (.process x)).live, a.ptr = proc ∧
      (Obj.process (putBytes x processNameOffset (filename ++ [0]))).size ≤ a.size :=
    ⟨_, hlive, rfl, le_refl _⟩
  have hput : ∀ o o', (t.put proc o).put proc o' = t.put proc o' := by
    intro o o'
    unfold Kernel.put
    dsimp only
    rw [Function.update_idem]
  unfold processSetName
  rw [Exec.bind_of_ok (show Exec.gets id (t.put proc (.process x)) = .ok (_, _) from rfl)]
  dsimp only [id]
  rw [if_pos (show NameFits M (t.put proc (.process x)) proc filename from hfits)]
  unfold modifyProcess
  rw [Exec.bind_apply]
  unfold readObj
  rw [hstore]
  dsimp only
  unfold writeObj
  rw [if_pos hfit, hput]

/-- **`strcpy` stays in the field** exactly if the name has less than 32 characters. -/
theorem processSetName_inside_iff {proc : ℕ} (hlive : ⟨proc, 96⟩ ∈ t.live) (filename : CString) :
    (∀ x, ∃ x', processSetName M proc filename (t.put proc (.process x)) =
        .ok ((), t.put proc (.process x')) ∧
      ∀ i, ¬ (processNameOffset ≤ i ∧ i < processNameOffset + processNameSize) → x' i = x i) ↔
      filename.length < 32 := by
  constructor
  · intro h
    obtain ⟨x', hset, hinside⟩ := h fun _ => 1
    by_contra hlong
    by_cases hfits : NameFits M t proc filename
    · rw [processSetName_fits hlive hfits] at hset
      have hx' : x' = putBytes (fun _ => 1) processNameOffset (filename ++ [0]) := by
        have hstore :=
          congrArg (fun u : Kernel H D => u.store proc) (Prod.mk.inj (Except.ok.inj hset)).2
        simp only [Kernel.put_store_self, Option.some.injEq, Obj.process.injEq] at hstore
        exact hstore.symm
      -- the terminating NUL lies behind the field
      have hlen : filename.length < (filename ++ [(0 : UInt8)]).length := by
        rw [List.length_append]
        exact Nat.lt_succ_self _
      have hone := hinside (processNameOffset + filename.length) (by
        unfold processNameSize
        omega)
      rw [hx', putBytes_self hlen, List.getElem_concat_length rfl] at hone
      exact absurd hone (by decide)
    · unfold processSetName at hset
      rw [Exec.bind_of_ok (show Exec.gets id (t.put proc _) = .ok (_, _) from rfl)] at hset
      dsimp only [id] at hset
      rw [if_neg (show ¬ NameFits M (t.put proc _) proc filename from hfits)] at hset
      cases hset
  · intro hshort x
    refine ⟨_, processSetName_fits hlive (.of_short (by omega)) x, fun i hi => putBytes_other ?_⟩
    rw [List.length_append, List.length_singleton]
    unfold processNameSize at hi
    omega

/-! ### Reaching the copy -/

theorem fopen_sound (hS : FsSound M (fun _ _ => True) s) (path mode : CString) :
    wp (fun _ => True) (fopen M path mode) (fun _ t => FsSound M (fun _ _ => True) t) s :=
  fopen_wp (fun _ _ => trivial) hS.arena hS.inv (fun _ _ _ => trivial) path mode (fun _ => trivial)
    fun _ _ hpost => by
      obtain ⟨own, new, hgrow, -⟩ := hpost.outcome
      exact ⟨hgrow.arena, hpost.inv⟩

theorem fread_sound (hS : FsSound M (fun _ _ => True) s) (size nmemb : ℕ) (fd : ℤ) :
    wp (fun _ => True) (fread M size nmemb fd) (fun _ t => FsSound M (fun _ _ => True) t) s :=
  fread_wp hS.arena hS.inv (fun _ => hS) fun _ _ _ _ _ _ _ =>
    ⟨fun _ _ => trivial, fun _ _ _ _ _ hmoved => ⟨hmoved.arena, hmoved.inv⟩⟩

theorem fclose_sound (hS : FsSound M (fun _ _ => True) s) (fd : ℤ) :
    wp (fun _ => True) (fclose M fd) (fun _ t => FsSound M (fun _ _ => True) t) s :=
  fclose_wp hS.arena hS.inv (fun _ => hS) fun _ _ _ _ _ _ hclosed => ⟨hclosed.arena, hclosed.inv⟩

theorem processMagic_sound (hS : FsSound M (fun _ _ => True) s) (filename : CString) :
    wp (fun _ => True) (processMagic M filename) (fun _ t => FsSound M (fun _ _ => True) t) s := by
  unfold processMagic
  refine wp_seq (fopen_sound hS filename [0x72]) fun fd t ht => ?_
  split
  · exact ht
  · refine wp_seq (fread_sound ht 4 1 fd) fun r u hu => ?_
    refine wp_seq (fclose_sound hu fd) fun _ v hv => ?_
    split
    · exact hv
    · exact hv

theorem elfOpen_sound (hS : FsSound M (fun _ _ => True) s) (filename : CString) :
    wp (fun _ => True) (elfOpen M filename) (fun _ t => FsSound M (fun _ _ => True) t) s := by
  unfold elfOpen
  refine wp_seq (fopen_sound hS filename [0x72]) fun fd t ht => ?_
  split
  · exact ht
  · refine wp_seq (fread_sound ht elfEhdrSize 1 fd) fun r u hu => ?_
    obtain ⟨count, bytes⟩ := r
    dsimp only
    split
    · exact hu
    · exact wp_seq (fclose_sound hu fd) fun _ v hv => hv

/-- A process that `process_alloc` has made lies in a block of its own. -/
theorem processAlloc_live (hS : FsSound M (fun _ _ => True) s) :
    wp (fun _ => True) (processAlloc M) (fun r t => r.1 = 0 → ⟨r.2, 96⟩ ∈ t.live) s :=
  processAlloc_wp (fun _ _ => trivial) hS.arena (.inr trivial) (fun _ _ h => nomatch h)
    fun _ _ hmade _ => hmade.live

/-- Where the name is copied to, there is a block for the process. -/
theorem processLoadHead_live (hS : FsSound M (fun _ _ => True) s) (filename : CString) :
    wp (fun _ => True) (processLoadHead M filename)
      (fun r t => ∀ file proc, r = some (file, 0, proc) → ⟨proc, 96⟩ ∈ t.live) s := by
  unfold processLoadHead
  refine wp_seq (processMagic_sound hS filename) fun magic t ht => ?_
  cases magic with
  | none => exact fun _ _ h => nomatch h
  | some magic =>
    dsimp only
    split
    · refine wp_seq (elfOpen_sound ht filename) fun file u hu => ?_
      cases file with
      | none => exact fun _ _ h => nomatch h
      | some file =>
        refine wp_seq (processAlloc_live hu) fun made v hv => ?_
        rintro _ proc ⟨⟩
        exact hv rfl
    · refine wp_seq (processAlloc_live ht) fun made v hv => ?_
      rintro _ proc ⟨⟩
      exact hv rfl

/-- **Where file names are stored.** Let `process_load` be called in any sound state with a name
that leads to a file. If the name has less than 32 characters, storing it changes nothing but the
buffers of the path parser and the field `name`; and if the call gets as far as copying the name
into a new process, that is the only case. -/
theorem processLoad_names_iff (hS : FsSound M (fun _ _ => True) s) {filename : CString}
    {r : ℕ × FatDirectoryItem}
    (hfound : fopenLookup M filename [0x72] s.drives = .ok (.inr r)) :
    (filename.length < 32 → NamesStayInside M filename s) ∧
      ∀ file proc t, processLoadHead M filename s = .ok (some (file, 0, proc), t) →
        (NamesStayInside M filename s ↔ filename.length < 32) := by
  have hinside : filename.length < 32 → NamesStayInside M filename s := fun hshort =>
    { components := pathParserParse_no_overrun (fopenLookup_short hfound)
      name := fun file proc t hhead => (processSetName_inside_iff
        ((processLoadHead_live hS filename).ok hhead file proc rfl) filename).mpr hshort }
  refine ⟨hinside, fun file proc t hhead => ⟨fun h => ?_, hinside⟩⟩
  exact (processSetName_inside_iff ((processLoadHead_live hS filename).ok hhead file proc rfl)
    filename).mp (h.name file proc t hhead)

end Name

/-! ### Long names -/

/-- The directory entry of a subdirectory. -/
def directoryEntry (name : List UInt8) (cluster : UInt8) : List UInt8 :=
  name ++ List.replicate (11 - name.length) 0x20 ++ 0x10 :: List.replicate 14 0 ++
    [cluster, 0, 0, 0, 0, 0]

/-- The name `DOCUMENT`. -/
def documentName : List UInt8 := [0x44, 0x4F, 0x43, 0x55, 0x4D, 0x45, 0x4E, 0x54]

/-- A volume with a file `A` of four bytes and a directory `DOCUMENT` in the cluster `3`, which
holds its entries `.` and `..`. -/
def dottedImage (a : ℕ) : UInt8 :=
  if 1056 ≤ a ∧ a < 1088 then (directoryEntry documentName 3).getD (a - 1056) 0
  else if 2048 ≤ a ∧ a < 2112 then
    (directoryEntry [0x2E] 3 ++ directoryEntry [0x2E, 0x2E] 0).getD (a - 2048) 0
  else singleFileImage [0x01, 0x02, 0x03, 0x04] a

/-- A machine with this volume. -/
def dottedMachine : Machine KHeap Unit where
  heap := kheap
  ata := imageAta dottedImage
  imageEnd := 0x10000
  fuel := 65536

/-- The path `0:/DOCUMENT/../DOCUMENT/../A`, with `n` times the directory. -/
def dottedName (n : ℕ) : CString :=
  [0x30, 0x3A] ++ (List.replicate n (0x2F :: documentName ++ [0x2F, 0x2E, 0x2E])).flatten ++
    [0x2F, 0x41]

/-- `process_load` up to the copy of the name: the structure of the process then. -/
def processNamed (M : Machine H D) (filename : CString) : KM H D (ℕ → UInt8) := do
  match ← processLoadHead M filename with
  | none => Exec.stop .clobbered
  | some (_, _, proc) => do
    processSetName M proc filename
    readObj Obj.asProcess proc

/-- The computation has stopped because it left a buffer. -/
def overruns {α : Type} : Except Stop α → Bool
  | .error .overrun => true
  | _ => false

/-- `0:/DOCUMENT/../DOCUMENT/../A` is stored inside the field. -/
theorem processLoad_names_iff_short :
    NamesStayInside dottedMachine (dottedName 2) (Kernel.boot (KHeap.init 0x10000) ()) := by
  have hfound : ((fopenLookup dottedMachine (dottedName 2) [0x72] ()).toOption.map Sum.isRight) =
      some true := by decide +kernel
  cases hl : fopenLookup dottedMachine (dottedName 2) [0x72] () with
  | error e =>
    rw [hl] at hfound
    cases hfound
  | ok r =>
    cases r with
    | inl code =>
      rw [hl] at hfound
      cases hfound
    | inr r => exact (processLoad_names_iff (FsSound.boot _ _ _) hl).1 (by decide)

/-- **Names that leave their field.** A path of 40 characters leads to the file `A`, three times
through the directory and back. Its last ones overwrite the pointer `task` behind the name with
`T/..`, and the first of the file descriptors with `/A`. With eight times the path has 100
characters: the structure lies in a buffer of the path parser, and the name runs over its end inside
that block. With 21 times it has 256 characters, still leads to the file, and leaves the block
too. -/
theorem processLoad_names_overrun :
    ((dottedName 3).length = 40 ∧
      (fopenLookup dottedMachine (dottedName 3) [0x72] ()).toOption.map Sum.isRight = some true ∧
      ((processNamed dottedMachine (dottedName 3)
        (Kernel.boot (KHeap.init 0x10000) ())).toOption.map
        fun r => (wordAt r.1 36, wordAt r.1 40)) = some (0x2E2E2F54, 0x412F)) ∧
    ((dottedName 8).length = 100 ∧
      (fopenLookup dottedMachine (dottedName 8) [0x72] ()).toOption.map Sum.isRight = some true ∧
      ((processNamed dottedMachine (dottedName 8)
        (Kernel.boot (KHeap.init 0x10000) ())).toOption.map
        fun r => wordAt r.1 96) = some 0x2E2E2F54) ∧
    (dottedName 21).length = 256 ∧
      (fopenLookup dottedMachine (dottedName 21) [0x72] ()).toOption.map Sum.isRight = some true ∧
      overruns (processNamed dottedMachine (dottedName 21) (Kernel.boot (KHeap.init 0x10000) ())) =
        true := by
  refine ⟨⟨rfl, ?_, ?_⟩, ⟨rfl, ?_, ?_⟩, by decide +kernel, ?_, ?_⟩
  · decide +kernel
  · decide +kernel
  · decide +kernel
  · decide +kernel
  · decide +kernel
  · decide +kernel

end VibeKernel
