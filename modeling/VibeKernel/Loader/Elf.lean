import VibeKernel.Fs.StoredFile
import VibeKernel.Task.Process

/-!
# The ELF loader

`src/loader/elf.c`. The loader has one position in the file, which it moves to the program headers,
from each `PT_LOAD` header to the bytes of its segment, and back. It looks at no result of `fseek`.

Of a program header with the block made for its segment the loader keeps nothing; the list of them
that `elfLoad` returns next to its result is a record of what it did, which no function reads.
-/

namespace VibeKernel

open Verif

variable {H D : Type}

/-! ### Headers -/

/-- `Elf32_Ehdr`. -/
structure ElfEhdr where
  ident : List UInt8
  entry : ℕ
  phoff : ℕ
  phnum : ℕ
  deriving DecidableEq, Repr

/-- The layout of `Elf32_Ehdr`. -/
def ElfEhdr.decode (b : List UInt8) : ElfEhdr where
  ident := b.take 16
  entry := le32 b 24
  phoff := le32 b 28
  phnum := le16 b 44

/-- `sizeof(Elf32_Ehdr)`. -/
def elfEhdrSize : ℕ := 52

/-- `Elf32_Phdr`. -/
structure ElfPhdr where
  type : ℕ
  offset : ℕ
  vaddr : ℕ
  filesz : ℕ
  memsz : ℕ
  deriving DecidableEq, Repr

/-- The layout of `Elf32_Phdr`. -/
def ElfPhdr.decode (b : List UInt8) : ElfPhdr where
  type := le32 b 0
  offset := le32 b 4
  vaddr := le32 b 8
  filesz := le32 b 16
  memsz := le32 b 20

/-- `sizeof(Elf32_Phdr)`. -/
def elfPhdrSize : ℕ := 32

/-- `PT_LOAD`. -/
def ptLoad : ℕ := 1

/-- `elf_is_valid_header`. -/
def elfIsValidHeader (header : ElfEhdr) : Prop :=
  byteAt header.ident 0 = 0x7F ∧ byteAt header.ident 1 = 0x45 ∧ byteAt header.ident 2 = 0x4C ∧
    byteAt header.ident 3 = 0x46 ∧ byteAt header.ident 4 = 1

instance (header : ElfEhdr) : Decidable (elfIsValidHeader header) :=
  inferInstanceAs (Decidable (_ ∧ _))

/-- A program header that the loader has gone through, with `phys_ptr` if it is a `PT_LOAD`
header. -/
structure ElfSegment where
  phdr : ElfPhdr
  phys : ℕ
  deriving DecidableEq, Repr

/-! ### The functions of the source -/

/-- `kmalloc_a(phdr.p_memsz)` and the `memset` behind it. Clearing through `NULL` writes to memory
that is no part of a block. -/
def elfSegmentBlock (M : Machine H D) (memsz : ℕ) : KM H D ℕ := do
  let physPtr ← kmallocInt M memsz true
  if memsz = 0 then pure physPtr
  else if physPtr = 0 then Exec.stop .overrun
  else do
    clearBlock physPtr memsz
    pure physPtr

/-- The body of the loop of `elf_load` for a `PT_LOAD` header: `-1` if the bytes of the segment
cannot be read. -/
def elfLoadSegment (M : Machine H D) (fd : ℤ) (proc : ℕ) (phdr : ElfPhdr) : KM H D (ℤ × ℕ) := do
  let physPtr ← elfSegmentBlock M phdr.memsz
  let currentPos ← ftell fd
  let _ ← fseek fd (asInt32 phdr.offset) .set
  let (n, bytes) ← fread M phdr.filesz 1 fd
  writeBytes physPtr bytes
  if n ≠ 1 then do
    kfree M physPtr
    pure (-1, physPtr)
  else do
    let _ ← fseek fd currentPos .set
    mapUserPages M proc phdr.vaddr physPtr 0 ((phdr.memsz + 4095) / 4096)
    pure (0, physPtr)

/-- The body of the loop of `elf_load`. -/
def elfSegment (M : Machine H D) (fd : ℤ) (proc : ℕ) (phdr : ElfPhdr) : KM H D (ℤ × ℕ) :=
  if phdr.type = ptLoad then elfLoadSegment M fd proc phdr else pure (0, 0)

/-- The loop of `elf_load` over `n` program headers. -/
def elfSegments (M : Machine H D) (fd : ℤ) (proc : ℕ) : ℕ → KM H D (ℤ × List ElfSegment)
  | 0 => pure (0, [])
  | n + 1 => do
    let (count, bytes) ← fread M elfPhdrSize 1 fd
    if count ≠ 1 then pure (-1, [])
    else do
      let (res, physPtr) ← elfSegment M fd proc (ElfPhdr.decode bytes)
      if res ≠ 0 then pure (res, [])
      else do
        let (res, segments) ← elfSegments M fd proc n
        pure (res, ⟨ElfPhdr.decode bytes, physPtr⟩ :: segments)

/-- `paging_set(process->paging_chunk->directory_entry, (void*)0xB8000, ..)`. -/
def mapVga (M : Machine H D) (proc : ℕ) : KM H D Unit := do
  let directory ← processDirectory proc
  let _ ← pagingSet M directory 0xB8000
    (0xB8000 ||| pagingIsPresent ||| pagingIsWriteable ||| pagingAccessFromAll)
  pure ()

/-- The part of `elf_load` that makes the process, with its address space. -/
def elfNewProcess (M : Machine H D) (filename : CString) : KM H D (ℤ × ℕ) := do
  let (res, proc) ← processAlloc M
  if res < 0 then pure (res, 0)
  else do
    processSetName M proc filename
    newPagingChunk M proc (pagingIsPresent ||| pagingIsWriteable)
    mapVga M proc
    pure (0, proc)

/-- The part of `elf_load` behind the check of the header: its result and what is stored at
`process`, if anything. -/
def elfLoadProcess (M : Machine H D) (filename : CString) (fd : ℤ) (header : ElfEhdr) :
    KM H D (ℤ × ℕ × List ElfSegment) := do
  let (res, proc) ← elfNewProcess M filename
  if res < 0 then pure (res, 0, [])
  else do
    let _ ← fseek fd (asInt32 header.phoff) .set
    let (res, segments) ← elfSegments M fd proc header.phnum
    if res ≠ 0 then pure (res, 0, segments)
    else do
      modifyProcess proc fun x => putWord x processPtrOffset header.entry
      pure (0, proc, segments)

/-- The part of `elf_load` in front of that: the file is opened and its header read, and unless it
is one the file is closed again. -/
def elfOpen (M : Machine H D) (filename : CString) : KM H D (Option (ℤ × ElfEhdr)) := do
  let fd ← fopen M filename [0x72]
  if fd < 0 then pure none
  else do
    let (count, bytes) ← fread M elfEhdrSize 1 fd
    if count = 1 ∧ elfIsValidHeader (ElfEhdr.decode bytes)
      then pure (some (fd, ElfEhdr.decode bytes))
    else do
      let _ ← fclose M fd
      pure none

/-- `elf_load`: the result, what is stored at `process` (`0` for nothing), and the segments. -/
def elfLoad (M : Machine H D) (filename : CString) : KM H D (ℤ × ℕ × List ElfSegment) := do
  match ← elfOpen M filename with
  | none => pure (-1, 0, [])
  | some (fd, header) => do
    let out ← elfLoadProcess M filename fd header
    let _ ← fclose M fd
    pure out

end VibeKernel
