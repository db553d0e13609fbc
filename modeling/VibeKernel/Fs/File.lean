import VibeKernel.Fs.PathParser

/-!
# Files

`src/fs/file.c` with the functions of `fat16.c` it reaches through `struct filesystem`: mounting a
disk, opening a file under a descriptor, and the operations on a descriptor. All files of a disk
share the stream of its mount; `fopen` and `fs_list` mount the disk anew each time.

What `fread` stores at its `ptr` and `fstat` at its `stat` is part of the answer.
-/

namespace VibeKernel

open Verif

variable {H D α : Type}

/-- `FILE_MODE`. -/
inductive FileMode
  | read
  | write
  | append
  | invalid
  deriving DecidableEq, Repr

/-- `MAX_FILE_DESCRIPTORS`. -/
def maxFileDescriptors : ℕ := 512

/-! ### Streams and mounts -/

/-- `diskstream_new`. -/
def diskstreamNew (M : Machine H D) (diskId : ℕ) : KM H D ℕ := newObj M false (.stream ⟨0, diskId⟩)

/-- Run a function of the drives on the stream at `p`. -/
def withStream (p : ℕ) (f : DiskStream → D → Except Stop (α × DiskStream × D)) : KM H D α := do
  let stream ← readObj Obj.asStream p
  let s ← Exec.gets id
  match f stream s.drives with
  | .error e => Exec.stop e
  | .ok (a, stream, d) => do
    Exec.modify fun s => { s with drives := d }
    writeObj p (.stream stream)
    pure a

/-- `disk->fs_private`. -/
def diskMount (disk : ℕ) : KM H D FatPrivate := do
  let s ← Exec.gets id
  readObj Obj.asMount (s.fs.fsPrivate disk)

/-- The tail of `fat16_resolve`: a new mount replaces the one of the disk. -/
def fat16Mount (M : Machine H D) (disk : ℕ) (bpb : FatBootSector) (stream : ℕ) : KM H D ℤ := do
  let priv ← newObj M false (.mount ⟨bpb, stream⟩)
  Exec.modify fun s =>
    { s with fs := { s.fs with fsPrivate := Function.update s.fs.fsPrivate disk priv } }
  pure 0

/-- `fat16_resolve`. -/
def fat16Resolve (M : Machine H D) (disk : ℕ) : KM H D ℤ := do
  let stream ← diskstreamNew M disk
  let (res, bytes) ← withStream stream fun x d => .ok (diskstreamRead M.ata x 512 d)
  if res ≠ 0 then do
    kfree M stream
    pure (-2)
  else
    match (FatBootSector.decode bytes).check with
    | some code => do
      kfree M stream
      pure code
    | none => fat16Mount M disk (FatBootSector.decode bytes) stream

/-! ### The functions of the file system -/

/-- `fat16_open`, with `0` for `NULL`. The loop over the parts leaves the item uninitialised when
there is none. -/
def fat16Open (M : Machine H D) (disk : ℕ) (path : List PathPart) (mode : FileMode) : KM H D ℕ :=
  if mode ≠ .read then pure 0
  else do
    let mount ← diskMount disk
    match path with
    | [] => Exec.stop .clobbered
    | part :: rest => do
      let item ← withStream mount.stream
        (fat16Find M.ata mount.bpb M.fuel 0 part.part (rest.map PathPart.part))
      match item with
      | none => pure 0
      | some item =>
        if item.IsSubdirectory then pure 0
        else newObj M false (.file (FatFileDescriptor.fresh item))

/-- `fat16_read` on the descriptor at `priv`. -/
def fat16ReadAt (M : Machine H D) (disk priv size nmemb : ℕ) : KM H D (ℤ × List UInt8) := do
  let mount ← diskMount disk
  let desc ← readObj Obj.asFile priv
  let (out, desc) ← withStream mount.stream fun x d =>
    match fat16Read M.ata mount.bpb size nmemb desc x d with
    | .error e => .error e
    | .ok (out, desc, x, d) => .ok ((out, desc), x, d)
  writeObj priv (.file desc)
  pure out

/-- `fat16_seek` on the descriptor at `priv`. -/
def fat16SeekAt (priv : ℕ) (offset : ℤ) (whence : FileSeekMode) : KM H D ℤ := do
  let desc ← readObj Obj.asFile priv
  let (res, desc) := fat16Seek desc offset whence
  writeObj priv (.file desc)
  pure res

/-- `fat16_list`. -/
def fat16ListAt (M : Machine H D) (disk : ℕ) (path : List PathPart) : KM H D (ℤ × CString) := do
  let mount ← diskMount disk
  withStream mount.stream (fat16List M.ata mount.bpb M.fuel 0 (path.map PathPart.part))

/-! ### Descriptors -/

/-- The loop of `fs_resolve` over the registered file systems. -/
def fsResolveIn (M : Machine H D) (disk : ℕ) :
    List (Option Filesystem) → KM H D (Option Filesystem)
  | [] => pure none
  | none :: rest => fsResolveIn M disk rest
  | some .fat16 :: rest => do
    let res ← fat16Resolve M disk
    if res = 0 then pure (some .fat16) else fsResolveIn M disk rest

/-- `fs_resolve`. -/
def fsResolve (M : Machine H D) (disk : ℕ) : KM H D (Option Filesystem) := do
  let s ← Exec.gets id
  fsResolveIn M disk s.fs.filesystems

/-- `fs_parse_mode`. -/
def fsParseMode (str : CString) : FileMode :=
  if strncmp 1 str [0x72] = 0 then .read
  else if strncmp 1 str [0x77] = 0 then .write
  else if strncmp 1 str [0x61] = 0 then .append
  else .invalid

/-- The slot `fs_new_descriptor` takes: the first free one. -/
@[irreducible]
def freeSlot (fs : FsStatics) : Option ℕ :=
  (List.range maxFileDescriptors).find? fun i => fs.fileDescriptors i = 0

/-- `fs_new_descriptor`, with the fields that `fopen` sets right after it. -/
def fsNewDescriptor (M : Machine H D) (fs : Filesystem) (priv disk : ℕ) : KM H D (Option ℕ) := do
  let s ← Exec.gets id
  match freeSlot s.fs with
  | none => pure none
  | some i => do
    let desc ← newObj M false (.descriptor ⟨i + 1, fs, priv, disk⟩)
    Exec.modify fun s => { s with
      fs := { s.fs with fileDescriptors := Function.update s.fs.fileDescriptors i desc } }
    pure (some (i + 1))

/-- `fs_get_descriptor`, with the address of the descriptor. -/
def fsGetDescriptor (fd : ℤ) : KM H D (Option (ℕ × FileDescriptor)) := do
  let s ← Exec.gets id
  if fd ≤ 0 ∨ fd > maxFileDescriptors then pure none
  else
    let p := s.fs.fileDescriptors (fd - 1).toNat
    if p = 0 then pure none
    else do
      let desc ← readObj Obj.asDescriptor p
      pure (some (p, desc))

/-- The part of `fopen` between parsing the path and freeing it. -/
def fopenParsed (M : Machine H D) (root : PathRoot) (modeStr : CString) : KM H D ℤ :=
  if root.parts = [] then pure (-2)
  else if root.driveNo > 1 then pure (-3)
  else do
    match ← fsResolve M root.driveNo with
    | none => pure (-4)
    | some .fat16 =>
      if fsParseMode modeStr = .invalid then pure (-5)
      else do
        let priv ← fat16Open M root.driveNo root.parts (fsParseMode modeStr)
        if priv = 0 then pure (-6)
        else do
          match ← fsNewDescriptor M .fat16 priv root.driveNo with
          | none => pure (-7)
          | some index => pure index

/-- `fopen`. -/
def fopen (M : Machine H D) (filename modeStr : CString) : KM H D ℤ := do
  match ← pathParserParse M filename with
  | none => pure (-1)
  | some root => do
    let res ← fopenParsed M root modeStr
    pathParserFree M root
    pure res

/-- `fread`: the result and the bytes stored at `ptr`. -/
def fread (M : Machine H D) (size nmemb : ℕ) (fd : ℤ) : KM H D (ℤ × List UInt8) := do
  match ← fsGetDescriptor fd with
  | none => pure (-1, [])
  | some (_, desc) => fat16ReadAt M desc.disk desc.priv size nmemb

/-- `fseek`. -/
def fseek (fd offset : ℤ) (whence : FileSeekMode) : KM H D ℤ := do
  match ← fsGetDescriptor fd with
  | none => pure (-1)
  | some (_, desc) => fat16SeekAt desc.priv offset whence

/-- `ftell`. -/
def ftell (fd : ℤ) : KM H D ℤ := do
  match ← fsGetDescriptor fd with
  | none => pure (-1)
  | some (_, desc) => do
    let file ← readObj Obj.asFile desc.priv
    pure (fat16Tell file)

/-- `fstat`: the result and what is stored at `stat`. -/
def fstat (fd : ℤ) : KM H D (ℤ × Option FileStat) := do
  match ← fsGetDescriptor fd with
  | none => pure (-1, none)
  | some (_, desc) => do
    let file ← readObj Obj.asFile desc.priv
    pure (0, some (fat16Stat file))

/-- `fclose`; `fat16_close` frees the private data and succeeds. -/
def fclose (M : Machine H D) (fd : ℤ) : KM H D ℤ := do
  match ← fsGetDescriptor fd with
  | none => pure (-1)
  | some (p, desc) => do
    kfree M desc.priv
    Exec.modify fun s => { s with
      fs := { s.fs with
        fileDescriptors := Function.update s.fs.fileDescriptors (desc.index - 1) 0 } }
    kfree M p
    pure 0

/-- `fs_list` on a parsed path. -/
def fsListParsed (M : Machine H D) (root : PathRoot) : KM H D (ℤ × CString) :=
  if root.driveNo > 1 then pure (-2, [])
  else do
    match ← fsResolve M root.driveNo with
    | none => pure (-3, [])
    | some .fat16 => fat16ListAt M root.driveNo root.parts

/-- `fs_list`: the result and the text it prints. -/
def fsList (M : Machine H D) (path : CString) : KM H D (ℤ × CString) := do
  match ← pathParserParse M path with
  | none => pure (-1, [])
  | some root => do
    let res ← fsListParsed M root
    pathParserFree M root
    pure res

/-! ### The calls of the file system -/

/-- A call of a function of `file.h`, with the argument types of a 32-bit machine. -/
inductive FsCall
  | fopen (filename modeStr : CString)
  | fread (size nmemb : UInt32) (fd : Int32)
  | fseek (fd offset : Int32) (whence : FileSeekMode)
  | ftell (fd : Int32)
  | fstat (fd : Int32)
  | fclose (fd : Int32)
  | fsList (path : CString)

/-- What a call answers: its result, the bytes stored at `ptr`, what is stored at `stat`, and what
is printed. -/
structure FsOut where
  result : ℤ
  bytes : List UInt8
  stat : Option FileStat
  text : CString
  deriving DecidableEq, Repr

/-- An answer that stores and prints nothing. -/
def FsOut.ofResult (result : ℤ) : FsOut := ⟨result, [], none, []⟩

/-- One call. -/
def fsStep (M : Machine H D) (s : Kernel H D) (c : FsCall) : Except Stop (FsOut × Kernel H D) :=
  (match c with
    | .fopen filename modeStr => FsOut.ofResult <$> fopen M filename modeStr
    | .fread size nmemb fd => (fun r => ⟨r.1, r.2, none, []⟩) <$>
        fread M size.toNat nmemb.toNat fd.toInt
    | .fseek fd offset whence => FsOut.ofResult <$> fseek fd.toInt offset.toInt whence
    | .ftell fd => FsOut.ofResult <$> ftell fd.toInt
    | .fstat fd => (fun r => ⟨r.1, [], r.2, []⟩) <$> fstat fd.toInt
    | .fclose fd => FsOut.ofResult <$> fclose M fd.toInt
    | .fsList path => (fun r => ⟨r.1, [], none, r.2⟩) <$> fsList M path : KM H D FsOut) s

end VibeKernel
