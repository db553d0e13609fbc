import VibeKernel.Fs.Fat16
import VibeKernel.Heap.Discipline
import VibeKernel.Lib.Exec

/-!
# The state of the kernel

The heap structures of the kernel point at each other, so they live in a store: `store p` is the
structure at address `p`. Around the store the state has the allocator with the list of live
blocks, the drives, and the static variables of the file system, the process list and the task
list. The operations are computations on this state.

`kmallocInt` is where the allocator meets the store. The allocator is a parameter; what the other
code relies on (a block that is aligned as asked, lies in the identity-mapped memory behind the
kernel image, and is apart from every live block) is checked at each allocation, and an answer that
breaks it stops the computation. A result proved for runs that do not stop there therefore holds
for every allocator that behaves.
-/

namespace VibeKernel

open Verif

/-! ### Structures -/

/-- `struct fat_private`. -/
structure FatPrivate where
  bpb : FatBootSector
  stream : ℕ
  deriving DecidableEq, Repr

/-- `struct filesystem`: the one table of functions the kernel has, that of `fat16_init_vfs`. -/
inductive Filesystem
  | fat16
  deriving DecidableEq, Repr

/-- `struct file_descriptor`. -/
structure FileDescriptor where
  index : ℕ
  filesystem : Filesystem
  priv : ℕ
  disk : ℕ
  deriving DecidableEq, Repr

/-- `struct task`, with the registers `task_init` sets. -/
structure Task where
  ss : ℕ
  esp : ℕ
  cs : ℕ
  eip : ℕ
  eflags : ℕ
  process : ℕ
  next : ℕ
  prev : ℕ
  userStack : ℕ
  kstack : ℕ
  deriving DecidableEq, Repr

/-- What can lie at an address. A page table and a page directory are 1024 words; the 96 bytes of a
`struct process` are kept as they are, since its name can run over the fields behind it. -/
inductive Obj
  | stream (x : DiskStream)
  | mount (x : FatPrivate)
  | file (x : FatFileDescriptor)
  | descriptor (x : FileDescriptor)
  | table (words : ℕ → ℕ)
  | chunk (directory : ℕ)
  | process (bytes : ℕ → UInt8)
  | task (x : Task)
  | bytes (size : ℕ) (cells : ℕ → UInt8)

/-- The part of the kernel a structure belongs to. -/
inductive Kind
  | fs
  | paging
  | process
  | task
  | raw
  deriving DecidableEq, Repr

namespace Obj

/-- `sizeof`. -/
def size : Obj → ℕ
  | stream _ => 8
  | mount _ => 516
  | file _ => 44
  | descriptor _ => 16
  | table _ => 4096
  | chunk _ => 4
  | process _ => 96
  | task _ => 68
  | bytes n _ => n

def kind : Obj → Kind
  | stream _ | mount _ | file _ | descriptor _ => .fs
  | table _ | chunk _ => .paging
  | process _ => .process
  | task _ => .task
  | bytes _ _ => .raw

def asStream : Obj → Option DiskStream
  | stream x => some x
  | _ => none

def asMount : Obj → Option FatPrivate
  | mount x => some x
  | _ => none

def asFile : Obj → Option FatFileDescriptor
  | file x => some x
  | _ => none

def asDescriptor : Obj → Option FileDescriptor
  | descriptor x => some x
  | _ => none

def asTable : Obj → Option (ℕ → ℕ)
  | table x => some x
  | _ => none

def asChunk : Obj → Option ℕ
  | chunk x => some x
  | _ => none

def asProcess : Obj → Option (ℕ → UInt8)
  | process x => some x
  | _ => none

def asTask : Obj → Option Task
  | task x => some x
  | _ => none

def asBytes : Obj → Option (ℕ × (ℕ → UInt8))
  | bytes n x => some (n, x)
  | _ => none

end Obj

/-! ### The state -/

/-- The static variables of `file.c`: `filesystems`, `file_descriptors` and `disks[i].fs_private`.
After `fs_init` the id of `disks[i]` is `i`. -/
structure FsStatics where
  filesystems : List (Option Filesystem)
  fileDescriptors : ℕ → ℕ
  fsPrivate : ℕ → ℕ

/-- The static variables of `process.c`. -/
structure ProcessStatics where
  processHead : ℕ
  processTail : ℕ
  currentProcess : ℕ
  currentId : ℕ
  deriving DecidableEq, Repr

/-- The static variables of `task.c`. -/
structure TaskStatics where
  taskHead : ℕ
  taskTail : ℕ
  currentTask : ℕ
  deriving DecidableEq, Repr

/-- The state of the kernel, over an allocator state `H` and a state `D` of the drives. -/
structure Kernel (H D : Type) where
  heap : H
  live : List Allocation
  store : ℕ → Option Obj
  drives : D
  fs : FsStatics
  proc : ProcessStatics
  tasks : TaskStatics

/-- An allocator: `kmalloc_int` by size and alignment, `kfree`, and the size of the block at a
pointer, which can be larger than what was asked for. -/
structure Allocator (H : Type) where
  kmallocInt : ℕ → Bool → H → Option (ℕ × H)
  kfree : ℕ → H → H
  blockSize : ℕ → H → ℕ

/-- The allocator of the kernel. -/
def kheap : Allocator KHeap where
  kmallocInt := KHeap.kmallocInt
  kfree := KHeap.kfree
  blockSize := KHeap.blockSize

/-- What the kernel runs on: an allocator, the drives, the linker symbol `end`, and the number of
steps after which a walk along a chain of directory clusters counts as endless. -/
structure Machine (H D : Type) where
  heap : Allocator H
  ata : Ata D
  imageEnd : ℕ
  fuel : ℕ

/-- The state after `fs_init` and `fs_insert_filesystem` in `main`. -/
def Kernel.boot {H D : Type} (h : H) (d : D) : Kernel H D where
  heap := h
  live := []
  store := fun _ => none
  drives := d
  fs := ⟨some .fat16 :: List.replicate 11 none, fun _ => 0, fun _ => 0⟩
  proc := ⟨0, 0, 0, 0⟩
  tasks := ⟨0, 0, 0⟩

/-- A computation of the kernel. -/
abbrev KM (H D α : Type) := Exec Stop (Kernel H D) α

variable {H D α : Type}

/-- The end of the memory that the kernel's page directory maps. -/
def identityTop : ℕ := 0x4000000

/-- The block `[p - 16, p + size)` can be used. -/
def Usable (M : Machine H D) (s : Kernel H D) (size : ℕ) (align : Bool) (p : ℕ) : Prop :=
  M.imageEnd + 16 ≤ p ∧ (align = true → p % 4096 = 0) ∧
    ∀ a ∈ s.live, (Allocation.span ⟨p, size⟩).Apart a.span

instance (M : Machine H D) (s : Kernel H D) (size : ℕ) (align : Bool) (p : ℕ) :
    Decidable (Usable M s size align p) :=
  inferInstanceAs (Decidable (_ ∧ _ ∧ _))

/-- The first `n` bytes at `p` lie inside the `asked` bytes of the structure there, or inside the
block that it lies in. -/
def FitsBlock (M : Machine H D) (s : Kernel H D) (p asked n : ℕ) : Prop :=
  n ≤ max asked (M.heap.blockSize p s.heap)

instance (M : Machine H D) (s : Kernel H D) (p asked n : ℕ) :
    Decidable (FitsBlock M s p asked n) := inferInstanceAs (Decidable (_ ≤ _))

theorem FitsBlock.of_le {M : Machine H D} {s : Kernel H D} {p asked n : ℕ} (h : n ≤ asked) :
    FitsBlock M s p asked n := le_max_of_le_left h

/-- The state with a new live block. -/
def Kernel.withBlock (s : Kernel H D) (h : H) (p size : ℕ) : Kernel H D :=
  { s with heap := h, live := ⟨p, size⟩ :: s.live }

/-- The state with a structure written at `p`. -/
def Kernel.put (s : Kernel H D) (p : ℕ) (o : Obj) : Kernel H D :=
  { s with store := Function.update s.store p (some o) }

/-- The state with the block at `p` freed. What lay in the block is gone. -/
def Kernel.freed (M : Machine H D) (s : Kernel H D) (p : ℕ) : Kernel H D :=
  { s with
    heap := M.heap.kfree p s.heap
    live := s.live.filter fun a => a.ptr ≠ p
    store := Function.update s.store p none }

/-- `kmalloc_int`. A block that runs out of the identity-mapped memory counts as the page fault that
its use causes. -/
def kmallocInt (M : Machine H D) (size : ℕ) (align : Bool) : KM H D ℕ := fun s =>
  match M.heap.kmallocInt size align s.heap with
  | none => .error .diverges
  | some (p, h) =>
    if p = 0 then .ok (0, { s with heap := h })
    else if identityTop < p + size then .error .pageFault
    else if Usable M s size align p then .ok (p, s.withBlock h p size)
    else .error .badBlock

/-- An allocation whose result the code uses without a check for `NULL`. -/
def kmallocUnchecked (M : Machine H D) (size : ℕ) (align : Bool) : KM H D ℕ := do
  let p ← kmallocInt M size align
  if p = 0 then Exec.stop .badBlock else pure p

/-- `kfree`. -/
def kfree (M : Machine H D) (p : ℕ) : KM H D Unit :=
  Exec.modify fun s => if p = 0 then s else s.freed M p

/-- Read the structure at `p`. -/
def readObj (proj : Obj → Option α) (p : ℕ) : KM H D α := fun s =>
  match (s.store p).bind proj with
  | some x => .ok (x, s)
  | none => .error .clobbered

/-- Write the structure at `p`, which has to fit into a live block there. -/
def writeObj (p : ℕ) (o : Obj) : KM H D Unit := fun s =>
  if ∃ a ∈ s.live, a.ptr = p ∧ o.size ≤ a.size then .ok ((), s.put p o)
  else .error .clobbered

/-- Allocate a block for a structure and write it. -/
def newObj (M : Machine H D) (align : Bool) (o : Obj) : KM H D ℕ := do
  let p ← kmallocUnchecked M o.size align
  writeObj p o
  pure p

/-- `memset(p, 0, n)` on a new block. -/
def clearBlock (p n : ℕ) : KM H D Unit := writeObj p (.bytes n fun _ => 0)

/-- Write bytes into the block at `p` from its start on. -/
def writeBytes (p : ℕ) (bs : List UInt8) : KM H D Unit :=
  if bs = [] then pure ()
  else do
    let s ← Exec.gets id
    match (s.store p).bind Obj.asBytes with
    | none => Exec.stop .overrun
    | some (n, cells) =>
      if n < bs.length then Exec.stop .overrun
      else writeObj p (.bytes n fun i => if h : i < bs.length then bs[i] else cells i)

end VibeKernel
