import VibeKernel.Lib.Words
import Mathlib.Logic.Function.Basic

/-!
# The kernel heap

The allocator of `src/memory/heap/kheap.c`: a bump pointer `placement_address` that starts at the
linker symbol `end`, and a singly linked list of block headers from `global_base`. A request is
served first-fit from the list of freed blocks and otherwise by carving a new block at the placement
address; a page-aligned request rounds the placement address up first.

The headers are a store `block : ℕ → BlockMeta` indexed by their address. The source never unmaps a
header, so following `next` is a walk in that store; the walk is bounded by `chainFuel`, more steps
than there are 32-bit addresses, and a walk that exceeds it is a cyclic list, on which the C loop
does not return (`none`).

`carved` is a history variable: the addresses of all blocks `request_space` has created, most recent
first. No function reads it.
-/

namespace VibeKernel

open Verif

/-- The ways an execution leaves the model. -/
inductive Stop
  /-- A loop of the source that does not end. -/
  | diverges
  /-- An access outside the identity-mapped memory: the page fault handler halts the machine. -/
  | pageFault
  /-- A division by zero: the exception handler halts the machine. -/
  | divideError
  /-- The allocator's answer cannot be used: `NULL` where the code does not check for it, not
  aligned as asked, or overlapping a live block. -/
  | badBlock
  /-- A write past the end of a block. -/
  | overrun
  /-- An access to a structure that was never initialised or has been freed. -/
  | clobbered
  deriving DecidableEq, Repr

/-- `struct block_meta`: the 16-byte header in front of each payload. -/
structure BlockMeta where
  size : ℕ
  next : ℕ
  free : Bool
  magic : ℕ
  deriving DecidableEq, Repr

/-- The state of the allocator. -/
structure KHeap where
  placementAddress : ℕ
  globalBase : ℕ
  block : ℕ → BlockMeta
  carved : List ℕ

/-- `end`, the first address after the kernel image, is where the heap starts. -/
def KHeap.init (e : ℕ) : KHeap where
  placementAddress := e
  globalBase := 0
  block := fun _ => ⟨0, 0, false, 0⟩
  carved := []

/-- The magic number of a freshly carved block. -/
def magicCarved : ℕ := 0x12345678

/-- The magic number of a reused block. -/
def magicReused : ℕ := 0x77777777

/-- More steps than a list of distinct 32-bit addresses can have. -/
def chainFuel : ℕ := 4294967296

namespace KHeap

/-- The successor pointers of the block list. -/
def next (h : KHeap) (b : ℕ) : ℕ := (h.block b).next

/-- `current->free && current->size >= size`. -/
def Fits (h : KHeap) (size b : ℕ) : Prop := (h.block b).free = true ∧ size ≤ (h.block b).size

instance (h : KHeap) (size b : ℕ) : Decidable (h.Fits size b) :=
  inferInstanceAs (Decidable (_ ∧ _))

/-- Overwrite one header. -/
def setBlock (h : KHeap) (b : ℕ) (m : BlockMeta) : KHeap :=
  { h with block := Function.update h.block b m }

/-- `find_free_block`: the first block that fits, together with the value it leaves in `*last`,
which is the block in front of it (or the initial `last`, when it is the first). -/
def findFreeBlock (h : KHeap) (size : ℕ) : ℕ → ℕ → ℕ → Option (ℕ × ℕ)
  | 0, _, _ => none
  | n + 1, last, current =>
    if current ≠ 0 ∧ ¬ h.Fits size current then
      findFreeBlock h size n current (h.next current)
    else
      some (current, last)

/-- `request_space`: carve a block at the placement address and hang it behind `last`. -/
def requestSpace (h : KHeap) (last size : ℕ) : ℕ × KHeap :=
  let b := h.placementAddress
  let h₁ := if last ≠ 0 then h.setBlock last { h.block last with next := b } else h
  (b, { h₁.setBlock b ⟨size, 0, false, magicCarved⟩ with
        placementAddress := u32 (h.placementAddress + u32 (size + 16))
        carved := b :: h.carved })

/-- The rounding of `placement_address` for a page-aligned payload. The source has it twice, in
the branch of the first call and in the branch that needs new space. -/
def roundPlacement (h : KHeap) : KHeap :=
  if u32 (h.placementAddress + 16) &&& 0xFFF ≠ 0 then
    { h with placementAddress := u32Sub (u32 ((h.placementAddress &&& 0xFFFFF000) + 0x1000)) 16 }
  else h

/-- The placement address a carving request works on. -/
def roundFor (h : KHeap) (align : Bool) : KHeap := if align then h.roundPlacement else h

/-- `kmalloc_int`. The result `0` is `NULL`. -/
def kmallocInt (size : ℕ) (align : Bool) (h : KHeap) : Option (ℕ × KHeap) :=
  if size = 0 then some (0, h)
  else if h.globalBase = 0 then
    let (block, h₁) := (h.roundFor align).requestSpace 0 size
    if block = 0 then some (0, h₁)
    else some (u32 (block + 16), { h₁ with globalBase := block })
  else
    match h.findFreeBlock size chainFuel h.globalBase h.globalBase with
    | none => none
    | some (found, last) =>
      -- a block that fits but is not aligned is rejected, and `last` stays in front of it
      let block := if align ∧ u32 (found + 16) &&& 0xFFF ≠ 0 then 0 else found
      if block = 0 then
        let (block, h₁) := (h.roundFor align).requestSpace last size
        if block = 0 then some (0, h₁)
        else some (u32 (block + 16), h₁)
      else
        some (u32 (block + 16),
          h.setBlock block { h.block block with free := false, magic := magicReused })

/-- `kmalloc`. -/
def kmalloc (size : ℕ) (h : KHeap) : Option (ℕ × KHeap) := h.kmallocInt size false

/-- `kmalloc_a`. -/
def kmallocA (size : ℕ) (h : KHeap) : Option (ℕ × KHeap) := h.kmallocInt size true

/-- What `kmalloc_int` stores through a non-`NULL` `phys`: the pointer it returns, and nothing
when it returns `NULL`. -/
def physOf (p : ℕ) : Option ℕ := if p = 0 then none else some p

/-- `kmalloc_p`, with the value stored through `phys`. -/
def kmallocP (size : ℕ) (h : KHeap) : Option ((ℕ × Option ℕ) × KHeap) :=
  (h.kmallocInt size false).map fun (p, h') => ((p, physOf p), h')

/-- `kmalloc_ap`, with the value stored through `phys`. -/
def kmallocAp (size : ℕ) (h : KHeap) : Option ((ℕ × Option ℕ) × KHeap) :=
  (h.kmallocInt size true).map fun (p, h') => ((p, physOf p), h')

/-- `kfree`. -/
def kfree (ptr : ℕ) (h : KHeap) : KHeap :=
  if ptr = 0 then h
  else
    let block := u32Sub ptr 16
    if (h.block block).magic ≠ magicCarved ∧ (h.block block).magic ≠ magicReused then h
    else h.setBlock block { h.block block with free := true }

/-- The size that the header in front of a pointer holds: a block that is reused keeps its size. -/
def blockSize (ptr : ℕ) (h : KHeap) : ℕ := (h.block (u32Sub ptr 16)).size

end KHeap

end VibeKernel
