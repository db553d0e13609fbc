import VibeKernel.Lib.Run

/-!
# A read-only file as a cursor over a byte string

The purpose of an open file, independent of how it is stored: a string that does not change and a
position in it. A read of `nmemb` items of `size` bytes delivers what is left of the string, up to
`size * nmemb` bytes, and counts the items it completed. A seek moves to its exact target if that
lies in the string and is refused otherwise.
-/

namespace Verif

/-- Where the target of a seek is counted from. -/
inductive Whence
  | set
  | cur
  | fromEnd
  deriving DecidableEq, Repr

/-- The operations on an open file, with the argument types of a 32-bit machine. -/
inductive FileOp
  | read (size nmemb : UInt32)
  | seek (offset : Int32) (whence : Whence)
  | tell
  deriving DecidableEq, Repr

/-- The answer of an operation: its result and the bytes it delivers. -/
structure FileOut where
  result : ℤ
  bytes : List UInt8
  deriving DecidableEq, Repr

namespace Cursor

variable (content : List UInt8)

/-- The bytes a read at `pos` delivers. -/
def readBytes (pos : ℕ) (size nmemb : ℕ) : List UInt8 := (content.drop pos).take (size * nmemb)

/-- The exact target of a seek. -/
def target (pos : ℕ) (offset : ℤ) : Whence → ℤ
  | .set => offset
  | .cur => pos + offset
  | .fromEnd => content.length + offset

/-- One operation on the position `pos`. -/
def step (pos : ℕ) : FileOp → Except Empty (FileOut × ℕ)
  | .read size nmemb =>
    let bytes := readBytes content pos size.toNat nmemb.toNat
    .ok (⟨(bytes.length / size.toNat : ℕ), bytes⟩, pos + bytes.length)
  | .seek offset whence =>
    let t := target content pos offset.toInt whence
    if 0 ≤ t ∧ t ≤ content.length then .ok (⟨0, []⟩, t.toNat) else .ok (⟨-1, []⟩, pos)
  | .tell => .ok (⟨pos, []⟩, pos)

variable {content}

/-- A read delivers what is left, up to what was asked for. -/
theorem readBytes_length {pos size nmemb : ℕ} (hpos : pos ≤ content.length) :
    (readBytes content pos size nmemb).length = min (pos + size * nmemb) content.length - pos := by
  unfold readBytes
  rw [List.length_take, List.length_drop]
  omega

/-- What a read delivers is a prefix of what is left. -/
theorem readBytes_eq_take (pos size nmemb : ℕ) :
    readBytes content pos size nmemb =
      (content.drop pos).take (readBytes content pos size nmemb).length :=
  List.prefix_iff_eq_take.mp (List.take_prefix _ _)

end Cursor

end Verif
