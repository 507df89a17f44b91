import IpsecTransform.Fault
import IpsecTransform.Bytes.BigEndian

namespace IpsecTransform

/-- A run of positions inside a slice. -/
structure Extent where
  start : Nat
  size : Nat
deriving DecidableEq, Repr

def Extent.stop (extent : Extent) : Nat := extent.start + extent.size

/-- A run of bytes inside a larger block. Reads are addressed from `start` and
checked against `size`; the bytes of the block around the slice stay unseen. -/
structure Slice where
  block : Bytes
  start : Nat
  size : Nat

namespace Slice

def whole (bytes : Bytes) : Slice := ⟨bytes, 0, bytes.length⟩

def bytes (slice : Slice) : Bytes :=
  (slice.block.drop slice.start).take slice.size

@[simp] theorem bytes_whole (content : Bytes) : (whole content).bytes = content := by
  simp [whole, bytes]

/-- The word at an offset, refused when it does not lie inside the slice. -/
def word (slice : Slice) (offset : Nat) : Except Fault Bytes :=
  if offset + BigEndian.wordSize ≤ slice.size then
    .ok ((slice.block.drop (slice.start + offset)).take BigEndian.wordSize)
  else .error .outOfBounds

def unsigned (slice : Slice) (offset : Nat) : Except Fault Nat :=
  (slice.word offset).map BigEndian.unsigned

def signed (slice : Slice) (offset : Nat) : Except Fault Int :=
  (slice.word offset).map BigEndian.signed

/-- A copy of the bytes in an extent; what lies past the end is left out. -/
def extract (slice : Slice) (extent : Extent) : Bytes :=
  (slice.bytes.drop extent.start).take extent.size

end Slice

end IpsecTransform
