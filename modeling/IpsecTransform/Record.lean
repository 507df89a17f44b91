import IpsecTransform.Bytes.Slice
import IpsecTransform.Text.Utf8
import IpsecTransform.Descriptor
import IpsecTransform.Hex

/-!
Records carry descriptors between processes. A record is the length of the name
in bytes, the name in UTF-8, the length of the key, the key, and the truncation
length as a signed word; every number takes four bytes, most significant first.
Reading checks the framing and the encoding of the name and trusts the fields.
-/

namespace IpsecTransform.Record

def lengthSize : Nat := BigEndian.wordSize

def truncationSize : Nat := BigEndian.wordSize

/-- The bytes of a record whose name and key are empty. -/
def minimumSize : Nat := 2 * lengthSize + truncationSize

/-- The parts of a record in order. -/
def parts (name : Text) (key : Bytes) (truncation : Number) : List Bytes :=
  let nameBytes := Utf8.encode name
  [BigEndian.encode nameBytes.length, nameBytes, BigEndian.encode key.length, key,
    BigEndian.encode truncation.signedWord]

/-- The record of a descriptor; it holds the key as it is. -/
def encode (descriptor : Descriptor) : Bytes :=
  Bytes.concat (parts descriptor.name descriptor.key descriptor.truncation)

/-- Where the fields of a record lie, and the truncation length it ends with. -/
structure Frame where
  name : Extent
  key : Extent
  truncation : Int
deriving DecidableEq, Repr

/-- The extent of the field whose length stands at `offset`. Both the length and
the bytes it announces must lie inside the slice. -/
def field (slice : Slice) (offset : Nat) : Except Fault Extent :=
  let start := offset + lengthSize
  if slice.size < start then .error .malformedRecord
  else
    (slice.unsigned offset).bind fun size =>
      if slice.size - start < size then .error .malformedRecord
      else .ok { start, size }

/-- The truncation length at `offset`, which must end the slice exactly. -/
def closing (slice : Slice) (offset : Nat) : Except Fault Int :=
  if offset + truncationSize = slice.size then slice.signed offset
  else .error .malformedRecord

/-- The frame of a record that fills a slice to its end. -/
def frame (slice : Slice) : Except Fault Frame :=
  if slice.size < minimumSize then .error .malformedRecord
  else
    (field slice 0).bind fun name =>
      (field slice name.stop).bind fun key =>
        (closing slice key.stop).map fun truncation => { name, key, truncation }

/-- The text of the name field, refused when it is no valid UTF-8. -/
def decodeName (bytes : Bytes) : Except Fault Text :=
  (Utf8.decode? bytes).elim (.error .malformedRecord) .ok

/-- The descriptor of a record that fills a slice. -/
def decodeSlice (slice : Slice) : Except Fault Descriptor :=
  (frame slice).bind fun frame =>
    (decodeName (slice.extract frame.name)).map fun name =>
      { name, key := slice.extract frame.key, truncation := .ofInt frame.truncation }

theorem decodeSlice_eq_ite (slice : Slice) :
    decodeSlice slice =
      if slice.size < minimumSize then .error .malformedRecord
      else
        (field slice 0).bind fun name =>
          (field slice name.stop).bind fun key =>
            (closing slice key.stop).bind fun truncation =>
              (decodeName (slice.extract name)).map fun text =>
                { name := text, key := slice.extract key, truncation := .ofInt truncation } := by
  rw [decodeSlice, frame]
  split
  · rfl
  cases field slice 0 with
  | error fault => rfl
  | ok name =>
      simp only [Except.bind]
      cases field slice name.stop with
      | error fault => rfl
      | ok key =>
          simp only
          cases closing slice key.stop with
          | error fault => rfl
          | ok truncation => rfl

def decode (bytes : Bytes) : Except Fault Descriptor := decodeSlice (.whole bytes)

def encodeHex (descriptor : Descriptor) : Text := Hex.encode (encode descriptor)

/-- The descriptor of a record in hexadecimal digits. A text that is no
hexadecimal text is reported as a malformed record, too. -/
def decodeHex (text : Text) : Except Fault Descriptor :=
  match Hex.decode text with
  | .ok bytes => decode bytes
  | .error _ => .error .malformedRecord

end IpsecTransform.Record
