import IpsecTransform.Record

/-!
Reference vectors: one record per algorithm whose key is a fixed pattern, by which
other implementations of the record format can be checked.
-/

namespace IpsecTransform

/-- A record together with the fields it was made from. -/
structure ReferenceVector where
  name : Text
  /-- The key in hexadecimal digits; it is no secret. -/
  keyHex : Text
  truncation : Number
  recordHex : Text
deriving DecidableEq

namespace ReferenceVector

/-- The key pattern: the bytes 0, 1, 2 and so on. -/
def keyPattern (size : Nat) : Bytes := (List.range size).map UInt8.ofNat

/-- The size of a reference key in bits: the largest documented key, or else the
largest truncation length. -/
def keyBits (rule : Rule) : Nat :=
  if rule.keyLengths = [] then rule.truncation.largest else rule.keyLengths.foldl max 0

/-- The vector of an algorithm, with the largest truncation length it admits. -/
def ofAlgorithm (algorithm : Algorithm) : Except Fault ReferenceVector :=
  let key := keyPattern (keyBits algorithm.rule / 8)
  let length := Number.ofInt algorithm.rule.truncation.largest
  (Descriptor.create algorithm.name key (some length)).map fun descriptor =>
    { name := algorithm.name
      keyHex := Hex.encode key
      truncation := descriptor.truncation
      recordHex := Record.encodeHex descriptor }

def ofName (name : Text) : Except Fault ReferenceVector :=
  (Algorithm.ofName? name).elim (.error .unknownAlgorithm) ofAlgorithm

def all : Except Fault (List ReferenceVector) := Algorithm.all.mapM ofAlgorithm

end ReferenceVector

end IpsecTransform
