import IpsecTransform.Bytes

/-!
Words of four bytes, most significant byte first. A number is written modulo
`2 ^ 32`; it is read back either unsigned or in two's complement.
-/

namespace IpsecTransform.BigEndian

def wordSize : Nat := 4

/-- The word that holds `value` modulo `2 ^ 32`; a negative value wraps to its
two's complement. -/
def encode (value : Int) : Bytes :=
  let bits := (value % 0x100000000).toNat
  [UInt8.ofNat (bits / 0x1000000), UInt8.ofNat (bits / 0x10000 % 0x100),
    UInt8.ofNat (bits / 0x100 % 0x100), UInt8.ofNat (bits % 0x100)]

@[simp] theorem length_encode (value : Int) : (encode value).length = 4 := rfl

/-- The number that the bytes spell in base 256. -/
def unsigned (bytes : Bytes) : Nat :=
  bytes.foldl (fun value byte => value * 256 + byte.toNat) 0

/-- The number of a word in two's complement, between `-2 ^ 31` and `2 ^ 31`. -/
def signed (bytes : Bytes) : Int :=
  (unsigned bytes : Int).bmod 0x100000000

end IpsecTransform.BigEndian
