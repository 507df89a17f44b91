import IpsecTransform.Fault
import IpsecTransform.Bytes
import IpsecTransform.Algorithm.Rule

namespace IpsecTransform

/-- An algorithm as handed to a transform. `create` checks the fields; those of a
trusted record are taken as they are, so a name may be unknown and a length may
be any number. -/
structure Descriptor where
  name : Text
  key : Bytes
  /-- How much of the output is used, in bits. -/
  truncation : Number
deriving DecidableEq

namespace Descriptor

/-- The truncation length that is stored for a request with a key of `keyLength`
bytes. The length asked for, or else the bits of the key, must be valid for the
name before it is limited to the bits of the key. -/
def settle (name : Text) (keyLength : Nat) (requested : Option Number) :
    Except Fault Number :=
  let keyBits : Int := 8 * keyLength
  match Algorithm.admitted? name (requested.getD (.ofInt keyBits)) with
  | some length => .ok (.ofInt (min length keyBits))
  | none => .error .invalidArgument

/-- A descriptor of a known algorithm with a valid truncation length. -/
def create (name : Text) (key : Bytes) (requested : Option Number) :
    Except Fault Descriptor :=
  (settle name key.length requested).map fun truncation => { name, key, truncation }

/-- Equality of possibly absent descriptors: names unit by unit, keys byte by byte,
lengths as numbers. What is absent equals only what is absent. -/
def equal : Option Descriptor → Option Descriptor → Bool
  | none, none => true
  | some left, some right =>
      left.name == right.name && left.key.same right.key &&
        left.truncation.equals right.truncation
  | _, _ => false

def equals (descriptor : Descriptor) (other : Option Descriptor) : Bool :=
  equal (some descriptor) other

end Descriptor

end IpsecTransform
