import IpsecTransform.Descriptor
import IpsecTransform.Hex
import IpsecTransform.Number.Shortest

/-!
Descriptors as text for diagnostics. The key is written only where revealing it
is asked for.
-/

namespace IpsecTransform.Descriptor

def hiddenKey : Text := Text.ofString "<hidden>"

/-- The fields of a descriptor; the name is written as it is, without quotes. -/
def describe (descriptor : Descriptor) (reveal : Bool) : Text :=
  let key := if reveal then Hex.encode descriptor.key else hiddenKey
  Text.ofString "\x7bname=" ++ descriptor.name ++ Text.ofString ", key=" ++ key ++
    Text.ofString ", truncationLengthBits=" ++ Text.ofString descriptor.truncation.text ++
    Text.ofString "\x7d"

def text (descriptor : Descriptor) : Text := descriptor.describe false

/-- The text by which a descriptor shows itself when it is inspected. -/
def inspection (descriptor : Descriptor) : Text :=
  Text.ofString "AlgorithmDescriptor " ++ descriptor.text

/-- The part of a descriptor that may be published: everything but the key. -/
structure Summary where
  name : Text
  truncation : Number
deriving DecidableEq

def summary (descriptor : Descriptor) : Summary :=
  { name := descriptor.name, truncation := descriptor.truncation }

end IpsecTransform.Descriptor
