import IpsecTransform.Algorithm
import IpsecTransform.Number

/-!
What each algorithm provides and which truncation lengths it admits. Lengths are
in bits.
-/

namespace IpsecTransform

/-- What an algorithm provides inside a transform. -/
inductive Category where
  | encryption
  | authentication
  /-- Encryption and authentication together. -/
  | combined
deriving DecidableEq, Repr

def Category.name : Category → String
  | encryption => "encryption"
  | authentication => "authentication"
  | combined => "aead"

/-- The truncation lengths that an algorithm admits. -/
inductive TruncationRule where
  | oneOf (lengths : List Nat)
  /-- Both ends are admitted. -/
  | between (least most : Nat)
deriving DecidableEq, Repr

namespace TruncationRule

def admits : TruncationRule → Int → Bool
  | oneOf lengths, length => lengths.any fun (admitted : Nat) => (admitted : Int) == length
  | between least most, length => (least : Int) ≤ length && length ≤ (most : Int)

def largest : TruncationRule → Nat
  | oneOf lengths => lengths.foldl max 0
  | between _ most => most

end TruncationRule

/-- The rule of one algorithm. -/
structure Rule where
  category : Category
  /-- Kept for interoperability and not for new deployments. -/
  legacy : Bool
  truncation : TruncationRule
  /-- The documented key sizes, none where any size will do. They inform readers
  and are not enforced. -/
  keyLengths : List Nat
deriving DecidableEq, Repr

namespace Rule

/-- The integer that a length is, if the rule admits it. -/
def admitted? (rule : Rule) (length : Number) : Option Int :=
  length.integer?.filter rule.truncation.admits

end Rule

namespace Algorithm

/-- The rule table. The keys of `aesGcm` are a cipher key and a salt of 32 bits. -/
def rule : Algorithm → Rule
  | aesCbc => ⟨.encryption, false, .oneOf [128, 192, 256], [128, 192, 256]⟩
  | hmacMd5 => ⟨.authentication, true, .between 96 128, []⟩
  | hmacSha1 => ⟨.authentication, true, .between 96 160, []⟩
  | hmacSha256 => ⟨.authentication, false, .between 96 256, []⟩
  | hmacSha384 => ⟨.authentication, false, .between 192 384, []⟩
  | hmacSha512 => ⟨.authentication, false, .between 256 512, []⟩
  | aesGcm => ⟨.combined, false, .oneOf [64, 96, 128], [160, 224, 288]⟩

/-- The rule that goes with a name, if an algorithm has that name. -/
def rule? (name : Text) : Option Rule := (ofName? name).map rule

/-- A name is of a category when its algorithm provides it; other names are of none. -/
def provides (category : Category) (name : Text) : Bool :=
  (rule? name).any fun rule => rule.category == category

/-- The integer that a length is, if an algorithm has the name and its rule admits
the length. -/
def admitted? (name : Text) (length : Number) : Option Int :=
  (rule? name).bind fun rule => rule.admitted? length

/-- A length is valid for a name when the rule that goes with the name admits it. -/
def validTruncation (name : Text) (length : Number) : Bool :=
  (admitted? name length).isSome

end Algorithm

end IpsecTransform
