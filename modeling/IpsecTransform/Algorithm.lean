import IpsecTransform.Text

namespace IpsecTransform

inductive Algorithm where
  | aesCbc
  | hmacMd5
  | hmacSha1
  | hmacSha256
  | hmacSha384
  | hmacSha512
  /-- Encryption and authentication in one, after RFC 4106. -/
  | aesGcm
deriving DecidableEq, Repr

namespace Algorithm

/-- Every algorithm, in the order in which they are listed to readers. -/
def all : List Algorithm :=
  [aesCbc, hmacMd5, hmacSha1, hmacSha256, hmacSha384, hmacSha512, aesGcm]

theorem mem_all (algorithm : Algorithm) : algorithm ∈ all := by
  cases algorithm <;> decide

/-- The identifier by which a transform names an algorithm. -/
def identifier : Algorithm → String
  | aesCbc => "cbc(aes)"
  | hmacMd5 => "hmac(md5)"
  | hmacSha1 => "hmac(sha1)"
  | hmacSha256 => "hmac(sha256)"
  | hmacSha384 => "hmac(sha384)"
  | hmacSha512 => "hmac(sha512)"
  | aesGcm => "rfc4106(gcm(aes))"

def name (algorithm : Algorithm) : Text := Text.ofString algorithm.identifier

/-- The algorithm with exactly this name, unit by unit. -/
def ofName? (name : Text) : Option Algorithm :=
  all.find? fun algorithm => algorithm.name == name

end Algorithm

end IpsecTransform
