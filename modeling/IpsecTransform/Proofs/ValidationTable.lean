import IpsecTransform.Proofs.DescriptorCreation
import IpsecTransform.Session

namespace IpsecTransform

namespace Algorithm

/-- The validation table, one row a constructor: a name and the lengths that go with it. -/
inductive Tabled : Text → Int → Prop where
  | aesCbc {length : Int} (h : length = 128 ∨ length = 192 ∨ length = 256) :
      Tabled (Text.ofString "cbc(aes)") length
  | hmacMd5 {length : Int} (hleast : 96 ≤ length) (hmost : length ≤ 128) :
      Tabled (Text.ofString "hmac(md5)") length
  | hmacSha1 {length : Int} (hleast : 96 ≤ length) (hmost : length ≤ 160) :
      Tabled (Text.ofString "hmac(sha1)") length
  | hmacSha256 {length : Int} (hleast : 96 ≤ length) (hmost : length ≤ 256) :
      Tabled (Text.ofString "hmac(sha256)") length
  | hmacSha384 {length : Int} (hleast : 192 ≤ length) (hmost : length ≤ 384) :
      Tabled (Text.ofString "hmac(sha384)") length
  | hmacSha512 {length : Int} (hleast : 256 ≤ length) (hmost : length ≤ 512) :
      Tabled (Text.ofString "hmac(sha512)") length
  | aesGcm {length : Int} (h : length = 64 ∨ length = 96 ∨ length = 128) :
      Tabled (Text.ofString "rfc4106(gcm(aes))") length

theorem admits_oneOf_iff {first second third : Nat} {length : Int} :
    (TruncationRule.oneOf [first, second, third]).admits length = true ↔
      length = first ∨ length = second ∨ length = third := by
  simp only [TruncationRule.admits, List.any_cons, List.any_nil, Bool.or_false, Bool.or_eq_true,
    beq_iff_eq]
  exact or_congr eq_comm (or_congr eq_comm eq_comm)

theorem admits_between_iff {least most : Nat} {length : Int} :
    (TruncationRule.between least most).admits length = true ↔
      (least : Int) ≤ length ∧ length ≤ (most : Int) := by
  simp [TruncationRule.admits]

theorem tabled_iff {name : Text} {length : Int} :
    Tabled name length ↔
      ∃ algorithm : Algorithm, algorithm.name = name ∧
        algorithm.rule.truncation.admits length = true := by
  constructor
  · intro h
    cases h with
    | aesCbc h => exact ⟨aesCbc, rfl, admits_oneOf_iff.mpr h⟩
    | hmacMd5 hleast hmost => exact ⟨hmacMd5, rfl, admits_between_iff.mpr ⟨hleast, hmost⟩⟩
    | hmacSha1 hleast hmost => exact ⟨hmacSha1, rfl, admits_between_iff.mpr ⟨hleast, hmost⟩⟩
    | hmacSha256 hleast hmost => exact ⟨hmacSha256, rfl, admits_between_iff.mpr ⟨hleast, hmost⟩⟩
    | hmacSha384 hleast hmost => exact ⟨hmacSha384, rfl, admits_between_iff.mpr ⟨hleast, hmost⟩⟩
    | hmacSha512 hleast hmost => exact ⟨hmacSha512, rfl, admits_between_iff.mpr ⟨hleast, hmost⟩⟩
    | aesGcm h => exact ⟨aesGcm, rfl, admits_oneOf_iff.mpr h⟩
  · rintro ⟨algorithm, rfl, h⟩
    cases algorithm with
    | aesCbc => exact .aesCbc (admits_oneOf_iff.mp h)
    | hmacMd5 => exact .hmacMd5 (admits_between_iff.mp h).1 (admits_between_iff.mp h).2
    | hmacSha1 => exact .hmacSha1 (admits_between_iff.mp h).1 (admits_between_iff.mp h).2
    | hmacSha256 => exact .hmacSha256 (admits_between_iff.mp h).1 (admits_between_iff.mp h).2
    | hmacSha384 => exact .hmacSha384 (admits_between_iff.mp h).1 (admits_between_iff.mp h).2
    | hmacSha512 => exact .hmacSha512 (admits_between_iff.mp h).1 (admits_between_iff.mp h).2
    | aesGcm => exact .aesGcm (admits_oneOf_iff.mp h)

theorem bounds_of_tabled {name : Text} {length : Int} (h : Tabled name length) :
    64 ≤ length ∧ length ≤ 512 := by
  cases h <;> omega

theorem admitted?_eq_some_iff_tabled {name : Text} {number : Number} {length : Int} :
    admitted? name number = some length ↔ number = .ofInt length ∧ Tabled name length := by
  rw [admitted?_eq_some_iff, tabled_iff]
  constructor
  · rintro ⟨algorithm, hname, hinteger, hadmits⟩
    -- zero is in no row, so it does not matter that it has two forms
    have hpositive := (le_of_admits hadmits).1
    exact ⟨Number.eq_ofInt_of_integer? hinteger (by omega), algorithm, hname, hadmits⟩
  · rintro ⟨rfl, algorithm, hname, hadmits⟩
    exact ⟨algorithm, hname, Number.integer?_ofInt length, hadmits⟩

end Algorithm

open Algorithm (Tabled)

namespace Descriptor

variable {name : Text} {key : Bytes} {requested : Option Number}

theorem create_eq_ok_iff_tabled {descriptor : Descriptor} :
    create name key requested = .ok descriptor ↔
      ∃ length, requested.getD (.ofInt (8 * key.length)) = .ofInt length ∧ Tabled name length ∧
        descriptor = { name, key, truncation := .ofInt (min length (8 * key.length)) } := by
  simp only [create_eq_ok_iff, Algorithm.admitted?_eq_some_iff_tabled, and_assoc]

theorem exists_create_iff_tabled :
    (∃ descriptor, create name key requested = .ok descriptor) ↔
      ∃ length, requested.getD (.ofInt (8 * key.length)) = .ofInt length ∧ Tabled name length := by
  constructor
  · rintro ⟨descriptor, h⟩
    obtain ⟨length, hlength, htabled, -⟩ := create_eq_ok_iff_tabled.mp h
    exact ⟨length, hlength, htabled⟩
  · rintro ⟨length, hlength, htabled⟩
    exact ⟨_, create_eq_ok_iff_tabled.mpr ⟨length, hlength, htabled, rfl⟩⟩

theorem settle_error {fault : Fault} {keyLength : Nat}
    (h : settle name keyLength requested = .error fault) : fault = .invalidArgument := by
  rw [settle] at h
  split at h
  · cases h
  · exact (Except.error.inj h).symm

theorem create_of_not_tabled
    (h : ∀ length, requested.getD (.ofInt (8 * key.length)) = .ofInt length →
      ¬ Tabled name length) : create name key requested = .error .invalidArgument := by
  cases hcreate : create name key requested with
  | ok descriptor =>
      obtain ⟨length, hlength, htabled⟩ := exists_create_iff_tabled.mp ⟨descriptor, hcreate⟩
      exact absurd htabled (h length hlength)
  | error fault => rw [settle_error (Fault.map_eq_error_iff.mp hcreate)]

/-- The lengths that stand in no row of the table: what is no number or not finite, the zero with
a sign, fractions, and integers that are too small or too large. -/
inductive Unlisted : Number → Prop where
  | nan : Unlisted .nan
  | infinity (negative : Bool) : Unlisted (.infinity negative)
  | negativeZero : Unlisted .negativeZero
  | fraction {value : Dyadic} (h : Number.isWhole value = false) : Unlisted (.finite value)
  | small {length : Int} (h : length < 64) : Unlisted (.ofInt length)
  | large {length : Int} (h : 512 < length) : Unlisted (.ofInt length)

theorem not_tabled_of_unlisted {number : Number} (h : Unlisted number) {length : Int}
    (hlength : number = .ofInt length) : ¬ Tabled name length := by
  intro htabled
  have hbounds := Algorithm.bounds_of_tabled htabled
  cases h with
  | nan | infinity | negativeZero => cases hlength
  | fraction hfraction =>
      rw [Number.finite.inj hlength, Number.isWhole_ofInt] at hfraction
      cases hfraction
  | small hsmall | large hlarge =>
      have hequal := Number.ofInt_injective hlength
      omega

end Descriptor

namespace Session

open Memory

theorem create_eq_hold {memory : Memory} {name : Text} {key : Window} {requested : Option Number}
    {length : Int} (hlength : requested.getD (.ofInt (8 * key.size)) = .ofInt length)
    (htabled : Tabled name length) :
    memory.create name key requested =
      (.ok (memory.hold name key (.ofInt (min length (8 * key.size)))).1,
        (memory.hold name key (.ofInt (min length (8 * key.size)))).2) := by
  have hadmitted := Algorithm.admitted?_eq_some_iff_tabled.mpr ⟨hlength, htabled⟩
  rw [Memory.create, Descriptor.settle, hadmitted]

theorem step_create_eq_trust {session : Session} {label : String} {window : Window}
    (hbound : session.buffers.get? label = some window) (target : String) {name : Text}
    {requested : Option Number} {length : Int}
    (hlength : requested.getD (.ofInt (8 * window.size)) = .ofInt length)
    (htabled : Tabled name length) :
    session.step (.create target name label requested) =
      session.step (.trust target name label (.ofInt (min length (8 * window.size)))) := by
  rw [step, step, withBuffer, withBuffer, hbound]
  simp only [create_eq_hold hlength htabled]

end Session

namespace Descriptor

/-- A descriptor is created just when the length asked for, or else the bits of the key, stands in
the row of the name; the key has no part in it where a length is given. What is created has that
name and key and the length limited to the bits of the key, and to a session it is one of trusted
fields. In every other case creation is refused for one and the same reason. -/
theorem creation_follows_table (name : Text) (key : Bytes) (requested : Option Number) :
    (∀ descriptor, create name key requested = .ok descriptor ↔
      ∃ length, requested.getD (.ofInt (8 * key.length)) = .ofInt length ∧ Tabled name length ∧
        descriptor = { name, key, truncation := .ofInt (min length (8 * key.length)) }) ∧
    ((¬ ∃ length, requested.getD (.ofInt (8 * key.length)) = .ofInt length ∧ Tabled name length) →
      create name key requested = .error .invalidArgument ∧
        Fault.invalidArgument.code? = some "INVALID_ARGUMENT") ∧
    (∀ number key', requested = some number →
      ((∃ descriptor, create name key requested = .ok descriptor) ↔
        ∃ descriptor, create name key' requested = .ok descriptor)) ∧
    (∀ (session : Session) (label target : String) (window : Window) (length : Int),
      session.buffers.get? label = some window →
      requested.getD (.ofInt (8 * window.size)) = .ofInt length → Tabled name length →
      session.step (.create target name label requested) =
        session.step (.trust target name label (.ofInt (min length (8 * window.size))))) ∧
    (name ∉ Algorithm.all.map Algorithm.name →
      create name key requested = .error .invalidArgument) ∧
    (∀ number, Unlisted number → create name key (some number) = .error .invalidArgument) := by
  refine ⟨fun _ => create_eq_ok_iff_tabled, ?_, ?_, ?_, ?_, ?_⟩
  · intro hnone
    exact ⟨create_of_not_tabled fun length hlength htabled => hnone ⟨length, hlength, htabled⟩,
      rfl⟩
  · rintro number key' rfl
    rw [exists_create_iff_tabled, exists_create_iff_tabled, Option.getD_some, Option.getD_some]
  · intro session label target window length hbound hlength htabled
    exact Session.step_create_eq_trust hbound target hlength htabled
  · intro hname
    apply create_of_not_tabled
    intro length _ htabled
    obtain ⟨algorithm, rfl, -⟩ := Algorithm.tabled_iff.mp htabled
    exact hname (List.mem_map_of_mem (Algorithm.mem_all algorithm))
  · intro number hunlisted
    exact create_of_not_tabled fun length hlength => not_tabled_of_unlisted hunlisted hlength

theorem creation_follows_table_of_long :
    let key : Bytes := List.replicate 16 7
    let session := (Session.start.run [.load "key" key]).1
    Tabled Algorithm.aesCbc.name 256 ∧ Unlisted (.ofInt 1024) ∧
      create Algorithm.aesCbc.name key (some (.ofInt 256)) =
        .ok { name := Algorithm.aesCbc.name, key, truncation := .ofInt 128 } ∧
      session.step (.create "cipher" Algorithm.aesCbc.name "key" (some (.ofInt 256))) =
        session.step (.trust "cipher" Algorithm.aesCbc.name "key" (.ofInt 128)) ∧
      create Algorithm.aesCbc.name key (some (.ofInt 1024)) = .error .invalidArgument ∧
      create Algorithm.aesCbc.name key (some .negativeZero) = .error .invalidArgument := by
  intro key session
  have htabled : Tabled Algorithm.aesCbc.name 256 := .aesCbc (Or.inr (Or.inr rfl))
  have hlarge : Unlisted (.ofInt 1024) := .large (by decide)
  have htable := creation_follows_table Algorithm.aesCbc.name key (some (.ofInt 256))
  exact ⟨htabled, hlarge, (htable.1 _).mpr ⟨256, rfl, htabled, rfl⟩,
    htable.2.2.2.1 session "key" "cipher" ⟨0, 0, 16⟩ 256 rfl rfl htabled,
    htable.2.2.2.2.2 _ hlarge, htable.2.2.2.2.2 _ .negativeZero⟩

end Descriptor

end IpsecTransform
