import IpsecTransform.Proofs.HexDigits
import IpsecTransform.Proofs.RecordRelay

namespace IpsecTransform.Utf8

theorem encode_eq_iff_repaired {left right : Text} :
    encode left = encode right ↔ left.repaired = right.repaired := by
  constructor
  · intro h
    rw [← encode_repaired left, ← encode_repaired right] at h
    exact encode_injective_of_isWellFormed (Text.isWellFormed_repaired left)
      (Text.isWellFormed_repaired right) h
  · intro h
    rw [← encode_repaired left, h, encode_repaired]

end IpsecTransform.Utf8

namespace IpsecTransform.Record

theorem signedWord_injective {left right : Number}
    (h : BigEndian.encode left.signedWord = BigEndian.encode right.signedWord) :
    left.signedWord = right.signedWord := by
  have hsigned := congrArg BigEndian.signed h
  rwa [BigEndian.signed_encode_of_mem (Number.le_signedWord _) (Number.signedWord_lt _),
    BigEndian.signed_encode_of_mem (Number.le_signedWord _) (Number.signedWord_lt _)] at hsigned

/-- Fields that are put one after the other are told apart again. The announced length settles
where the name ends; the key ends where the last word begins, so its length may be any. -/
theorem fields_eq_of_encode_eq {left right : Descriptor}
    (hleft : (Utf8.encode left.name).length < 2 ^ 32)
    (hright : (Utf8.encode right.name).length < 2 ^ 32) (h : encode left = encode right) :
    Utf8.encode left.name = Utf8.encode right.name ∧ left.key = right.key ∧
      left.truncation.signedWord = right.truncation.signedWord := by
  rw [encode_eq_append, encode_eq_append] at h
  obtain ⟨hfront, hlast⟩ := List.append_inj' h rfl
  simp only [List.append_assoc] at hfront
  obtain ⟨hname, hfields⟩ := field_append_inj hleft hright hfront
  obtain ⟨-, hkey⟩ := List.append_inj hfields rfl
  exact ⟨hname, hkey, signedWord_injective hlast⟩

def Agree (left right : Descriptor) : Prop :=
  left.name.repaired = right.name.repaired ∧ left.key = right.key ∧
    left.truncation.signedWord = right.truncation.signedWord

theorem encode_eq_of_agree {left right : Descriptor} (h : Agree left right) :
    encode left = encode right := by
  obtain ⟨hname, hkey, htruncation⟩ := h
  rw [encode_eq_append, encode_eq_append, Utf8.encode_eq_iff_repaired.mpr hname, hkey, htruncation]

theorem encode_eq_iff_agree {left right : Descriptor}
    (hleft : (Utf8.encode left.name).length < 2 ^ 32)
    (hright : (Utf8.encode right.name).length < 2 ^ 32) :
    encode left = encode right ↔ Agree left right := by
  constructor
  · intro h
    obtain ⟨hname, hfields⟩ := fields_eq_of_encode_eq hleft hright h
    exact ⟨Utf8.encode_eq_iff_repaired.mp hname, hfields⟩
  · exact encode_eq_of_agree

theorem encodeHex_eq_iff {left right : Descriptor} :
    encodeHex left = encodeHex right ↔ encode left = encode right := by
  rw [encodeHex, encodeHex]
  constructor
  · exact Hex.encode_injective
  · exact congrArg Hex.encode

theorem equals_iff {left right : Descriptor} :
    left.equals (some right) = true ↔
      left.name = right.name ∧ left.key = right.key ∧
        left.truncation.equals right.truncation = true := by
  simp only [Descriptor.equals, Descriptor.equal, Bool.and_eq_true, beq_iff_eq,
    Bytes.same_eq_true_iff, and_assoc]

theorem agree_of_equals {left right : Descriptor} (h : left.equals (some right) = true) :
    Agree left right := by
  obtain ⟨hname, hkey, htruncation⟩ := equals_iff.mp h
  exact ⟨by rw [hname], hkey, Number.signedWord_eq_of_equals htruncation⟩

theorem equals_of_agree {left right : Descriptor} (hleft : Decodable left)
    (hright : Decodable right) (h : Agree left right) : left.equals (some right) = true := by
  obtain ⟨hname, hkey, htruncation⟩ := h
  rw [Text.repaired_of_isWellFormed hleft.isWellFormed,
    Text.repaired_of_isWellFormed hright.isWellFormed] at hname
  refine equals_iff.mpr ⟨hname, hkey, ?_⟩
  rw [← ofInt_signedWord_of_decodable hleft, ← ofInt_signedWord_of_decodable hright, htruncation,
    Number.equals_ofInt_iff, Number.integer?_ofInt]

theorem encode_eq_iff_of_create {name name' : Text} {key key' : Bytes}
    {requested requested' : Option Number} {left right : Descriptor}
    (hleft : Descriptor.create name key requested = .ok left)
    (hright : Descriptor.create name' key' requested' = .ok right) :
    encode left = encode right ↔ left.equals (some right) = true := by
  obtain ⟨hvalid, -⟩ := Descriptor.valid_of_create hleft
  obtain ⟨hvalid', -⟩ := Descriptor.valid_of_create hright
  rw [encode_eq_iff_agree (length_encode_name_of_valid hvalid)
    (length_encode_name_of_valid hvalid')]
  exact ⟨equals_of_agree (decodable_of_valid hvalid) (decodable_of_valid hvalid'), agree_of_equals⟩

/-- Records are equal, as bytes and as digits alike, exactly when the repaired names, the keys
and the signed words that the lengths wrap to are; only the name must be short enough to be announced.
So equal descriptors always have equal records, and created ones have equal records only if
they are equal. -/
theorem records_tell_apart :
    (∀ left right : Descriptor, (Utf8.encode left.name).length < 2 ^ 32 →
      (Utf8.encode right.name).length < 2 ^ 32 →
      (encode left = encode right ↔
        left.name.repaired = right.name.repaired ∧ left.key = right.key ∧
          left.truncation.signedWord = right.truncation.signedWord) ∧
      (encodeHex left = encodeHex right ↔
        left.name.repaired = right.name.repaired ∧ left.key = right.key ∧
          left.truncation.signedWord = right.truncation.signedWord)) ∧
    (∀ left right : Descriptor, left.equals (some right) = true →
      encode left = encode right ∧ encodeHex left = encodeHex right) ∧
    (∀ name key requested left name' key' requested' right,
      Descriptor.create name key requested = .ok left →
      Descriptor.create name' key' requested' = .ok right →
      (encode left = encode right ↔ left.equals (some right) = true) ∧
      (encodeHex left = encodeHex right ↔ left.equals (some right) = true)) ∧
    (∀ number : Number, number.Wraps number.signedWord) := by
  refine ⟨?_, ?_, ?_, Number.wraps_signedWord⟩
  · intro left right hleft hright
    have hiff := encode_eq_iff_agree hleft hright
    exact ⟨hiff, encodeHex_eq_iff.trans hiff⟩
  · intro left right hequals
    have hencode := encode_eq_of_agree (agree_of_equals hequals)
    exact ⟨hencode, encodeHex_eq_iff.mpr hencode⟩
  · intro name key requested left name' key' requested' right hleft hright
    have hiff := encode_eq_iff_of_create hleft hright
    exact ⟨hiff, encodeHex_eq_iff.trans hiff⟩

theorem records_tell_apart_of_replacement :
    encode { name := [0xD800], key := [7], truncation := .ofInt (2 ^ 32) } =
      encode { name := [0xFFFD], key := [7], truncation := .ofInt 0 } ∧
    encode { name := [0x41], key := [], truncation := .finite (.ofOdd (-3) 1 rfl) } =
      encode { name := [0x41], key := [], truncation := .ofInt (-1) } ∧
    encode { name := [0x41], key := [], truncation := .finite (.ofOdd (-3) 1 rfl) } ≠
      encode { name := [0x41], key := [], truncation := .ofInt (-2) } ∧
    encode { name := [0x41], key := [], truncation := .nan } =
      encode { name := [0x41], key := [], truncation := .infinity false } ∧
    encode { name := [0x41], key := [], truncation := .infinity true } =
      encode { name := [0x41], key := [], truncation := .ofInt 0 } ∧
    encode { name := [0x41], key := [], truncation := .negativeZero } =
      encode { name := [0x41], key := [], truncation := .ofInt 0 } ∧
    encode { name := Algorithm.hmacMd5.name, key := [7, 7], truncation := .ofInt 16 } ≠
      encode { name := Algorithm.hmacMd5.name, key := [7, 8], truncation := .ofInt 16 } := by
  have hiff : ∀ {left right : Number},
      encode { name := [0x41], key := [], truncation := left } =
          encode { name := [0x41], key := [], truncation := right } ↔
        left.signedWord = right.signedWord := by
    intro left right
    have hname : (Utf8.encode [0x41]).length < 2 ^ 32 := by decide
    rw [(records_tell_apart.1 _ _ hname hname).1]
    exact ⟨fun h => h.2.2, fun h => ⟨rfl, rfl, h⟩⟩
  have hadmits : Algorithm.hmacMd5.rule.truncation.admits 128 = true := by decide
  have hcreate := Descriptor.create_name [7, 7] hadmits
  have hcreate' := Descriptor.create_name [7, 8] hadmits
  refine ⟨?_, hiff.mpr (by decide), fun h => absurd (hiff.mp h) (by decide), hiff.mpr rfl,
    hiff.mpr rfl, ?_, ?_⟩
  · refine ((records_tell_apart.1 _ _ (by decide) (by decide)).1).mpr ⟨by decide, rfl, ?_⟩
    rw [Number.signedWord_ofInt, Number.signedWord_ofInt]
    decide
  · exact (records_tell_apart.2.1 _ _ (equals_iff.mpr ⟨rfl, rfl, by decide⟩)).1
  · intro h
    have hequals := (records_tell_apart.2.2.1 _ _ _ _ _ _ _ _ hcreate hcreate').1.mp h
    exact absurd (equals_iff.mp hequals).2.1 (by decide)

end IpsecTransform.Record
