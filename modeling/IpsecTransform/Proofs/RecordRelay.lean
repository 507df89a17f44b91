import IpsecTransform.Proofs.DescriptorCreation
import IpsecTransform.Proofs.NumberWords
import IpsecTransform.Proofs.RecordInverse

namespace IpsecTransform.Record

def hop (descriptor : Descriptor) : Except Fault Descriptor := decode (encode descriptor)

def relay : Nat → Descriptor → Except Fault Descriptor
  | 0, descriptor => .ok descriptor
  | count + 1, descriptor => (relay count descriptor).bind hop

/-- What arrives after one hop or more. -/
def relayed (count : Nat) (descriptor : Descriptor) : Descriptor :=
  { name := descriptor.name.repaired.drop (min count descriptor.name.leadingMarks)
    key := descriptor.key
    truncation := .ofInt descriptor.truncation.signedWord }

theorem hop_eq_relayed {descriptor : Descriptor} (h : Fits descriptor) :
    hop descriptor = .ok (relayed 1 descriptor) := by
  rw [hop, decode_encode h, relayed, Text.withoutMark_eq_drop, Text.leadingMarks_repaired]

theorem hop_relayed {descriptor : Descriptor} {count : Nat}
    (hdecodable : Decodable (relayed count descriptor)) (hfits : Fits (relayed count descriptor)) :
    hop (relayed count descriptor) = .ok (relayed (count + 1) descriptor) := by
  have hname : (relayed count descriptor).name.withoutMark =
      (relayed (count + 1) descriptor).name := by
    simp only [relayed]
    rw [← Text.leadingMarks_repaired, Text.withoutMark_drop_min]
  rw [hop, decode_encode hfits, Text.repaired_of_isWellFormed hdecodable.isWellFormed,
    ofInt_signedWord_of_decodable hdecodable, hname]
  rfl

theorem relay_succ_of_ok {descriptor before : Descriptor} {count : Nat}
    (h : relay count descriptor = .ok before) : relay (count + 1) descriptor = hop before := by
  rw [relay, h]
  rfl

theorem relay_eq_relayed {descriptor : Descriptor} (h : Fits descriptor) (count : Nat) :
    relay (count + 1) descriptor = .ok (relayed (count + 1) descriptor) := by
  induction count with
  | zero =>
      rw [relay_succ_of_ok rfl]
      exact hop_eq_relayed h
  | succ count ih =>
      -- what has arrived comes out of a record, so it can be written and read once more
      have hlast := ih
      rw [relay] at hlast
      obtain ⟨before, -, hhop⟩ := Fault.bind_eq_ok_iff.mp hlast
      rw [hop] at hhop
      rw [relay_succ_of_ok ih]
      exact hop_relayed (decodable_of_decode hhop) (fits_of_decode hhop)

theorem equals_hop_iff {descriptor back : Descriptor} (h : Fits descriptor)
    (hback : hop descriptor = .ok back) :
    back.equals (some descriptor) = true ↔
      descriptor.name.isWellFormed = true ∧
        descriptor.name.head? ≠ some Text.byteOrderMark ∧
        ∃ value, descriptor.truncation.integer? = some value ∧
          -2 ^ 31 ≤ value ∧ value < 2 ^ 31 := by
  rw [hop, decode_encode h, Except.ok.injEq] at hback
  subst hback
  simp only [Descriptor.equals, Descriptor.equal, Bool.and_eq_true, beq_iff_eq,
    Bytes.same_eq_true_iff, Number.equals_ofInt_iff, Text.withoutMark_repaired_eq_self_iff,
    Number.integer?_eq_signedWord_iff, and_true, and_assoc]

theorem decodable_of_valid {descriptor : Descriptor} (h : descriptor.Valid) :
    Decodable descriptor := by
  obtain ⟨algorithm, length, hname, hadmits, htruncation⟩ := h
  have hpositive := Algorithm.le_of_admits hadmits
  have hlargest := Algorithm.largest_le algorithm
  refine ⟨?_, _, htruncation, by omega, by omega⟩
  rw [hname]
  exact Algorithm.isWellFormed_name algorithm

theorem head?_name_ne_of_valid {descriptor : Descriptor} (h : descriptor.Valid) :
    descriptor.name.head? ≠ some Text.byteOrderMark := by
  obtain ⟨algorithm, -, hname, -⟩ := h
  rw [hname]
  exact Algorithm.head?_name_ne algorithm

theorem length_encode_name_of_valid {descriptor : Descriptor} (h : descriptor.Valid) :
    (Utf8.encode descriptor.name).length < 2 ^ 32 := by
  obtain ⟨algorithm, -, hname, -⟩ := h
  rw [hname]
  exact Nat.lt_of_le_of_lt (Algorithm.length_encode_name_le algorithm) (by decide)

theorem decode_encode_of_valid {descriptor : Descriptor} (h : descriptor.Valid)
    (hkey : descriptor.key.length < 2 ^ 32) : decode (encode descriptor) = .ok descriptor :=
  decode_encode_self (decodable_of_valid h) (head?_name_ne_of_valid h)
    ⟨length_encode_name_of_valid h, hkey⟩

theorem decodable_of_create {name : Text} {key : Bytes} {requested : Option Number}
    {descriptor : Descriptor} (h : Descriptor.create name key requested = .ok descriptor)
    (hkey : key.length < 2 ^ 32) :
    Decodable descriptor ∧ descriptor.name.head? ≠ some Text.byteOrderMark ∧ Fits descriptor := by
  obtain ⟨hvalid, rfl⟩ := Descriptor.valid_of_create h
  exact ⟨decodable_of_valid hvalid, head?_name_ne_of_valid hvalid,
    ⟨length_encode_name_of_valid hvalid, hkey⟩⟩

/-- A relay of any number of hops. None of them fails; the key arrives as it was, the
truncation length as the signed word that it wraps to, and the name repaired and with one mark
less for every hop. So a hop gives back an equal descriptor just when the name is well-formed and
begins with no mark and the length is an integer of a signed word, as creation guarantees. -/
theorem relay_roundtrip :
    (∀ descriptor, Fits descriptor → ∀ count, 1 ≤ count →
      relay count descriptor = .ok
        { name := descriptor.name.repaired.drop (min count descriptor.name.leadingMarks)
          key := descriptor.key
          truncation := .ofInt descriptor.truncation.signedWord }) ∧
    (∀ descriptor, Fits descriptor →
      ((∃ back, hop descriptor = .ok back ∧ back.equals (some descriptor) = true) ↔
        descriptor.name.isWellFormed = true ∧
          descriptor.name.head? ≠ some Text.byteOrderMark ∧
          ∃ value, descriptor.truncation.integer? = some value ∧
            -2 ^ 31 ≤ value ∧ value < 2 ^ 31)) ∧
    (∀ name key requested descriptor,
      Descriptor.create name key requested = .ok descriptor → key.length < 2 ^ 32 →
        ∃ back, hop descriptor = .ok back ∧ back.equals (some descriptor) = true) ∧
    (∀ number : Number, number.Wraps number.signedWord) := by
  have hequals : ∀ descriptor, Fits descriptor →
      ((∃ back, hop descriptor = .ok back ∧ back.equals (some descriptor) = true) ↔
        descriptor.name.isWellFormed = true ∧
          descriptor.name.head? ≠ some Text.byteOrderMark ∧
          ∃ value, descriptor.truncation.integer? = some value ∧
            -2 ^ 31 ≤ value ∧ value < 2 ^ 31) := by
    intro descriptor hfits
    constructor
    · rintro ⟨back, hback, hequal⟩
      exact (equals_hop_iff hfits hback).mp hequal
    · intro h
      exact ⟨_, hop_eq_relayed hfits, (equals_hop_iff hfits (hop_eq_relayed hfits)).mpr h⟩
  refine ⟨?_, hequals, ?_, Number.wraps_signedWord⟩
  · intro descriptor hfits count hcount
    obtain ⟨before, rfl⟩ : ∃ before, count = before + 1 := ⟨count - 1, by omega⟩
    exact relay_eq_relayed hfits before
  · intro name key requested descriptor hcreate hkey
    obtain ⟨hdecodable, hhead, hfits⟩ := decodable_of_create hcreate hkey
    obtain ⟨value, hvalue, hrange⟩ := hdecodable.truncation
    refine (hequals descriptor hfits).mpr ⟨hdecodable.isWellFormed, hhead, value, ?_, hrange⟩
    rw [hvalue, Number.integer?_ofInt]

theorem relay_roundtrip_of_marks :
    relay 3 { name := [0xFEFF, 0xFEFF, 0xD800, 0x41], key := [7], truncation := .ofInt (2 ^ 31) } =
      .ok { name := [0xFFFD, 0x41], key := [7], truncation := .ofInt (-2 ^ 31) } ∧
    relay 1 { name := [0x41], key := [7], truncation := .finite (.ofOdd (-3) 1 rfl) } =
      .ok { name := [0x41], key := [7], truncation := .ofInt (-1) } ∧
    relay 2 { name := [0x41], key := [7], truncation := .finite (.ofOdd (2 ^ 34 + 7) 1 rfl) } =
      .ok { name := [0x41], key := [7], truncation := .ofInt 3 } ∧
    relay 2 { name := [0x41], key := [7], truncation := .nan } =
      .ok { name := [0x41], key := [7], truncation := .ofInt 0 } ∧
    relay 1 { name := [0x41], key := [7], truncation := .infinity true } =
      .ok { name := [0x41], key := [7], truncation := .ofInt 0 } ∧
    ∃ back,
      hop { name := Algorithm.hmacMd5.name, key := [7, 7], truncation := .ofInt 16 } = .ok back ∧
        back.equals
          (some { name := Algorithm.hmacMd5.name, key := [7, 7], truncation := .ofInt 16 }) = true := by
  have hword : (Number.ofInt (2 ^ 31)).signedWord = -2 ^ 31 := by
    rw [Number.signedWord_ofInt]
    decide
  have hnegative : (Number.finite (.ofOdd (-3) 1 rfl)).signedWord = -1 := by decide
  have hlarge : (Number.finite (.ofOdd (2 ^ 34 + 7) 1 rfl)).signedWord = 3 := by decide
  have hcreate : Descriptor.create Algorithm.hmacMd5.name [7, 7] (some (.ofInt 128)) =
      .ok { name := Algorithm.hmacMd5.name, key := [7, 7], truncation := .ofInt 16 } := by
    rw [Descriptor.create_eq_ok_iff]
    refine ⟨128, Algorithm.admitted?_eq_some_iff.mpr ⟨.hmacMd5, rfl, ?_, by decide⟩, rfl⟩
    exact Number.integer?_ofInt 128
  refine ⟨?_, ?_, ?_, ?_, ?_, ?_⟩
  · rw [relay_roundtrip.1 _ ⟨by decide, by decide⟩ 3 (by decide), hword]
    rfl
  · rw [relay_roundtrip.1 _ ⟨by decide, by decide⟩ 1 (by decide), hnegative]
    rfl
  · rw [relay_roundtrip.1 _ ⟨by decide, by decide⟩ 2 (by decide), hlarge]
    rfl
  · exact relay_roundtrip.1 _ ⟨by decide, by decide⟩ 2 (by decide)
  · exact relay_roundtrip.1 _ ⟨by decide, by decide⟩ 1 (by decide)
  · exact relay_roundtrip.2.2.1 _ _ _ _ hcreate (by decide)

end IpsecTransform.Record
