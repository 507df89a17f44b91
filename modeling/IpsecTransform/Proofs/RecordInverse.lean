import IpsecTransform.Proofs.NumberIntegers
import IpsecTransform.Proofs.RecordGrammar

namespace IpsecTransform.Record

/-- The lengths of the fields can be announced in a record. -/
structure Fits (descriptor : Descriptor) : Prop where
  name_lt : (Utf8.encode descriptor.name).length < 2 ^ 32
  key_lt : descriptor.key.length < 2 ^ 32

/-- The descriptor with a byte order mark in front of its name. -/
def marked (descriptor : Descriptor) : Descriptor :=
  { descriptor with name := Text.byteOrderMark :: descriptor.name }

theorem fits_of_fits_marked {descriptor : Descriptor} (h : Fits (marked descriptor)) :
    Fits descriptor := by
  have hname := h.name_lt
  rw [marked, Utf8.encode_mark_cons, List.length_append] at hname
  exact ⟨by omega, h.key_lt⟩

theorem encode_eq_append (descriptor : Descriptor) :
    encode descriptor =
      BigEndian.encode (Utf8.encode descriptor.name).length ++ Utf8.encode descriptor.name ++
        BigEndian.encode descriptor.key.length ++ descriptor.key ++
        BigEndian.encode descriptor.truncation.signedWord := by
  rw [encode, Bytes.concat_eq_flatten]
  simp [parts]

theorem splits_encode {descriptor : Descriptor} (h : Fits descriptor) :
    Splits (encode descriptor) (Utf8.encode descriptor.name) descriptor.key
      (BigEndian.encode descriptor.truncation.signedWord) :=
  ⟨h.name_lt, h.key_lt, rfl, encode_eq_append descriptor⟩

/-- What comes back from a record that was written: the name repaired and less one byte
order mark, the key, and the truncation length as a signed word. -/
theorem decode_encode {descriptor : Descriptor} (h : Fits descriptor) :
    decode (encode descriptor) = .ok
      { name := descriptor.name.repaired.withoutMark
        key := descriptor.key
        truncation := .ofInt descriptor.truncation.signedWord } := by
  rw [decode_eq_ok_iff]
  refine ⟨_, _, splits_encode h, Utf8.decode?_encode descriptor.name, ?_⟩
  rw [BigEndian.signed_encode_of_mem (Number.le_signedWord _) (Number.signedWord_lt _)]

/-- The descriptors that can be read: a well-formed name and a signed word. -/
@[mk_iff] structure Decodable (descriptor : Descriptor) : Prop where
  isWellFormed : descriptor.name.isWellFormed = true
  truncation : ∃ value : Int, descriptor.truncation = .ofInt value ∧
    -2 ^ 31 ≤ value ∧ value < 2 ^ 31

theorem ofInt_signedWord_of_decodable {descriptor : Descriptor} (h : Decodable descriptor) :
    .ofInt descriptor.truncation.signedWord = descriptor.truncation := by
  obtain ⟨value, hvalue, hrange⟩ := h.truncation
  rw [hvalue, Number.signedWord_ofInt, BigEndian.bmod_eq_self_iff.mpr hrange]

theorem decodable_of_decode {record : Bytes} {descriptor : Descriptor}
    (h : decode record = .ok descriptor) : Decodable descriptor := by
  obtain ⟨name, last, -, hname, htruncation⟩ := decode_eq_ok_iff.mp h
  obtain ⟨scalars, -, htext⟩ := Utf8.decode?_eq_some_iff.mp hname
  constructor
  · rw [← htext]
    exact Text.isWellFormed_withoutMark (Text.isWellFormed_ofScalars scalars)
  · exact ⟨_, htruncation, Int.le_bmod (by decide), Int.bmod_lt (by decide)⟩

theorem eq_encode_of_splits {record name last : Bytes} {descriptor : Descriptor}
    (h : Splits record name descriptor.key last) (hname : Utf8.encode descriptor.name = name)
    (hlast : descriptor.truncation = .ofInt (BigEndian.signed last)) :
    record = encode descriptor := by
  have hword : BigEndian.encode descriptor.truncation.signedWord = last := by
    rw [hlast, Number.signedWord_ofInt, BigEndian.encode_eq_of_emod_eq Int.bmod_emod,
      BigEndian.encode_signed h.length_last]
  rw [encode_eq_append, hname, hword]
  exact h.eq_append

theorem eq_encode_or_of_decode {record : Bytes} {descriptor : Descriptor}
    (h : decode record = .ok descriptor) :
    (record = encode descriptor ∧ descriptor.name.head? ≠ some Text.byteOrderMark ∧
        Fits descriptor) ∨
      (record = encode (marked descriptor) ∧ Fits (marked descriptor)) := by
  obtain ⟨name, last, hsplits, hname, htruncation⟩ := decode_eq_ok_iff.mp h
  obtain ⟨scalars, rfl, htext⟩ := Utf8.decode?_eq_some_iff.mp hname
  rcases Decidable.em ((Text.ofScalars scalars).head? = some Text.byteOrderMark) with hhead | hhead
  · right
    have hspelled : Utf8.encode (marked descriptor).name = Utf8.encodeScalars scalars := by
      rw [marked, ← htext, ← Text.eq_mark_cons_of_head? hhead, Utf8.encode_ofScalars]
    have hfits : Fits (marked descriptor) := ⟨hspelled ▸ hsplits.name_lt, hsplits.key_lt⟩
    have hrecord : record = encode (marked descriptor) :=
      eq_encode_of_splits hsplits hspelled htruncation
    exact ⟨hrecord, hfits⟩
  · left
    rw [Text.withoutMark_of_head?_ne hhead] at htext
    have hspelled : Utf8.encode descriptor.name = Utf8.encodeScalars scalars := by
      rw [← htext, Utf8.encode_ofScalars]
    have hfits : Fits descriptor := ⟨hspelled ▸ hsplits.name_lt, hsplits.key_lt⟩
    exact ⟨eq_encode_of_splits hsplits hspelled htruncation, htext ▸ hhead, hfits⟩

theorem fits_of_decode {record : Bytes} {descriptor : Descriptor}
    (h : decode record = .ok descriptor) : Fits descriptor := by
  rcases eq_encode_or_of_decode h with ⟨-, -, hfits⟩ | ⟨-, hfits⟩
  · exact hfits
  · exact fits_of_fits_marked hfits

theorem decode_encode_self {descriptor : Descriptor} (h : Decodable descriptor)
    (hhead : descriptor.name.head? ≠ some Text.byteOrderMark) (hfits : Fits descriptor) :
    decode (encode descriptor) = .ok descriptor := by
  rw [decode_encode hfits, Text.repaired_of_isWellFormed h.isWellFormed,
    Text.withoutMark_of_head?_ne hhead, ofInt_signedWord_of_decodable h]

theorem decode_encode_marked {descriptor : Descriptor} (h : Decodable descriptor)
    (hfits : Fits (marked descriptor)) :
    decode (encode (marked descriptor)) = .ok descriptor := by
  rw [decode_encode hfits]
  simp only [marked, Text.repaired_mark_cons, Text.repaired_of_isWellFormed h.isWellFormed,
    Text.withoutMark, if_true, ofInt_signedWord_of_decodable h]

theorem decode_eq_ok_iff_encode {record : Bytes} {descriptor : Descriptor} :
    decode record = .ok descriptor ↔
      Decodable descriptor ∧
        ((record = encode descriptor ∧ descriptor.name.head? ≠ some Text.byteOrderMark ∧
            Fits descriptor) ∨
          (record = encode (marked descriptor) ∧ Fits (marked descriptor))) := by
  constructor
  · intro h
    exact ⟨decodable_of_decode h, eq_encode_or_of_decode h⟩
  · rintro ⟨hdecodable, ⟨rfl, hhead, hfits⟩ | ⟨rfl, hfits⟩⟩
    · exact decode_encode_self hdecodable hhead hfits
    · exact decode_encode_marked hdecodable hfits

theorem length_encode_marked (descriptor : Descriptor) :
    (encode (marked descriptor)).length = (encode descriptor).length + 3 := by
  rw [encode_eq_append, encode_eq_append]
  simp only [marked, Utf8.encode_mark_cons, Utf8.markBytes, List.length_append, List.length_cons,
    List.length_nil, BigEndian.length_encode]
  omega

theorem encode_ne_encode_marked (descriptor : Descriptor) :
    encode descriptor ≠ encode (marked descriptor) := by
  intro h
  have hlength := length_encode_marked descriptor
  rw [← h] at hlength
  omega

theorem drop_word_mark (value : Int) (rest : Bytes) :
    (BigEndian.encode value ++ (Utf8.markBytes ++ rest)).drop (4 + 3) = rest := rfl

theorem encode_of_decode {record name last : Bytes} {descriptor : Descriptor}
    (h : decode record = .ok descriptor) (hsplits : Splits record name descriptor.key last) :
    (¬ Utf8.markBytes <+: name → encode descriptor = record) ∧
      (Utf8.markBytes <+: name →
        encode descriptor = BigEndian.encode (name.length - 3 : Nat) ++ record.drop (4 + 3)) := by
  rcases eq_encode_or_of_decode h with ⟨rfl, hhead, hfits⟩ | ⟨rfl, hfits⟩
  · obtain ⟨rfl, -, -⟩ := splits_unique hsplits (splits_encode hfits)
    have hplain : ¬ Utf8.markBytes <+: Utf8.encode descriptor.name := by
      rwa [Utf8.markBytes_prefix_encode_iff (decodable_of_decode h).isWellFormed]
    exact ⟨fun _ => rfl, fun hmark => absurd hmark hplain⟩
  · obtain ⟨hname, -, -⟩ := splits_unique hsplits (splits_encode hfits)
    rw [marked, Utf8.encode_mark_cons] at hname
    subst hname
    refine ⟨fun hplain => absurd (List.prefix_append _ _) hplain, fun _ => ?_⟩
    have hsize : (Utf8.markBytes ++ Utf8.encode descriptor.name).length - 3 =
        (Utf8.encode descriptor.name).length := by
      simp [Utf8.markBytes]
    rw [hsize, encode_eq_append, encode_eq_append]
    simp only [marked, Utf8.encode_mark_cons, List.append_assoc, drop_word_mark]

theorem setOf_decode_eq {descriptor : Descriptor} (h : ∃ record, decode record = .ok descriptor) :
    (descriptor.name.head? = some Text.byteOrderMark →
        {record | decode record = .ok descriptor} = {encode (marked descriptor)}) ∧
      (descriptor.name.head? ≠ some Text.byteOrderMark → Fits (marked descriptor) →
        {record | decode record = .ok descriptor} =
          {encode descriptor, encode (marked descriptor)}) := by
  obtain ⟨record, hrecord⟩ := h
  have hdecodable := decodable_of_decode hrecord
  constructor
  · intro hhead
    have hfits : Fits (marked descriptor) := by
      rcases eq_encode_or_of_decode hrecord with ⟨-, hplain, -⟩ | ⟨-, hfits⟩
      · exact absurd hhead hplain
      · exact hfits
    ext other
    rw [Set.mem_ofPred_eq, decode_eq_ok_iff_encode, Set.mem_singleton_iff]
    constructor
    · rintro ⟨-, ⟨-, hplain, -⟩ | ⟨hother, -⟩⟩
      · exact absurd hhead hplain
      · exact hother
    · intro hother
      exact ⟨hdecodable, Or.inr ⟨hother, hfits⟩⟩
  · intro hhead hfits
    ext other
    rw [Set.mem_ofPred_eq, decode_eq_ok_iff_encode, Set.mem_insert_iff, Set.mem_singleton_iff]
    constructor
    · rintro ⟨-, ⟨hother, -, -⟩ | ⟨hother, -⟩⟩
      · exact Or.inl hother
      · exact Or.inr hother
    · rintro (hother | hother)
      · exact ⟨hdecodable, Or.inl ⟨hother, hhead, fits_of_fits_marked hfits⟩⟩
      · exact ⟨hdecodable, Or.inr ⟨hother, hfits⟩⟩

/-- Reading is the inverse relation of writing, up to one byte order mark. The descriptors
that are read are the decodable ones, each from the record written for it unless its name
begins with a mark, and from the one written with a mark more. So writing what was read
gives back the record without that mark, and a descriptor has two records or one. -/
theorem decode_inverts_encode :
    (∀ record descriptor, decode record = .ok descriptor ↔
      (descriptor.name.isWellFormed = true ∧
        ∃ value : Int, descriptor.truncation = .ofInt value ∧
          -2 ^ 31 ≤ value ∧ value < 2 ^ 31) ∧
      ((record = encode descriptor ∧ descriptor.name.head? ≠ some Text.byteOrderMark ∧
          Fits descriptor) ∨
        (record = encode (marked descriptor) ∧ Fits (marked descriptor)))) ∧
    (∀ record descriptor, decode record = .ok descriptor →
      ∃ name last, Splits record name descriptor.key last ∧
        (¬ Utf8.markBytes <+: name → encode descriptor = record) ∧
        (Utf8.markBytes <+: name →
          encode descriptor =
            BigEndian.encode (name.length - 3 : Nat) ++ record.drop (4 + 3))) ∧
    (∀ descriptor, (∃ record, decode record = .ok descriptor) →
      (descriptor.name.head? = some Text.byteOrderMark →
        {record | decode record = .ok descriptor}.encard = 1) ∧
      (descriptor.name.head? ≠ some Text.byteOrderMark → Fits (marked descriptor) →
        {record | decode record = .ok descriptor}.encard = 2)) := by
  refine ⟨?_, ?_, ?_⟩
  · intro record descriptor
    rw [decode_eq_ok_iff_encode, decodable_iff]
  · intro record descriptor h
    obtain ⟨name, last, hsplits, -⟩ := decode_eq_ok_iff.mp h
    exact ⟨name, last, hsplits, encode_of_decode h hsplits⟩
  · intro descriptor h
    obtain ⟨hone, htwo⟩ := setOf_decode_eq h
    constructor
    · intro hhead
      rw [hone hhead, Set.encard_singleton]
    · intro hhead hfits
      rw [htwo hhead hfits, Set.encard_pair (encode_ne_encode_marked descriptor)]

theorem decode_inverts_encode_of_mark :
    let descriptor : Descriptor := { name := [0x41], key := [7], truncation := .ofInt 128 }
    decode [0, 0, 0, 4, 0xEF, 0xBB, 0xBF, 0x41, 0, 0, 0, 1, 7, 0, 0, 0, 128] = .ok descriptor ∧
      {record | decode record = .ok descriptor}.encard = 2 := by
  intro descriptor
  have hfits : Fits (marked descriptor) := ⟨by decide, by decide⟩
  have hrecord : [0, 0, 0, 4, 0xEF, 0xBB, 0xBF, 0x41, 0, 0, 0, 1, 7, 0, 0, 0, 128] =
      encode (marked descriptor) := by
    have hword : (marked descriptor).truncation.signedWord = 128 := by
      change (Number.ofInt 128).signedWord = 128
      rw [Number.signedWord_ofInt]
      decide
    rw [encode_eq_append, hword]
    decide
  have hdecode := (decode_inverts_encode.1 _ descriptor).mpr
    ⟨⟨by decide, 128, rfl, by decide, by decide⟩, Or.inr ⟨hrecord, hfits⟩⟩
  exact ⟨hdecode, (decode_inverts_encode.2.2 descriptor ⟨_, hdecode⟩).2 (by decide) hfits⟩

end IpsecTransform.Record
