import IpsecTransform.Proofs.Utf8Strictness

namespace IpsecTransform.Text

theorem scalars_mark_cons (rest : Text) :
    scalars (byteOrderMark :: rest) = single byteOrderMark :: scalars rest := by
  cases rest with
  | nil => rfl
  | cons second rest =>
      simp [scalars, not_isHigh_of_not_isSurrogate isSurrogate_byteOrderMark]

theorem eq_mark_cons_of_head? {text : Text} (h : text.head? = some byteOrderMark) :
    text = byteOrderMark :: text.withoutMark := by
  cases text with
  | nil => cases h
  | cons first rest =>
      have hfirst : first = byteOrderMark := Option.some.inj h
      rw [hfirst, withoutMark, if_pos rfl]

theorem units_eq (scalar : Char) :
    (∃ unit, units scalar = [unit] ∧ unit.toNat = scalar.toNat) ∨
      ∃ high low, units scalar = [high, low] ∧
        (0xD800 ≤ high.toNat ∧ high.toNat ≤ 0xDBFF) ∧ (0xDC00 ≤ low.toNat ∧ low.toNat ≤ 0xDFFF) ∧
        0x10000 + (high.toNat - 0xD800) * 0x400 + (low.toNat - 0xDC00) = scalar.toNat := by
  rcases units_cases scalar with ⟨unit, hunits, hplain, hscalar⟩ |
    ⟨high, low, hunits, hhigh, hlow, hscalar⟩
  · left
    exact ⟨unit, hunits, by rw [← hscalar, toNat_single hplain]⟩
  · right
    have hvalue := toNat_paired hhigh hlow
    rw [isHigh_iff] at hhigh
    rw [isLow_iff] at hlow
    refine ⟨high, low, hunits, ⟨hhigh.1, by omega⟩, ⟨hlow.1, by omega⟩, ?_⟩
    rw [← hscalar, hvalue]

end IpsecTransform.Text

namespace IpsecTransform.Utf8

/-- The units that one sequence of the table stands for: the payload of its bytes, six bits from
each byte behind the first, as one unit or, from four bytes, as the two units of a surrogate pair. -/
inductive SpellsUnits : Bytes → Text → Prop where
  | one {first : UInt8} {unit : UInt16} (hsequence : IsSequence [first])
      (hunit : unit.toNat = first.toNat) : SpellsUnits [first] [unit]
  | two {first second : UInt8} {unit : UInt16} (hsequence : IsSequence [first, second])
      (hunit : unit.toNat = (first.toNat - 0xC0) * 0x40 + (second.toNat - 0x80)) :
      SpellsUnits [first, second] [unit]
  | three {first second third : UInt8} {unit : UInt16}
      (hsequence : IsSequence [first, second, third])
      (hunit : unit.toNat =
        (first.toNat - 0xE0) * 0x1000 + (second.toNat - 0x80) * 0x40 + (third.toNat - 0x80)) :
      SpellsUnits [first, second, third] [unit]
  | four {first second third fourth : UInt8} {high low : UInt16}
      (hsequence : IsSequence [first, second, third, fourth])
      (hhigh : 0xD800 ≤ high.toNat ∧ high.toNat ≤ 0xDBFF)
      (hlow : 0xDC00 ≤ low.toNat ∧ low.toNat ≤ 0xDFFF)
      (hpair : 0x10000 + (high.toNat - 0xD800) * 0x400 + (low.toNat - 0xDC00) =
        (first.toNat - 0xF0) * 0x40000 + (second.toNat - 0x80) * 0x1000 +
          (third.toNat - 0x80) * 0x40 + (fourth.toNat - 0x80)) :
      SpellsUnits [first, second, third, fourth] [high, low]

/-- The text that the sequences of a byte string stand for, one after the other. -/
inductive Spells : Bytes → Text → Prop where
  | nil : Spells [] []
  | append {sequence rest : Bytes} {units text : Text} :
      SpellsUnits sequence units → Spells rest text → Spells (sequence ++ rest) (units ++ text)

theorem spellsUnits_encodeScalar (scalar : Char) :
    SpellsUnits (encodeScalar scalar) (Text.units scalar) := by
  have hsequence := isSequence_encodeScalar scalar
  rcases Text.units_eq scalar with ⟨unit, hunits, hunit⟩ | ⟨high, low, hunits, hhigh, hlow, hpair⟩
  · have hlt := unit.toNat_lt
    rw [hunits]
    rcases encodeScalar_spells scalar with
      ⟨first, hbytes, -, hvalue⟩ | ⟨first, second, hbytes, -, -, -, hvalue⟩ |
        ⟨first, second, third, hbytes, -, -, -, -, hvalue⟩ |
        ⟨first, second, third, fourth, hbytes, -, -, -, -, hleast, hvalue⟩
    · rw [hbytes] at hsequence ⊢
      exact .one hsequence (hunit.trans hvalue.symm)
    · rw [hbytes] at hsequence ⊢
      exact .two hsequence (hunit.trans hvalue.symm)
    · rw [hbytes] at hsequence ⊢
      exact .three hsequence (hunit.trans hvalue.symm)
    · omega
  · rw [hunits]
    rcases encodeScalar_spells scalar with
      ⟨first, -, hfirst, hvalue⟩ | ⟨first, second, -, hfirst, hsecond, -, hvalue⟩ |
        ⟨first, second, third, -, hfirst, hsecond, hthird, -, hvalue⟩ |
        ⟨first, second, third, fourth, hbytes, -, -, -, -, -, hvalue⟩
    · omega
    · omega
    · omega
    · rw [hbytes] at hsequence ⊢
      exact .four hsequence hhigh hlow (hpair.trans hvalue.symm)

theorem SpellsUnits.unique {sequence : Bytes} {units units' : Text}
    (h : SpellsUnits sequence units) (h' : SpellsUnits sequence units') : units = units' := by
  cases h with
  | one _ hunit =>
      cases h' with
      | one _ hunit' => rw [UInt16.toNat_inj.mp (hunit.trans hunit'.symm)]
  | two _ hunit =>
      cases h' with
      | two _ hunit' => rw [UInt16.toNat_inj.mp (hunit.trans hunit'.symm)]
  | three _ hunit =>
      cases h' with
      | three _ hunit' => rw [UInt16.toNat_inj.mp (hunit.trans hunit'.symm)]
  | @four _ _ _ _ high low _ hhigh hlow hpair =>
      cases h' with
      | @four _ _ _ _ high' low' _ hhigh' hlow' hpair' =>
          have heq : high = high' := UInt16.toNat_inj.mp (by omega)
          have heq' : low = low' := UInt16.toNat_inj.mp (by omega)
          rw [heq, heq']

theorem SpellsUnits.isSequence {sequence : Bytes} {units : Text} (h : SpellsUnits sequence units) :
    IsSequence sequence := by
  cases h with
  | one hsequence | two hsequence | three hsequence | four hsequence => exact hsequence

theorem exists_of_spellsUnits {sequence : Bytes} {units : Text} (h : SpellsUnits sequence units) :
    ∃ scalar, encodeScalar scalar = sequence ∧ Text.units scalar = units := by
  obtain ⟨scalar, rfl⟩ := exists_encodeScalar_of_isSequence h.isSequence
  exact ⟨scalar, rfl, (spellsUnits_encodeScalar scalar).unique h⟩

/-- A byte string spells the text of the scalar values that it is the written form of. -/
theorem spells_iff {bytes : Bytes} {text : Text} :
    Spells bytes text ↔
      ∃ scalars, encodeScalars scalars = bytes ∧ Text.ofScalars scalars = text := by
  constructor
  · intro h
    induction h with
    | nil => exact ⟨[], rfl, rfl⟩
    | append hunits _ ih =>
        obtain ⟨scalar, rfl, rfl⟩ := exists_of_spellsUnits hunits
        obtain ⟨scalars, rfl, rfl⟩ := ih
        exact ⟨scalar :: scalars, rfl, rfl⟩
  · rintro ⟨scalars, rfl, rfl⟩
    induction scalars with
    | nil => exact .nil
    | cons scalar scalars ih => exact .append (spellsUnits_encodeScalar scalar) ih

def markBytes : Bytes := [0xEF, 0xBB, 0xBF]

theorem encode_mark_cons (rest : Text) :
    encode (Text.byteOrderMark :: rest) = markBytes ++ encode rest := by
  rw [encode, Text.scalars_mark_cons, encodeScalars, List.flatMap_cons]
  rfl

theorem markBytes_prefix_encode_iff {text : Text} (h : text.isWellFormed = true) :
    markBytes <+: encode text ↔ text.head? = some Text.byteOrderMark := by
  constructor
  · rintro ⟨rest, hrest⟩
    have hread := decodeScalars?_encodeScalars text.scalars
    change decodeScalars? (encode text) = _ at hread
    rw [← hrest, show markBytes = encodeScalar (Text.single Text.byteOrderMark) from rfl,
      decodeScalars?_encodeScalar_append] at hread
    obtain ⟨values, -, hvalues⟩ := Option.map_eq_some_iff.mp hread
    rw [← Text.repaired_of_isWellFormed h, ← Text.ofScalars_scalars, ← hvalues]
    rfl
  · intro hhead
    rw [Text.eq_mark_cons_of_head? hhead, encode_mark_cons]
    exact List.prefix_append _ _

/-- The text that an encoded field holds. One byte order mark in front belongs to the encoding and
not to the text. -/
inductive Holds : Bytes → Text → Prop where
  | marked {rest : Bytes} {text : Text} (htext : Spells rest text) :
      Holds ([0xEF, 0xBB, 0xBF] ++ rest) text
  | plain {bytes : Bytes} {text : Text} (hplain : ¬ [0xEF, 0xBB, 0xBF] <+: bytes)
      (htext : Spells bytes text) : Holds bytes text

theorem spells_encode {text : Text} (h : text.isWellFormed = true) : Spells (encode text) text :=
  spells_iff.mpr ⟨text.scalars, rfl, by
    rw [Text.ofScalars_scalars, Text.repaired_of_isWellFormed h]⟩

theorem decode?_eq_some_iff_holds {bytes : Bytes} {text : Text} :
    decode? bytes = some text ↔ Holds bytes text := by
  rw [decode?_eq_some_iff]
  constructor
  · rintro ⟨scalars, rfl, rfl⟩
    have hwellFormed := Text.isWellFormed_ofScalars scalars
    rw [← encode_ofScalars]
    rcases Decidable.em ((Text.ofScalars scalars).head? = some Text.byteOrderMark) with
      hhead | hhead
    · rw [Text.eq_mark_cons_of_head? hhead, encode_mark_cons]
      exact .marked (spells_encode (Text.isWellFormed_withoutMark hwellFormed))
    · rw [Text.withoutMark_of_head?_ne hhead]
      refine .plain ?_ (spells_encode hwellFormed)
      exact fun hmark => hhead ((markBytes_prefix_encode_iff hwellFormed).mp hmark)
  · intro h
    cases h with
    | marked htext =>
        obtain ⟨scalars, rfl, rfl⟩ := spells_iff.mp htext
        exact ⟨Text.single Text.byteOrderMark :: scalars, rfl, rfl⟩
    | plain hplain htext =>
        obtain ⟨scalars, rfl, rfl⟩ := spells_iff.mp htext
        refine ⟨scalars, rfl, Text.withoutMark_of_head?_ne fun hhead => hplain ?_⟩
        rw [← encode_ofScalars]
        exact (markBytes_prefix_encode_iff (Text.isWellFormed_ofScalars scalars)).mpr hhead

theorem Holds.unique {bytes : Bytes} {text text' : Text} (h : Holds bytes text)
    (h' : Holds bytes text') : text = text' := by
  rw [← decode?_eq_some_iff_holds] at h h'
  rw [h, Option.some.injEq] at h'
  exact h'

end IpsecTransform.Utf8
