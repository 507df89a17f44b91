import IpsecTransform.Descriptor.Diagnostics
import IpsecTransform.Proofs.DescriptorEquality
import IpsecTransform.Proofs.NumberTexts

/-!
What the diagnostic text of a descriptor tells. The name stands in it as it is and may spell out
fields of its own, but no key and no number is written with an equals sign. So the last two equals
signs of a text are those of its key and its length, whatever the name holds.
-/

namespace IpsecTransform.Text

def equalsSign : UInt16 := 0x3D

theorem eq_nil_of_cons_eq_append {between back back' : Text} (hback : equalsSign ∉ back)
    (h : equalsSign :: back = between ++ equalsSign :: back') : between = [] := by
  cases between with
  | nil => rfl
  | cons unit between =>
      refine absurd ?_ hback
      rw [(List.cons.inj h).2]
      exact List.mem_append_right between List.mem_cons_self

theorem split_at_last {front front' back back' : Text} (hback : equalsSign ∉ back)
    (hback' : equalsSign ∉ back')
    (h : front ++ equalsSign :: back = front' ++ equalsSign :: back') :
    front = front' ∧ back = back' := by
  rcases List.append_eq_append_iff.mp h with ⟨between, rfl, hrest⟩ | ⟨between, rfl, hrest⟩
  · obtain rfl := eq_nil_of_cons_eq_append hback hrest
    exact ⟨(List.append_nil front).symm, (List.cons.inj hrest).2⟩
  · obtain rfl := eq_nil_of_cons_eq_append hback' hrest
    exact ⟨List.append_nil front', (List.cons.inj hrest).2.symm⟩

theorem eq_equalsSign_of_mem_units {scalar : Char} (h : equalsSign ∈ units scalar) :
    scalar = '=' := by
  rcases units_cases scalar with ⟨unit, hunits, -, rfl⟩ | ⟨high, low, hunits, hhigh, hlow, rfl⟩
  · rw [hunits, List.mem_singleton] at h
    rw [← h]
    decide
  · rw [hunits] at h
    rcases List.mem_pair.mp h with rfl | rfl
    · exact absurd hhigh (by decide)
    · exact absurd hlow (by decide)

theorem equalsSign_not_mem_ofString {string : String} (h : '=' ∉ string.toList) :
    equalsSign ∉ ofString string := by
  intro hmem
  obtain ⟨scalar, hscalar, hunit⟩ := List.mem_flatMap.mp hmem
  exact h (eq_equalsSign_of_mem_units hunit ▸ hscalar)

theorem ofString_injective {left right : String} (h : ofString left = ofString right) :
    left = right := by
  have hscalars := congrArg scalars h
  rw [ofString, ofString, scalars_ofScalars, scalars_ofScalars] at hscalars
  exact String.toList_inj.mp hscalars

end IpsecTransform.Text

namespace IpsecTransform.Descriptor

open Text (equalsSign)

variable {left right descriptor : Descriptor} {reveal reveal' : Bool}

def shownKey (descriptor : Descriptor) (reveal : Bool) : Text :=
  if reveal then Hex.encode descriptor.key else hiddenKey

theorem equalsSign_not_mem_shownKey (descriptor : Descriptor) (reveal : Bool) :
    equalsSign ∉ descriptor.shownKey reveal := by
  cases reveal with
  | false =>
      have hhidden : equalsSign ∉ hiddenKey := by decide
      exact hhidden
  | true => exact fun h => absurd (Hex.isSome_value?_of_mem_encode h) (by decide)

theorem hiddenKey_ne_encode (key : Bytes) : hiddenKey ≠ Hex.encode key := by
  intro h
  -- a hidden key stands in brackets, which are no digits
  have hbracket : 0x3C ∈ hiddenKey := by decide
  rw [h] at hbracket
  exact absurd (Hex.isSome_value?_of_mem_encode hbracket) (by decide)

def nameText (descriptor : Descriptor) : Text :=
  Text.ofString "\x7bname=" ++ descriptor.name ++ Text.ofString ", key"

def lengthText (descriptor : Descriptor) : Text :=
  Text.ofString descriptor.truncation.text ++ Text.ofString "\x7d"

theorem describe_eq_append (descriptor : Descriptor) (reveal : Bool) :
    descriptor.describe reveal =
      (descriptor.nameText ++ equalsSign ::
        (descriptor.shownKey reveal ++ Text.ofString ", truncationLengthBits")) ++
      equalsSign :: descriptor.lengthText := by
  have hkey : Text.ofString ", key=" = Text.ofString ", key" ++ [equalsSign] := rfl
  have hlength : Text.ofString ", truncationLengthBits=" =
      Text.ofString ", truncationLengthBits" ++ [equalsSign] := rfl
  simp only [describe, nameText, shownKey, lengthText, hkey, hlength, List.append_assoc,
    List.cons_append, List.nil_append]

theorem nameText_eq_iff : left.nameText = right.nameText ↔ left.name = right.name := by
  rw [nameText, nameText, List.append_left_inj, List.append_right_inj]

theorem lengthText_eq_iff :
    left.lengthText = right.lengthText ↔ left.truncation.text = right.truncation.text := by
  rw [lengthText, lengthText, List.append_left_inj]
  exact ⟨Text.ofString_injective, congrArg Text.ofString⟩

theorem equalsSign_not_mem_lengthText (descriptor : Descriptor) :
    equalsSign ∉ descriptor.lengthText := by
  rw [lengthText, List.mem_append]
  rintro (htext | hend)
  · exact Text.equalsSign_not_mem_ofString (Number.equalsSign_not_mem_text _) htext
  · exact absurd hend (by decide)

/-- A text is read from its end: the length stands behind the last equals sign, the key behind the
one before, and all that is left is the name. This holds of any name and any number. -/
theorem describe_eq_iff :
    left.describe reveal = right.describe reveal' ↔
      left.name = right.name ∧ left.shownKey reveal = right.shownKey reveal' ∧
        left.truncation.text = right.truncation.text := by
  rw [describe_eq_append, describe_eq_append, ← nameText_eq_iff, ← lengthText_eq_iff]
  constructor
  · intro h
    obtain ⟨hfront, hlength⟩ := Text.split_at_last (equalsSign_not_mem_lengthText left)
      (equalsSign_not_mem_lengthText right) h
    have hplain (descriptor : Descriptor) (reveal : Bool) :
        equalsSign ∉ descriptor.shownKey reveal ++ Text.ofString ", truncationLengthBits" := by
      rw [List.mem_append]
      exact not_or.mpr ⟨equalsSign_not_mem_shownKey descriptor reveal, by decide⟩
    obtain ⟨hname, hkey⟩ := Text.split_at_last (hplain left reveal) (hplain right reveal') hfront
    exact ⟨hname, List.append_cancel_right hkey, hlength⟩
  · rintro ⟨hname, hkey, hlength⟩
    rw [hname, hkey, hlength]

theorem describe_true_eq_iff :
    left.describe true = right.describe true ↔
      left.name = right.name ∧ left.key = right.key ∧
        left.truncation.text = right.truncation.text := by
  have hkey : left.shownKey true = right.shownKey true ↔ left.key = right.key :=
    ⟨Hex.encode_injective, congrArg Hex.encode⟩
  rw [describe_eq_iff, hkey]

theorem text_eq_iff :
    left.text = right.text ↔
      left.name = right.name ∧ left.truncation.text = right.truncation.text := by
  have hkey : left.shownKey false = right.shownKey false := rfl
  rw [text, text, describe_eq_iff, and_iff_right hkey]

theorem inspection_eq_iff : left.inspection = right.inspection ↔ left.text = right.text := by
  rw [inspection, inspection, List.append_right_inj]

theorem describe_false_ne_describe_true (left right : Descriptor) :
    left.describe false ≠ right.describe true := by
  intro h
  exact hiddenKey_ne_encode right.key (describe_eq_iff.mp h).2.1

theorem inspection_ne_describe_true (left right : Descriptor) :
    left.inspection ≠ right.describe true := by
  intro h
  -- what is inspected says what it is before it opens the bracket
  have hinspection : left.inspection.head? = some 0x41 := rfl
  have hbracket : (right.describe true).head? = some 0x7B := rfl
  rw [h, hbracket] at hinspection
  exact absurd hinspection (by decide)

theorem isExact_truncation_of_decodable (h : Record.Decodable descriptor) :
    descriptor.truncation.IsExact := by
  obtain ⟨length, hlength, hleast, hlargest⟩ := h.truncation
  rw [hlength]
  exact Number.isExact_ofInt (by omega)

/-- Diagnostic texts tell descriptors apart, whatever their names spell out. With the key revealed
they agree just for equal descriptors; with the key hidden, also when inspected, just for equal
names and equal lengths; and a text that hides a key is never one that reveals a key. The lengths
are integers of at most `2 ^ 53 - 1` in magnitude, as they are in every descriptor that has been
created or read from a record. -/
theorem diagnostics_are_unambiguous :
    (∀ left right : Descriptor, left.truncation.IsExact → right.truncation.IsExact →
      (left.describe true = right.describe true ↔
        left.name = right.name ∧ left.key = right.key ∧
          left.truncation.equals right.truncation = true) ∧
      (left.describe true = right.describe true ↔ left.equals (some right) = true) ∧
      (left.text = right.text ↔
        left.name = right.name ∧ left.truncation.equals right.truncation = true) ∧
      (left.inspection = right.inspection ↔ left.text = right.text)) ∧
    (∀ left right : Descriptor,
      left.describe false ≠ right.describe true ∧ left.text ≠ right.describe true ∧
        left.inspection ≠ right.describe true) ∧
    (∀ name key requested descriptor, create name key requested = .ok descriptor →
      descriptor.truncation.IsExact) ∧
    (∀ record descriptor, Record.decode record = .ok descriptor →
      descriptor.truncation.IsExact) := by
  refine ⟨?_, ?_, ?_, ?_⟩
  · intro left right hleft hright
    have hlength := Number.text_eq_iff_of_isExact hleft hright
    refine ⟨?_, ?_, ?_, inspection_eq_iff⟩
    · rw [describe_true_eq_iff, hlength]
    · rw [describe_true_eq_iff, hlength, Record.equals_iff]
    · rw [text_eq_iff, hlength]
  · intro left right
    have hhidden := describe_false_ne_describe_true left right
    exact ⟨hhidden, hhidden, inspection_ne_describe_true left right⟩
  · intro name key requested descriptor h
    exact isExact_truncation_of_decodable (Record.decodable_of_valid (valid_of_create h).1)
  · intro record descriptor h
    exact isExact_truncation_of_decodable (Record.decodable_of_decode h)

theorem diagnostics_are_unambiguous_of_hostile_name :
    let hostile : Descriptor :=
      { name := Text.ofString "a, key=00, truncationLengthBits=1\x7d", key := []
        truncation := .ofInt 1 }
    let plain : Descriptor := { name := Text.ofString "a", key := [0], truncation := .ofInt 1 }
    hostile.describe true ≠ plain.describe true ∧ hostile.text ≠ plain.text ∧
      { plain with truncation := .negativeZero }.describe true =
        { plain with truncation := .ofInt 0 }.describe true := by
  intro hostile plain
  have hone : (Number.ofInt 1).IsExact := ⟨1, by decide, by decide⟩
  obtain ⟨hrevealed, -, hhidden, -⟩ := diagnostics_are_unambiguous.1 hostile plain hone hone
  have hname : hostile.name ≠ plain.name := by decide
  refine ⟨fun h => hname (hrevealed.mp h).1, fun h => hname (hhidden.mp h).1, ?_⟩
  have hzeros := diagnostics_are_unambiguous.1 { plain with truncation := .negativeZero }
    { plain with truncation := .ofInt 0 } ⟨0, by decide, by decide⟩ ⟨0, by decide, by decide⟩
  exact hzeros.2.1.mpr (by decide)

end IpsecTransform.Descriptor
