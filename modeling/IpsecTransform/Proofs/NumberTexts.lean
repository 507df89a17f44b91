import Mathlib.Tactic.SplitIfs
import IpsecTransform.Number.Shortest
import IpsecTransform.Proofs.NumberIntegers

namespace IpsecTransform.Number

variable {left right : Number}

theorem not_mem_toDigits {char : Char} (h : char.isDigit = false) (value : Nat) :
    char ∉ Nat.toDigits 10 value := by
  intro hmem
  rw [Nat.isDigit_of_mem_toDigits (by decide) (by decide) hmem] at h
  cases h

theorem equalsSign_not_mem_toDigits (value : Nat) : '=' ∉ Nat.toDigits 10 value :=
  not_mem_toDigits (by decide) value

theorem equalsSign_not_mem_significantDigits (coefficient : Nat) :
    '=' ∉ significantDigits coefficient := by
  intro h
  have hdropped := List.mem_reverse.mp h
  have hdigits := (List.dropWhile_sublist _).subset hdropped
  exact equalsSign_not_mem_toDigits coefficient (List.mem_reverse.mp hdigits)

theorem equalsSign_not_mem_layOut {digits : List Char} (h : '=' ∉ digits) (position : Int) :
    '=' ∉ layOut digits position := by
  -- zeros, a point, an exponent and its sign are all that is put beside parts of the digits
  have htake : ∀ count, '=' ∉ digits.take count := fun _ hmem => h (List.mem_of_mem_take hmem)
  have hdrop : ∀ count, '=' ∉ digits.drop count := fun _ hmem => h (List.mem_of_mem_drop hmem)
  have hexponent := equalsSign_not_mem_toDigits (position - 1).natAbs
  simp only [layOut]
  split_ifs <;> simp [-List.drop_one, h, htake, hdrop, hexponent]

theorem equalsSign_not_mem_withSign {text : List Char} (h : '=' ∉ text) (negative : Bool) :
    '=' ∉ withSign negative text := by
  cases negative with
  | false => exact h
  | true =>
      rw [withSign, if_pos rfl, List.mem_cons]
      rintro (hsign | htext)
      · exact absurd hsign (by decide)
      · exact h htext

theorem equalsSign_not_mem_text (number : Number) : '=' ∉ number.text.toList := by
  cases number with
  | nan => decide
  | negativeZero => decide
  | infinity negative =>
      rw [text, String.toList_ofList]
      exact equalsSign_not_mem_withSign (by decide) negative
  | finite value =>
      rw [text, String.toList_ofList, finiteText]
      split
      · exact equalsSign_not_mem_withSign (equalsSign_not_mem_toDigits _) _
      · exact equalsSign_not_mem_withSign
          (equalsSign_not_mem_layOut (equalsSign_not_mem_significantDigits _) _) _

theorem toDigits_injective {left right : Nat} (h : Nat.toDigits 10 left = Nat.toDigits 10 right) :
    left = right := by
  calc
    left = Nat.ofDigitChars 10 (Nat.toDigits 10 left) 0 := Nat.ofDigitChars_ten_toDigits.symm
    _ = Nat.ofDigitChars 10 (Nat.toDigits 10 right) 0 := by rw [h]
    _ = right := Nat.ofDigitChars_ten_toDigits

theorem cons_sign_ne_toDigits (digits : List Char) (value : Nat) :
    '-' :: digits ≠ Nat.toDigits 10 value := by
  intro h
  have hsign : '-' ∈ Nat.toDigits 10 value := h ▸ List.mem_cons_self
  exact not_mem_toDigits (by decide) value hsign

theorem integerText_of_neg {value : Int} (h : value < 0) :
    integerText value = '-' :: Nat.toDigits 10 value.natAbs := by
  rw [integerText, withSign, if_pos (decide_eq_true h)]

theorem integerText_of_nonneg {value : Int} (h : 0 ≤ value) :
    integerText value = Nat.toDigits 10 value.natAbs := by
  rw [integerText, withSign, if_neg (by simpa using h)]

theorem integerText_injective {left right : Int} (h : integerText left = integerText right) :
    left = right := by
  rcases lt_or_ge left 0 with hleft | hleft <;> rcases lt_or_ge right 0 with hright | hright
  · rw [integerText_of_neg hleft, integerText_of_neg hright, List.cons.injEq] at h
    have hmagnitude := toDigits_injective h.2
    omega
  · rw [integerText_of_neg hleft, integerText_of_nonneg hright] at h
    exact absurd h (cons_sign_ne_toDigits _ _)
  · rw [integerText_of_nonneg hleft, integerText_of_neg hright] at h
    exact absurd h.symm (cons_sign_ne_toDigits _ _)
  · rw [integerText_of_nonneg hleft, integerText_of_nonneg hright] at h
    have hmagnitude := toDigits_injective h
    omega

theorem text_of_integer? {number : Number} {value : Int} (h : number.integer? = some value)
    (hbound : value.natAbs < exactBound) : number.text = String.ofList (integerText value) := by
  cases number with
  | nan => cases h
  | infinity negative => cases h
  | negativeZero =>
      rw [← Option.some.inj h]
      decide
  | finite fraction =>
      rw [integer?] at h
      split at h
      · rename_i hwhole
        rw [← Option.some.inj h] at hbound ⊢
        rw [text, finiteText, if_pos ⟨hwhole, hbound⟩]
      · cases h

theorem unsignedZero_of_integer? {number : Number} {value : Int}
    (h : number.integer? = some value) : number.unsignedZero = ofInt value :=
  (equals_iff.mp (equals_ofInt_iff.mpr h)).2.symm

theorem equals_iff_of_integer? {value value' : Int} (hleft : left.integer? = some value)
    (hright : right.integer? = some value') : left.equals right = true ↔ value = value' := by
  have hnumber : left ≠ nan := by
    rintro rfl
    cases hleft
  rw [equals_iff, and_iff_right hnumber, unsignedZero_of_integer? hleft,
    unsignedZero_of_integer? hright]
  exact ⟨ofInt_injective, congrArg ofInt⟩

/-- The number is an integer of at most `2 ^ 53 - 1` in magnitude, so that it is written with all
its digits. -/
def IsExact (number : Number) : Prop :=
  ∃ value : Int, number.integer? = some value ∧ value.natAbs ≤ 2 ^ 53 - 1

theorem isExact_ofInt {value : Int} (h : value.natAbs ≤ 2 ^ 53 - 1) : (ofInt value).IsExact :=
  ⟨value, integer?_ofInt value, h⟩

theorem text_eq_iff_of_isExact (hleft : left.IsExact) (hright : right.IsExact) :
    left.text = right.text ↔ left.equals right = true := by
  obtain ⟨value, hvalue, hbound⟩ := hleft
  obtain ⟨value', hvalue', hbound'⟩ := hright
  rw [text_of_integer? hvalue (Nat.lt_of_le_pred (by decide) hbound),
    text_of_integer? hvalue' (Nat.lt_of_le_pred (by decide) hbound'),
    equals_iff_of_integer? hvalue hvalue']
  constructor
  · exact fun h => integerText_injective (String.ofList_injective h)
  · rintro rfl
    rfl

end IpsecTransform.Number
