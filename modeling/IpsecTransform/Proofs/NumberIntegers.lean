import Mathlib.Data.Rat.Defs
import Mathlib.Tactic.FieldSimp
import IpsecTransform.Number
import IpsecTransform.Proofs.ByteStrings

namespace IpsecTransform.Number

theorem toRat_of_isWhole {value : Dyadic} (h : isWhole value = true) :
    value.toRat = (wholePart value : Rat) := by
  cases value with
  | zero => rfl
  | ofOdd odd scale hodd =>
      have hscale : scale ≤ 0 := of_decide_eq_true h
      rw [wholePart, if_pos hscale, Dyadic.toRat_ofOdd_eq_mul_two_pow]
      obtain ⟨shift, hshift⟩ : ∃ shift : Nat, -scale = shift := ⟨(-scale).toNat, by omega⟩
      rw [hshift, Int.toNat_natCast, Rat.zpow_natCast]
      change _ = ((odd * 2 ^ shift : Int) : Rat)
      push_cast
      rfl

theorem toRat_ofInt (value : Int) : (Dyadic.ofInt value).toRat = value :=
  Dyadic.toRat_intCast value

theorem isWhole_ofInt (value : Int) : isWhole (Dyadic.ofInt value) = true := by
  rw [Dyadic.ofInt, Dyadic.ofIntWithPrec]
  split
  · rfl
  · rw [isWhole]
    exact decide_eq_true (by omega)

theorem wholePart_ofInt (value : Int) : wholePart (Dyadic.ofInt value) = value := by
  have hrat := toRat_of_isWhole (isWhole_ofInt value)
  rw [toRat_ofInt] at hrat
  exact_mod_cast hrat.symm

theorem ofInt_wholePart {value : Dyadic} (h : isWhole value = true) :
    Dyadic.ofInt (wholePart value) = value := by
  rw [← Dyadic.toRat_inj, toRat_of_isWhole h, toRat_ofInt]

@[simp] theorem integer?_ofInt (value : Int) : (ofInt value).integer? = some value := by
  rw [ofInt, integer?, if_pos (isWhole_ofInt value), wholePart_ofInt]

theorem signedWord_finite (value : Dyadic) :
    (finite value).signedWord = (wholePart value).bmod (2 ^ 32) := rfl

@[simp] theorem signedWord_ofInt (value : Int) :
    (ofInt value).signedWord = value.bmod (2 ^ 32) := by
  rw [ofInt, signedWord_finite, wholePart_ofInt]

theorem eq_ofInt_of_integer? {number : Number} {value : Int} (h : number.integer? = some value)
    (hvalue : value ≠ 0) : number = ofInt value := by
  cases number with
  | nan => cases h
  | infinity negative => cases h
  | negativeZero => exact absurd (Option.some.inj h).symm hvalue
  | finite fraction =>
      rw [integer?] at h
      split at h
      · rename_i hwhole
        rw [ofInt, ← Option.some.inj h, ofInt_wholePart hwhole]
      · cases h

theorem ofInt_injective {left right : Int} (h : ofInt left = ofInt right) : left = right := by
  have hinteger := congrArg integer? h
  simpa using hinteger

theorem signedWord_of_integer? {number : Number} {value : Int}
    (h : number.integer? = some value) : number.signedWord = value.bmod (2 ^ 32) := by
  cases number with
  | nan => cases h
  | infinity negative => cases h
  | negativeZero =>
      rw [← Option.some.inj h]
      rfl
  | finite fraction =>
      rw [integer?] at h
      split at h
      · rw [signedWord_finite, Option.some.inj h]
      · cases h

theorem le_signedWord (number : Number) : -2 ^ 31 ≤ number.signedWord := by
  cases number with
  | finite value => exact Int.le_bmod (by decide)
  | nan | negativeZero | infinity => exact Int.negSucc_le_zero _

theorem signedWord_lt (number : Number) : number.signedWord < 2 ^ 31 := by
  cases number with
  | finite value => exact Int.bmod_lt (by decide)
  | nan | negativeZero | infinity => exact Int.pow_pos (by decide)

theorem integer?_eq_signedWord_iff {number : Number} :
    number.integer? = some number.signedWord ↔
      ∃ value, number.integer? = some value ∧ -2 ^ 31 ≤ value ∧ value < 2 ^ 31 := by
  constructor
  · intro h
    exact ⟨number.signedWord, h, le_signedWord number, signedWord_lt number⟩
  · rintro ⟨value, hvalue, hrange⟩
    rw [signedWord_of_integer? hvalue, BigEndian.bmod_eq_self_iff.mpr hrange, hvalue]

theorem equals_iff {left right : Number} :
    left.equals right = true ↔ left ≠ nan ∧ left.unsignedZero = right.unsignedZero := by
  rw [equals, Bool.and_eq_true, bne_iff_ne, beq_iff_eq]

theorem signedWord_unsignedZero (number : Number) :
    number.unsignedZero.signedWord = number.signedWord := by
  cases number with
  | negativeZero => rfl
  | nan | infinity _ | finite _ => rfl

theorem signedWord_eq_of_equals {left right : Number} (h : left.equals right = true) :
    left.signedWord = right.signedWord := by
  obtain ⟨-, hzero⟩ := equals_iff.mp h
  rw [← signedWord_unsignedZero left, hzero, signedWord_unsignedZero]

theorem equals_ofInt_iff {number : Number} {value : Int} :
    (ofInt value).equals number = true ↔ number.integer? = some value := by
  have hvalue : (ofInt value).equals number = true ↔ ofInt value = number.unsignedZero := by
    rw [equals_iff]
    exact and_iff_right Number.noConfusion
  rw [hvalue]
  cases number with
  | nan => exact iff_of_false Number.noConfusion (by simp [integer?])
  | infinity negative => exact iff_of_false Number.noConfusion (by simp [integer?])
  | negativeZero =>
      constructor
      · intro h
        have hzero : value = 0 := ofInt_injective h
        rw [integer?, hzero]
      · intro h
        rw [← Option.some.inj h]
        rfl
  | finite fraction =>
      constructor
      · intro h
        change ofInt value = finite fraction at h
        rw [← h, integer?_ofInt]
      · intro h
        rw [integer?] at h
        split at h
        · rename_i hwhole
          rw [ofInt, ← Option.some.inj h, ofInt_wholePart hwhole]
          rfl
        · cases h

end IpsecTransform.Number
