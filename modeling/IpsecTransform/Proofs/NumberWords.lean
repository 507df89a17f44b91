import Mathlib.Data.Rat.Floor
import IpsecTransform.Proofs.NumberIntegers

namespace IpsecTransform.Number

/-- The integer that is left of a number when the fraction is cut off. -/
def towardZero (number : Rat) : Int := if 0 ≤ number then ⌊number⌋ else ⌈number⌉

/-- The signed word that a number wraps to: the one that agrees modulo `2 ^ 32` with what is left
when the fraction is cut off, and zero for what is not finite. -/
inductive Wraps : Number → Int → Prop where
  | finite {value : Dyadic} {word : Int} (hlow : -2 ^ 31 ≤ word) (hlt : word < 2 ^ 31)
      (hresidue : word % 2 ^ 32 = towardZero value.toRat % 2 ^ 32) : Wraps (.finite value) word
  | negativeZero : Wraps .negativeZero 0
  | nan : Wraps .nan 0
  | infinity (negative : Bool) : Wraps (.infinity negative) 0

theorem towardZero_intCast (value : Int) : towardZero value = value := by
  rw [towardZero, Int.floor_intCast, Int.ceil_intCast, ite_self]

theorem towardZero_div (value : Int) (scale : Nat) :
    towardZero (value / (2 ^ scale : Nat)) = value.tdiv (2 ^ scale : Nat) := by
  have hpos : (0 : Rat) < (2 ^ scale : Nat) := by positivity
  rcases lt_or_ge value 0 with hneg | hnonneg
  · have hquotient : ¬ (0 : Rat) ≤ value / (2 ^ scale : Nat) :=
      not_le.mpr (div_neg_of_neg_of_pos (Int.cast_lt_zero.mpr hneg) hpos)
    rw [towardZero, if_neg hquotient, Rat.ceil_intCast_div_natCast,
      ← Int.tdiv_eq_ediv_of_nonneg (by omega), Int.neg_tdiv, neg_neg]
  · have hquotient : (0 : Rat) ≤ value / (2 ^ scale : Nat) :=
      div_nonneg (Int.cast_nonneg hnonneg) hpos.le
    rw [towardZero, if_pos hquotient, Rat.floor_intCast_div_natCast,
      Int.tdiv_eq_ediv_of_nonneg hnonneg]

theorem wholePart_eq_towardZero (value : Dyadic) : wholePart value = towardZero value.toRat := by
  by_cases hwhole : isWhole value = true
  · rw [toRat_of_isWhole hwhole, towardZero_intCast]
  · cases value with
    | zero => exact absurd rfl hwhole
    | ofOdd odd scale hodd =>
        have hscale : ¬ scale ≤ 0 := fun h => hwhole (decide_eq_true h)
        obtain ⟨shift, rfl⟩ : ∃ shift : Nat, scale = shift := ⟨scale.toNat, by omega⟩
        have hrat : (Dyadic.ofOdd odd shift hodd).toRat = odd / (2 ^ shift : Nat) := by
          rw [Dyadic.toRat_ofOdd_eq_mul_two_pow, zpow_neg, zpow_natCast, ← div_eq_mul_inv]
          push_cast
          rfl
        rw [wholePart, if_neg hscale, hrat, towardZero_div, Int.toNat_natCast]
        push_cast
        rfl

theorem wraps_signedWord (number : Number) : Wraps number number.signedWord := by
  cases number with
  | nan => exact .nan
  | infinity negative => exact .infinity negative
  | negativeZero => exact .negativeZero
  | finite value =>
      refine .finite (le_signedWord _) (signedWord_lt _) ?_
      rw [← wholePart_eq_towardZero]
      exact Int.bmod_emod

end IpsecTransform.Number
