import Mathlib.Tactic.SplitIfs
import IpsecTransform.Proofs.HexDigits
import IpsecTransform.Text.Blank

namespace IpsecTransform.Hex

/-- The digits in the order of their values, once in either case. -/
def digitRows : List Text := [Text.ofString "0123456789abcdef", Text.ofString "0123456789ABCDEF"]

/-- The unit is a digit of that value. -/
def IsDigit (unit : UInt16) (value : UInt8) : Prop :=
  ∃ row ∈ digitRows, row[value.toNat]? = some unit

instance (unit : UInt16) (value : UInt8) : Decidable (IsDigit unit value) :=
  inferInstanceAs (Decidable (∃ row ∈ digitRows, row[value.toNat]? = some unit))

theorem lt_of_isDigit {unit : UInt16} {value : UInt8} (h : IsDigit unit value) :
    value.toNat < 16 := by
  obtain ⟨row, hrow, hunit⟩ := h
  have hlength : ∀ row ∈ digitRows, row.length = 16 := by decide
  rw [← hlength row hrow]
  exact (List.getElem?_eq_some_iff.mp hunit).1

theorem of_isDigit {unit : UInt16} {value : UInt8} (h : IsDigit unit value) :
    value? unit = some value ∧ Text.lowerUnit unit = digit value := by
  -- the unit is not quantified over, since checking every unit would take too long
  have hdigits : ∀ number < 16, ∀ row ∈ digitRows,
      (row[number]?).map (fun unit => (value? unit, Text.lowerUnit unit)) =
        some (some (UInt8.ofNat number), digit (UInt8.ofNat number)) := by decide
  have hlt := lt_of_isDigit h
  obtain ⟨row, hrow, hunit⟩ := h
  have hvalue := hdigits value.toNat hlt row hrow
  rw [hunit, UInt8.ofNat_toNat, Option.map_some, Option.some.injEq, Prod.mk.injEq] at hvalue
  exact hvalue

theorem lt_of_value? {unit : UInt16} {value : UInt8} (h : value? unit = some value) :
    unit.toNat < 0x67 := by
  simp only [value?, Bool.and_eq_true, decide_eq_true_eq, UInt16.le_iff_toNat_le,
    UInt16.reduceToNat] at h
  split_ifs at h <;> omega

theorem value?_eq_some_iff {unit : UInt16} {value : UInt8} :
    value? unit = some value ↔ IsDigit unit value := by
  constructor
  · intro h
    have hdigits : ∀ number < 0x67, (value? (UInt16.ofNat number)).all
        fun value => IsDigit (UInt16.ofNat number) value := by decide
    have hunit := hdigits unit.toNat (lt_of_value? h)
    rw [UInt16.ofNat_toNat, h] at hunit
    exact of_decide_eq_true hunit
  · exact fun h => (of_isDigit h).1

/-- The digits spell the bytes, two digits a byte, the more significant one first. -/
inductive Spells : Text → Bytes → Prop where
  | nil : Spells [] []
  | cons {high low : UInt16} {upper lower : UInt8} {digits : Text} {bytes : Bytes}
      (hhigh : IsDigit high upper) (hlow : IsDigit low lower) (hrest : Spells digits bytes) :
      Spells (high :: low :: digits) ((16 * upper + lower) :: bytes)

/-- The text is the digits that spell the bytes, behind one mark or none. -/
structure Denotes (text digits : Text) (bytes : Bytes) : Prop where
  front : text = digits ∨ text = mark ++ digits
  spells : Spells digits bytes

theorem pairs_of_spells {digits : Text} {bytes : Bytes} (h : Spells digits bytes) :
    pairs digits = .ok bytes := by
  induction h with
  | nil => rfl
  | cons hhigh hlow _ ih =>
      simp only [pairs, value?_eq_some_iff.mpr hhigh, value?_eq_some_iff.mpr hlow, ih, Except.map]

theorem spells_of_pairs {digits : Text} {bytes : Bytes} (h : pairs digits = .ok bytes) :
    Spells digits bytes := by
  induction digits using pairs.induct generalizing bytes with
  | case1 =>
      rw [← Except.ok.inj h]
      exact .nil
  | case2 unit => cases h
  | case3 high low rest upper lower hlow hhigh ih =>
      simp only [pairs, hhigh, hlow] at h
      obtain ⟨bytes, hrest, rfl⟩ := Fault.map_eq_ok_iff.mp h
      exact .cons (value?_eq_some_iff.mp hhigh) (value?_eq_some_iff.mp hlow) (ih hrest)
  | case4 high low rest hnone =>
      rw [pairs] at h
      split at h
      · rename_i upper lower hhigh hlow
        exact absurd hlow (hnone upper lower hhigh)
      · cases h

theorem length_of_spells {digits : Text} {bytes : Bytes} (h : Spells digits bytes) :
    digits.length = 2 * bytes.length := by
  induction h with
  | nil => rfl
  | cons _ _ _ ih =>
      simp only [List.length_cons, ih]
      omega

theorem unmarked_of_spells {digits : Text} {bytes : Bytes} (h : Spells digits bytes) :
    unmarked digits = digits := by
  refine if_neg ?_
  intro hmark
  cases h with
  | nil => exact absurd hmark (by decide)
  | @cons high low upper lower digits bytes _ hlow _ =>
      -- the second unit of the mark is no digit, so digits are never taken for it
      have hunit : low = 0x78 := (List.cons.inj (List.cons.inj hmark).2).1
      rw [← value?_eq_some_iff, hunit] at hlow
      exact absurd hlow nofun

theorem unmarked_mark_append (digits : Text) : unmarked (mark ++ digits) = digits := if_pos rfl

theorem unmarked_of_denotes {text digits : Text} {bytes : Bytes} (h : Denotes text digits bytes) :
    unmarked text = digits := by
  rcases h.front with rfl | rfl
  · exact unmarked_of_spells h.spells
  · exact unmarked_mark_append digits

theorem eq_unmarked_or (text : Text) : text = unmarked text ∨ text = mark ++ unmarked text := by
  rw [unmarked]
  split
  · rename_i hmark
    right
    have htext := List.take_append_drop mark.length text
    rw [hmark] at htext
    exact htext.symm
  · exact Or.inl rfl

theorem decode_eq_ok_iff {text : Text} {bytes : Bytes} :
    decode text = .ok bytes ↔ ∃ digits, Denotes text digits bytes := by
  rw [decode]
  constructor
  · intro h
    split at h
    · exact ⟨unmarked text, eq_unmarked_or text, spells_of_pairs h⟩
    · cases h
  · rintro ⟨digits, hdenotes⟩
    have heven : digits.length % 2 = 0 := by
      rw [length_of_spells hdenotes.spells]
      omega
    rw [unmarked_of_denotes hdenotes, if_pos heven, pairs_of_spells hdenotes.spells]

theorem lower_of_spells {digits : Text} {bytes : Bytes} (h : Spells digits bytes) :
    digits.lower = encode bytes := by
  induction h with
  | nil => rfl
  | @cons high low upper lower digits bytes hhigh hlow _ ih =>
      have hupper := lt_of_isDigit hhigh
      have hlower := lt_of_isDigit hlow
      have hquotient : (16 * upper + lower) / 16 = upper := by
        rw [← UInt8.toNat_inj]
        simp only [UInt8.toNat_add, UInt8.toNat_mul, UInt8.toNat_div, UInt8.reduceToNat]
        omega
      have hremainder : (16 * upper + lower) % 16 = lower := by
        rw [← UInt8.toNat_inj]
        simp only [UInt8.toNat_add, UInt8.toNat_mul, UInt8.toNat_mod, UInt8.reduceToNat]
        omega
      rw [encode_cons, hquotient, hremainder, ← ih, ← (of_isDigit hhigh).2, ← (of_isDigit hlow).2]
      rfl

end IpsecTransform.Hex
