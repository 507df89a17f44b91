import Mathlib
import IpsecTransform.Text

namespace IpsecTransform.Text

theorem isHigh_iff {unit : UInt16} :
    isHigh unit = true ↔ 0xD800 ≤ unit.toNat ∧ unit.toNat < 0xDC00 := by
  simp [isHigh, UInt16.le_iff_toNat_le, UInt16.lt_iff_toNat_lt]

theorem isLow_iff {unit : UInt16} :
    isLow unit = true ↔ 0xDC00 ≤ unit.toNat ∧ unit.toNat < 0xE000 := by
  simp [isLow, UInt16.le_iff_toNat_le, UInt16.lt_iff_toNat_lt]

theorem isSurrogate_iff {unit : UInt16} :
    isSurrogate unit = true ↔ 0xD800 ≤ unit.toNat ∧ unit.toNat < 0xE000 := by
  rw [isSurrogate, Bool.or_eq_true, isHigh_iff, isLow_iff]
  omega

theorem toNat_single {unit : UInt16} (h : isSurrogate unit = false) :
    (single unit).toNat = unit.toNat := by
  have hrange : ¬ (0xD800 ≤ unit.toNat ∧ unit.toNat < 0xE000) := by
    rw [← isSurrogate_iff, h]
    exact Bool.false_ne_true
  have hlt := unit.toNat_lt
  have hvalid : unit.toNat.isValidChar := by
    unfold Nat.isValidChar
    omega
  simp [single, h, Char.toNat_ofNat, hvalid]

theorem toNat_paired {high low : UInt16} (hhigh : isHigh high = true)
    (hlow : isLow low = true) :
    (paired high low).toNat =
      0x10000 + (high.toNat - 0xD800) * 0x400 + (low.toNat - 0xDC00) := by
  rw [isHigh_iff] at hhigh
  rw [isLow_iff] at hlow
  rw [paired, Char.toNat_ofNat, if_pos]
  unfold Nat.isValidChar
  omega

theorem units_single (unit : UInt16) : units (single unit) = [repairedUnit unit] := by
  cases h : isSurrogate unit with
  | true =>
      simp only [single, repairedUnit, h, ite_true]
      decide
  | false =>
      have hlt : unit.toNat < 0x10000 := unit.toNat_lt
      simp [units, toNat_single h, repairedUnit, h, hlt]

theorem units_paired {high low : UInt16} (hhigh : isHigh high = true)
    (hlow : isLow low = true) : units (paired high low) = [high, low] := by
  have hvalue := toNat_paired hhigh hlow
  rw [isHigh_iff] at hhigh
  rw [isLow_iff] at hlow
  have hlarge : ¬ (paired high low).toNat < 0x10000 := by omega
  simp only [units, hlarge, ite_false, List.cons.injEq, and_true]
  rw [← UInt16.toNat_inj, ← UInt16.toNat_inj, UInt16.toNat_ofNat', UInt16.toNat_ofNat']
  omega

/-- Writing down the scalar values of a text repairs it. -/
theorem ofScalars_scalars (text : Text) : ofScalars text.scalars = text.repaired := by
  induction text using scalars.induct with
  | case1 => rfl
  | case2 unit => simp [ofScalars, scalars, repaired, units_single]
  | case3 high low rest hpair ih =>
      obtain ⟨hhigh, hlow⟩ := Bool.and_eq_true_iff.mp hpair
      rw [scalars, repaired, if_pos hpair, if_pos hpair, ← ih]
      simp [ofScalars, units_paired hhigh hlow]
  | case4 first second rest hpair ih =>
      rw [scalars, repaired, if_neg hpair, if_neg hpair, ← ih]
      simp [ofScalars, units_single]

theorem units_cases (scalar : Char) :
    (∃ unit, units scalar = [unit] ∧ isSurrogate unit = false ∧ single unit = scalar) ∨
      ∃ high low, units scalar = [high, low] ∧ isHigh high = true ∧ isLow low = true ∧
        paired high low = scalar := by
  have hvalid : scalar.toNat.isValidChar := scalar.valid
  unfold Nat.isValidChar at hvalid
  rcases Nat.lt_or_ge scalar.toNat 0x10000 with hsmall | hlarge
  · left
    have hnat : (UInt16.ofNat scalar.toNat).toNat = scalar.toNat :=
      UInt16.toNat_ofNat_of_lt' hsmall
    have hplain : isSurrogate (UInt16.ofNat scalar.toNat) = false := by
      rw [← Bool.not_eq_true, isSurrogate_iff, hnat]
      omega
    refine ⟨UInt16.ofNat scalar.toNat, ?_, hplain, ?_⟩
    · rw [units, if_pos hsmall]
    · rw [single, hplain, if_neg Bool.false_ne_true, hnat, Char.ofNat_toNat]
  · right
    let offset := scalar.toNat - 0x10000
    have hhigh : (UInt16.ofNat (0xD800 + offset / 0x400)).toNat = 0xD800 + offset / 0x400 :=
      UInt16.toNat_ofNat_of_lt' (by simp only [UInt16.size]; omega)
    have hlow : (UInt16.ofNat (0xDC00 + offset % 0x400)).toNat = 0xDC00 + offset % 0x400 :=
      UInt16.toNat_ofNat_of_lt' (by simp only [UInt16.size]; omega)
    refine ⟨UInt16.ofNat (0xD800 + offset / 0x400), UInt16.ofNat (0xDC00 + offset % 0x400),
      ?_, ?_, ?_, ?_⟩
    · rw [units, if_neg (by omega)]
    · rw [isHigh_iff, hhigh]
      omega
    · rw [isLow_iff, hlow]
      omega
    · rw [paired, hhigh, hlow]
      have hvalue : 0x10000 + (0xD800 + offset / 0x400 - 0xD800) * 0x400 +
          (0xDC00 + offset % 0x400 - 0xDC00) = scalar.toNat := by omega
      rw [hvalue, Char.ofNat_toNat]

theorem not_isHigh_of_not_isSurrogate {unit : UInt16} (h : isSurrogate unit = false) :
    isHigh unit = false := by
  rw [isSurrogate, Bool.or_eq_false_iff] at h
  exact h.1

theorem scalars_units_append (scalar : Char) (rest : Text) :
    scalars (units scalar ++ rest) = scalar :: scalars rest := by
  rcases units_cases scalar with ⟨unit, hunits, hplain, rfl⟩ | ⟨high, low, hunits, hhigh, hlow, rfl⟩
  · rw [hunits]
    cases rest with
    | nil => rfl
    | cons second rest =>
        simp [scalars, not_isHigh_of_not_isSurrogate hplain]
  · rw [hunits]
    simp [scalars, hhigh, hlow]

theorem scalars_ofScalars (values : List Char) : scalars (ofScalars values) = values := by
  induction values with
  | nil => rfl
  | cons value values ih =>
      rw [ofScalars, List.flatMap_cons, scalars_units_append]
      exact congrArg (value :: ·) ih

theorem isWellFormed_units_append (scalar : Char) (rest : Text) :
    isWellFormed (units scalar ++ rest) = isWellFormed rest := by
  rcases units_cases scalar with ⟨unit, hunits, hplain, -⟩ | ⟨high, low, hunits, hhigh, hlow, -⟩
  · rw [hunits]
    cases rest with
    | nil => simp [isWellFormed, hplain]
    | cons second rest =>
        simp [isWellFormed, not_isHigh_of_not_isSurrogate hplain, hplain]
  · rw [hunits]
    simp [isWellFormed, hhigh, hlow]

theorem isWellFormed_ofScalars (values : List Char) : isWellFormed (ofScalars values) = true := by
  induction values with
  | nil => rfl
  | cons value values ih =>
      rw [ofScalars, List.flatMap_cons, isWellFormed_units_append]
      exact ih

theorem isWellFormed_repaired (text : Text) : isWellFormed text.repaired = true := by
  rw [← ofScalars_scalars]
  exact isWellFormed_ofScalars _

theorem repaired_of_isWellFormed {text : Text} (h : isWellFormed text = true) :
    text.repaired = text := by
  induction text using isWellFormed.induct with
  | case1 => rfl
  | case2 unit =>
      have hplain : isSurrogate unit = false := by simpa [isWellFormed] using h
      simp [repaired, repairedUnit, hplain]
  | case3 high low rest hpair ih =>
      rw [isWellFormed, if_pos hpair] at h
      rw [repaired, if_pos hpair, ih h]
  | case4 first second rest hpair ih =>
      rw [isWellFormed, if_neg hpair, Bool.and_eq_true] at h
      rw [repaired, if_neg hpair, ih h.2]
      have hplain : isSurrogate first = false := by simpa using h.1
      simp [repairedUnit, hplain]

theorem repaired_eq_self_iff {text : Text} :
    text.repaired = text ↔ isWellFormed text = true := by
  constructor
  · intro h
    rw [← h]
    exact isWellFormed_repaired text
  · exact repaired_of_isWellFormed

theorem scalars_repaired (text : Text) : text.repaired.scalars = text.scalars := by
  rw [← ofScalars_scalars, scalars_ofScalars]

/-- The number of byte order marks in front of a text. -/
def leadingMarks (text : Text) : Nat := (text.takeWhile (· == byteOrderMark)).length

theorem leadingMarks_cons (unit : UInt16) (rest : Text) :
    leadingMarks (unit :: rest) = if unit = byteOrderMark then leadingMarks rest + 1 else 0 := by
  rw [leadingMarks, List.takeWhile_cons]
  split <;> simp_all [leadingMarks]

theorem withoutMark_of_head?_ne {text : Text} (h : text.head? ≠ some byteOrderMark) :
    text.withoutMark = text := by
  cases text with
  | nil => rfl
  | cons first rest =>
      rw [withoutMark, if_neg]
      simpa using h

theorem withoutMark_eq_drop (text : Text) :
    text.withoutMark = text.drop (min 1 text.leadingMarks) := by
  cases text with
  | nil => rfl
  | cons first rest =>
      rw [withoutMark, leadingMarks_cons]
      split
      · simp
      · simp

theorem leadingMarks_withoutMark (text : Text) :
    text.withoutMark.leadingMarks = text.leadingMarks - 1 := by
  cases text with
  | nil => rfl
  | cons first rest =>
      rw [withoutMark, leadingMarks_cons]
      split
      · simp
      · rename_i hfirst
        simp [leadingMarks_cons, hfirst]

theorem leadingMarks_drop (text : Text) (count : Nat) (h : count ≤ text.leadingMarks) :
    leadingMarks (text.drop count) = text.leadingMarks - count := by
  induction count generalizing text with
  | zero => simp
  | succ count ih =>
      cases text with
      | nil => simp [leadingMarks] at h
      | cons first rest =>
          rw [leadingMarks_cons] at h ⊢
          split
          · rename_i hfirst
            rw [if_pos hfirst] at h
            rw [List.drop_succ_cons, ih rest (by omega)]
            omega
          · rename_i hfirst
            rw [if_neg hfirst] at h
            omega

theorem withoutMark_drop_min (text : Text) (count : Nat) :
    withoutMark (text.drop (min count text.leadingMarks)) =
      text.drop (min (count + 1) text.leadingMarks) := by
  rw [withoutMark_eq_drop, leadingMarks_drop text _ (Nat.min_le_right ..), List.drop_drop]
  congr 1
  omega

theorem head?_eq_byteOrderMark_iff {text : Text} :
    text.head? = some byteOrderMark ↔ 0 < text.leadingMarks := by
  cases text with
  | nil => simp [leadingMarks]
  | cons first rest =>
      rw [leadingMarks_cons]
      split <;> simp_all

theorem isSurrogate_byteOrderMark : isSurrogate byteOrderMark = false := by decide

theorem isWellFormed_mark_cons (rest : Text) :
    isWellFormed (byteOrderMark :: rest) = isWellFormed rest := by
  cases rest with
  | nil => rfl
  | cons second rest =>
      simp [isWellFormed, isSurrogate_byteOrderMark,
        not_isHigh_of_not_isSurrogate isSurrogate_byteOrderMark]

theorem isWellFormed_withoutMark {text : Text} (h : isWellFormed text = true) :
    isWellFormed text.withoutMark = true := by
  cases text with
  | nil => rfl
  | cons first rest =>
      rw [withoutMark]
      split
      · rename_i hfirst
        rw [hfirst, isWellFormed_mark_cons] at h
        exact h
      · exact h

theorem repaired_mark_cons (rest : Text) :
    repaired (byteOrderMark :: rest) = byteOrderMark :: repaired rest := by
  cases rest with
  | nil => rfl
  | cons second rest =>
      simp [repaired, repairedUnit, isSurrogate_byteOrderMark,
        not_isHigh_of_not_isSurrogate isSurrogate_byteOrderMark]

theorem head?_repaired_eq_byteOrderMark_iff (text : Text) :
    text.repaired.head? = some byteOrderMark ↔ text.head? = some byteOrderMark := by
  have hunit : ∀ unit, repairedUnit unit = byteOrderMark ↔ unit = byteOrderMark := by
    intro unit
    rw [repairedUnit]
    split
    · rename_i hsurrogate
      constructor
      · intro h
        exact absurd h (by decide)
      · rintro rfl
        exact absurd hsurrogate (by decide)
    · rfl
  cases text using repaired.fun_cases with
  | case1 => rfl
  | case2 unit => simp [repaired, hunit]
  | case3 high low rest hpair => simp [repaired, hpair]
  | case4 first second rest hpair => simp [repaired, hpair, hunit]

theorem leadingMarks_repaired (text : Text) : text.repaired.leadingMarks = text.leadingMarks := by
  induction text with
  | nil => rfl
  | cons first rest ih =>
      rcases eq_or_ne first byteOrderMark with rfl | hfirst
      · rw [repaired_mark_cons, leadingMarks_cons, leadingMarks_cons, ih]
      · have hnone : ¬ 0 < leadingMarks (first :: rest) := by
          rw [leadingMarks_cons, if_neg hfirst]
          exact Nat.not_lt_zero 0
        have hrepaired : ¬ 0 < leadingMarks (repaired (first :: rest)) := by
          rw [← head?_eq_byteOrderMark_iff, head?_repaired_eq_byteOrderMark_iff,
            head?_eq_byteOrderMark_iff]
          exact hnone
        omega

theorem withoutMark_repaired_eq_self_iff {text : Text} :
    text.repaired.withoutMark = text ↔
      isWellFormed text = true ∧ text.head? ≠ some byteOrderMark := by
  constructor
  · intro h
    have hmarks : text.leadingMarks = 0 := by
      have hafter := leadingMarks_withoutMark text.repaired
      rw [h, leadingMarks_repaired] at hafter
      omega
    rw [withoutMark_eq_drop, leadingMarks_repaired, hmarks] at h
    rw [Ne, head?_eq_byteOrderMark_iff, hmarks]
    exact ⟨repaired_eq_self_iff.mp h, Nat.lt_irrefl 0⟩
  · rintro ⟨hwellFormed, hhead⟩
    rw [repaired_of_isWellFormed hwellFormed, withoutMark_of_head?_ne hhead]

end IpsecTransform.Text
