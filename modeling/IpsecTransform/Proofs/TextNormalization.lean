import Mathlib.Data.List.DropRight
import IpsecTransform.Text.Blank

/-!
Trimming and lowering of texts. Trimming takes the blanks at either end and nothing else, and
lowering leaves a blank what it is, so it does not matter which of the two is done first. Letters
beyond ASCII may be lowered in any way: no word of ASCII comes of them unless they turn into its
units.
-/

namespace IpsecTransform.Text

/-- White space and line ends, one by one. -/
def whiteSpace : Text :=
  [0x0009, 0x000A, 0x000B, 0x000C, 0x000D, 0x0020, 0x00A0, 0x1680, 0x2000, 0x2001, 0x2002, 0x2003,
    0x2004, 0x2005, 0x2006, 0x2007, 0x2008, 0x2009, 0x200A, 0x2028, 0x2029, 0x202F, 0x205F, 0x3000,
    0xFEFF]

theorem isBlank_iff {unit : UInt16} : isBlank unit = true ↔ unit ∈ whiteSpace := by
  simp only [isBlank, whiteSpace, Bool.or_eq_true, Bool.and_eq_true, decide_eq_true_eq, beq_iff_eq,
    List.mem_cons, List.not_mem_nil, or_false, UInt16.le_iff_toNat_le, ← UInt16.toNat_inj,
    UInt16.reduceToNat]
  omega

theorem trim_eq_rdropWhile (text : Text) : text.trim = text.trimStart.rdropWhile isBlank := rfl

theorem rdropWhile_append_blanks {core back : Text} (hback : ∀ unit ∈ back, isBlank unit = true) :
    (core ++ back).rdropWhile isBlank = core.rdropWhile isBlank := by
  rw [List.rdropWhile, List.reverse_append, List.dropWhile_append_of_pos, List.rdropWhile]
  intro unit hunit
  exact hback unit (List.mem_reverse.mp hunit)

theorem trim_append_append {front core back : Text}
    (hfront : ∀ unit ∈ front, isBlank unit = true) (hback : ∀ unit ∈ back, isBlank unit = true) :
    (front ++ core ++ back).trim = core.trim := by
  rw [trim_eq_rdropWhile, trim_eq_rdropWhile, trimStart, trimStart, List.append_assoc,
    List.dropWhile_append_of_pos hfront, List.dropWhile_append]
  split
  -- nothing but blanks in the middle: then the text is blank throughout
  · rename_i hempty
    rw [List.isEmpty_iff.mp hempty, List.dropWhile_eq_nil_iff.mpr hback]
  · exact rdropWhile_append_blanks hback

theorem exists_eq_append_trim (text : Text) :
    ∃ front back, text = front ++ text.trim ++ back ∧
      (∀ unit ∈ front, isBlank unit = true) ∧ ∀ unit ∈ back, isBlank unit = true := by
  refine ⟨text.takeWhile isBlank, text.trimStart.rtakeWhile isBlank, ?_, ?_, ?_⟩
  · rw [List.append_assoc, trim_eq_rdropWhile, List.rdropWhile_append_rtakeWhile, trimStart,
      List.takeWhile_append_dropWhile]
  · exact fun unit => List.mem_takeWhile_imp
  · exact fun unit => List.mem_rtakeWhile_imp

theorem toNat_lowerUnit (unit : UInt16) :
    (lowerUnit unit).toNat =
      if 0x41 ≤ unit.toNat ∧ unit.toNat ≤ 0x5A then unit.toNat + 0x20 else unit.toNat := by
  simp only [lowerUnit, Bool.and_eq_true, decide_eq_true_eq, UInt16.le_iff_toNat_le,
    UInt16.reduceToNat]
  split
  · simp only [UInt16.toNat_add, UInt16.reduceToNat]
    omega
  · rfl

theorem isBlank_lowerUnit (unit : UInt16) : isBlank (lowerUnit unit) = isBlank unit := by
  rw [Bool.eq_iff_iff]
  simp only [isBlank, Bool.or_eq_true, Bool.and_eq_true, decide_eq_true_eq, beq_iff_eq,
    UInt16.le_iff_toNat_le, ← UInt16.toNat_inj, toNat_lowerUnit, UInt16.reduceToNat]
  split
  · -- a capital letter, which is no blank, and neither is the small one
    omega
  · exact Iff.rfl

theorem dropWhile_lower (text : Text) :
    text.lower.dropWhile isBlank = lower (text.dropWhile isBlank) := by
  have hblank : isBlank ∘ lowerUnit = isBlank := funext isBlank_lowerUnit
  rw [lower, List.dropWhile_map, hblank, lower]

theorem trim_lower (text : Text) : text.lower.trim = text.trim.lower := by
  have hreverse (text : Text) : text.lower.reverse = lower text.reverse := List.map_reverse.symm
  rw [trim, trim, trimStart, trimStart, trimStart, trimStart, dropWhile_lower, hreverse,
    dropWhile_lower, hreverse]

/-- The text takes each of its units from one of the two words, at its own position. -/
inductive Blends : Text → Text → Text → Prop where
  | nil : Blends [] [] []
  | cons {letter capital unit : UInt16} {letters capitals text : Text}
      (hunit : unit = letter ∨ unit = capital) (hrest : Blends letters capitals text) :
      Blends (letter :: letters) (capital :: capitals) (unit :: text)

theorem blends_cons_iff {letter capital unit : UInt16} {word capitals text : Text} :
    Blends (letter :: word) (capital :: capitals) (unit :: text) ↔
      (unit = letter ∨ unit = capital) ∧ Blends word capitals text := by
  constructor
  · intro h
    cases h with
    | cons hunit hrest => exact ⟨hunit, hrest⟩
  · rintro ⟨hunit, hrest⟩
    exact .cons hunit hrest

/-- The letter is lowered from itself and from its capital, and from nothing else. -/
def IsCapital (letter capital : UInt16) : Prop :=
  ∀ unit, lowerUnit unit = letter ↔ unit = letter ∨ unit = capital

theorem isCapital_sub {letter : UInt16} (hleast : 0x61 ≤ letter.toNat)
    (hmost : letter.toNat ≤ 0x7A) : IsCapital letter (letter - 0x20) := by
  intro unit
  simp only [← UInt16.toNat_inj, toNat_lowerUnit, UInt16.toNat_sub, UInt16.reduceToNat]
  split <;> omega

theorem lower_eq_iff_blends {word capitals text : Text} (h : List.Forall₂ IsCapital word capitals) :
    text.lower = word ↔ Blends word capitals text := by
  induction h generalizing text with
  | nil =>
      constructor
      · intro hlower
        rw [List.map_eq_nil_iff.mp hlower]
        exact .nil
      · rintro ⟨⟩
        rfl
  | @cons letter capital word capitals hcapital _ ih =>
      cases text with
      | nil =>
          constructor
          · intro hlower
            cases hlower
          · intro hblends
            cases hblends
      | cons unit text =>
          rw [blends_cons_iff, ← hcapital unit, ← ih]
          exact List.cons_eq_cons

theorem lower_eq_true_iff {text : Text} :
    text.lower = ofString "true" ↔ Blends (ofString "true") (ofString "TRUE") text := by
  apply lower_eq_iff_blends
  exact .cons (isCapital_sub (by decide) (by decide))
    (.cons (isCapital_sub (by decide) (by decide))
      (.cons (isCapital_sub (by decide) (by decide))
        (.cons (isCapital_sub (by decide) (by decide)) .nil)))

theorem eq_of_lowerUnit_eq {unit other : UInt16} (hother : other.toNat < 0x41)
    (h : lowerUnit unit = other) : unit = other := by
  rw [← UInt16.toNat_inj, toNat_lowerUnit] at h
  rw [← UInt16.toNat_inj]
  split at h <;> omega

theorem lower_eq_one_iff {text : Text} : text.lower = ofString "1" ↔ text = ofString "1" := by
  constructor
  · intro hlower
    obtain ⟨unit, rfl, hunit⟩ := List.map_eq_singleton_iff.mp hlower
    rw [eq_of_lowerUnit_eq (by decide) hunit]
    rfl
  · rintro rfl
    rfl

/-- What lowering does to a text when it knows letters beyond ASCII as well: a unit of ASCII is
lowered as usual, and what any other character becomes is not nothing and holds no plain unit. A
character may take two units, and it may become several. -/
inductive Lowers (plain : Text) : Text → Text → Prop where
  | nil : Lowers plain [] []
  | ascii {unit : UInt16} {text lowered : Text} (hunit : unit.toNat < 0x80)
      (hrest : Lowers plain text lowered) : Lowers plain (unit :: text) (lowerUnit unit :: lowered)
  | other {unit first : UInt16} {units image text lowered : Text}
      (hunit : 0x80 ≤ unit.toNat) (hunits : ∀ unit ∈ units, 0x80 ≤ unit.toNat)
      (himage : ∀ unit ∈ first :: image, unit ∉ plain) (hrest : Lowers plain text lowered) :
      Lowers plain (unit :: units ++ text) (first :: image ++ lowered)

theorem lowerUnit_of_not_ascii {unit : UInt16} (h : 0x80 ≤ unit.toNat) :
    lowerUnit unit = unit := by
  rw [← UInt16.toNat_inj, toNat_lowerUnit]
  split <;> omega

variable {plain : Text} (hplain : ∀ unit ∈ plain, unit.toNat < 0x80)

include hplain

theorem lowers_lower (text : Text) : Lowers plain text text.lower := by
  induction text with
  | nil => exact .nil
  | cons unit text ih =>
      rcases Nat.lt_or_ge unit.toNat 0x80 with hascii | hother
      · exact .ascii hascii ih
      · have himage : ∀ image ∈ [unit], image ∉ plain := by
          intro image himage hmem
          have hlt := hplain image hmem
          rw [List.mem_singleton.mp himage] at hlt
          omega
        have hlower : lower (unit :: text) = unit :: lower text := by
          rw [lower, List.map_cons, lowerUnit_of_not_ascii hother, lower]
        rw [hlower]
        exact .other hother (List.forall_mem_nil _) himage ih

theorem eq_iff_of_lowers {text lowered word : Text} (h : Lowers plain text lowered)
    (hword : word ⊆ plain) : lowered = word ↔ text.lower = word := by
  induction h generalizing word with
  | nil => exact Iff.rfl
  | @ascii unit text lowered hunit _ ih =>
      cases word with
      | nil => exact iff_of_false (List.cons_ne_nil _ _) (List.cons_ne_nil _ _)
      | cons letter word =>
          have hlower : lower (unit :: text) = lowerUnit unit :: text.lower := rfl
          rw [hlower, List.cons_eq_cons, List.cons_eq_cons, ih (List.cons_subset.mp hword).2]
  | @other unit first units image text lowered hunit _ himage _ ih =>
      -- the word is at fault already in its first unit, on either side for a reason of its own
      refine iff_of_false ?_ ?_
      · rintro rfl
        exact himage first List.mem_cons_self (hword List.mem_cons_self)
      · rintro rfl
        have hlt := hplain _ (hword List.mem_cons_self)
        rw [lowerUnit_of_not_ascii hunit] at hlt
        omega

end IpsecTransform.Text
