import Mathlib.Data.Bool.Basic
import IpsecTransform.Proofs.ByteStrings

namespace IpsecTransform.Bytes

/-- A bit of the byte; bits are counted from the lowest one. -/
def bitAt (byte : UInt8) (bit : Nat) : Bool := byte.toNat.testBit bit

def DifferAt (left right : Bytes) (position bit : Nat) : Prop :=
  ∃ byte byte', left[position]? = some byte ∧ right[position]? = some byte' ∧
    bitAt byte bit ≠ bitAt byte' bit

def gathered (left right : Bytes) (rounds : Nat) : UInt8 :=
  difference (left.take rounds) (right.take rounds)

variable {left right : Bytes} {rounds position bit : Nat}

theorem gathered_eq_foldl (left right : Bytes) (rounds : Nat) :
    gathered left right rounds = ((left.zip right).take rounds).foldl
      (fun gathered pair => gathered ||| (pair.1 ^^^ pair.2)) 0 := by
  rw [gathered, difference, List.zip_eq_zipWith, List.zip_eq_zipWith, List.take_zipWith]

theorem gathered_zero (left right : Bytes) : gathered left right 0 = 0 := rfl

theorem gathered_succ {byte byte' : UInt8} (hleft : left[rounds]? = some byte)
    (hright : right[rounds]? = some byte') :
    gathered left right (rounds + 1) = gathered left right rounds ||| (byte ^^^ byte') := by
  have hpair : (left.zip right)[rounds]? = some (byte, byte') :=
    List.getElem?_zip_eq_some.mpr ⟨hleft, hright⟩
  rw [gathered_eq_foldl, List.take_add_one, hpair, List.foldl_append, ← gathered_eq_foldl]
  rfl

theorem gathered_succ_of_none (h : (left.zip right)[rounds]? = none) :
    gathered left right (rounds + 1) = gathered left right rounds := by
  rw [gathered_eq_foldl, List.take_add_one, h, List.foldl_append, ← gathered_eq_foldl]
  rfl

theorem gathered_length (h : left.length = right.length) :
    gathered left right left.length = difference left right := by
  rw [gathered, List.take_length, h, List.take_length]

theorem bitAt_or_xor (gathered byte byte' : UInt8) (bit : Nat) :
    bitAt (gathered ||| (byte ^^^ byte')) bit = true ↔
      bitAt gathered bit = true ∨ bitAt byte bit ≠ bitAt byte' bit := by
  simp only [bitAt, UInt8.toNat_or, UInt8.toNat_xor, Nat.testBit_or, Nat.testBit_xor,
    Bool.or_eq_true, Bool.xor_iff_ne]

theorem bitAt_zero (bit : Nat) : bitAt 0 bit = false := by
  rw [bitAt, UInt8.toNat_zero, Nat.zero_testBit]

theorem differAt_iff {byte byte' : UInt8} (hleft : left[position]? = some byte)
    (hright : right[position]? = some byte') :
    DifferAt left right position bit ↔ bitAt byte bit ≠ bitAt byte' bit := by
  simp only [DifferAt, hleft, hright, Option.some.injEq, exists_and_left, exists_eq_left']

theorem not_differAt_of_none (h : (left.zip right)[position]? = none) :
    ¬ DifferAt left right position bit := by
  rintro ⟨byte, byte', hleft, hright, -⟩
  have hpair : (left.zip right)[position]? = some (byte, byte') :=
    List.getElem?_zip_eq_some.mpr ⟨hleft, hright⟩
  rw [h] at hpair
  cases hpair

theorem bitAt_gathered_iff :
    bitAt (gathered left right rounds) bit = true ↔
      ∃ position < rounds, DifferAt left right position bit := by
  induction rounds with
  | zero =>
      rw [gathered_zero, bitAt_zero]
      simp
  | succ rounds ih =>
      rw [Nat.exists_lt_succ_right, ← ih]
      -- a round adds the bits of one position, and nothing behind the end of one of the strings
      cases hpair : (left.zip right)[rounds]? with
      | none =>
          rw [gathered_succ_of_none hpair, or_iff_left (not_differAt_of_none hpair)]
      | some pair =>
          obtain ⟨hleft, hright⟩ := List.getElem?_zip_eq_some.mp hpair
          rw [gathered_succ hleft hright, bitAt_or_xor, differAt_iff hleft hright]

theorem bitAt_gathered_mono {rounds' : Nat} (hle : rounds ≤ rounds')
    (h : bitAt (gathered left right rounds) bit = true) :
    bitAt (gathered left right rounds') bit = true := by
  obtain ⟨position, hposition, hdiffer⟩ := bitAt_gathered_iff.mp h
  exact bitAt_gathered_iff.mpr ⟨position, Nat.lt_of_lt_of_le hposition hle, hdiffer⟩

theorem eq_iff_of_positions :
    left = right ↔ left.length = right.length ∧
      ∀ position < left.length, left[position]? = right[position]? := by
  constructor
  · rintro rfl
    exact ⟨rfl, fun _ _ => rfl⟩
  · rintro ⟨hlength, hbytes⟩
    refine List.ext_getElem?' fun position hposition => ?_
    rw [← hlength, Nat.max_self] at hposition
    exact hbytes position hposition

theorem same_eq_true_iff_gathered (h : left.length = right.length) :
    same left right = true ↔ gathered left right left.length = 0 := by
  rw [gathered_length h, difference_eq_zero_iff h, same_eq_true_iff]

/-- Two strings compare equal just when they have the same length and the same byte at every
position. The bytes of every position come into what is gathered, round by round; it has a bit
just when the strings differ in it at a position that has been looked at, so that a bit that is set
stays set, and strings of one length compare equal when nothing has been gathered at their end. -/
theorem comparison_decides_equality (left right : Bytes) :
    (same left right = true ↔ left.length = right.length ∧
      ∀ position < left.length, left[position]? = right[position]?) ∧
    (∀ rounds byte byte', left[rounds]? = some byte → right[rounds]? = some byte' →
      gathered left right (rounds + 1) = gathered left right rounds ||| (byte ^^^ byte')) ∧
    (∀ rounds bit, bitAt (gathered left right rounds) bit = true ↔
      ∃ position < rounds, DifferAt left right position bit) ∧
    (∀ rounds rounds' bit, rounds ≤ rounds' → bitAt (gathered left right rounds) bit = true →
      bitAt (gathered left right rounds') bit = true) ∧
    (left.length = right.length →
      (same left right = true ↔ gathered left right left.length = 0)) := by
  refine ⟨same_eq_true_iff.trans eq_iff_of_positions, ?_, ?_, ?_, same_eq_true_iff_gathered⟩
  · intro rounds byte byte' hleft hright
    exact gathered_succ hleft hright
  · intro rounds bit
    exact bitAt_gathered_iff
  · intro rounds rounds' bit hle hset
    exact bitAt_gathered_mono hle hset

theorem comparison_decides_equality_of_two_differences :
    let left : Bytes := [0x0F, 0x55, 0xAA]
    let right : Bytes := [0x0F, 0x54, 0xAB]
    same left right = false ∧
      gathered left right 3 = gathered left right 2 ||| (0xAA ^^^ 0xAB) ∧
      bitAt (gathered left right 2) 0 = true ∧ bitAt (gathered left right 3) 0 = true ∧
      gathered left right 3 ≠ 0 := by
  intro left right
  obtain ⟨hsame, hround, hbits, hstays, hend⟩ := comparison_decides_equality left right
  have hdiffer : DifferAt left right 1 0 := ⟨0x55, 0x54, rfl, rfl, by decide⟩
  have hset : bitAt (gathered left right 2) 0 = true := (hbits 2 0).mpr ⟨1, by decide, hdiffer⟩
  have hunequal : ¬ same left right = true := by
    intro h
    exact absurd ((hsame.mp h).2 1 (by decide)) (by decide)
  exact ⟨Bool.not_eq_true _ ▸ hunequal, hround 2 _ _ rfl rfl, hset,
    hstays 2 3 0 (by decide) hset, fun h => hunequal ((hend rfl).mpr h)⟩

end IpsecTransform.Bytes
