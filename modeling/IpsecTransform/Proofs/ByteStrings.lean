import Mathlib.Algebra.Ring.Int.Defs
import Mathlib.Algebra.Ring.Nat
import Mathlib.Data.List.Forall2
import IpsecTransform.Bytes.BigEndian

namespace IpsecTransform.Bytes

theorem foldl_add_length (parts : List Bytes) (total : Nat) :
    parts.foldl (fun total part => total + part.length) total = total + parts.flatten.length := by
  induction parts generalizing total with
  | nil => rfl
  | cons part parts ih =>
      rw [List.foldl_cons, ih, List.flatten_cons, List.length_append]
      omega

theorem totalLength_eq (parts : List Bytes) : totalLength parts = parts.flatten.length := by
  rw [totalLength, foldl_add_length, Nat.zero_add]

theorem put?_eq (written room rest part : Bytes) (h : room.length = part.length) :
    Cursor.put? { block := written ++ (room ++ rest), position := written.length } part =
      some { block := (written ++ part) ++ rest, position := (written ++ part).length } := by
  have hfits : written.length + part.length ≤ (written ++ (room ++ rest)).length := by
    simp only [List.length_append]
    omega
  have hrest : (written ++ (room ++ rest)).drop (written.length + part.length) = rest := by
    rw [← List.append_assoc, ← h, ← List.length_append]
    exact List.drop_left
  rw [Cursor.put?, overwrite?, if_pos hfits, hrest, List.take_left, List.length_append]
  rfl

/-- The invariant of the copying: the block starts with what has been written, the position
stands behind it, and the room after it takes the remaining parts; what lies past that room is
left alone. -/
theorem putAll?_eq (parts : List Bytes) (written room rest : Bytes)
    (h : room.length = parts.flatten.length) :
    Cursor.putAll? { block := written ++ (room ++ rest), position := written.length } parts =
      some { block := (written ++ parts.flatten) ++ rest
             position := (written ++ parts.flatten).length } := by
  induction parts generalizing written room with
  | nil =>
      have hroom : room = [] := List.eq_nil_of_length_eq_zero h
      simp [Cursor.putAll?, hroom]
  | cons part parts ih =>
      rw [List.flatten_cons, List.length_append] at h
      obtain ⟨own, next, rfl, hown⟩ : ∃ own next, room = own ++ next ∧ own.length = part.length :=
        ⟨room.take part.length, room.drop part.length, (List.take_append_drop ..).symm,
          List.length_take_of_le (by omega)⟩
      have hnext : next.length = parts.flatten.length := by
        rw [List.length_append] at h
        omega
      have htail := ih (written ++ part) next hnext
      rw [Cursor.putAll?] at htail ⊢
      rw [List.foldlM_cons, List.append_assoc own, put?_eq written own (next ++ rest) part hown]
      simpa only [List.append_assoc, Option.bind_eq_bind, Option.bind_some, List.flatten_cons]
        using htail

theorem concat_eq_flatten (parts : List Bytes) : concat parts = parts.flatten := by
  have hparts := putAll?_eq parts [] (List.replicate (totalLength parts) 0) []
    (by rw [List.length_replicate, totalLength_eq])
  rw [List.nil_append, List.append_nil, List.append_nil, List.nil_append] at hparts
  rw [concat, Cursor.blank]
  change (Cursor.putAll? ⟨_, ([] : Bytes).length⟩ parts).elim [] Cursor.block = _
  rw [hparts]
  rfl

theorem overwrite?_all {block part : Bytes} (h : part.length = block.length) :
    overwrite? block 0 part = some part := by
  rw [overwrite?, if_pos (by omega), Nat.zero_add, h, List.take_zero, List.drop_length,
    List.nil_append, List.append_nil]

theorem overwrite?_append (front content back part : Bytes) (offset : Nat)
    (h : offset + part.length ≤ content.length) :
    overwrite? (front ++ (content ++ back)) (front.length + offset) part =
      some (front ++ ((content.take offset ++ part ++ content.drop (offset + part.length)) ++ back)) := by
  have hfits : front.length + offset + part.length ≤ (front ++ (content ++ back)).length := by
    simp only [List.length_append]
    omega
  have htake : (front ++ (content ++ back)).take (front.length + offset) =
      front ++ content.take offset := by
    rw [List.take_length_add_append, List.take_append_of_le_length (by omega)]
  have hdrop : (front ++ (content ++ back)).drop (front.length + offset + part.length) =
      content.drop (offset + part.length) ++ back := by
    rw [Nat.add_assoc, List.drop_length_add_append, List.drop_append_of_le_length h]
  rw [overwrite?, if_pos hfits, htake, hdrop]
  simp only [List.append_assoc]

/-- A bit once gathered stays gathered, so nothing is gathered only where no pair differs. -/
theorem foldl_gather_eq_zero_iff (pairs : List (UInt8 × UInt8)) (gathered : UInt8) :
    pairs.foldl (fun gathered pair => gathered ||| (pair.1 ^^^ pair.2)) gathered = 0 ↔
      gathered = 0 ∧ ∀ pair ∈ pairs, pair.1 = pair.2 := by
  induction pairs generalizing gathered with
  | nil => simp
  | cons pair pairs ih =>
      rw [List.foldl_cons, ih, UInt8.or_eq_zero_iff, UInt8.xor_eq_zero_iff, List.forall_mem_cons,
        and_assoc]

theorem difference_eq_zero_iff {left right : Bytes} (h : left.length = right.length) :
    difference left right = 0 ↔ left = right := by
  rw [difference, foldl_gather_eq_zero_iff, ← List.forall₂_eq_eq_eq, List.forall₂_iff_zip]
  simp [h]

theorem same_eq_true_iff {left right : Bytes} : same left right = true ↔ left = right := by
  rw [same, Bool.and_eq_true, beq_iff_eq, beq_iff_eq]
  constructor
  · rintro ⟨hlength, hdifference⟩
    exact (difference_eq_zero_iff hlength).mp hdifference
  · rintro rfl
    exact ⟨rfl, (difference_eq_zero_iff rfl).mpr rfl⟩

end IpsecTransform.Bytes

namespace IpsecTransform.BigEndian

theorem exists_of_length_eq_four {bytes : Bytes} (h : bytes.length = 4) :
    ∃ first second third fourth, bytes = [first, second, third, fourth] := by
  match bytes, h with
  | [first, second, third, fourth], _ => exact ⟨first, second, third, fourth, rfl⟩

theorem unsigned_lt {bytes : Bytes} (h : bytes.length = 4) : unsigned bytes < 2 ^ 32 := by
  obtain ⟨first, second, third, fourth, rfl⟩ := exists_of_length_eq_four h
  have hfirst := first.toNat_lt
  have hsecond := second.toNat_lt
  have hthird := third.toNat_lt
  have hfourth := fourth.toNat_lt
  simp only [unsigned, List.foldl_cons, List.foldl_nil]
  omega

theorem encode_unsigned {bytes : Bytes} (h : bytes.length = 4) :
    encode (unsigned bytes) = bytes := by
  have hlt := unsigned_lt h
  obtain ⟨first, second, third, fourth, rfl⟩ := exists_of_length_eq_four h
  have hfirst := first.toNat_lt
  have hsecond := second.toNat_lt
  have hthird := third.toNat_lt
  have hfourth := fourth.toNat_lt
  have hbits : (((unsigned [first, second, third, fourth] : Nat) : Int) % 0x100000000).toNat =
      unsigned [first, second, third, fourth] := by omega
  simp only [encode, hbits]
  simp only [unsigned, List.foldl_cons, List.foldl_nil, List.cons.injEq, and_true,
    ← UInt8.toNat_inj, UInt8.toNat_ofNat']
  omega

theorem unsigned_encode (value : Int) :
    (unsigned (encode value) : Int) = value % 2 ^ 32 := by
  have hnonneg : 0 ≤ value % 2 ^ 32 := Int.emod_nonneg _ (by omega)
  have hlt : value % 2 ^ 32 < 2 ^ 32 := Int.emod_lt_of_pos _ (by omega)
  simp only [unsigned, encode, List.foldl_cons, List.foldl_nil, UInt8.toNat_ofNat']
  omega

theorem signed_eq_bmod (bytes : Bytes) : signed bytes = (unsigned bytes : Int).bmod (2 ^ 32) := rfl

theorem signed_encode (value : Int) :
    signed (encode value) = value.bmod (2 ^ 32) := by
  rw [signed_eq_bmod, unsigned_encode]
  exact Int.emod_bmod value (2 ^ 32)

theorem bmod_eq_self_iff {value : Int} :
    value.bmod (2 ^ 32) = value ↔ -2 ^ 31 ≤ value ∧ value < 2 ^ 31 := by
  constructor
  · intro h
    rw [← h]
    exact ⟨Int.le_bmod (by decide), Int.bmod_lt (by decide)⟩
  · rintro ⟨hlow, hhigh⟩
    exact Int.bmod_eq_of_le hlow hhigh

theorem encode_eq_of_emod_eq {left right : Int} (h : left % 2 ^ 32 = right % 2 ^ 32) :
    encode left = encode right := by
  have hbits : left % 0x100000000 = right % 0x100000000 := h
  rw [encode, hbits, ← encode]

theorem encode_signed {bytes : Bytes} (h : bytes.length = 4) : encode (signed bytes) = bytes := by
  rw [signed_eq_bmod, encode_eq_of_emod_eq Int.bmod_emod, encode_unsigned h]

theorem unsigned_encode_of_lt {size : Nat} (h : size < 2 ^ 32) : unsigned (encode size) = size := by
  have hvalue := unsigned_encode size
  omega

/-- Four bytes that spell a number in base 256, the most significant byte first. -/
inductive Spells : Bytes → Nat → Prop where
  | word (first second third fourth : UInt8) :
      Spells [first, second, third, fourth]
        (first.toNat * 0x1000000 + second.toNat * 0x10000 + third.toNat * 0x100 + fourth.toNat)

/-- Four bytes that spell a number in two's complement: the number is one of a signed word, and
they spell what it leaves modulo `2 ^ 32`. -/
structure SpellsSigned (word : Bytes) (value : Int) : Prop where
  low : -2 ^ 31 ≤ value
  lt : value < 2 ^ 31
  spells : Spells word (value % 2 ^ 32).toNat

theorem spells_unsigned {word : Bytes} (h : word.length = 4) : Spells word (unsigned word) := by
  obtain ⟨first, second, third, fourth, rfl⟩ := exists_of_length_eq_four h
  have hvalue : unsigned [first, second, third, fourth] =
      first.toNat * 0x1000000 + second.toNat * 0x10000 + third.toNat * 0x100 + fourth.toNat := by
    simp only [unsigned, List.foldl_cons, List.foldl_nil]
    omega
  rw [hvalue]
  exact .word first second third fourth

theorem spells_encode {size : Nat} (h : size < 2 ^ 32) : Spells (encode size) size := by
  have hspells := spells_unsigned (length_encode size)
  rwa [unsigned_encode_of_lt h] at hspells

theorem spellsSigned_signed {word : Bytes} (h : word.length = 4) :
    SpellsSigned word (signed word) where
  low := Int.le_bmod (by decide)
  lt := Int.bmod_lt (by decide)
  spells := by
    have hlt := unsigned_lt h
    have hresidue : signed word % 2 ^ 32 = (unsigned word : Int) % 2 ^ 32 := Int.bmod_emod
    have hvalue : (signed word % 2 ^ 32).toNat = unsigned word := by omega
    rw [hvalue]
    exact spells_unsigned h

theorem Spells.unique {word : Bytes} {number number' : Nat} (h : Spells word number)
    (h' : Spells word number') : number = number' := by
  cases h
  cases h'
  rfl

/-- The range and what is left modulo `2 ^ 32` fix the number. -/
theorem SpellsSigned.unique {word : Bytes} {value value' : Int} (h : SpellsSigned word value)
    (h' : SpellsSigned word value') : value = value' := by
  have hresidue := h.spells.unique h'.spells
  have hlow := h.low
  have hlt := h.lt
  have hlow' := h'.low
  have hlt' := h'.lt
  omega

theorem signed_encode_of_mem {value : Int} (hlow : -2 ^ 31 ≤ value) (hhigh : value < 2 ^ 31) :
    signed (encode value) = value := by
  rw [signed_encode]
  exact bmod_eq_self_iff.mpr ⟨hlow, hhigh⟩

end IpsecTransform.BigEndian
