import IpsecTransform.Bytes.Slice
import IpsecTransform.Proofs.ByteStrings
import IpsecTransform.Proofs.HexDigits

namespace IpsecTransform

def Extent.Contains (extent : Extent) (position : Nat) : Prop :=
  extent.start ≤ position ∧ position < extent.stop

namespace Bytes

/-- One turn of copying the parts into a zeroed block of their total length: the part at the index
is put at the extent, which begins where the parts in front of it have brought the copying. -/
inductive PutAt (parts : List Bytes) : Nat → Extent → Prop where
  | turn {front back : List Bytes} {part : Bytes} {before after : Cursor}
      (hparts : parts = front ++ part :: back)
      (hbefore : (Cursor.blank (totalLength parts)).putAll? front = some before)
      (hafter : before.put? part = some after) :
      PutAt parts front.length { start := before.position, size := part.length }

variable {parts front front' back back' : List Bytes} {part part' : Bytes}

theorem putAll?_front (front : List Bytes) {block : Bytes}
    (h : front.flatten.length ≤ block.length) :
    Cursor.putAll? { block, position := 0 } front =
      some { block := front.flatten ++ block.drop front.flatten.length
             position := front.flatten.length } := by
  -- the block is the room that the first parts take, and what they leave alone
  have hroom : (block.take front.flatten.length).length = front.flatten.length :=
    List.length_take_of_le h
  have hfront := putAll?_eq front [] (block.take front.flatten.length)
    (block.drop front.flatten.length) hroom
  rw [List.take_append_drop] at hfront
  exact hfront

theorem length_flatten_append_cons (front : List Bytes) (part : Bytes) (back : List Bytes) :
    (front ++ part :: back).flatten.length =
      front.flatten.length + (part.length + back.flatten.length) := by
  rw [List.flatten_append, List.flatten_cons, List.length_append, List.length_append]

theorem blank_putAll?_front (front : List Bytes) (part : Bytes) (back : List Bytes) :
    (Cursor.blank (totalLength (front ++ part :: back))).putAll? front =
      some { block := front.flatten ++
               (List.replicate part.length 0 ++ List.replicate back.flatten.length 0)
             position := front.flatten.length } := by
  rw [totalLength_eq, length_flatten_append_cons, Cursor.blank, putAll?_front, List.drop_replicate,
    Nat.add_sub_cancel_left, List.replicate_add]
  rw [List.length_replicate]
  exact Nat.le_add_right ..

theorem putAt_append (front : List Bytes) (part : Bytes) (back : List Bytes) :
    PutAt (front ++ part :: back) front.length
      { start := front.flatten.length, size := part.length } :=
  .turn rfl (blank_putAll?_front front part back)
    (put?_eq front.flatten _ _ part List.length_replicate)

theorem exists_append_of_putAt {index : Nat} {extent : Extent} (h : PutAt parts index extent) :
    ∃ front part back, parts = front ++ part :: back ∧ index = front.length ∧
      extent = { start := front.flatten.length, size := part.length } := by
  cases h with
  | @turn front back part before after hparts hbefore hafter =>
      subst hparts
      rw [blank_putAll?_front, Option.some.injEq] at hbefore
      subst hbefore
      exact ⟨front, part, back, rfl, rfl, rfl⟩

theorem exists_append_of_lt_length {position : Nat} (h : position < parts.flatten.length) :
    ∃ front part back, parts = front ++ part :: back ∧
      front.flatten.length ≤ position ∧ position < front.flatten.length + part.length := by
  induction parts generalizing position with
  | nil => cases h
  | cons part parts ih =>
      -- the position belongs to the first part, or to one behind it
      by_cases hpart : position < part.length
      · exact ⟨[], part, parts, rfl, Nat.zero_le _, by simpa using hpart⟩
      · rw [List.flatten_cons, List.length_append] at h
        have hlater : position - part.length < parts.flatten.length := by omega
        obtain ⟨front, next, back, rfl, hstart, hstop⟩ := ih hlater
        refine ⟨part :: front, next, back, rfl, ?_, ?_⟩
        · rw [List.flatten_cons, List.length_append]
          omega
        · rw [List.flatten_cons, List.length_append]
          omega

theorem stop_le_of_length_lt (h : parts = front ++ part :: back)
    (h' : parts = front' ++ part' :: back') (hlt : front.length < front'.length) :
    front.flatten.length + part.length ≤ front'.flatten.length := by
  have hfirst : front ++ [part] <+: parts := ⟨back, by rw [h, List.append_assoc]; rfl⟩
  have hsecond : front' <+: parts := ⟨part' :: back', h'.symm⟩
  have hlength : (front ++ [part]).length ≤ front'.length := by
    rw [List.length_append]
    exact hlt
  obtain ⟨between, rfl⟩ := List.prefix_of_prefix_length_le hfirst hsecond hlength
  simp only [List.flatten_append, List.flatten_cons, List.flatten_nil, List.append_nil,
    List.length_append]
  omega

theorem index_eq_of_contains {position index index' : Nat} {extent extent' : Extent}
    (h : PutAt parts index extent) (hposition : extent.Contains position)
    (h' : PutAt parts index' extent') (hposition' : extent'.Contains position) :
    index = index' := by
  obtain ⟨front, part, back, hparts, rfl, rfl⟩ := exists_append_of_putAt h
  obtain ⟨front', part', back', hparts', rfl, rfl⟩ := exists_append_of_putAt h'
  have hstart : front.flatten.length ≤ position := hposition.1
  have hstop : position < front.flatten.length + part.length := hposition.2
  have hstart' : front'.flatten.length ≤ position := hposition'.1
  have hstop' : position < front'.flatten.length + part'.length := hposition'.2
  -- of two different turns, the extent of the earlier one stops before that of the later one starts
  rcases Nat.lt_trichotomy front.length front'.length with hlt | heq | hgt
  · have hapart := stop_le_of_length_lt hparts hparts' hlt
    omega
  · exact heq
  · have hapart := stop_le_of_length_lt hparts' hparts hgt
    omega

theorem stop_le_of_putAt {index : Nat} {extent : Extent} (h : PutAt parts index extent) :
    extent.stop ≤ totalLength parts := by
  obtain ⟨front, part, back, rfl, -, rfl⟩ := exists_append_of_putAt h
  rw [totalLength_eq, length_flatten_append_cons]
  change front.flatten.length + part.length ≤ _
  omega

theorem exists_putAt_of_lt {index : Nat} (h : index < parts.length) :
    ∃ extent, PutAt parts index extent := by
  have hturn := putAt_append (parts.take index) parts[index] (parts.drop (index + 1))
  rw [List.getElem_cons_drop, List.take_append_drop, List.length_take_of_le (by omega)] at hturn
  exact ⟨_, hturn⟩

theorem existsUnique_putAt {position : Nat} (h : position < parts.flatten.length) :
    ∃! index, ∃ extent, PutAt parts index extent ∧ extent.Contains position := by
  obtain ⟨front, part, back, rfl, hstart, hstop⟩ := exists_append_of_lt_length h
  refine ⟨front.length, ⟨_, putAt_append front part back, hstart, hstop⟩, ?_⟩
  rintro index ⟨extent, hput, hposition⟩
  exact index_eq_of_contains hput hposition (putAt_append front part back) ⟨hstart, hstop⟩

theorem putAll?_of_length_eq {block : Bytes} (h : block.length = totalLength parts) :
    Cursor.putAll? { block, position := 0 } parts =
      some { block := concat parts, position := totalLength parts } := by
  rw [totalLength_eq] at h
  rw [putAll?_front parts (Nat.le_of_eq h.symm), ← h, List.drop_length, List.append_nil,
    concat_eq_flatten, totalLength_eq, h]

theorem concat_map_concat (groups : List (List Bytes)) :
    concat (groups.map concat) = concat groups.flatten := by
  have hgroups : groups.map concat = groups.map List.flatten :=
    List.map_congr_left fun group _ => concat_eq_flatten group
  rw [concat_eq_flatten, concat_eq_flatten, hgroups, List.flatten_flatten]

theorem encode_flatten (parts : List Bytes) :
    Hex.encode parts.flatten = (parts.map Hex.encode).flatten := by
  induction parts with
  | nil => rfl
  | cons part parts ih =>
      rw [List.flatten_cons, List.map_cons, List.flatten_cons, ← ih]
      exact List.flatMap_append

/-- Parts are copied one after the other into a zeroed block of their total length. Every part has
its turn, in which it is put inside the block; every position of the block is taken up in one turn,
and in one only; and whatever the block held before, it ends up as the parts one after the other.
So it makes no difference whether two lists of parts are joined before or after the copying, and
what results is written in digits by writing the parts one after the other. -/
theorem copying_concatenates (parts : List Bytes) :
    (∀ index < parts.length, ∃ extent, PutAt parts index extent) ∧
    (∀ index extent, PutAt parts index extent →
      extent.stop ≤ (Cursor.blank (totalLength parts)).block.length) ∧
    (∀ position < (concat parts).length,
      ∃! index, ∃ extent, PutAt parts index extent ∧ extent.Contains position) ∧
    (∀ block : Bytes, block.length = totalLength parts →
      Cursor.putAll? { block, position := 0 } parts =
        some { block := concat parts, position := block.length }) ∧
    concat parts = parts.flatten ∧
    (∀ others, concat (parts ++ others) = concat [concat parts, concat others]) ∧
    Hex.encode (concat parts) = (parts.map Hex.encode).flatten := by
  refine ⟨fun index => exists_putAt_of_lt, ?_, ?_, ?_, concat_eq_flatten parts, ?_, ?_⟩
  · intro index extent hput
    rw [Cursor.blank, List.length_replicate]
    exact stop_le_of_putAt hput
  · intro position hposition
    rw [concat_eq_flatten] at hposition
    exact existsUnique_putAt hposition
  · intro block hblock
    rw [hblock, putAll?_of_length_eq hblock]
  · intro others
    have hgroups := concat_map_concat [parts, others]
    simpa using hgroups.symm
  · rw [concat_eq_flatten, encode_flatten]

theorem copying_concatenates_of_empty_part :
    let parts : List Bytes := [[1, 2], [], [3]]
    (∃ extent, PutAt parts 1 extent ∧ extent.stop ≤ 3) ∧
      (∃! index, ∃ extent, PutAt parts index extent ∧ extent.Contains 2) ∧
      Cursor.putAll? { block := [7, 7, 7], position := 0 } parts =
        some { block := [1, 2, 3], position := 3 } := by
  intro parts
  obtain ⟨hturns, hinside, hpositions, hblock, -⟩ := copying_concatenates parts
  obtain ⟨extent, hput⟩ := hturns 1 (by decide)
  exact ⟨⟨extent, hput, hinside 1 extent hput⟩, hpositions 2 (by decide), hblock [7, 7, 7] rfl⟩

end Bytes

end IpsecTransform
