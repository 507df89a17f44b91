import Mathlib.InformationTheory.Coding.UniquelyDecodable
import IpsecTransform.Proofs.RecordGrammar

namespace IpsecTransform

open InformationTheory (UniquelyDecodable)

theorem uniquelyDecodable_of_append_inj {Item : Type} {words : Set (List Item)}
    (hempty : [] ∉ words)
    (happend : ∀ word ∈ words, ∀ word' ∈ words, ∀ rest rest' : List Item,
      word ++ rest = word' ++ rest' → word = word' ∧ rest = rest') :
    UniquelyDecodable words := by
  intro left
  induction left with
  | nil =>
      intro right _ hright hflatten
      cases right with
      | nil => rfl
      | cons word right =>
          have hword : word = [] := (List.append_eq_nil_iff.mp hflatten.symm).1
          exact absurd (hword ▸ hright word List.mem_cons_self) hempty
  | cons word left ih =>
      intro right hleft hright hflatten
      cases right with
      | nil =>
          have hword : word = [] := (List.append_eq_nil_iff.mp hflatten).1
          exact absurd (hword ▸ hleft word List.mem_cons_self) hempty
      | cons word' right =>
          obtain ⟨rfl, hrest⟩ := happend word (hleft word List.mem_cons_self) word'
            (hright word' List.mem_cons_self) left.flatten right.flatten hflatten
          rw [ih right (fun other hother => hleft other (List.mem_cons_of_mem _ hother))
            (fun other hother => hright other (List.mem_cons_of_mem _ hother)) hrest]

namespace Record

/-- The byte strings that are read as records. -/
def accepted : Set Bytes := {record | ∃ descriptor, decode record = .ok descriptor}

theorem splits_append_inj {record name key last record' name' key' last' rest rest' : Bytes}
    (h : Splits record name key last) (h' : Splits record' name' key' last')
    (happend : record ++ rest = record' ++ rest') : record = record' ∧ rest = rest' := by
  rw [h.eq_append, h'.eq_append] at happend
  simp only [List.append_assoc] at happend
  -- the first length settles where the second stands, and the second where the record ends
  obtain ⟨rfl, hkey⟩ := field_append_inj h.name_lt h'.name_lt happend
  obtain ⟨rfl, hlast⟩ := field_append_inj h.key_lt h'.key_lt hkey
  obtain ⟨rfl, hrest⟩ := List.append_inj hlast (h.length_last.trans h'.length_last.symm)
  exact ⟨h.eq_append.trans h'.eq_append.symm, hrest⟩

theorem exists_splits_of_accepted {record : Bytes} (h : record ∈ accepted) :
    ∃ name key last, Splits record name key last := by
  obtain ⟨descriptor, hdecode⟩ := h
  obtain ⟨name, last, hsplits, -⟩ := decode_eq_ok_iff.mp hdecode
  exact ⟨name, descriptor.key, last, hsplits⟩

theorem accepted_append_inj {record record' rest rest' : Bytes} (h : record ∈ accepted)
    (h' : record' ∈ accepted) (happend : record ++ rest = record' ++ rest') :
    record = record' ∧ rest = rest' := by
  obtain ⟨name, key, last, hsplits⟩ := exists_splits_of_accepted h
  obtain ⟨name', key', last', hsplits'⟩ := exists_splits_of_accepted h'
  exact splits_append_inj hsplits hsplits' happend

theorem nil_not_accepted : [] ∉ accepted := by
  intro h
  obtain ⟨name, key, last, hsplits⟩ := exists_splits_of_accepted h
  have hlength := congrArg List.length hsplits.eq_append
  simp only [List.length_append, BigEndian.length_encode, List.length_nil] at hlength
  omega

theorem uniquelyDecodable_accepted : UniquelyDecodable accepted :=
  uniquelyDecodable_of_append_inj nil_not_accepted fun _ h _ h' _ _ => accepted_append_inj h h'

theorem eq_of_prefix_of_accepted {record record' : Bytes} (h : record ∈ accepted)
    (h' : record' ∈ accepted) (hbegins : record <+: record') : record = record' := by
  obtain ⟨rest, hrest⟩ := hbegins
  exact (accepted_append_inj h h' (hrest.trans (List.append_nil record').symm)).1

theorem decode_of_not_accepted {record : Bytes} (h : record ∉ accepted) :
    decode record = .error .malformedRecord :=
  decode_of_forall_ne fun descriptor hdecode => h ⟨descriptor, hdecode⟩

/-- A record says itself where it ends. Nothing can be put behind it or cut off from it, so no
record is a proper beginning of another one; and a stream of records, copied into one block,
is split into records in one way only. -/
theorem records_are_self_delimiting :
    (∀ record rest descriptor descriptor', decode record = .ok descriptor →
      decode (record ++ rest) = .ok descriptor' → rest = []) ∧
    (∀ record record' descriptor descriptor', decode record = .ok descriptor →
      decode record' = .ok descriptor' → record <+: record' → record = record') ∧
    (∀ record rest descriptor, decode record = .ok descriptor → rest ≠ [] →
      decode (record ++ rest) = .error .malformedRecord) ∧
    (∀ record count descriptor, decode record = .ok descriptor → count < record.length →
      decode (record.take count) = .error .malformedRecord) ∧
    (∀ records records' : List Bytes,
      (∀ record ∈ records, ∃ descriptor, decode record = .ok descriptor) →
      (∀ record ∈ records', ∃ descriptor, decode record = .ok descriptor) →
      Bytes.concat records = Bytes.concat records' → records = records') := by
  have hend : ∀ record rest, record ∈ accepted → record ++ rest ∈ accepted → rest = [] := by
    intro record rest h h'
    exact (accepted_append_inj h h' (List.append_nil (record ++ rest)).symm).2
  refine ⟨?_, ?_, ?_, ?_, ?_⟩
  · intro record rest descriptor descriptor' h h'
    exact hend record rest ⟨descriptor, h⟩ ⟨descriptor', h'⟩
  · intro record record' descriptor descriptor' h h'
    exact eq_of_prefix_of_accepted ⟨descriptor, h⟩ ⟨descriptor', h'⟩
  · intro record rest descriptor h hrest
    exact decode_of_not_accepted fun h' => hrest (hend record rest ⟨descriptor, h⟩ h')
  · intro record count descriptor h hcount
    refine decode_of_not_accepted fun h' => ?_
    have hwhole := eq_of_prefix_of_accepted h' ⟨descriptor, h⟩ (List.take_prefix count record)
    rw [List.take_eq_self_iff] at hwhole
    exact Nat.not_le.mpr hcount hwhole
  · intro records records' h h' hconcat
    rw [Bytes.concat_eq_flatten, Bytes.concat_eq_flatten] at hconcat
    exact uniquelyDecodable_accepted records records' h h' hconcat

theorem records_are_self_delimiting_of_byte :
    let record : Bytes := [0, 0, 0, 1, 0x41, 0, 0, 0, 1, 7, 0, 0, 0, 128]
    decode record = .ok { name := [0x41], key := [7], truncation := .ofInt 128 } ∧
      decode (record ++ [0]) = .error .malformedRecord ∧
      decode (record.take 13) = .error .malformedRecord ∧
      ∀ records : List Bytes, (∀ other ∈ records, ∃ descriptor, decode other = .ok descriptor) →
        Bytes.concat records = Bytes.concat [record, record] → records = [record, record] := by
  intro record
  have hrecord : decode record = .ok { name := [0x41], key := [7], truncation := .ofInt 128 } := by
    decide +kernel
  refine ⟨hrecord, records_are_self_delimiting.2.2.1 record [0] _ hrecord (by decide),
    records_are_self_delimiting.2.2.2.1 record 13 _ hrecord (by decide), ?_⟩
  intro records hrecords
  refine records_are_self_delimiting.2.2.2.2 records [record, record] hrecords ?_
  intro other hother
  have hsame : other = record := by simpa using hother
  exact hsame ▸ ⟨_, hrecord⟩

end Record

end IpsecTransform
