import IpsecTransform.Descriptor
import IpsecTransform.Text.Utf8
import IpsecTransform.Proofs.NumberIntegers

namespace IpsecTransform

namespace Algorithm

theorem name_injective {left right : Algorithm} (h : left.name = right.name) : left = right := by
  revert h
  cases left <;> cases right <;> decide

theorem ofName?_eq_some_iff {name : Text} {algorithm : Algorithm} :
    ofName? name = some algorithm ↔ algorithm.name = name := by
  constructor
  · intro h
    have hfound := List.find?_some h
    simpa using hfound
  · rintro rfl
    rw [ofName?]
    cases hfound : all.find? fun candidate => candidate.name == algorithm.name with
    | none =>
        have hmiss := List.find?_eq_none.mp hfound algorithm (mem_all algorithm)
        simp at hmiss
    | some candidate =>
        have hcandidate := List.find?_some hfound
        have hname : candidate.name = algorithm.name := by simpa using hcandidate
        rw [name_injective hname]

theorem admitted?_eq_some_iff {name : Text} {number : Number} {length : Int} :
    admitted? name number = some length ↔
      ∃ algorithm : Algorithm, algorithm.name = name ∧ number.integer? = some length ∧
        algorithm.rule.truncation.admits length = true := by
  simp only [admitted?, rule?, Rule.admitted?, Option.bind_eq_some_iff, Option.map_eq_some_iff,
    ofName?_eq_some_iff, Option.filter_eq_some_iff]
  constructor
  · rintro ⟨rule, ⟨algorithm, hname, rfl⟩, hinteger, hadmits⟩
    exact ⟨algorithm, hname, hinteger, hadmits⟩
  · rintro ⟨algorithm, hname, hinteger, hadmits⟩
    exact ⟨algorithm.rule, ⟨algorithm, hname, rfl⟩, hinteger, hadmits⟩

theorem le_of_admits {algorithm : Algorithm} {length : Int}
    (h : algorithm.rule.truncation.admits length = true) :
    0 < length ∧ length ≤ algorithm.rule.truncation.largest := by
  cases algorithm <;> simp [rule, TruncationRule.admits, TruncationRule.largest] at h ⊢ <;> omega

theorem validTruncation_name {algorithm : Algorithm} {length : Int}
    (h : algorithm.rule.truncation.admits length = true) :
    validTruncation algorithm.name (.ofInt length) = true := by
  have hadmitted := admitted?_eq_some_iff.mpr
    ⟨algorithm, rfl, Number.integer?_ofInt length, h⟩
  rw [validTruncation, hadmitted, Option.isSome_some]

theorem largest_le (algorithm : Algorithm) : algorithm.rule.truncation.largest ≤ 512 := by
  cases algorithm <;> decide

theorem isWellFormed_name (algorithm : Algorithm) : algorithm.name.isWellFormed = true := by
  cases algorithm <;> decide

theorem head?_name_ne (algorithm : Algorithm) :
    algorithm.name.head? ≠ some Text.byteOrderMark := by
  cases algorithm <;> decide

theorem length_encode_name_le (algorithm : Algorithm) :
    (Utf8.encode algorithm.name).length ≤ 17 := by
  cases algorithm <;> decide

end Algorithm

namespace Descriptor

theorem create_eq_ok_iff {name : Text} {key : Bytes} {requested : Option Number}
    {descriptor : Descriptor} :
    create name key requested = .ok descriptor ↔
      ∃ length, Algorithm.admitted? name (requested.getD (.ofInt (8 * key.length))) = some length ∧
        descriptor = { name, key, truncation := .ofInt (min length (8 * key.length)) } := by
  rw [create, settle]
  cases hadmitted : Algorithm.admitted? name (requested.getD (.ofInt (8 * key.length))) with
  | none => simp [Except.map]
  | some length => simp [Except.map, eq_comm]

/-- A known name, and a length that the rule of the name admits, limited to the bits of the
key. -/
def Valid (descriptor : Descriptor) : Prop :=
  ∃ (algorithm : Algorithm) (length : Int), descriptor.name = algorithm.name ∧
    algorithm.rule.truncation.admits length = true ∧
    descriptor.truncation = .ofInt (min length (8 * descriptor.key.length))

theorem valid_of_create {name : Text} {key : Bytes} {requested : Option Number}
    {descriptor : Descriptor} (h : create name key requested = .ok descriptor) :
    Valid descriptor ∧ descriptor.key = key := by
  obtain ⟨length, hadmitted, rfl⟩ := create_eq_ok_iff.mp h
  obtain ⟨algorithm, hname, -, hadmits⟩ := Algorithm.admitted?_eq_some_iff.mp hadmitted
  exact ⟨⟨algorithm, length, hname.symm, hadmits, rfl⟩, rfl⟩

theorem create_name {algorithm : Algorithm} {length : Int} (key : Bytes)
    (h : algorithm.rule.truncation.admits length = true) :
    create algorithm.name key (some (.ofInt length)) =
      .ok { name := algorithm.name, key, truncation := .ofInt (min length (8 * key.length)) } :=
  create_eq_ok_iff.mpr ⟨length, Algorithm.admitted?_eq_some_iff.mpr
    ⟨algorithm, rfl, Number.integer?_ofInt length, h⟩, rfl⟩

end Descriptor

end IpsecTransform
