import IpsecTransform.Proofs.RecordDiscrimination

namespace IpsecTransform.Number

theorem unsignedZero_eq_nan_iff {number : Number} : number.unsignedZero = nan ↔ number = nan := by
  cases number with
  | nan => exact Iff.rfl
  | negativeZero => exact iff_of_false Number.noConfusion Number.noConfusion
  | infinity negative => exact iff_of_false Number.noConfusion Number.noConfusion
  | finite value => exact iff_of_false Number.noConfusion Number.noConfusion

theorem ofInt_ne_nan (value : Int) : ofInt value ≠ nan := Number.noConfusion

end IpsecTransform.Number

namespace IpsecTransform.Descriptor

def unsignedZero (descriptor : Descriptor) : Descriptor :=
  { descriptor with truncation := descriptor.truncation.unsignedZero }

/-- The length is a number, if there is a descriptor at all. -/
def Measured (descriptor : Option Descriptor) : Prop :=
  ∀ present ∈ descriptor, present.truncation ≠ .nan

theorem unsignedZero_eq_iff {left right : Descriptor} :
    left.unsignedZero = right.unsignedZero ↔
      left.name = right.name ∧ left.key = right.key ∧
        left.truncation.unsignedZero = right.truncation.unsignedZero := by
  rw [unsignedZero, unsignedZero, Descriptor.mk.injEq]

theorem measured_congr {left right : Option Descriptor}
    (h : left.map unsignedZero = right.map unsignedZero) (hleft : Measured left) :
    Measured right := by
  rintro present hpresent hnan
  rw [Option.mem_def.mp hpresent, Option.map_some, Option.map_eq_some_iff] at h
  obtain ⟨twin, htwin, hequal⟩ := h
  have hzero := (unsignedZero_eq_iff.mp hequal).2.2
  rw [hnan] at hzero
  exact hleft twin htwin (Number.unsignedZero_eq_nan_iff.mp hzero)

theorem equal_eq_true_iff {left right : Option Descriptor} :
    equal left right = true ↔
      Measured left ∧ left.map unsignedZero = right.map unsignedZero := by
  cases left with
  | none =>
      cases right with
      | none => exact iff_of_true rfl ⟨nofun, rfl⟩
      | some right => exact iff_of_false Bool.false_ne_true nofun
  | some left =>
      cases right with
      | none => exact iff_of_false Bool.false_ne_true nofun
      | some right =>
          have hfields : equal (some left) (some right) = true ↔ _ := Record.equals_iff
          have hmeasured : Measured (some left) ↔ left.truncation ≠ .nan :=
            ⟨fun h => h left rfl, by rintro h _ ⟨⟩; exact h⟩
          rw [hfields, Number.equals_iff, hmeasured, Option.map_some, Option.map_some,
            Option.some.injEq, unsignedZero_eq_iff]
          tauto

theorem equal_self_iff {descriptor : Option Descriptor} :
    equal descriptor descriptor = true ↔ Measured descriptor := by
  rw [equal_eq_true_iff, and_iff_left rfl]

theorem equal_symm {left right : Option Descriptor} (h : equal left right = true) :
    equal right left = true := by
  obtain ⟨hmeasured, hsame⟩ := equal_eq_true_iff.mp h
  exact equal_eq_true_iff.mpr ⟨measured_congr hsame hmeasured, hsame.symm⟩

theorem equal_comm (left right : Option Descriptor) : equal left right = equal right left :=
  Bool.eq_iff_iff.mpr ⟨equal_symm, equal_symm⟩

theorem equal_trans {first second third : Option Descriptor} (h : equal first second = true)
    (h' : equal second third = true) : equal first third = true := by
  obtain ⟨hmeasured, hsame⟩ := equal_eq_true_iff.mp h
  obtain ⟨-, hsame'⟩ := equal_eq_true_iff.mp h'
  exact equal_eq_true_iff.mpr ⟨hmeasured, hsame.trans hsame'⟩

theorem equal_none_iff {descriptor : Option Descriptor} :
    equal none descriptor = true ↔ descriptor = none := by
  cases descriptor with
  | none => exact iff_of_true rfl rfl
  | some descriptor => exact iff_of_false Bool.false_ne_true nofun

theorem equals_self_of_decodable {descriptor : Descriptor} (h : Record.Decodable descriptor) :
    descriptor.equals (some descriptor) = true := by
  refine equal_self_iff.mpr ?_
  rintro _ ⟨⟩
  obtain ⟨length, hlength, -⟩ := h.truncation
  rw [hlength]
  exact Number.ofInt_ne_nan length

/-- Equality is symmetric and transitive, what is absent equals only what is absent, and a
descriptor equals itself just when its length is a number. So it is an equivalence relation on
the descriptors that have been created or read from a record; only trusted fields can be such
that a descriptor differs from itself. -/
theorem equality_is_equivalence (first second third : Option Descriptor) :
    (equal first first = true ↔ ∀ present ∈ first, present.truncation ≠ .nan) ∧
    equal first second = equal second first ∧
    (equal first second = true → equal second third = true → equal first third = true) ∧
    (equal none first = true ↔ first = none) ∧
    (equal first none = true ↔ first = none) ∧
    (∀ descriptor, first = some descriptor → descriptor.equals second = equal first second) ∧
    (∀ name key requested descriptor, create name key requested = .ok descriptor →
      first = some descriptor → equal first first = true) ∧
    (∀ record descriptor, Record.decode record = .ok descriptor →
      first = some descriptor → equal first first = true) := by
  refine ⟨equal_self_iff, equal_comm first second, equal_trans, equal_none_iff, ?_, ?_, ?_, ?_⟩
  · rw [equal_comm]
    exact equal_none_iff
  · rintro descriptor rfl
    rfl
  · rintro name key requested descriptor h rfl
    exact equals_self_of_decodable (Record.decodable_of_valid (valid_of_create h).1)
  · rintro record descriptor h rfl
    exact equals_self_of_decodable (Record.decodable_of_decode h)

theorem equality_is_equivalence_of_zeros :
    let zero : Descriptor := { name := [0x41], key := [7], truncation := .ofInt 0 }
    let unsigned : Descriptor := { name := [0x41], key := [7], truncation := .negativeZero }
    equal (some zero) (some unsigned) = true ∧ equal (some unsigned) (some zero) = true ∧
      equal (some zero) (some zero) = true := by
  intro zero unsigned
  have hforth : equal (some zero) (some unsigned) = true := by decide
  have hback : equal (some unsigned) (some zero) = true := by decide
  have hzero := equality_is_equivalence (some zero) (some unsigned) (some zero)
  exact ⟨hforth, hback, hzero.2.2.1 hforth hback⟩

/-- Equality is not reflexive: trusted fields may hold a length that is no number. -/
theorem not_equal_self_of_nan :
    ¬ ∀ descriptor : Option Descriptor, equal descriptor descriptor = true := by
  intro h
  have hself := h (some { name := Algorithm.hmacSha256.name, key := [0], truncation := .nan })
  exact absurd hself (by decide)

end IpsecTransform.Descriptor
