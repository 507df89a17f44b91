namespace IpsecTransform

/-- The causes for which an operation is refused. -/
inductive Fault where
  /-- The name is no known algorithm, or its rule does not admit the length. -/
  | invalidArgument
  | malformedRecord
  | oddHexLength
  | nonHexDigit
  /-- A read reaches past the end of its slice. -/
  | outOfBounds
  /-- There is no reference vector for a name outside the closed set. -/
  | unknownAlgorithm
  | unboundLabel
deriving DecidableEq, Repr

namespace Fault

/-- The code by which callers tell the faults of descriptors and records apart;
the other faults carry none. -/
def code? : Fault → Option String
  | invalidArgument => some "INVALID_ARGUMENT"
  | malformedRecord => some "MALFORMED_RECORD"
  | _ => none

def message : Fault → String
  | invalidArgument => "Unknown algorithm or invalid length"
  | malformedRecord => "Malformed algorithm record"
  | oddHexLength => "Invalid hex string: odd length"
  | nonHexDigit => "Invalid hex string: non-hex character"
  | outOfBounds => "Offset is outside the bounds of the slice"
  | unknownAlgorithm => "No reference vector for this name"
  | unboundLabel => "Nothing is bound to this label"

/-- A message names its cause. -/
theorem message_injective {left right : Fault} (h : left.message = right.message) :
    left = right := by
  revert h
  cases left <;> cases right <;> decide

variable {Input Output : Type} {outcome : Except Fault Input} {output : Output} {fault : Fault}

theorem bind_eq_ok_iff {go : Input → Except Fault Output} :
    outcome.bind go = .ok output ↔ ∃ input, outcome = .ok input ∧ go input = .ok output := by
  cases outcome <;> simp [Except.bind]

theorem bind_eq_error_iff {go : Input → Except Fault Output} :
    outcome.bind go = .error fault ↔
      outcome = .error fault ∨ ∃ input, outcome = .ok input ∧ go input = .error fault := by
  cases outcome <;> simp [Except.bind]

theorem map_eq_ok_iff {go : Input → Output} :
    outcome.map go = .ok output ↔ ∃ input, outcome = .ok input ∧ go input = output := by
  cases outcome <;> simp [Except.map]

theorem map_eq_error_iff {go : Input → Output} :
    outcome.map go = .error fault ↔ outcome = .error fault := by
  cases outcome <;> simp [Except.map]

end Fault

end IpsecTransform
