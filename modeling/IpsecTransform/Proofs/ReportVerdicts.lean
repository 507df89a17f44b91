import IpsecTransform.Proofs.DescriptorEquality
import IpsecTransform.Proofs.HexOutcomes
import IpsecTransform.Report

namespace IpsecTransform

namespace ReferenceVector

variable (algorithm : Algorithm)

def keyOf : Bytes := keyPattern (keyBits algorithm.rule / 8)

def descriptorOf : Descriptor :=
  { name := algorithm.name
    key := keyOf algorithm
    truncation := .ofInt algorithm.rule.truncation.largest }

theorem admits_largest :
    algorithm.rule.truncation.admits algorithm.rule.truncation.largest = true := by
  cases algorithm <;> decide

theorem min_largest_key :
    min (algorithm.rule.truncation.largest : Int) (8 * (keyOf algorithm).length) =
      algorithm.rule.truncation.largest := by
  cases algorithm <;> decide

theorem create_reference :
    Descriptor.create algorithm.name (keyOf algorithm)
      (some (.ofInt algorithm.rule.truncation.largest)) = .ok (descriptorOf algorithm) := by
  rw [Descriptor.create_name _ (admits_largest algorithm), min_largest_key, descriptorOf]

/-- The vector of an algorithm, as it is made from its descriptor. -/
def reference : ReferenceVector :=
  { name := algorithm.name
    keyHex := Hex.encode (keyOf algorithm)
    truncation := .ofInt algorithm.rule.truncation.largest
    recordHex := Record.encodeHex (descriptorOf algorithm) }

theorem ofAlgorithm_eq : ofAlgorithm algorithm = .ok (reference algorithm) := by
  rw [ofAlgorithm]
  change (Descriptor.create algorithm.name (keyOf algorithm) _).map _ = _
  rw [create_reference]
  rfl

theorem all_eq : all = .ok (Algorithm.all.map reference) := by
  have hvectors : ofAlgorithm = fun algorithm => pure (reference algorithm) :=
    funext ofAlgorithm_eq
  rw [all, hvectors, List.mapM_pure]
  rfl

theorem decodeHex_reference :
    Record.decodeHex (reference algorithm).recordHex = .ok (descriptorOf algorithm) := by
  have hvalid := (Descriptor.valid_of_create (create_reference algorithm)).1
  have hkey : (descriptorOf algorithm).key.length < 2 ^ 32 := by
    cases algorithm <;> decide
  rw [Record.decodeHex, reference, Record.encodeHex, Hex.decode_encode]
  exact Record.decode_encode_of_valid hvalid hkey

end ReferenceVector

namespace Report

open ReferenceVector (reference descriptorOf)

theorem readBack_reference (algorithm : Algorithm) :
    readBack (reference algorithm) = .ok (descriptorOf algorithm, descriptorOf algorithm) := by
  rw [readBack, ReferenceVector.decodeHex_reference]
  simp only [reference, Hex.decode_encode, Except.bind, ReferenceVector.create_reference]
  rfl

theorem ending_vectorPrintout (reveal : Bool) (algorithm : Algorithm) :
    (vectorPrintout reveal (reference algorithm)).ending = .complete := by
  have hvalid := (Descriptor.valid_of_create (ReferenceVector.create_reference algorithm)).1
  have hequals := Descriptor.equals_self_of_decodable (Record.decodable_of_valid hvalid)
  rw [vectorPrintout, readBack_reference]
  simp only [hequals]
  rfl

theorem ending_append {first second : Printout} (h : first.ending = .complete) :
    (first.append second).ending = second.ending := by
  rw [Printout.append, h]

theorem ending_vectorsPrintout (reveal : Bool) (algorithms : List Algorithm) :
    (vectorsPrintout reveal (algorithms.map reference)).ending = .complete := by
  induction algorithms with
  | nil => rfl
  | cons algorithm algorithms ih =>
      rw [vectorsPrintout, List.map_cons, List.map_cons, List.foldr_cons,
        ending_append (ending_vectorPrintout reveal algorithm)]
      exact ih

theorem lines_of_complete {settings : Settings} (h : (printout settings).ending = .complete) :
    lines settings = .ok (printout settings).lines := by
  unfold lines
  generalize printout settings = report at h ⊢
  rw [h]

/-- Every record gives back the descriptor that it was made for, so every report is printed to its
end, whatever the settings are, and no complaint is printed with it. -/
theorem report_is_complete (settings : Settings) :
    (printout settings).ending = .complete ∧ lines settings = .ok (printout settings).lines := by
  have hending : (printout settings).ending = .complete := by
    rw [printout, ReferenceVector.all_eq, ending_append rfl]
    exact ending_vectorsPrintout settings.debuggable Algorithm.all
  exact ⟨hending, lines_of_complete hending⟩

end Report

end IpsecTransform
