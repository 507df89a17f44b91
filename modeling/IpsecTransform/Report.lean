import IpsecTransform.Descriptor.Diagnostics
import IpsecTransform.ReferenceVector
import IpsecTransform.Settings

/-!
The report on the reference vectors. Each record is decoded again and compared
with the descriptor of the vector's fields; the first that does not agree ends the
report.
-/

namespace IpsecTransform.Report

def count (value : Nat) : Text := Text.ofScalars (Nat.toDigits 10 value)

def separator : Text := List.replicate 72 '='.toNat.toUInt16

def heading : List Text :=
  [separator, Text.ofString "Algorithm Record Test Vectors", separator, []]

/-- A caption for digits that spell bytes, two digits a byte. -/
def caption (title : String) (digits : Text) : Text :=
  Text.ofString title ++ Text.ofString " (hex, " ++ count (digits.length / 2) ++
    Text.ofString " bytes):"

def indented (digits : Text) : Text := Text.ofString "  " ++ digits

def verdict (agrees : Bool) : Text := Text.ofString (if agrees then "PASS" else "FAIL")

/-- How a report ends: behind its last section, at a record that does not give back the
descriptor it was made for, or with a fault. -/
inductive Ending where
  | complete
  | mismatch (expected decoded : Descriptor)
  | failed (fault : Fault)

/-- The lines that have been printed when a report ends. -/
structure Printout where
  lines : List Text
  ending : Ending

/-- One printout and then another; behind one that has ended early nothing is printed. -/
def Printout.append (first second : Printout) : Printout :=
  match first.ending with
  | .complete => { second with lines := first.lines ++ second.lines }
  | _ => first

/-- The descriptor of the fields of a vector, and the one that its record is decoded to. -/
def readBack (vector : ReferenceVector) : Except Fault (Descriptor × Descriptor) :=
  (Hex.decode vector.keyHex).bind fun key =>
    (Descriptor.create vector.name key (some vector.truncation)).bind fun expected =>
      (Record.decodeHex vector.recordHex).map fun decoded => (expected, decoded)

/-- The section of a vector. A record that does not agree ends the report at its verdict. -/
def vectorPrintout (reveal : Bool) (vector : ReferenceVector) : Printout :=
  match readBack vector with
  | .error fault => { lines := [], ending := .failed fault }
  | .ok (expected, decoded) =>
      let agrees := decoded.equals expected
      let lines :=
        [Text.ofString "--- " ++ vector.name ++ Text.ofString " ---",
          Text.ofString "Descriptor: " ++ decoded.describe reveal,
          caption "Key" vector.keyHex,
          indented vector.keyHex,
          Text.ofString "Truncation length: " ++ Text.ofString vector.truncation.text ++
            Text.ofString " bits",
          caption "Record" vector.recordHex,
          indented vector.recordHex,
          Text.ofString "Round-trip verification: " ++ verdict agrees]
      if agrees then { lines := lines ++ [[]], ending := .complete }
      else { lines, ending := .mismatch expected decoded }

/-- The sections of vectors in order, up to the first that ends the report. -/
def vectorsPrintout (reveal : Bool) (vectors : List ReferenceVector) : Printout :=
  (vectors.map (vectorPrintout reveal)).foldr Printout.append { lines := [], ending := .complete }

def printout (settings : Settings) : Printout :=
  Printout.append { lines := heading, ending := .complete }
    (match ReferenceVector.all with
    | .ok vectors => vectorsPrintout settings.debuggable vectors
    | .error fault => { lines := [], ending := .failed fault })

/-- The lines of a report that no fault has ended. -/
def lines (settings : Settings) : Except Fault (List Text) :=
  match (printout settings).ending with
  | .failed fault => .error fault
  | _ => .ok (printout settings).lines

/-- What is printed to the error stream when a report ends early. -/
def Ending.complaint (reveal : Bool) : Ending → List Text
  | complete => []
  | mismatch expected decoded =>
      [Text.ofString "  Expected: " ++ expected.describe reveal,
        Text.ofString "  Got:      " ++ decoded.describe reveal]
  | failed fault => [Text.ofString fault.message]

def Ending.exitCode : Ending → UInt32
  | complete => 0
  | _ => 1

end IpsecTransform.Report
