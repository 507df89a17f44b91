import IpsecTransform.Memory
import IpsecTransform.Record

/-!
Descriptors whose keys lie in memory. A descriptor owns the block of its key: the
key is copied when the descriptor is built, and it is copied again whenever it is
handed out.
-/

namespace IpsecTransform

/-- A descriptor together with the window of its key. -/
structure Holding where
  name : Text
  key : Window
  truncation : Number

namespace Memory

/-- The descriptor that a holding stands for. -/
def descriptor (memory : Memory) (holding : Holding) : Descriptor :=
  { name := holding.name, key := memory.read holding.key, truncation := holding.truncation }

def hold (memory : Memory) (name : Text) (key : Window) (truncation : Number) :
    Holding × Memory :=
  let (key, memory) := memory.copy key
  ({ name, key, truncation }, memory)

/-- A holding of a known algorithm with a valid truncation length. The key is copied
after the length has been settled. -/
def create (memory : Memory) (name : Text) (key : Window) (requested : Option Number) :
    Except Fault Holding × Memory :=
  match Descriptor.settle name key.size requested with
  | .ok truncation =>
      let (holding, memory) := memory.hold name key truncation
      (.ok holding, memory)
  | .error fault => (.error fault, memory)

/-- A copy of the key, for the caller to keep. -/
def exportKey (memory : Memory) (holding : Holding) : Window × Memory :=
  memory.copy holding.key

/-- The record of a holding, in a fresh block and made from a copy of the key. -/
def encode (memory : Memory) (holding : Holding) : Window × Memory :=
  let (key, memory) := memory.exportKey holding
  memory.allocate
    (Bytes.concat (Record.parts holding.name (memory.read key) holding.truncation))

/-- Goes on with what has been made, or ends with the fault that making it has met; what was
copied until then stays behind. -/
def andThen {Made Result : Type} (made : Except Fault Made × Memory)
    (go : Made → Memory → Except Fault Result × Memory) : Except Fault Result × Memory :=
  match made.1 with
  | .ok value => go value made.2
  | .error fault => (.error fault, made.2)

/-- The field of a record whose length stands at `offset`: where it ends, and a copy of it, made
as soon as its extent has been accepted. -/
def copyField (memory : Memory) (window : Window) (offset : Nat) :
    Except Fault (Nat × Window) × Memory :=
  match Record.field (memory.slice window) offset with
  | .ok extent =>
      let (field, memory) := memory.copy (window.part extent)
      (.ok (extent.stop, field), memory)
  | .error fault => (.error fault, memory)

/-- The holding of a record that fills a window. Each check comes after the copies of the fields
in front of it, so the copies stay behind when it refuses the record. -/
def decode (memory : Memory) (window : Window) : Except Fault Holding × Memory :=
  if window.size < Record.minimumSize then (.error .malformedRecord, memory)
  else
    andThen (memory.copyField window 0) fun (stop, name) memory =>
      andThen (memory.copyField window stop) fun (stop, key) memory =>
        andThen (Record.closing (memory.slice window) stop, memory) fun truncation memory =>
          andThen (Record.decodeName (memory.read name), memory) fun name memory =>
            let (holding, memory) := memory.hold name key (.ofInt truncation)
            (.ok holding, memory)

end Memory

end IpsecTransform
