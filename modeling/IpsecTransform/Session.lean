import IpsecTransform.Descriptor.Diagnostics
import IpsecTransform.Memory.Holding
import IpsecTransform.Session.Bindings

/-!
Sessions: buffers and descriptors under labels, over one memory. A step answers
what it shows. A step that fails binds nothing and leaves every window as it was.
-/

namespace IpsecTransform

/-- What has been bound so far, and the memory in which it lies. -/
structure Session where
  memory : Memory
  buffers : Bindings Window
  descriptors : Bindings Holding

/-- One operation of a session. Labels of buffers and of descriptors are apart. -/
inductive Step where
  /-- Binds a buffer of fresh memory. -/
  | load (target : String) (bytes : Bytes)
  /-- Binds a buffer that shares the memory of another from `start` up to `stop`. -/
  | view (source : String) (start stop : Nat) (target : String)
  /-- Binds a buffer with the bytes of others, one after the other, in fresh memory. -/
  | concat (sources : List String) (target : String)
  | fill (source : String) (value : UInt8)
  | put (source : String) (position : Nat) (value : UInt8)
  | content (source : String)
  /-- Binds a descriptor of checked fields; the key is that of a buffer. -/
  | create (target : String) (name : Text) (key : String) (requested : Option Number)
  /-- Binds a descriptor of fields that are taken as they are. -/
  | trust (target : String) (name : Text) (key : String) (truncation : Number)
  | fields (source : String)
  /-- Binds a buffer with a copy of the key of a descriptor. -/
  | exportKey (source target : String)
  | describe (source : String) (reveal : Bool)
  /-- Binds a buffer with the record of a descriptor. -/
  | encode (source target : String)
  | decode (source target : String)
  /-- Compares descriptors; under a label that is not bound there is none. -/
  | compare (left right : String)
  | drop (source : String)

/-- What a step shows. -/
inductive Answer where
  | content (bytes : Bytes)
  | fields (descriptor : Descriptor)
  | text (text : Text)
  | equal (equal : Bool)
  | dropped (bound : Bool)
  | failed (fault : Fault)
deriving DecidableEq

namespace Session

def start : Session := ⟨.empty, .empty, .empty⟩

def withBuffer (session : Session) (label : String)
    (go : Window → Session × Answer) : Session × Answer :=
  match session.buffers.get? label with
  | some window => go window
  | none => (session, .failed .unboundLabel)

def withDescriptor (session : Session) (label : String)
    (go : Holding → Session × Answer) : Session × Answer :=
  match session.descriptors.get? label with
  | some holding => go holding
  | none => (session, .failed .unboundLabel)

def showContent (session : Session) (window : Window) : Session × Answer :=
  (session, .content (session.memory.read window))

/-- Shows the fields of a descriptor; the key is shown from a copy. -/
def showFields (session : Session) (holding : Holding) : Session × Answer :=
  let (key, memory) := session.memory.exportKey holding
  ({ session with memory }, .fields (memory.descriptor { holding with key }))

/-- Binds a window that has been made in a new state of the memory. -/
def bindBuffer (session : Session) (target : String) (made : Window × Memory) :
    Session × Answer :=
  showContent
    { session with memory := made.2, buffers := session.buffers.bind target made.1 } made.1

/-- Binds a descriptor, unless building it has failed. -/
def bindDescriptor (session : Session) (target : String)
    (made : Except Fault Holding × Memory) : Session × Answer :=
  match made.1 with
  | .ok holding =>
      showFields
        { session with
          memory := made.2, descriptors := session.descriptors.bind target holding }
        holding
  | .error fault => ({ session with memory := made.2 }, .failed fault)

/-- The memory with a buffer written, and the content of that buffer. -/
def written (session : Session) (memory : Memory) (window : Window) : Session × Answer :=
  showContent { session with memory } window

def descriptor? (session : Session) (label : String) : Option Descriptor :=
  (session.descriptors.get? label).map session.memory.descriptor

/-- The effect of a step and its answer. -/
def step (session : Session) : Step → Session × Answer
  | .load target bytes => session.bindBuffer target (session.memory.allocate bytes)
  | .view source start stop target =>
      session.withBuffer source fun window =>
        session.bindBuffer target
          (window.part { start, size := stop - start }, session.memory)
  | .concat sources target =>
      match sources.mapM session.buffers.get? with
      | some windows => session.bindBuffer target (session.memory.concat windows)
      | none => (session, .failed .unboundLabel)
  | .fill source value =>
      session.withBuffer source fun window =>
        session.written (session.memory.fill window value) window
  | .put source position value =>
      session.withBuffer source fun window =>
        session.written (session.memory.write window position [value]) window
  | .content source => session.withBuffer source session.showContent
  | .create target name key requested =>
      session.withBuffer key fun key =>
        session.bindDescriptor target (session.memory.create name key requested)
  | .trust target name key truncation =>
      session.withBuffer key fun key =>
        let (holding, memory) := session.memory.hold name key truncation
        session.bindDescriptor target (.ok holding, memory)
  | .fields source => session.withDescriptor source session.showFields
  | .exportKey source target =>
      session.withDescriptor source fun holding =>
        session.bindBuffer target (session.memory.exportKey holding)
  | .describe source reveal =>
      session.withDescriptor source fun holding =>
        (session, .text ((session.memory.descriptor holding).describe reveal))
  | .encode source target =>
      session.withDescriptor source fun holding =>
        session.bindBuffer target (session.memory.encode holding)
  | .decode source target =>
      session.withBuffer source fun window =>
        session.bindDescriptor target (session.memory.decode window)
  | .compare left right =>
      (session,
        .equal (Descriptor.equal (session.descriptor? left) (session.descriptor? right)))
  | .drop source =>
      ({ session with descriptors := session.descriptors.drop source },
        .dropped (session.descriptors.get? source).isSome)

/-- The effect of a list of steps and their answers in order. -/
def run (session : Session) : List Step → Session × List Answer
  | [] => (session, [])
  | step :: steps =>
      let (session, answer) := session.step step
      let (session, answers) := session.run steps
      (session, answer :: answers)

end Session

end IpsecTransform
