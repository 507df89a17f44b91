import IpsecTransform.Proofs.MemoryWindows
import IpsecTransform.Session

namespace IpsecTransform

/-- The label under which a step binds a descriptor when it does not fail. -/
def Step.descriptorTarget? : Step → Option String
  | .create target .. => some target
  | .trust target .. => some target
  | .decode _ target => some target
  | _ => none

def Answer.isFailed : Answer → Bool
  | .failed _ => true
  | _ => false

namespace Session

open Memory

/-- What a step may leave behind. -/
inductive Effect (session : Session) : Step → Session × Answer → Prop where
  /-- Nothing is bound and nothing is written. -/
  | kept {step : Step} {memory : Memory} {answer : Answer}
      (hgrows : session.memory.Extends memory)
      (hbinds : step.descriptorTarget? = none ∨ answer.isFailed) :
      Effect session step ({ session with memory }, answer)
  /-- A buffer is written. -/
  | wrote {step : Step} {label : String} {window : Window} {offset : Nat} {bytes : Bytes}
      {answer : Answer} (hbound : session.buffers.get? label = some window)
      (hbinds : step.descriptorTarget? = none) :
      Effect session step
        ({ session with memory := session.memory.write window offset bytes }, answer)
  /-- A part of a buffer is bound. -/
  | shared {step : Step} {label target : String} {window : Window} {extent : Extent}
      {answer : Answer} (hbound : session.buffers.get? label = some window)
      (hbinds : step.descriptorTarget? = none) :
      Effect session step
        ({ session with buffers := session.buffers.bind target (window.part extent) }, answer)
  /-- A buffer of fresh memory is bound. -/
  | made {step : Step} {target : String} {window : Window} {memory : Memory} {answer : Answer}
      (hgrows : session.memory.Extends memory) (hfresh : session.memory.Fresh memory window)
      (hbinds : step.descriptorTarget? = none) :
      Effect session step
        ({ session with memory, buffers := session.buffers.bind target window }, answer)
  /-- A descriptor is bound whose key lies in fresh memory. -/
  | built {step : Step} {target : String} {holding : Holding} {memory : Memory}
      {answer : Answer} (hgrows : session.memory.Extends memory)
      (hfresh : session.memory.Fresh memory holding.key)
      (hbinds : step.descriptorTarget? = some target) (hanswer : ¬ answer.isFailed) :
      Effect session step
        ({ session with memory, descriptors := session.descriptors.bind target holding }, answer)
  /-- A descriptor is unbound. -/
  | dropped {label : String} {answer : Answer} :
      Effect session (.drop label)
        ({ session with descriptors := session.descriptors.drop label }, answer)

variable {session : Session} {step : Step}

theorem effect_unbound : Effect session step (session, .failed .unboundLabel) :=
  .kept (Extends.refl session.memory) (Or.inr rfl)

theorem effect_withBuffer {label : String} {go : Window → Session × Answer}
    (h : ∀ window, session.buffers.get? label = some window → Effect session step (go window)) :
    Effect session step (session.withBuffer label go) := by
  rw [withBuffer]
  cases hbound : session.buffers.get? label with
  | none => exact effect_unbound
  | some window => exact h window hbound

theorem effect_withDescriptor {label : String} {go : Holding → Session × Answer}
    (h : ∀ holding, Effect session step (go holding)) :
    Effect session step (session.withDescriptor label go) := by
  rw [withDescriptor]
  cases session.descriptors.get? label with
  | none => exact effect_unbound
  | some holding => exact h holding

theorem effect_bindBuffer {target : String} {content : Bytes} {made : Window × Memory}
    (h : session.memory.Made content made) (hbinds : step.descriptorTarget? = none) :
    Effect session step (session.bindBuffer target made) :=
  .made h.grows h.fresh hbinds

theorem effect_bindDescriptor {target : String} {result : Except Fault Descriptor}
    {made : Except Fault Holding × Memory} (h : session.memory.Builds result made)
    (hbinds : step.descriptorTarget? = some target) :
    Effect session step (session.bindDescriptor target made) := by
  rcases made with ⟨outcome, memory⟩
  cases outcome with
  | error fault => exact .kept h.grows (Or.inr rfl)
  | ok holding =>
      -- the fields are shown from one more copy of the key
      have hshown := made_exportKey memory holding
      exact .built (h.grows.trans hshown.grows) ((h.fresh holding rfl).extend hshown.grows)
        hbinds Bool.false_ne_true

/-- Every step has one of the effects, as long as the buffers lie inside their blocks. -/
theorem effect_step (session : Session) (step : Step)
    (hinside : ∀ label window, session.buffers.get? label = some window →
      window.Inside session.memory) :
    Effect session step (session.step step) := by
  cases step with
  | load target bytes => exact effect_bindBuffer (made_allocate session.memory bytes) rfl
  | view source start stop target =>
      apply effect_withBuffer
      intro window hbound
      exact .shared hbound rfl
  | concat sources target =>
      rw [Session.step]
      cases sources.mapM session.buffers.get? with
      | none => exact effect_unbound
      | some windows => exact effect_bindBuffer (made_concat session.memory windows) rfl
  | fill source value =>
      apply effect_withBuffer
      intro window hbound
      exact .wrote hbound rfl
  | put source position value =>
      apply effect_withBuffer
      intro window hbound
      exact .wrote hbound rfl
  | content source =>
      apply effect_withBuffer
      intro window _
      exact .kept (Extends.refl session.memory) (Or.inl rfl)
  | create target name key requested =>
      apply effect_withBuffer
      intro window _
      exact effect_bindDescriptor (builds_create session.memory name window requested) rfl
  | trust target name key truncation =>
      apply effect_withBuffer
      intro window _
      exact effect_bindDescriptor (builds_hold session.memory name window truncation) rfl
  | fields source =>
      apply effect_withDescriptor
      intro holding
      exact .kept (made_exportKey session.memory holding).grows (Or.inl rfl)
  | exportKey source target =>
      apply effect_withDescriptor
      intro holding
      exact effect_bindBuffer (made_exportKey session.memory holding) rfl
  | describe source reveal =>
      apply effect_withDescriptor
      intro holding
      exact .kept (Extends.refl session.memory) (Or.inl rfl)
  | encode source target =>
      apply effect_withDescriptor
      intro holding
      exact effect_bindBuffer (made_encode session.memory holding) rfl
  | decode source target =>
      apply effect_withBuffer
      intro window hbound
      exact effect_bindDescriptor (builds_decode (hinside source window hbound)) rfl
  | compare left right => exact .kept (Extends.refl session.memory) (Or.inl rfl)
  | drop source => exact .dropped

end Session

end IpsecTransform
