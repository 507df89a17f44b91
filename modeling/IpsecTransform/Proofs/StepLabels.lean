import IpsecTransform.Proofs.RunPositions
import IpsecTransform.Proofs.SessionMirrors

namespace IpsecTransform

namespace Step

/-- The labels under which a step looks something up. -/
def uses : Step → List Label
  | .load .. => []
  | .view source .. => [.buffer source]
  | .concat sources _ => sources.map .buffer
  | .fill source _ => [.buffer source]
  | .put source .. => [.buffer source]
  | .content source => [.buffer source]
  | .create _ _ key _ => [.buffer key]
  | .trust _ _ key _ => [.buffer key]
  | .fields source => [.descriptor source]
  | .exportKey source _ => [.descriptor source]
  | .describe source _ => [.descriptor source]
  | .encode source _ => [.descriptor source]
  | .decode source _ => [.buffer source]
  | .compare left right => [.descriptor left, .descriptor right]
  | .drop source => [.descriptor source]

/-- The label that a step binds or drops, unless it fails. -/
def target? : Step → Option Label
  | .load target _ => some (.buffer target)
  | .view _ _ _ target => some (.buffer target)
  | .concat _ target => some (.buffer target)
  | .create target .. => some (.descriptor target)
  | .trust target .. => some (.descriptor target)
  | .exportKey _ target => some (.buffer target)
  | .encode _ target => some (.buffer target)
  | .decode _ target => some (.descriptor target)
  | .drop source => some (.descriptor source)
  | _ => none

/-- All labels of a step. -/
def labels (step : Step) : List Label := step.uses ++ step.target?.toList

def touches? (step : Step) (answer : Answer) : Option Label :=
  if answer.isFailed then none else step.target?

/-- The change shares or writes no buffer but one that the step uses, and it binds or drops the
target of the step, if the step does not fail. -/
structure Covers (step : Step) (outcome : Change × Answer) : Prop where
  source : ∀ label, outcome.1.source? = some label → .buffer label ∈ step.uses
  sets : outcome.1.sets? = step.touches? outcome.2

theorem covers_of_source?_eq_none {step : Step} {outcome : Change × Answer}
    (hsource : outcome.1.source? = none) (hsets : outcome.1.sets? = step.touches? outcome.2) :
    step.Covers outcome := by
  refine ⟨?_, hsets⟩
  intro label hlabel
  rw [hsource] at hlabel
  cases hlabel

theorem covers_failed (step : Step) (fault : Fault) : step.Covers (.none, .failed fault) :=
  covers_of_source?_eq_none rfl rfl

theorem covers_making {step : Step} {target : String}
    (h : step.target? = some (.buffer target)) (content : Bytes) :
    step.Covers (Session.making target content) :=
  covers_of_source?_eq_none rfl h.symm

theorem covers_building {step : Step} {target : String}
    (h : step.target? = some (.descriptor target)) (result : Except Fault Descriptor) :
    step.Covers (Session.building target result) := by
  cases result with
  | ok descriptor => exact covers_of_source?_eq_none rfl h.symm
  | error fault => exact step.covers_failed fault

end Step

namespace Session

variable {alike : UInt8 → UInt8 → Prop} {pairs : Nat → Nat → Prop} {scope : Set Label}
  {session left right : Session} {step : Step} {made made' : List Holding}

theorem reading_congr {label : String} (h : left.content? label = right.content? label)
    (go : Bytes → Change × Answer) : left.reading label go = right.reading label go := by
  rw [reading, reading, h]

theorem consulting_congr {label : String} (h : left.descriptor? label = right.descriptor? label)
    (go : Descriptor → Change × Answer) :
    left.consulting label go = right.consulting label go := by
  rw [consulting, consulting, h]

theorem mapM_content?_congr {labels : List String}
    (h : ∀ label ∈ labels, left.content? label = right.content? label) :
    labels.mapM left.content? = labels.mapM right.content? := by
  induction labels with
  | nil => rfl
  | cons label labels ih =>
      rw [List.mapM_cons, List.mapM_cons, h label List.mem_cons_self,
        ih fun other hother => h other (List.mem_cons_of_mem label hother)]

theorem outcome_congr (hcontent : ∀ label, .buffer label ∈ step.uses →
      left.content? label = right.content? label)
    (hdescriptor : ∀ label, .descriptor label ∈ step.uses →
      left.descriptor? label = right.descriptor? label) :
    left.outcome step = right.outcome step := by
  cases step with
  | load target bytes => rfl
  | concat sources target =>
      have hcontents : sources.mapM left.content? = sources.mapM right.content? :=
        mapM_content?_congr fun label hlabel =>
          hcontent label (List.mem_map_of_mem hlabel)
      rw [outcome, outcome, hcontents]
  | view | fill | put | content | create | trust | decode =>
      exact reading_congr (hcontent _ List.mem_cons_self) _
  | fields | exportKey | describe | encode =>
      exact consulting_congr (hdescriptor _ List.mem_cons_self) _
  | compare first second =>
      rw [outcome, outcome, hdescriptor first List.mem_cons_self,
        hdescriptor second (List.mem_cons_of_mem _ List.mem_cons_self)]
  | drop source => rw [outcome, outcome, hdescriptor source List.mem_cons_self]

theorem covers_reading {label : String} {go : Bytes → Change × Answer}
    (h : ∀ content, step.Covers (go content)) : step.Covers (session.reading label go) :=
  reading_cases (step.covers_failed _) h

theorem covers_consulting {label : String} {go : Descriptor → Change × Answer}
    (h : ∀ descriptor, step.Covers (go descriptor)) :
    step.Covers (session.consulting label go) :=
  consulting_cases (step.covers_failed _) h

theorem covers_outcome (session : Session) (step : Step) :
    step.Covers (session.outcome step) := by
  cases step with
  | load target bytes => exact Step.covers_making rfl bytes
  | concat sources target =>
      rw [outcome]
      cases sources.mapM session.content? with
      | none => exact Step.covers_failed _ _
      | some contents => exact Step.covers_making rfl _
  | view | fill | put =>
      apply covers_reading
      intro content
      refine ⟨?_, rfl⟩
      rintro label ⟨⟩
      exact List.mem_cons_self
  | content source => exact covers_reading fun _ => Step.covers_of_source?_eq_none rfl rfl
  | create | trust | decode => exact covers_reading fun _ => Step.covers_building rfl _
  | fields | describe => exact covers_consulting fun _ => Step.covers_of_source?_eq_none rfl rfl
  | exportKey | encode => exact covers_consulting fun _ => Step.covers_making rfl _
  | compare | drop => exact Step.covers_of_source?_eq_none rfl rfl

theorem Mirrors.outcome_eq (h : left.Mirrors Eq pairs scope right)
    (huses : ∀ label ∈ step.uses, label ∈ scope) : left.outcome step = right.outcome step := by
  refine outcome_congr ?_ ?_
  · intro label hlabel
    refine eq_of_rel (h.content? (huses _ hlabel)) ?_
    intro content content' hcontent
    rwa [List.forall₂_eq_eq_eq] at hcontent
  · intro label hlabel
    exact eq_of_rel (h.descriptors label (huses _ hlabel)) fun _ _ => Descriptor.eq_of_alike

/-- Where the labels of a step stand for the same, it answers the same on both sides, and then
its target stands for the same, too. -/
theorem Mirrors.step_both (h : left.Mirrors Eq pairs scope right) (howned : left.Owned made)
    (howned' : right.Owned made') (huses : ∀ label ∈ step.uses, label ∈ scope) :
    (left.step step).2 = (right.step step).2 ∧
    ∃ pairs', right.memory.AddsFresh pairs pairs' ∧
      (left.step step).1.Mirrors Eq pairs'
        {label | label ∈ scope ∨ step.touches? (left.step step).2 = some label}
        (right.step step).1 := by
  have hleft := realizes_step left step howned.buffers_inside
  have hright := realizes_step right step howned'.buffers_inside
  have hcovers := covers_outcome left step
  have hsets := hcovers.sets
  rw [← h.outcome_eq huses] at hright
  rw [← hleft.answer] at hsets
  refine ⟨hleft.answer.trans hright.answer.symm, ?_⟩
  rw [← hsets]
  exact h.performs howned howned' (Change.alike_refl _)
    (fun label hlabel => huses _ (hcovers.source label hlabel)) hleft.performs hright.performs

theorem Mirrors.step_right (h : left.Mirrors alike pairs scope right) (howned : right.Owned made)
    (htouches : ∀ label ∈ scope, step.touches? (right.step step).2 ≠ some label)
    (hsource : ∀ label window, (right.outcome step).1.source? = some label →
      right.buffers.get? label = some window → ∀ index, ¬ pairs index window.block) :
    left.Mirrors alike pairs scope (right.step step).1 := by
  have hright := realizes_step right step howned.buffers_inside
  have hsets := (covers_outcome right step).sets
  rw [← hright.answer] at hsets
  refine h.performs_right howned hright.performs ?_ hsource
  rw [hsets]
  exact htouches

end Session

end IpsecTransform
