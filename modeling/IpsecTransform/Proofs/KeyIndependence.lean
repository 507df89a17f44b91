import Mathlib.Data.Set.Basic
import IpsecTransform.Proofs.RunPositions
import IpsecTransform.Proofs.SessionMirrors

namespace IpsecTransform

open Descriptor (ResultsAlike)

/-- Any two bytes are alike where only how many there are is seen. -/
def AnyByte (_ _ : UInt8) : Prop := True

theorem anyByte (left right : UInt8) : AnyByte left right := trivial

theorem forall₂_anyByte_iff {left right : Bytes} :
    List.Forall₂ AnyByte left right ↔ left.length = right.length := by
  constructor
  · exact List.Forall₂.length_eq
  · intro h
    rw [List.forall₂_iff_zip]
    exact ⟨h, fun _ => anyByte _ _⟩

/-- Steps that differ in the bytes they bring in, if they differ. -/
inductive Step.Alike : Step → Step → Prop where
  | load {target : String} {bytes bytes' : Bytes} (hlength : bytes.length = bytes'.length) :
      Alike (.load target bytes) (.load target bytes')
  | fill {source : String} {value value' : UInt8} :
      Alike (.fill source value) (.fill source value')
  | put {source : String} {position : Nat} {value value' : UInt8} :
      Alike (.put source position value) (.put source position value')
  | same (step : Step) : Alike step step

/-- Answers to a step that differ in bytes, in a comparison, or in a text that reveals a key. -/
def Answer.Alike (step : Step) : Answer → Answer → Prop
  | .content bytes, .content bytes' => bytes.length = bytes'.length
  | .fields left, .fields right =>
      left.name = right.name ∧ left.truncation = right.truncation ∧
        left.key.length = right.key.length
  | .text shown, .text shown' => (∃ source, step = .describe source false) → shown = shown'
  | .equal _, .equal _ => True
  | .dropped bound, .dropped bound' => bound = bound'
  | .failed fault, .failed fault' => fault = fault'
  | _, _ => False

namespace Session

/-- Wherever a record is read, both runs read the bytes that one and the same step before has
answered to them. -/
def ReadSameRecords (left right : List Step) : Prop :=
  ∀ position source target, left[position]? = some (.decode source target) →
    ∃ earlier label record record', earlier < position ∧ Writes left earlier label record ∧
      Writes right earlier label record' ∧
      (reached left position).content? source = some record ∧
      (reached right position).content? source = some record'

structure OutcomesAlike (step : Step) (left right : Change × Answer) : Prop where
  change : left.1.Alike AnyByte right.1
  answer : left.2.Alike step right.2

variable {left right : Session} {step step' : Step} {pairs : Nat → Nat → Prop}

theorem outcomesAlike_failed (step : Step) (fault : Fault) :
    OutcomesAlike step (.none, .failed fault) (.none, .failed fault) := ⟨.none, rfl⟩

theorem outcomesAlike_making (target : String) {content content' : Bytes}
    (h : List.Forall₂ AnyByte content content') :
    OutcomesAlike step (making target content) (making target content') :=
  ⟨.make h, h.length_eq⟩

theorem outcomesAlike_building (target : String) {result result' : Except Fault Descriptor}
    (h : ResultsAlike AnyByte result result') :
    OutcomesAlike step (building target result) (building target result') := by
  cases h with
  | ok h => exact ⟨.build h, h.name, h.truncation, h.key.length_eq⟩
  | error fault => exact outcomesAlike_failed step fault

theorem outcomesAlike_reading (h : left.Mirrors AnyByte pairs Set.univ right) {label : String}
    {go go' : Bytes → Change × Answer}
    (hgo : ∀ content content', content.length = content'.length →
      OutcomesAlike step (go content) (go' content')) :
    OutcomesAlike step (left.reading label go) (right.reading label go') := by
  rw [reading, reading]
  rcases rel_cases (h.content? (Set.mem_univ (Label.buffer label))) with
    ⟨hleft, hright⟩ | ⟨content, content', hleft, hright, halike⟩
  · rw [hleft, hright]
    exact outcomesAlike_failed step _
  · rw [hleft, hright]
    exact hgo content content' halike.length_eq

theorem outcomesAlike_consulting (h : left.Mirrors AnyByte pairs Set.univ right) {label : String}
    {go go' : Descriptor → Change × Answer}
    (hgo : ∀ descriptor descriptor', descriptor.Alike AnyByte descriptor' →
      OutcomesAlike step (go descriptor) (go' descriptor')) :
    OutcomesAlike step (left.consulting label go) (right.consulting label go') := by
  rw [consulting, consulting]
  rcases rel_cases (h.descriptors label (Set.mem_univ _)) with
    ⟨hleft, hright⟩ | ⟨descriptor, descriptor', hleft, hright, halike⟩
  · rw [hleft, hright]
    exact outcomesAlike_failed step _
  · rw [hleft, hright]
    exact hgo descriptor descriptor' halike

theorem outcomesAlike_fill (h : left.Mirrors AnyByte pairs Set.univ right) (source : String)
    (value value' : UInt8) :
    OutcomesAlike step (left.outcome (.fill source value))
      (right.outcome (.fill source value')) := by
  apply outcomesAlike_reading h
  intro content content' hlength
  have hbytes : (List.replicate content.length value).length =
      (List.replicate content'.length value').length := by
    rw [List.length_replicate, List.length_replicate, hlength]
  exact ⟨.write (forall₂_anyByte_iff.mpr hbytes), hbytes⟩

theorem outcomesAlike_put (h : left.Mirrors AnyByte pairs Set.univ right) (source : String)
    (position : Nat) (value value' : UInt8) :
    OutcomesAlike step (left.outcome (.put source position value))
      (right.outcome (.put source position value')) := by
  apply outcomesAlike_reading h
  intro content content' hlength
  have hvalue : List.Forall₂ AnyByte [value] [value'] := .cons (anyByte value value') .nil
  have hwritten := Bytes.forall₂_overwrite? (forall₂_anyByte_iff.mpr hlength) hvalue position
  exact ⟨.write hvalue, hwritten.length_eq⟩

/-- Steps that differ in bytes have outcomes that differ in bytes. A record is the one place
where bytes are read as something else, and so it has to be one that was written. -/
theorem outcomesAlike_of_mirrors (h : left.Mirrors AnyByte pairs Set.univ right)
    (hstep : step.Alike step')
    (hrecord : ∀ source target, step = .decode source target →
      ∃ descriptor descriptor', descriptor.Alike AnyByte descriptor' ∧
        left.content? source = some (Record.encode descriptor) ∧
        right.content? source = some (Record.encode descriptor')) :
    OutcomesAlike step (left.outcome step) (right.outcome step') := by
  cases hstep with
  | load hlength => exact outcomesAlike_making _ (forall₂_anyByte_iff.mpr hlength)
  | @fill source value value' => exact outcomesAlike_fill h source value value'
  | @put source position value value' => exact outcomesAlike_put h source position value value'
  | same step =>
      cases step with
      | load target bytes => exact outcomesAlike_making target (forall₂_anyByte_iff.mpr rfl)
      | view source start stop target =>
          apply outcomesAlike_reading h
          intro content content' hlength
          refine ⟨.share, ?_⟩
          change (List.take _ _).length = (List.take _ _).length
          simp only [List.length_take, List.length_drop, hlength]
      | concat sources target =>
          have hcontents := rel_mapM
            (fun label => h.content? (Set.mem_univ (Label.buffer label))) sources
          rw [outcome, outcome]
          rcases rel_cases hcontents with
            ⟨hleft, hright⟩ | ⟨contents, contents', hleft, hright, halike⟩
          · rw [hleft, hright]
            exact outcomesAlike_failed _ _
          · rw [hleft, hright]
            exact outcomesAlike_making target (List.rel_flatten halike)
      | fill source value => exact outcomesAlike_fill h source value value
      | put source position value => exact outcomesAlike_put h source position value value
      | content source =>
          apply outcomesAlike_reading h
          intro content content' hlength
          exact ⟨.none, hlength⟩
      | create target name key requested =>
          apply outcomesAlike_reading h
          intro content content' hlength
          exact outcomesAlike_building target
            (Descriptor.resultsAlike_create name (forall₂_anyByte_iff.mpr hlength) requested)
      | trust target name key truncation =>
          apply outcomesAlike_reading h
          intro content content' hlength
          exact outcomesAlike_building target (.ok ⟨rfl, forall₂_anyByte_iff.mpr hlength, rfl⟩)
      | fields source =>
          apply outcomesAlike_consulting h
          intro descriptor descriptor' halike
          exact ⟨.none, halike.name, halike.truncation, halike.key.length_eq⟩
      | exportKey source target =>
          apply outcomesAlike_consulting h
          intro descriptor descriptor' halike
          exact outcomesAlike_making target halike.key
      | describe source reveal =>
          apply outcomesAlike_consulting h
          intro descriptor descriptor' halike
          refine ⟨.none, ?_⟩
          rintro ⟨other, ⟨⟩⟩
          exact Descriptor.text_of_alike halike
      | encode source target =>
          apply outcomesAlike_consulting h
          intro descriptor descriptor' halike
          exact outcomesAlike_making target
            (Record.forall₂_encode halike fun byte => anyByte byte byte)
      | decode source target =>
          obtain ⟨descriptor, descriptor', halike, hleft, hright⟩ := hrecord source target rfl
          rw [outcome, outcome, reading_of_content? hleft, reading_of_content? hright]
          exact outcomesAlike_building target
            (Record.resultsAlike_decode_encode halike fun byte => anyByte byte byte)
      | compare first second => exact ⟨.none, trivial⟩
      | drop source =>
          exact ⟨.drop, isSome_eq_of_rel (h.descriptors source (Set.mem_univ _))⟩

variable {steps steps' : List Step}

theorem exists_alike_step (hsteps : List.Forall₂ Step.Alike steps steps') {position : Nat}
    (hstep : steps[position]? = some step) :
    ∃ step', steps'[position]? = some step' ∧ step.Alike step' := by
  induction hsteps generalizing position with
  | nil => cases hstep
  | cons halike _ ih =>
      cases position with
      | zero =>
          rw [List.getElem?_cons_zero, Option.some.injEq] at hstep
          subst hstep
          exact ⟨_, rfl, halike⟩
      | succ position => exact ih hstep

theorem outcomesAlike_reached (hrecords : ReadSameRecords steps steps') {position : Nat}
    (hbefore : ∀ count ≤ position, ∃ pairs,
      (reached steps count).Mirrors AnyByte pairs Set.univ (reached steps' count))
    (hposition : steps[position]? = some step) (halike : step.Alike step') :
    OutcomesAlike step ((reached steps position).outcome step)
      ((reached steps' position).outcome step') := by
  obtain ⟨pairs, hmirrors⟩ := hbefore position (Nat.le_refl position)
  refine outcomesAlike_of_mirrors hmirrors halike ?_
  rintro source target rfl
  obtain ⟨earlier, label, record, record', hlt, hwrites, hwrites', hcontent, hcontent'⟩ :=
    hrecords position source target hposition
  obtain ⟨descriptor, hdescriptor, rfl⟩ := exists_descriptor_of_writes hwrites
  obtain ⟨descriptor', hdescriptor', rfl⟩ := exists_descriptor_of_writes hwrites'
  obtain ⟨pairs', hearlier⟩ := hbefore earlier (Nat.le_of_lt hlt)
  have hwritten := hearlier.descriptors label (Set.mem_univ _)
  rw [hdescriptor, hdescriptor'] at hwritten
  cases hwritten with
  | some hwritten => exact ⟨descriptor, descriptor', hwritten, hcontent, hcontent'⟩

/-- All along, both sessions hold the same up to bytes. -/
theorem mirrors_reached (hsteps : List.Forall₂ Step.Alike steps steps')
    (hrecords : ReadSameRecords steps steps') (count : Nat) :
    ∃ pairs, (reached steps count).Mirrors AnyByte pairs Set.univ (reached steps' count) := by
  -- on all earlier states at once, since a record may be read long after it was written
  induction count using Nat.strong_induction_on with
  | _ count ih =>
      cases count with
      | zero => exact ⟨_, mirrors_start AnyByte⟩
      | succ position =>
          have hbefore := fun count (hcount : count ≤ position) => ih count (by omega)
          obtain ⟨pairs, hmirrors⟩ := hbefore position (Nat.le_refl position)
          cases hstep : steps[position]? with
          | none =>
              have hlength := List.getElem?_eq_none_iff.mp hstep
              rw [reached_succ_of_length_le hlength,
                reached_succ_of_length_le (by rwa [← hsteps.length_eq])]
              exact ⟨pairs, hmirrors⟩
          | some step =>
              obtain ⟨step', hstep', halike⟩ := exists_alike_step hsteps hstep
              have houtcomes := outcomesAlike_reached hrecords hbefore hstep halike
              obtain ⟨made, howned⟩ := owned_reached steps position
              obtain ⟨made', howned'⟩ := owned_reached steps' position
              obtain ⟨pairs', -, hafter⟩ := hmirrors.performs howned howned' houtcomes.change
                (fun _ _ => Set.mem_univ _) (realizes_reached hstep).performs
                (realizes_reached hstep').performs
              exact ⟨pairs', hafter.mono fun label hlabel => Or.inl hlabel⟩

/-- Two sessions with the same steps, but for the bytes they bring in: a buffer may be loaded with
other bytes of the same number, and other values may be written. Where a record is read, both read
what one and the same step before has answered to them. Then every step fails in both or in
neither, and for the same reason; names, lengths, numbers of bytes and texts with a hidden key are
the same; and so is after every step what a bound descriptor shows of itself. -/
theorem keys_never_observed (steps steps' : List Step)
    (hsteps : List.Forall₂ Step.Alike steps steps') (hrecords : ReadSameRecords steps steps') :
    (∀ (position : Nat) (step : Step), steps[position]? = some step →
      ∃ answer answer', (start.run steps).2[position]? = some answer ∧
        (start.run steps').2[position]? = some answer' ∧ Answer.Alike step answer answer') ∧
    (∀ count label,
      ((reached steps count).descriptor? label).map Descriptor.text =
          ((reached steps' count).descriptor? label).map Descriptor.text ∧
        ((reached steps count).descriptor? label).map Descriptor.inspection =
          ((reached steps' count).descriptor? label).map Descriptor.inspection ∧
        ((reached steps count).descriptor? label).map Descriptor.summary =
          ((reached steps' count).descriptor? label).map Descriptor.summary) := by
  constructor
  · intro position step hstep
    obtain ⟨step', hstep', halike⟩ := exists_alike_step hsteps hstep
    have houtcomes := outcomesAlike_reached hrecords
      (fun count _ => mirrors_reached hsteps hrecords count) hstep halike
    exact ⟨_, _, answer_eq_outcome hstep, answer_eq_outcome hstep', houtcomes.answer⟩
  · intro count label
    obtain ⟨pairs, hmirrors⟩ := mirrors_reached hsteps hrecords count
    have hdescriptor := hmirrors.descriptors label (Set.mem_univ _)
    exact ⟨map_eq_of_rel hdescriptor fun _ _ => Descriptor.text_of_alike,
      map_eq_of_rel hdescriptor fun _ _ => Descriptor.inspection_of_alike,
      map_eq_of_rel hdescriptor fun _ _ => Descriptor.summary_of_alike⟩

theorem keys_never_observed_of_two_keys :
    let steps : List Step :=
      [.load "key" [1, 2], .trust "mac" [0x41] "key" (.ofInt 96), .encode "mac" "record",
        .decode "record" "back", .put "record" 9 0]
    let steps' : List Step :=
      [.load "key" [3, 4], .trust "mac" [0x41] "key" (.ofInt 96), .encode "mac" "record",
        .decode "record" "back", .put "record" 9 7]
    (reached steps 5).descriptor? "back" =
        some { name := [0x41], key := [1, 2], truncation := .ofInt 96 } ∧
      (reached steps' 5).descriptor? "back" =
        some { name := [0x41], key := [3, 4], truncation := .ofInt 96 } ∧
      ((reached steps 5).descriptor? "back").map Descriptor.text =
        ((reached steps' 5).descriptor? "back").map Descriptor.text := by
  intro steps steps'
  let mac : Bytes → Descriptor := fun key => { name := [0x41], key, truncation := .ofInt 96 }
  have hwrites : Writes steps 2 "mac" (Record.encode (mac [1, 2])) :=
    ⟨⟨"record", rfl⟩, by decide +kernel⟩
  have hwrites' : Writes steps' 2 "mac" (Record.encode (mac [3, 4])) :=
    ⟨⟨"record", rfl⟩, by decide +kernel⟩
  have hrecords : ReadSameRecords steps steps' := by
    intro position source target hstep
    match position, hstep with
    | 3, rfl =>
        exact ⟨2, "mac", _, _, by decide, hwrites, hwrites', by decide +kernel, by decide +kernel⟩
    | 4, hput => cases hput
  have hsteps : List.Forall₂ Step.Alike steps steps' :=
    .cons (.load rfl) (.cons (.same _) (.cons (.same _) (.cons (.same _) (.cons .put .nil))))
  exact ⟨by decide +kernel, by decide +kernel,
    ((keys_never_observed steps steps' hsteps hrecords).2 5 "back").1⟩

end Session

end IpsecTransform
