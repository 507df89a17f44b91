import IpsecTransform.Proofs.ClientIsolation

namespace IpsecTransform

/-- A step that shows what is there and does nothing else. -/
def Step.observes : Step → Bool
  | .content _ => true
  | .fields _ => true
  | .describe .. => true
  | .compare .. => true
  | _ => false

namespace Session

def Unchanged (outcome : Change × Answer) : Prop :=
  outcome.2.isFailed = true → outcome.1 = .none

theorem unchanged_none (answer : Answer) : Unchanged (.none, answer) := fun _ => rfl

theorem unchanged_of_not_isFailed {outcome : Change × Answer} (h : outcome.2.isFailed = false) :
    Unchanged outcome := by
  intro hfailed
  rw [h] at hfailed
  cases hfailed

theorem unchanged_building (target : String) (result : Except Fault Descriptor) :
    Unchanged (building target result) := by
  cases result with
  | ok descriptor => exact unchanged_of_not_isFailed rfl
  | error fault => exact unchanged_none _

theorem unchanged_reading {session : Session} {label : String} {go : Bytes → Change × Answer}
    (h : ∀ content, Unchanged (go content)) : Unchanged (session.reading label go) :=
  reading_cases (unchanged_none _) h

theorem unchanged_consulting {session : Session} {label : String}
    {go : Descriptor → Change × Answer} (h : ∀ descriptor, Unchanged (go descriptor)) :
    Unchanged (session.consulting label go) :=
  consulting_cases (unchanged_none _) h

theorem unchanged_outcome (session : Session) (step : Step) :
    Unchanged (session.outcome step) := by
  cases step with
  | concat sources target =>
      rw [outcome]
      cases sources.mapM session.content? with
      | none => exact unchanged_none _
      | some contents => exact unchanged_of_not_isFailed rfl
  | create | trust | decode => exact unchanged_reading fun _ => unchanged_building _ _
  | view | fill | put | content =>
      exact unchanged_reading fun _ => unchanged_of_not_isFailed rfl
  | fields | exportKey | describe | encode =>
      exact unchanged_consulting fun _ => unchanged_of_not_isFailed rfl
  | load | compare | drop => exact unchanged_of_not_isFailed rfl

theorem change_of_observes {session : Session} {step : Step} (h : step.observes = true) :
    (session.outcome step).1 = .none := by
  cases step with
  | content source =>
      exact reading_cases (motive := fun outcome => outcome.1 = .none) rfl fun _ => rfl
  | fields | describe =>
      exact consulting_cases (motive := fun outcome => outcome.1 = .none) rfl fun _ => rfl
  | compare left right => rfl
  | _ => cases h

variable {left right : Session} {pairs : Nat → Nat → Prop} {scope : Set Label} {step : Step}
  {made made' : List Holding}

/-- A step that changes nothing on the right is not noticed, although memory may have grown. -/
theorem Mirrors.step_quiet (h : left.Mirrors Eq pairs scope right) (howned : right.Owned made)
    (hquiet : step.observes = true ∨ (right.step step).2.isFailed = true) :
    left.Mirrors Eq pairs scope (right.step step).1 := by
  have hright := realizes_step right step howned.buffers_inside
  have hnone : (right.outcome step).1 = .none := by
    rcases hquiet with hobserves | hfailed
    · exact change_of_observes hobserves
    · rw [hright.answer] at hfailed
      exact unchanged_outcome right step hfailed
  have hperforms := hright.performs
  rw [hnone] at hperforms
  exact h.performs_right howned hperforms (fun _ _ => nofun) (fun _ _ => nofun)

theorem markedAnswers_cons {Client : Type} (session : Session) (client : Client) (step : Step)
    (marked : List (Client × Step)) :
    session.markedAnswers ((client, step) :: marked) =
      (client, (session.step step).2) :: (session.step step).1.markedAnswers marked := rfl

theorem answers_of_quiet (h : left.Mirrors Eq pairs Set.univ right) (hleft : left.Owned made)
    (hright : right.Owned made') {marked : List (Bool × Step)}
    (hquiet : ∀ entry ∈ marked.zip (right.run (marked.map Prod.snd)).2, entry.1.1 = false →
      entry.1.2.observes = true ∨ entry.2.isFailed = true) :
    part true (right.markedAnswers marked) = (left.run (part true marked)).2 := by
  -- on the steps still to be done, from any two sessions that hold the same
  induction marked generalizing left right pairs made made' with
  | nil => rfl
  | cons entry marked ih =>
      rcases entry with ⟨kept, step⟩
      rw [List.map_cons, run_cons, List.zip_cons_cons] at hquiet
      have hrest := fun entry hentry => hquiet entry (List.mem_cons_of_mem _ hentry)
      rw [markedAnswers_cons]
      cases kept with
      | true =>
          obtain ⟨hanswer, pairs', -, hafter⟩ :=
            h.step_both hleft hright fun label _ => Set.mem_univ label
          rw [part_cons_self, part_cons_self, run_cons, hanswer]
          exact congrArg _ (ih (hafter.mono fun label _ => Or.inl (Set.mem_univ label))
            (owned_step hleft step) (owned_step hright step) hrest)
      | false =>
          have hafter := h.step_quiet hright (hquiet _ List.mem_cons_self rfl)
          rw [part_cons_of_ne Bool.false_ne_true, part_cons_of_ne Bool.false_ne_true]
          exact ih hafter hleft (owned_step hright step) hrest

/-- Some steps of a session are kept and the others deleted, which fail in that session or only
show what is there. Then the session without them answers every step that is kept just as before. -/
theorem quiet_steps_leave_no_trace (marked : List (Bool × Step))
    (hquiet : ∀ entry ∈ marked.zip (start.run (marked.map Prod.snd)).2, entry.1.1 = false →
      entry.1.2.observes = true ∨ entry.2.isFailed = true) :
    part true (start.markedAnswers marked) = (start.run (part true marked)).2 :=
  answers_of_quiet (mirrors_start Eq) owned_start owned_start hquiet

theorem quiet_steps_leave_no_trace_of_rejections :
    let marked : List (Bool × Step) :=
      [(true, .load "key" [7, 7]),
        (true, .create "mac" Algorithm.hmacMd5.name "key" (some (.ofInt 128))),
        (false, .create "mac" Algorithm.hmacMd5.name "key" (some (.ofInt 512))),
        (false, .decode "key" "mac"),
        (true, .load "record" [0, 0, 0, 1, 0xFF, 0, 0, 0, 0, 0, 0, 0, 0]),
        (false, .decode "record" "mac"),
        (false, .fields "mac"),
        (true, .exportKey "mac" "copy"),
        (true, .put "copy" 0 9),
        (true, .fields "mac")]
    (∀ entry ∈ marked.zip (start.run (marked.map Prod.snd)).2, entry.1.1 = false →
      entry.1.2.observes = true ∨ entry.2.isFailed = true) ∧
    part true (start.markedAnswers marked) = (start.run (part true marked)).2 ∧
    (start.run (part true marked)).2.getLast? =
      some (.fields { name := Algorithm.hmacMd5.name, key := [7, 7], truncation := .ofInt 16 }) := by
  intro marked
  have hquiet : ∀ entry ∈ marked.zip (start.run (marked.map Prod.snd)).2, entry.1.1 = false →
      entry.1.2.observes = true ∨ entry.2.isFailed = true := by decide +kernel
  exact ⟨hquiet, quiet_steps_leave_no_trace marked hquiet, by decide +kernel⟩

end Session

end IpsecTransform
