import IpsecTransform.Proofs.StepOutcomes

namespace IpsecTransform.Session

theorem run_cons (session : Session) (step : Step) (steps : List Step) :
    session.run (step :: steps) =
      (((session.step step).1.run steps).1,
        (session.step step).2 :: ((session.step step).1.run steps).2) := rfl

theorem run_append (session : Session) (steps more : List Step) :
    session.run (steps ++ more) =
      (((session.run steps).1.run more).1,
        (session.run steps).2 ++ ((session.run steps).1.run more).2) := by
  induction steps generalizing session with
  | nil => rfl
  | cons step steps ih =>
      rw [List.cons_append, run_cons, run_cons, ih, List.cons_append]

theorem run_concat (session : Session) (steps : List Step) (step : Step) :
    session.run (steps ++ [step]) =
      (((session.run steps).1.step step).1,
        (session.run steps).2 ++ [((session.run steps).1.step step).2]) :=
  run_append session steps [step]

theorem length_answers (session : Session) (steps : List Step) :
    (session.run steps).2.length = steps.length := by
  induction steps generalizing session with
  | nil => rfl
  | cons step steps ih =>
      rw [run_cons, List.length_cons, List.length_cons, ih]

/-- The session after a number of steps. -/
def reached (steps : List Step) (count : Nat) : Session := (start.run (steps.take count)).1

variable {steps : List Step} {position : Nat} {step : Step}

theorem reached_succ (h : steps[position]? = some step) :
    reached steps (position + 1) = ((reached steps position).step step).1 := by
  rw [reached, List.take_add_one, h, run_append]
  rfl

theorem reached_succ_of_length_le (h : steps.length ≤ position) :
    reached steps (position + 1) = reached steps position := by
  rw [reached, reached, List.take_of_length_le h, List.take_of_length_le (by omega)]

theorem answer_at (h : steps[position]? = some step) :
    (start.run steps).2[position]? = some ((reached steps position).step step).2 := by
  have hlt : position < steps.length := (List.getElem?_eq_some_iff.mp h).1
  have hsplit : steps = steps.take position ++ step :: steps.drop (position + 1) := by
    rw [← (List.getElem?_eq_some_iff.mp h).2, List.getElem_cons_drop, List.take_append_drop]
  have hbefore : (start.run (steps.take position)).2.length = position := by
    rw [length_answers, List.length_take_of_le (by omega)]
  conv_lhs => rw [hsplit, run_append]
  rw [List.getElem?_append_right (by omega), hbefore, Nat.sub_self]
  rfl

theorem owned_reached (steps : List Step) (count : Nat) :
    ∃ made, (reached steps count).Owned made :=
  ⟨_, owned_run owned_start (steps.take count)⟩

theorem realizes_reached (h : steps[position]? = some step) :
    (reached steps position).Realizes ((reached steps position).outcome step)
      (reached steps (position + 1), ((reached steps position).step step).2) := by
  obtain ⟨made, howned⟩ := owned_reached steps position
  rw [reached_succ h]
  exact realizes_step _ step howned.buffers_inside

theorem answer_eq_outcome (h : steps[position]? = some step) :
    (start.run steps).2[position]? = some ((reached steps position).outcome step).2 := by
  rw [answer_at h, (realizes_reached h).answer]

theorem descriptor?_reached_succ (h : steps[position]? = some step) (label : String) :
    (reached steps (position + 1)).descriptor? label =
      ((reached steps position).outcome step).1.rebound label
        ((reached steps position).descriptor? label) := by
  obtain ⟨made, howned⟩ := owned_reached steps position
  exact descriptor?_of_performs howned (realizes_reached h).performs label

/-- At a position of a run the record of a descriptor is written, and its bytes are answered. -/
structure Writes (steps : List Step) (position : Nat) (label : String) (record : Bytes) : Prop where
  encodes : ∃ target, steps[position]? = some (.encode label target)
  answers : (start.run steps).2[position]? = some (.content record)

theorem exists_descriptor_of_writes {label : String} {record : Bytes}
    (h : Writes steps position label record) :
    ∃ descriptor, (reached steps position).descriptor? label = some descriptor ∧
      record = Record.encode descriptor := by
  obtain ⟨target, hstep⟩ := h.encodes
  have hanswer := answer_eq_outcome hstep
  rw [h.answers, Option.some.injEq, outcome] at hanswer
  cases hbound : (reached steps position).descriptor? label with
  | none =>
      rw [consulting, hbound] at hanswer
      cases hanswer
  | some descriptor =>
      rw [consulting_of_descriptor? hbound] at hanswer
      exact ⟨descriptor, rfl, Answer.content.inj hanswer⟩

theorem decode_at {source target : String} {record : Bytes} {descriptor : Descriptor}
    (h : steps[position]? = some (.decode source target))
    (hcontent : (reached steps position).content? source = some record)
    (hdecode : Record.decode record = .ok descriptor) :
    (start.run steps).2[position]? = some (.fields descriptor) ∧
      (reached steps (position + 1)).descriptor? target = some descriptor := by
  have houtcome : (reached steps position).outcome (.decode source target) =
      (.build target descriptor, .fields descriptor) := by
    rw [outcome, reading_of_content? hcontent, hdecode, building]
  constructor
  · rw [answer_eq_outcome h, houtcome]
  · rw [descriptor?_reached_succ h, houtcome, Change.rebound, if_pos rfl]

end IpsecTransform.Session
