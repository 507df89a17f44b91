import IpsecTransform.Proofs.StepLabels

/-!
Where the windows of a session come from. A window is told by the position of the step that made
it, whatever stands under its label later. Steps that write nothing leave all of them as they
were, and a write is seen in none that lies in another block.
-/

namespace IpsecTransform

/-- The buffer through which a step writes. -/
def Step.writes? : Step → Option String
  | .fill source _ => some source
  | .put source _ _ => some source
  | _ => none

def Change.writes? : Change → Option String
  | .write source _ _ => some source
  | _ => Option.none

/-- What only some steps can change: a view alone shares a buffer and makes none, and only the two
steps that write through a buffer do so. -/
def Step.Admits (step : Step) : Change → Prop
  | .make _ _ => ∀ source start stop target, step ≠ .view source start stop target
  | .share source target _ => ∃ start stop, step = .view source start stop target
  | .write source _ _ => step.writes? = some source
  | _ => True

namespace Session

open Memory

variable {session after : Session} {change : Change} {step : Step} {window : Window}

theorem admits_reading {label : String} {go : Bytes → Change × Answer}
    (h : ∀ content, step.Admits (go content).1) :
    step.Admits (session.reading label go).1 :=
  reading_cases (motive := fun outcome => step.Admits outcome.1) trivial h

theorem admits_consulting {label : String} {go : Descriptor → Change × Answer}
    (h : ∀ descriptor, step.Admits (go descriptor).1) :
    step.Admits (session.consulting label go).1 :=
  consulting_cases (motive := fun outcome => step.Admits outcome.1) trivial h

theorem admits_building (target : String) (result : Except Fault Descriptor) :
    step.Admits (building target result).1 := by
  cases result with
  | ok descriptor => trivial
  | error fault => trivial

theorem admits_outcome (session : Session) (step : Step) :
    step.Admits (session.outcome step).1 := by
  cases step with
  | load target bytes => exact fun _ _ _ _ => Step.noConfusion
  | view source start stop target => exact admits_reading fun _ => ⟨start, stop, rfl⟩
  | concat sources target =>
      rw [outcome]
      cases sources.mapM session.content? with
      | none => trivial
      | some contents => exact fun _ _ _ _ => Step.noConfusion
  | fill | put => exact admits_reading fun _ => rfl
  | content source => exact admits_reading fun _ => trivial
  | create | trust | decode => exact admits_reading fun _ => admits_building _ _
  | fields | describe => exact admits_consulting fun _ => trivial
  | exportKey | encode => exact admits_consulting fun _ _ _ _ _ => Step.noConfusion
  | compare | drop => trivial

theorem writes?_of_outcome {source : String}
    (h : (session.outcome step).1.writes? = some source) : step.writes? = some source := by
  have hadmits := admits_outcome session step
  cases hchange : (session.outcome step).1 with
  | write written offset bytes =>
      rw [hchange] at h hadmits
      rw [← h]
      exact hadmits
  | none | make _ _ | share _ _ _ | build _ _ | drop _ =>
      rw [hchange] at h
      cases h

theorem inside_of_performs (h : session.Performs change after)
    (hinside : window.Inside session.memory) : window.Inside after.memory := by
  cases h with
  | none hgrows => exact hgrows.inside hinside
  | make hgrows => exact (hgrows.trans (made_allocate _ _).grows).inside hinside
  | share => exact hinside
  | write => exact inside_write hinside
  | build hgrows => exact hgrows.inside hinside
  | drop => exact hinside

theorem read_of_performs (h : session.Performs change after)
    (hinside : window.Inside session.memory)
    (hapart : ∀ source written, change.writes? = some source →
      session.buffers.get? source = some written → window.block ≠ written.block) :
    after.memory.read window = session.memory.read window := by
  cases h with
  | none hgrows => exact hgrows.read_eq hinside
  | make hgrows => exact (hgrows.trans (made_allocate _ _).grows).read_eq hinside
  | share => rfl
  | write hbound => exact read_write_of_ne (hapart _ _ rfl hbound)
  | build hgrows => exact hgrows.read_eq hinside
  | drop => rfl

theorem exists_bound_of_performs (h : session.Performs change after) {label : String}
    (hsets : change.sets? = some (.buffer label)) :
    ∃ window, after.buffers.get? label = some window ∧
      ((∃ content, change = .make label content ∧ session.memory.Fresh after.memory window ∧
          after.memory.read window = content) ∨
        ∃ source extent whole, change = .share source label extent ∧
          session.buffers.get? source = some whole ∧ window = whole.part extent) := by
  cases h with
  | @make target content grown hgrows =>
      obtain rfl : target = label := by simpa [Change.sets?] using hsets
      have hmade := made_allocate grown content
      refine ⟨_, by rw [Bindings.get?_bind, if_pos rfl], Or.inl ⟨content, rfl, ?_, hmade.read⟩⟩
      exact hmade.fresh.of_extends hgrows
  | @share source target extent whole hbound =>
      obtain rfl : target = label := by simpa [Change.sets?] using hsets
      exact ⟨_, by rw [Bindings.get?_bind, if_pos rfl],
        Or.inr ⟨source, extent, whole, rfl, hbound, rfl⟩⟩
  | none | write | build | drop => cases hsets

/-- The label that the step at a position has bound or dropped. -/
def touched? (steps : List Step) (position : Nat) : Option Label :=
  steps[position]?.bind fun step => step.touches? ((reached steps position).step step).2

/-- The window that the step at a position has bound, if it has bound a buffer. -/
def made? (steps : List Step) (position : Nat) : Option Window :=
  match touched? steps position with
  | some (.buffer label) => (reached steps (position + 1)).buffers.get? label
  | _ => none

/-- The position of the step that has bound the buffer under a label; `count` steps are done. -/
def origin? (steps : List Step) (label : String) : Nat → Option Nat
  | 0 => none
  | count + 1 =>
      if touched? steps count = some (.buffer label) then some count
      else origin? steps label count

variable {steps : List Step} {position count : Nat} {label : String}

theorem touched?_eq_sets? (h : steps[position]? = some step) :
    touched? steps position = ((reached steps position).outcome step).1.sets? := by
  rw [touched?, h, Option.bind_some, (covers_outcome _ step).sets, (realizes_reached h).answer]

theorem exists_step_of_made? (h : made? steps position = some window) :
    ∃ step label, steps[position]? = some step ∧
      ((reached steps position).outcome step).1.sets? = some (.buffer label) ∧
      (reached steps (position + 1)).buffers.get? label = some window := by
  rw [made?] at h
  split at h
  · rename_i label htouched
    obtain ⟨step, hstep, -⟩ := Option.bind_eq_some_iff.mp htouched
    rw [touched?_eq_sets? hstep] at htouched
    exact ⟨step, label, hstep, htouched, h⟩
  · cases h

theorem lt_of_origin? (h : origin? steps label count = some position) : position < count := by
  induction count with
  | zero => cases h
  | succ count ih =>
      rw [origin?] at h
      split at h
      · rw [← Option.some.inj h]
        exact Nat.lt_succ_self count
      · exact Nat.lt_succ_of_lt (ih h)

theorem get?_buffers_reached (steps : List Step) (label : String) (count : Nat) :
    (reached steps count).buffers.get? label = (origin? steps label count).bind (made? steps) := by
  induction count with
  | zero => rfl
  | succ count ih =>
      rw [origin?]
      split
      · rename_i htouched
        rw [Option.bind_some, made?, htouched]
      · rename_i htouched
        rw [← ih]
        cases hstep : steps[count]? with
        | none => rw [reached_succ_of_length_le (List.getElem?_eq_none_iff.mp hstep)]
        | some step =>
            rw [touched?_eq_sets? hstep] at htouched
            exact get?_buffers_of_performs (realizes_reached hstep).performs htouched

theorem inside_reached_succ (h : window.Inside (reached steps count).memory) :
    window.Inside (reached steps (count + 1)).memory := by
  cases hstep : steps[count]? with
  | none => rwa [reached_succ_of_length_le (List.getElem?_eq_none_iff.mp hstep)]
  | some step => exact inside_of_performs (realizes_reached hstep).performs h

theorem inside_of_made? (h : made? steps position = some window) (hlt : position < count) :
    window.Inside (reached steps count).memory := by
  induction count, hlt using Nat.le_induction with
  | base =>
      obtain ⟨step, label, -, -, hbound⟩ := exists_step_of_made? h
      obtain ⟨made, howned⟩ := owned_reached steps (position + 1)
      exact howned.buffers_inside label window hbound
  | succ count _ ih => exact inside_reached_succ ih

/-- A window is made in fresh memory, unless the step is a view and shares what was made at the
origin of the buffer that it views. -/
theorem made?_cases (h : made? steps position = some window) :
    ((∀ source start stop target, steps[position]? ≠ some (.view source start stop target)) ∧
      (reached steps position).memory.Fresh (reached steps (position + 1)).memory window) ∨
    ∃ source start stop target parent whole,
      steps[position]? = some (.view source start stop target) ∧
        origin? steps source position = some parent ∧ made? steps parent = some whole ∧
        window.block = whole.block := by
  obtain ⟨step, label, hstep, hsets, hbound⟩ := exists_step_of_made? h
  have hadmits := admits_outcome (reached steps position) step
  obtain ⟨other, hother, hwindow⟩ := exists_bound_of_performs (realizes_reached hstep).performs hsets
  obtain rfl : window = other := Option.some.inj (hbound.symm.trans hother)
  rcases hwindow with ⟨content, hchange, hfresh, -⟩ | ⟨source, extent, whole, hchange, hwhole, rfl⟩
  · rw [hchange] at hadmits
    refine Or.inl ⟨?_, hfresh⟩
    intro source start stop target hview
    exact hadmits source start stop target (Option.some.inj (hstep.symm.trans hview))
  · rw [hchange] at hadmits
    obtain ⟨start, stop, rfl⟩ := hadmits
    rw [get?_buffers_reached] at hwhole
    obtain ⟨parent, hparent, hmade⟩ := Option.bind_eq_some_iff.mp hwhole
    exact Or.inr ⟨source, start, stop, label, parent, whole, hstep, hparent, hmade, rfl⟩

/-- The step at a position leaves the bytes of a window as they were. -/
def Spares (steps : List Step) (position : Nat) (window : Window) : Prop :=
  (reached steps (position + 1)).memory.read window = (reached steps position).memory.read window

theorem spares_of_apart (hstep : steps[position]? = some step)
    (hinside : window.Inside (reached steps position).memory)
    (hapart : ∀ source written, step.writes? = some source →
      (reached steps position).buffers.get? source = some written → window.block ≠ written.block) :
    Spares steps position window :=
  read_of_performs (realizes_reached hstep).performs hinside fun source written hwrites =>
    hapart source written (writes?_of_outcome hwrites)

theorem spares_of_writes?_eq_none (hstep : steps[position]? = some step)
    (hwrites : step.writes? = none) (hinside : window.Inside (reached steps position).memory) :
    Spares steps position window := by
  refine spares_of_apart hstep hinside ?_
  intro source written hsource
  rw [hwrites] at hsource
  cases hsource

theorem descriptor_of_mem_holdings {holding : Holding}
    (hstep : steps[position]? = some step) (hmem : holding ∈ start.holdings (steps.take position)) :
    (reached steps (position + 1)).memory.descriptor holding =
      (reached steps position).memory.descriptor holding := by
  have howned := owned_run owned_start (steps.take position)
  rw [List.nil_append] at howned
  have hkey : Spares steps position holding.key := by
    refine spares_of_apart hstep (howned.keys_inside holding hmem) ?_
    intro source written _ hbound
    exact (howned.buffers_apart source written hbound holding hmem).symm
  rw [descriptor, descriptor, hkey]

theorem content?_of_spares (hstep : steps[position]? = some step)
    (htouched : touched? steps position ≠ some (.buffer label))
    (hspares : ∀ window, (reached steps position).buffers.get? label = some window →
      Spares steps position window) :
    (reached steps (position + 1)).content? label = (reached steps position).content? label := by
  rw [touched?_eq_sets? hstep] at htouched
  rw [content?, content?, get?_buffers_of_performs (realizes_reached hstep).performs htouched]
  exact Option.map_congr hspares

end Session

end IpsecTransform
