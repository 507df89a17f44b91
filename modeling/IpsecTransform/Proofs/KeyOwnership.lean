import IpsecTransform.Proofs.StepEffects

namespace IpsecTransform.Session

open Memory

def newest? (step : Step) (result : Session × Answer) : Option Holding :=
  if result.2.isFailed then none
  else step.descriptorTarget?.bind result.1.descriptors.get?

/-- The holdings that a run builds, in order; a label that is dropped or bound anew does
not take its holding out again. -/
def holdings : Session → List Step → List Holding
  | _, [] => []
  | session, step :: steps =>
      (newest? step (session.step step)).toList ++ holdings (session.step step).1 steps

/-- Windows lie inside their blocks, and of all holdings that were made the keys lie in
blocks of their own, which no buffer shares. -/
structure Owned (session : Session) (made : List Holding) : Prop where
  buffers_inside : ∀ label window, session.buffers.get? label = some window →
    window.Inside session.memory
  keys_inside : ∀ holding ∈ made, holding.key.Inside session.memory
  buffers_apart : ∀ label window, session.buffers.get? label = some window →
    ∀ holding ∈ made, window.block ≠ holding.key.block
  keys_apart : made.Pairwise fun earlier later => earlier.key.block ≠ later.key.block
  bound_made : ∀ label holding, session.descriptors.get? label = some holding → holding ∈ made
  labels_apart : ∀ label other holding holding',
    session.descriptors.get? label = some holding →
    session.descriptors.get? other = some holding' →
    holding.key.block = holding'.key.block → label = other

theorem owned_start : start.Owned [] where
  buffers_inside := nofun
  keys_inside := nofun
  buffers_apart := nofun
  keys_apart := List.Pairwise.nil
  bound_made := nofun
  labels_apart := nofun

variable {session : Session} {made : List Holding} {memory : Memory}

theorem Owned.of_memory (h : session.Owned made)
    (hinside : ∀ window, Window.Inside session.memory window → window.Inside memory) :
    Owned { session with memory } made where
  buffers_inside label window hbound := hinside window (h.buffers_inside label window hbound)
  keys_inside holding hmem := hinside holding.key (h.keys_inside holding hmem)
  buffers_apart := h.buffers_apart
  keys_apart := h.keys_apart
  bound_made := h.bound_made
  labels_apart := h.labels_apart

theorem Owned.bind_buffer (h : session.Owned made) (target : String) {window : Window}
    (hinside : window.Inside session.memory)
    (hapart : ∀ holding ∈ made, window.block ≠ holding.key.block) :
    Owned { session with buffers := session.buffers.bind target window } made where
  buffers_inside label other hbound := by
    rcases Bindings.get?_bind_eq_some_iff.mp hbound with ⟨-, rfl⟩ | ⟨-, hbound⟩
    · exact hinside
    · exact h.buffers_inside label other hbound
  keys_inside := h.keys_inside
  buffers_apart label other hbound := by
    rcases Bindings.get?_bind_eq_some_iff.mp hbound with ⟨-, rfl⟩ | ⟨-, hbound⟩
    · exact hapart
    · exact h.buffers_apart label other hbound
  keys_apart := h.keys_apart
  bound_made := h.bound_made
  labels_apart := h.labels_apart

theorem Owned.bind_descriptor (h : session.Owned made) (target : String) {holding : Holding}
    (hinside : holding.key.Inside session.memory)
    (hbuffers : ∀ label window, session.buffers.get? label = some window →
      window.block ≠ holding.key.block)
    (hkeys : ∀ earlier ∈ made, earlier.key.block ≠ holding.key.block) :
    Owned { session with descriptors := session.descriptors.bind target holding }
      (made ++ [holding]) where
  buffers_inside := h.buffers_inside
  keys_inside := by
    intro other hmem
    rcases List.mem_append.mp hmem with hmem | hmem
    · exact h.keys_inside other hmem
    · rwa [List.mem_singleton.mp hmem]
  buffers_apart := by
    intro label window hbound other hmem
    rcases List.mem_append.mp hmem with hmem | hmem
    · exact h.buffers_apart label window hbound other hmem
    · rw [List.mem_singleton.mp hmem]
      exact hbuffers label window hbound
  keys_apart := by
    apply List.pairwise_append.mpr
    refine ⟨h.keys_apart, List.pairwise_singleton _ _, ?_⟩
    intro earlier hearlier later hlater
    rw [List.mem_singleton.mp hlater]
    exact hkeys earlier hearlier
  bound_made := by
    intro label other hbound
    rcases Bindings.get?_bind_eq_some_iff.mp hbound with ⟨-, rfl⟩ | ⟨-, hbound⟩
    · exact List.mem_append_right made List.mem_cons_self
    · exact List.mem_append_left _ (h.bound_made label other hbound)
  labels_apart := by
    intro label other first second hfirst hsecond hblock
    rw [Bindings.get?_bind_eq_some_iff] at hfirst hsecond
    rcases hfirst with ⟨rfl, rfl⟩ | ⟨-, hfirst⟩
    · rcases hsecond with ⟨rfl, -⟩ | ⟨-, hsecond⟩
      · rfl
      · exact absurd hblock.symm (hkeys second (h.bound_made other second hsecond))
    · rcases hsecond with ⟨rfl, rfl⟩ | ⟨-, hsecond⟩
      · exact absurd hblock (hkeys first (h.bound_made label first hfirst))
      · exact h.labels_apart label other first second hfirst hsecond hblock

theorem Owned.drop_descriptor (h : session.Owned made) (label : String) :
    Owned { session with descriptors := session.descriptors.drop label } made where
  buffers_inside := h.buffers_inside
  keys_inside := h.keys_inside
  buffers_apart := h.buffers_apart
  keys_apart := h.keys_apart
  bound_made := by
    intro other holding hbound
    obtain ⟨-, hbound⟩ := Bindings.get?_drop_eq_some_iff.mp hbound
    exact h.bound_made other holding hbound
  labels_apart := by
    intro other other' first second hfirst hsecond
    obtain ⟨-, hfirst⟩ := Bindings.get?_drop_eq_some_iff.mp hfirst
    obtain ⟨-, hsecond⟩ := Bindings.get?_drop_eq_some_iff.mp hsecond
    exact h.labels_apart other other' first second hfirst hsecond

theorem append_newest?_of_binds_none {step : Step} {result : Session × Answer}
    (h : step.descriptorTarget? = none ∨ result.2.isFailed) :
    made ++ (newest? step result).toList = made := by
  have hnone : newest? step result = none := by
    rw [newest?]
    split
    · rfl
    · rename_i hanswer
      rw [h.resolve_right hanswer, Option.bind_none]
  rw [hnone, Option.toList_none, List.append_nil]

theorem newest?_eq_some {step : Step} {result : Session × Answer} {target : String}
    {holding : Holding} (htarget : step.descriptorTarget? = some target)
    (hanswer : ¬ result.2.isFailed)
    (hbound : result.1.descriptors.get? target = some holding) :
    newest? step result = some holding := by
  rw [newest?, if_neg hanswer, htarget, Option.bind_some, hbound]

theorem owned_of_effect {step : Step} {result : Session × Answer} (h : session.Owned made)
    (heffect : Effect session step result) :
    result.1.Owned (made ++ (newest? step result).toList) := by
  cases heffect with
  | kept hgrows hbinds =>
      rw [append_newest?_of_binds_none hbinds]
      exact h.of_memory fun _ => hgrows.inside
  | wrote hbound hbinds =>
      rw [append_newest?_of_binds_none (Or.inl hbinds)]
      exact h.of_memory fun _ => inside_write
  | shared hbound hbinds =>
      rw [append_newest?_of_binds_none (Or.inl hbinds)]
      refine h.bind_buffer _ (inside_part (h.buffers_inside _ _ hbound) _) ?_
      -- a part lies in the block of its window
      exact fun holding hmem => h.buffers_apart _ _ hbound holding hmem
  | made hgrows hfresh hbinds =>
      rw [append_newest?_of_binds_none (Or.inl hbinds)]
      refine (h.of_memory fun _ => hgrows.inside).bind_buffer _ hfresh.inside ?_
      intro holding hmem
      exact (hfresh.block_ne (h.keys_inside holding hmem)).symm
  | built hgrows hfresh hbinds hanswer =>
      rw [newest?_eq_some hbinds hanswer (by rw [Bindings.get?_bind, if_pos rfl])]
      refine (h.of_memory fun _ => hgrows.inside).bind_descriptor _ hfresh.inside ?_ ?_
      · intro label window hbound
        exact hfresh.block_ne (h.buffers_inside label window hbound)
      · intro earlier hmem
        exact hfresh.block_ne (h.keys_inside earlier hmem)
  | dropped =>
      rw [append_newest?_of_binds_none (Or.inl rfl)]
      exact h.drop_descriptor _

theorem owned_step (h : session.Owned made) (step : Step) :
    (session.step step).1.Owned (made ++ (newest? step (session.step step)).toList) :=
  owned_of_effect h (effect_step session step h.buffers_inside)

theorem owned_run (h : session.Owned made) (steps : List Step) :
    (session.run steps).1.Owned (made ++ session.holdings steps) := by
  induction steps generalizing session made with
  | nil => rwa [holdings, List.append_nil]
  | cons step steps ih =>
      rw [holdings, ← List.append_assoc]
      exact ih (owned_step h step)

/-- Along the steps the label is not dropped, and no step that would bind a descriptor under
it succeeds. -/
def Keeps (label : String) : Session → List Step → Prop
  | _, [] => True
  | session, step :: steps =>
      (step.descriptorTarget? = some label → (session.step step).2.isFailed) ∧
        step ≠ .drop label ∧ Keeps label (session.step step).1 steps

theorem descriptor?_congr {after : Session} {label : String}
    (hget : after.descriptors.get? label = session.descriptors.get? label)
    (hread : ∀ holding, session.descriptors.get? label = some holding →
      after.memory.read holding.key = session.memory.read holding.key) :
    after.descriptor? label = session.descriptor? label := by
  rw [descriptor?, descriptor?, hget]
  refine Option.map_congr ?_
  intro holding hbound
  rw [descriptor, descriptor, hread holding hbound]

theorem descriptor?_of_effect {step : Step} {result : Session × Answer} {label : String}
    (h : session.Owned made) (heffect : Effect session step result)
    (hbinds : step.descriptorTarget? = some label → result.2.isFailed)
    (hdrops : step ≠ .drop label) :
    result.1.descriptor? label = session.descriptor? label := by
  have hkey : ∀ holding, session.descriptors.get? label = some holding →
      holding.key.Inside session.memory :=
    fun holding hbound => h.keys_inside holding (h.bound_made label holding hbound)
  cases heffect with
  | kept hgrows _ =>
      exact descriptor?_congr rfl fun holding hbound => hgrows.read_eq (hkey holding hbound)
  | wrote hwindow _ =>
      refine descriptor?_congr rfl ?_
      intro holding hbound
      exact read_write_of_ne
        (h.buffers_apart _ _ hwindow holding (h.bound_made label holding hbound)).symm
  | shared _ _ => exact descriptor?_congr rfl fun _ _ => rfl
  | made hgrows _ _ =>
      exact descriptor?_congr rfl fun holding hbound => hgrows.read_eq (hkey holding hbound)
  | built hgrows _ htarget hanswer =>
      refine descriptor?_congr ?_ fun holding hbound => hgrows.read_eq (hkey holding hbound)
      rw [Bindings.get?_bind, if_neg]
      rintro rfl
      exact hanswer (hbinds htarget)
  | dropped =>
      refine descriptor?_congr ?_ fun _ _ => rfl
      rw [Bindings.get?_drop, if_neg]
      rintro rfl
      exact hdrops rfl

theorem descriptor?_run (h : session.Owned made) {label : String} {steps : List Step}
    (hkeeps : session.Keeps label steps) :
    (session.run steps).1.descriptor? label = session.descriptor? label := by
  induction steps generalizing session made with
  | nil => rfl
  | cons step steps ih =>
      obtain ⟨hbinds, hdrops, hkeeps⟩ := hkeeps
      have heffect := effect_step session step h.buffers_inside
      exact (ih (owned_of_effect h heffect) hkeeps).trans
        (descriptor?_of_effect h heffect hbinds hdrops)

structure Answers (session : Session) (label : String) (descriptor : Descriptor) : Prop where
  fields : (session.step (.fields label)).2 = .fields descriptor
  describe : ∀ reveal,
    (session.step (.describe label reveal)).2 = .text (descriptor.describe reveal)
  encode : ∀ target,
    (session.step (.encode label target)).2 = .content (Record.encode descriptor)

theorem answer_withDescriptor {label : String} {descriptor : Descriptor}
    (hbound : session.descriptor? label = some descriptor) {go : Holding → Session × Answer}
    {answer : Descriptor → Answer}
    (h : ∀ holding, (go holding).2 = answer (session.memory.descriptor holding)) :
    (session.withDescriptor label go).2 = answer descriptor := by
  obtain ⟨holding, hholding, rfl⟩ := Option.map_eq_some_iff.mp hbound
  rw [withDescriptor, hholding]
  exact h holding

theorem answers_of_descriptor? {label : String} {descriptor : Descriptor}
    (hbound : session.descriptor? label = some descriptor) : session.Answers label descriptor where
  fields := by
    apply answer_withDescriptor hbound
    intro holding
    have hread := (made_exportKey session.memory holding).read
    exact congrArg
      (fun key => Answer.fields { name := holding.name, key, truncation := holding.truncation })
      hread
  describe := by
    intro reveal
    apply answer_withDescriptor hbound
    intro holding
    rfl
  encode := by
    intro target
    apply answer_withDescriptor hbound
    intro holding
    exact congrArg Answer.content (made_encode session.memory holding).read

/-- In every state that a session reaches, the keys of all descriptors built so far lie in
blocks of their own, and every bound descriptor is one of these. From there on a descriptor
answers the same, whatever is written, until its label is bound anew or dropped. -/
theorem keys_exclusively_owned (steps : List Step) :
    let session := (start.run steps).1
    session.Owned (start.holdings steps) ∧
      ∀ label descriptor, session.descriptor? label = some descriptor →
        session.Answers label descriptor ∧
          ∀ rest, session.Keeps label rest → (session.run rest).1.Answers label descriptor := by
  have howned := owned_run owned_start steps
  rw [List.nil_append] at howned
  refine ⟨howned, ?_⟩
  intro label descriptor hbound
  refine ⟨answers_of_descriptor? hbound, ?_⟩
  intro rest hkeeps
  apply answers_of_descriptor?
  rw [descriptor?_run howned hkeeps]
  exact hbound

theorem keys_exclusively_owned_of_overwritten :
    let session := (start.run [.load "key" [1, 2], .trust "mac" [] "key" (.ofInt 0)]).1
    let rest := [.fill "key" 0, .decode "key" "mac", .exportKey "mac" "copy", .put "copy" 0 9]
    session.Keeps "mac" rest ∧
      ((session.run rest).1.step (.fields "mac")).2 =
        .fields { name := [], key := [1, 2], truncation := .ofInt 0 } := by
  intro session rest
  have hkeeps : session.Keeps "mac" rest :=
    ⟨nofun, nofun, fun _ => rfl, nofun, nofun, nofun, nofun, nofun, trivial⟩
  have hanswers := (keys_exclusively_owned
    [.load "key" [1, 2], .trust "mac" [] "key" (.ofInt 0)]).2 "mac" _ rfl
  exact ⟨hkeeps, (hanswers.2 rest hkeeps).fields⟩

end IpsecTransform.Session
