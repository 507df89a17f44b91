import Mathlib.Data.List.Induction
import Mathlib.Logic.Function.Basic
import IpsecTransform.Proofs.StepLabels

/-!
Clients of one session. Each is answered as if it were alone, whatever the order in which their
steps come, as long as none binds or drops what another one names and each uses only buffers of
its own. Then all that they share are descriptors, whose keys no client can reach.
-/

namespace IpsecTransform.Session

section Interleavings

variable {Client Item : Type} [DecidableEq Client]

/-- What bears the mark of a client, in order. -/
def part (client : Client) (marked : List (Client × Item)) : List Item :=
  (marked.filter fun entry => entry.1 = client).map Prod.snd

theorem part_append (client : Client) (marked more : List (Client × Item)) :
    part client (marked ++ more) = part client marked ++ part client more := by
  rw [part, List.filter_append, List.map_append, part, part]

theorem part_nil (client : Client) : part client ([] : List (Client × Item)) = [] := rfl

theorem part_cons_self (client : Client) (item : Item) (marked : List (Client × Item)) :
    part client ((client, item) :: marked) = item :: part client marked := by
  rw [part, List.filter_cons_of_pos (by simp), List.map_cons, part]

theorem part_cons_of_ne {client other : Client} (h : other ≠ client) (item : Item)
    (marked : List (Client × Item)) :
    part client ((other, item) :: marked) = part client marked := by
  rw [part, List.filter_cons_of_neg (by simp [h]), part]

end Interleavings

variable {Client : Type}

def markedAnswers (session : Session) (merged : List (Client × Step)) : List (Client × Answer) :=
  (merged.map Prod.fst).zip (session.run (merged.map Prod.snd)).2

theorem markedAnswers_concat (session : Session) (merged : List (Client × Step)) (client : Client)
    (step : Step) :
    session.markedAnswers (merged ++ [(client, step)]) =
      session.markedAnswers merged ++
        [(client, ((session.run (merged.map Prod.snd)).1.step step).2)] := by
  have hlength : (merged.map Prod.fst).length = (session.run (merged.map Prod.snd)).2.length := by
    rw [length_answers, List.length_map, List.length_map]
  rw [markedAnswers, List.map_append, List.map_append, List.map_singleton, List.map_singleton,
    run_concat, List.zip_append hlength]
  rfl

def touched : Session → List Step → List Label
  | _, [] => []
  | session, step :: steps =>
      (step.touches? (session.step step).2).toList ++ touched (session.step step).1 steps

/-- The steps use buffers only after they have bound them, or where none is bound at all. -/
def UsesOwn (session : Session) (steps : List Step) : Prop :=
  ∀ position step label, steps[position]? = some step → .buffer label ∈ step.uses →
    .buffer label ∈ session.touched (steps.take position) ∨ session.buffers.get? label = none

theorem touched_append (session : Session) (steps more : List Step) :
    session.touched (steps ++ more) =
      session.touched steps ++ (session.run steps).1.touched more := by
  induction steps generalizing session with
  | nil => rfl
  | cons step steps ih =>
      rw [List.cons_append, touched, touched, ih, List.append_assoc, run_cons]

theorem touched_concat (session : Session) (steps : List Step) (step : Step) :
    session.touched (steps ++ [step]) = session.touched steps ++
      (step.touches? ((session.run steps).1.step step).2).toList := by
  rw [touched_append, touched, touched, List.append_nil]

theorem mem_labels_of_touches? {step : Step} {answer : Answer} {label : Label}
    (h : step.touches? answer = some label) : label ∈ step.labels := by
  rw [Step.touches?] at h
  split at h
  · cases h
  · rw [Step.labels, h]
    exact List.mem_append_right _ List.mem_cons_self

theorem mem_labels_of_mem_touched {session : Session} {steps : List Step} {label : Label}
    (h : label ∈ session.touched steps) : label ∈ steps.flatMap Step.labels := by
  induction steps generalizing session with
  | nil => cases h
  | cons step steps ih =>
      rw [touched] at h
      rw [List.flatMap_cons]
      rcases List.mem_append.mp h with h | h
      · exact List.mem_append_left _ (mem_labels_of_touches? (Option.mem_toList.mp h))
      · exact List.mem_append_right _ (ih h)

/-- The labels that a client can rely on when it has done some of its steps: what these have
touched, and whatever it names, except for buffers of others. -/
def scope (session : Session) (own done : List Step) : Set Label :=
  {label | label ∈ session.touched done ∨
    (label ∈ own.flatMap Step.labels ∧
      ∀ buffer, label = .buffer buffer → session.buffers.get? buffer = none)}

theorem mem_labels_of_mem_scope {session : Session} {done rest : List Step} {label : Label}
    (h : label ∈ scope session (done ++ rest) done) :
    label ∈ (done ++ rest).flatMap Step.labels := by
  rcases h with htouched | ⟨hlabels, -⟩
  · rw [List.flatMap_append]
    exact List.mem_append_left _ (mem_labels_of_mem_touched htouched)
  · exact hlabels

theorem UsesOwn.uses_subset_scope {session : Session} {done rest : List Step} {step : Step}
    (h : session.UsesOwn (done ++ step :: rest)) :
    ∀ label ∈ step.uses, label ∈ scope session (done ++ step :: rest) done := by
  intro label hlabel
  have hlabels : label ∈ (done ++ step :: rest).flatMap Step.labels :=
    List.mem_flatMap.mpr ⟨step, by simp, List.mem_append_left _ hlabel⟩
  cases label with
  | descriptor label => exact Or.inr ⟨hlabels, nofun⟩
  | buffer label =>
      rcases h done.length step label (by simp) hlabel with htouched | hnone
      · rw [List.take_left] at htouched
        exact Or.inl htouched
      · refine Or.inr ⟨hlabels, ?_⟩
        rintro _ ⟨⟩
        exact hnone

variable [DecidableEq Client]

/-- No client binds or drops what another one names, and each uses buffers of its own. -/
structure Apart (session : Session) (merged : List (Client × Step)) : Prop where
  touched : ∀ client other, client ≠ other →
    ∀ label ∈ session.touched (part client merged),
      label ∉ (part other merged).flatMap Step.labels
  own : ∀ client, session.UsesOwn (part client merged)

/-- Every client finds what it would find if it were alone, and no two of them share memory. -/
structure Isolated (session : Session) (merged done : List (Client × Step))
    (pairs : Client → Nat → Nat → Prop) : Prop where
  mirrors : ∀ client, (session.run (part client done)).1.Mirrors Eq (pairs client)
    (scope session (part client merged) (part client done)) (session.run (done.map Prod.snd)).1
  disjoint : ∀ client other, client ≠ other → ∀ index index' common,
    pairs client index common → ¬ pairs other index' common

theorem isolated_nil (session : Session) (merged : List (Client × Step)) :
    session.Isolated merged [] fun _ _ _ => False where
  mirrors client := by
    refine ⟨Memory.mirrors_unpaired Eq _ _, ?_, ?_⟩
    · rintro label (htouched | ⟨-, hnone⟩)
      · cases htouched
      · change Option.Rel _ (session.buffers.get? label) (session.buffers.get? label)
        rw [hnone label rfl]
        exact .none
    · intro label _
      exact rel_refl Descriptor.alike_refl _
  disjoint := nofun

variable {session : Session} {merged done rest : List (Client × Step)} {client : Client}
  {step : Step} {pairs : Client → Nat → Nat → Prop}

theorem scope_concat_subset (session : Session) (own done : List Step) (step : Step) :
    ∀ label ∈ scope session own (done ++ [step]), label ∈ scope session own done ∨
      step.touches? ((session.run done).1.step step).2 = some label := by
  rintro label (htouched | hnamed)
  · rw [touched_concat] at htouched
    rcases List.mem_append.mp htouched with hbefore | hnew
    · exact Or.inl (Or.inl hbefore)
    · exact Or.inr (Option.mem_toList.mp hnew)
  · exact Or.inl (Or.inr hnamed)

theorem part_eq_of_append (hmerged : merged = done ++ (client, step) :: rest) :
    part client merged = part client done ++ step :: part client rest := by
  rw [hmerged, part_append, part_cons_self]

theorem Apart.uses_subset_scope (h : session.Apart merged)
    (hmerged : merged = done ++ (client, step) :: rest) :
    ∀ label ∈ step.uses, label ∈ scope session (part client merged) (part client done) := by
  have hown := h.own client
  rw [part_eq_of_append hmerged] at hown ⊢
  exact hown.uses_subset_scope

theorem Apart.touches?_ne (h : session.Apart merged)
    (hmerged : merged = done ++ (client, step) :: rest) {other : Client} (hne : client ≠ other) :
    ∀ label ∈ scope session (part other merged) (part other done),
      step.touches? ((session.run (part client done)).1.step step).2 ≠ some label := by
  intro label hlabel htouches
  refine h.touched client other hne label ?_ ?_
  · rw [part_eq_of_append hmerged, touched_append, Session.touched]
    exact List.mem_append_right _ (List.mem_append_left _ (Option.mem_toList.mpr htouches))
  · rw [hmerged, part_append] at hlabel ⊢
    exact mem_labels_of_mem_scope hlabel

theorem Isolated.not_pairs_of_addsFresh (h : session.Isolated merged done pairs)
    {pairs' : Nat → Nat → Prop}
    (hpairs : (session.run (done.map Prod.snd)).1.memory.AddsFresh (pairs client) pairs')
    {other : Client} (hne : client ≠ other) {index index' common : Nat}
    (hpair : pairs' index common) : ¬ pairs other index' common := by
  intro hother
  rcases hpairs index common hpair with hbefore | hnew
  · exact h.disjoint client other hne index index' common hbefore hother
  · exact Nat.not_lt.mpr hnew ((h.mirrors other).memory.right_lt index' common hother)

/-- One step of a client: it is answered as if the client were alone, the client finds what the
step would have left, and for the others nothing has happened. -/
theorem isolated_step (howned : ∀ steps, ∃ made, (session.run steps).1.Owned made)
    (hapart : session.Apart merged) (hmerged : merged = done ++ (client, step) :: rest)
    (h : session.Isolated merged done pairs) :
    ((session.run (part client done)).1.step step).2 =
        ((session.run (done.map Prod.snd)).1.step step).2 ∧
      ∃ pairs', session.Isolated merged (done ++ [(client, step)]) pairs' := by
  obtain ⟨made, hleft⟩ := howned (part client done)
  obtain ⟨made', hright⟩ := howned (done.map Prod.snd)
  have huses := hapart.uses_subset_scope hmerged
  have hmirrors := h.mirrors client
  obtain ⟨hanswer, pairs', hpairs, hafter⟩ := hmirrors.step_both hleft hright huses
  refine ⟨hanswer, Function.update pairs client pairs', ?_, ?_⟩
  · intro other
    rw [part_append, List.map_append, List.map_singleton, run_concat]
    rcases eq_or_ne client other with rfl | hne
    · rw [Function.update_self, part_cons_self, part_nil, run_concat]
      exact hafter.mono (scope_concat_subset session _ _ step)
    · rw [Function.update_of_ne hne.symm, part_cons_of_ne hne, part_nil, List.append_nil]
      refine (h.mirrors other).step_right hright ?_ ?_
      · rw [← hanswer]
        exact hapart.touches?_ne hmerged hne
      · -- what the client writes or shares is paired with a buffer of its own
        intro label window hsource hbound index hpair
        have hlabel := huses _ ((covers_outcome _ step).source label hsource)
        obtain ⟨own, -, hpaired⟩ := hmirrors.exists_paired hlabel hbound
        exact h.disjoint client other hne _ _ _ hpaired.block hpair
  · intro first second hne index index' common
    rcases eq_or_ne client first with rfl | hfirst
    · rw [Function.update_self, Function.update_of_ne hne.symm]
      exact h.not_pairs_of_addsFresh hpairs hne
    · rw [Function.update_of_ne hfirst.symm]
      rcases eq_or_ne client second with rfl | hsecond
      · rw [Function.update_self]
        exact fun hpair hother => h.not_pairs_of_addsFresh hpairs hfirst hother hpair
      · rw [Function.update_of_ne hsecond.symm]
        exact h.disjoint first second hne index index' common

theorem answers_of_apart (howned : ∀ steps, ∃ made, (session.run steps).1.Owned made)
    (hapart : session.Apart merged) (hmerged : merged = done ++ rest) :
    (∃ pairs, session.Isolated merged done pairs) ∧
      ∀ client, part client (session.markedAnswers done) =
        (session.run (part client done)).2 := by
  -- on the steps that have been done, of all clients together
  induction done using List.reverseRecOn generalizing rest with
  | nil => exact ⟨⟨_, isolated_nil session merged⟩, fun _ => rfl⟩
  | append_singleton done entry ih =>
      rcases entry with ⟨client, step⟩
      rw [List.append_assoc, List.singleton_append] at hmerged
      obtain ⟨⟨pairs, hisolated⟩, hanswers⟩ := ih hmerged
      obtain ⟨hanswer, hafter⟩ := isolated_step howned hapart hmerged hisolated
      refine ⟨hafter, ?_⟩
      intro other
      rw [markedAnswers_concat, part_append, hanswers, part_append]
      rcases eq_or_ne client other with rfl | hne
      · rw [part_cons_self, part_cons_self, part_nil, part_nil, run_concat, hanswer]
      · rw [part_cons_of_ne hne, part_cons_of_ne hne, part_nil, part_nil, List.append_nil,
          List.append_nil]

/-- Two clients start in a state that a session has reached. Neither binds or drops a label that
the other one names, and each uses buffers only after it has bound them itself, or none. Then for
every order in which their steps come, each is answered just as it would be alone. -/
theorem clients_do_not_interfere (before first second : List Step) (merged : List (Bool × Step))
    (hfirst : part true merged = first) (hsecond : part false merged = second)
    (hlabels : ∀ label ∈ (start.run before).1.touched first, label ∉ second.flatMap Step.labels)
    (hlabels' : ∀ label ∈ (start.run before).1.touched second, label ∉ first.flatMap Step.labels)
    (hown : (start.run before).1.UsesOwn first) (hown' : (start.run before).1.UsesOwn second) :
    part true ((start.run before).1.markedAnswers merged) = ((start.run before).1.run first).2 ∧
      part false ((start.run before).1.markedAnswers merged) =
        ((start.run before).1.run second).2 := by
  subst hfirst hsecond
  have howned : ∀ steps, ∃ made, ((start.run before).1.run steps).1.Owned made :=
    fun steps => ⟨_, owned_run (owned_run owned_start before) steps⟩
  have hapart : (start.run before).1.Apart merged := by
    constructor
    · rintro (_ | _) (_ | _) hne
      · exact absurd rfl hne
      · exact hlabels'
      · exact hlabels
      · exact absurd rfl hne
    · rintro (_ | _)
      · exact hown'
      · exact hown
  have hanswers := (answers_of_apart howned hapart (List.append_nil merged).symm).2
  exact ⟨hanswers true, hanswers false⟩

theorem clients_do_not_interfere_of_writes :
    let session := (start.run [.load "key" [1, 2], .trust "mac" [] "key" (.ofInt 0)]).1
    let first : List Step :=
      [.encode "mac" "record", .fill "record" 0, .decode "record" "back", .content "record"]
    let second : List Step :=
      [.exportKey "mac" "copy", .put "copy" 0 9, .fields "mac", .describe "mac" true]
    let merged := (first.zip second).flatMap fun steps => [(true, steps.1), (false, steps.2)]
    part true (session.markedAnswers merged) = (session.run first).2 ∧
      part false (session.markedAnswers merged) = (session.run second).2 ∧
      (part false (session.markedAnswers merged))[2]? =
        some (.fields { name := [], key := [1, 2], truncation := .ofInt 0 }) := by
  intro session first second merged
  have hown : session.UsesOwn first := by
    intro position step label hstep huses
    match position, hstep with
    | 0, rfl => simp [Step.uses] at huses
    | 1, rfl | 2, rfl | 3, rfl =>
        rw [List.mem_singleton.mp huses]
        exact Or.inl (by decide +kernel)
  have hown' : session.UsesOwn second := by
    intro position step label hstep huses
    match position, hstep with
    | 0, rfl | 2, rfl | 3, rfl => simp [Step.uses] at huses
    | 1, rfl =>
        rw [List.mem_singleton.mp huses]
        exact Or.inl (by decide +kernel)
  obtain ⟨hfirst, hsecond⟩ :=
    clients_do_not_interfere [.load "key" [1, 2], .trust "mac" [] "key" (.ofInt 0)] first second
      merged rfl rfl (by decide +kernel) (by decide +kernel) hown hown'
  refine ⟨hfirst, hsecond, ?_⟩
  rw [hsecond]
  decide +kernel

end IpsecTransform.Session
