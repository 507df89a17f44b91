import IpsecTransform.Proofs.WindowOrigins

namespace IpsecTransform

/-- The label under which a step hands out a concatenation, a key or a record. -/
def Step.output? : Step → Option String
  | .concat _ target => some target
  | .exportKey _ target => some target
  | .encode _ target => some target
  | _ => none

namespace Session

open Memory

/-- The positions at which a window and its views are made, views of views included, whatever
labels they are bound to. -/
inductive Family (steps : List Step) (root : Nat) : Nat → Prop where
  | root : Family steps root root
  | view {position parent : Nat} {source target : String} {start stop : Nat}
      (hstep : steps[position]? = some (.view source start stop target))
      (horigin : origin? steps source position = some parent)
      (hparent : Family steps root parent) : Family steps root position

variable {steps : List Step} {root position : Nat} {output window : Window}

theorem le_of_family (h : Family steps root position) : root ≤ position := by
  induction h with
  | root => exact Nat.le_refl root
  | view _ horigin _ ih => exact Nat.le_of_lt (Nat.lt_of_le_of_lt ih (lt_of_origin? horigin))

theorem family_view_iff {parent : Nat} {source target : String} {start stop : Nat}
    (hroot : ∀ source start stop target, steps[root]? ≠ some (.view source start stop target))
    (hstep : steps[position]? = some (.view source start stop target))
    (horigin : origin? steps source position = some parent) :
    Family steps root position ↔ Family steps root parent := by
  constructor
  · intro h
    cases h with
    | root => exact absurd hstep (hroot source start stop target)
    | view hstep' horigin' hparent =>
        rw [hstep, Option.some.injEq, Step.view.injEq] at hstep'
        obtain ⟨rfl, -⟩ := hstep'
        rw [horigin, Option.some.injEq] at horigin'
        rwa [horigin']
  · exact .view hstep horigin

theorem not_family_of_fresh (hne : position ≠ root)
    (hview : ∀ source start stop target, steps[position]? ≠ some (.view source start stop target)) :
    ¬ Family steps root position := by
  intro h
  cases h with
  | root => exact hne rfl
  | view hstep => exact hview _ _ _ _ hstep

theorem fresh_of_made? (h : made? steps position = some window)
    (hview : ∀ source start stop target, steps[position]? ≠ some (.view source start stop target)) :
    (reached steps position).memory.Fresh (reached steps (position + 1)).memory window := by
  rcases made?_cases h with ⟨-, hfresh⟩ | ⟨source, start, stop, target, parent, whole, hstep, -⟩
  · exact hfresh
  · exact absurd hstep (hview source start stop target)

/-- Just the family of a window that was made in fresh memory shares its block. -/
theorem family_iff_block_eq (houtput : made? steps root = some output)
    (hroot : ∀ source start stop target, steps[root]? ≠ some (.view source start stop target))
    (h : made? steps position = some window) :
    Family steps root position ↔ window.block = output.block := by
  -- on all earlier positions at once, since a view may be of a window made long before
  induction position using Nat.strong_induction_on generalizing window with
  | _ position ih =>
      rcases made?_cases h with
        ⟨hview, hfresh⟩ | ⟨source, start, stop, target, parent, whole, hstep, horigin, hmade, hblock⟩
      · rcases Nat.lt_trichotomy position root with hlt | rfl | hgt
        · have hlater := fresh_of_made? houtput hroot
          exact iff_of_false (not_family_of_fresh (Nat.ne_of_lt hlt) hview)
            (hlater.block_ne (inside_of_made? h hlt))
        · rw [houtput, Option.some.injEq] at h
          exact iff_of_true .root (congrArg Window.block h.symm)
        · exact iff_of_false (not_family_of_fresh (Nat.ne_of_gt hgt) hview)
            (hfresh.block_ne (inside_of_made? houtput hgt)).symm
      · rw [family_view_iff hroot hstep horigin, hblock]
        exact ih parent (lt_of_origin? horigin) hmade

theorem exists_making_of_output? {session : Session} {step : Step} {target : String}
    (htarget : step.output? = some target) (hok : (session.outcome step).2.isFailed = false) :
    ∃ content, session.outcome step = making target content := by
  cases step with
  | concat sources target' =>
      obtain rfl := Option.some.inj htarget
      rw [outcome] at hok ⊢
      cases hcontents : sources.mapM session.content? with
      | none => simp [hcontents, Answer.isFailed] at hok
      | some contents => exact ⟨_, rfl⟩
  | exportKey source target' | encode source target' =>
      obtain rfl := Option.some.inj htarget
      rw [outcome, consulting] at hok ⊢
      cases hfound : session.descriptor? source with
      | none => simp [hfound, Answer.isFailed] at hok
      | some descriptor => exact ⟨_, rfl⟩
  | load | view | fill | put | content | create | trust | fields | describe | decode | compare
  | drop => cases htarget

theorem exists_made_of_output? {step : Step} {target : String} {answer : Answer}
    (hstep : steps[root]? = some step) (htarget : step.output? = some target)
    (hanswer : (start.run steps).2[root]? = some answer) (hok : answer.isFailed = false) :
    ∃ output, made? steps root = some output ∧
      (reached steps (root + 1)).buffers.get? target = some output ∧
      answer = .content ((reached steps (root + 1)).memory.read output) := by
  rw [answer_eq_outcome hstep, Option.some.injEq] at hanswer
  rw [← hanswer] at hok
  obtain ⟨content, houtcome⟩ := exists_making_of_output? htarget hok
  have hperforms := (realizes_reached hstep).performs
  rw [houtcome] at hperforms
  obtain ⟨output, hbound, ⟨_, hchange, -, hread⟩ | ⟨_, _, _, hchange, -⟩⟩ :=
    exists_bound_of_performs hperforms rfl
  · have htouched := touched?_eq_sets? hstep
    rw [houtcome] at htouched
    have hcontent := (Change.make.inj hchange).2
    refine ⟨output, ?_, hbound, ?_⟩
    · rw [made?, htouched]
      exact hbound
    · rw [hread, ← hcontent, ← hanswer, houtcome]
      rfl
  · cases hchange

theorem spares_of_not_family_iff {writer : Step} {source : String} {through other : Nat}
    (houtput : made? steps root = some output)
    (hroot : ∀ source start stop target, steps[root]? ≠ some (.view source start stop target))
    (hwriter : steps[position]? = some writer) (hwrites : writer.writes? = some source)
    (horigin : origin? steps source position = some through) (hlt : other < position)
    (hmade : made? steps other = some window)
    (hapart : ¬ (Family steps root through ↔ Family steps root other)) :
    Spares steps position window := by
  refine spares_of_apart hwriter (inside_of_made? hmade hlt) ?_
  intro source' via hwrites' hvia hblock
  obtain rfl := Option.some.inj (hwrites.symm.trans hwrites')
  rw [get?_buffers_reached, horigin, Option.bind_some] at hvia
  rw [family_iff_block_eq houtput hroot hvia, family_iff_block_eq houtput hroot hmade, hblock]
    at hapart
  exact hapart Iff.rfl

/-- A concatenation, a key or a record is handed out in memory of its own. Nothing that is written
through it or its views is seen in any other window or descriptor that was made before or after,
under whatever label, and nothing written elsewhere is seen in it or its views. And no step
but a write changes what any window shows; labels change only where a step binds its target. -/
theorem outputs_are_fresh (steps : List Step) :
    (∀ root step target answer, steps[root]? = some step → step.output? = some target →
      (start.run steps).2[root]? = some answer → answer.isFailed = false →
      ∃ output, made? steps root = some output ∧
        (reached steps (root + 1)).buffers.get? target = some output ∧
        answer = .content ((reached steps (root + 1)).memory.read output) ∧
        ∀ position writer source through, steps[position]? = some writer →
          writer.writes? = some source → origin? steps source position = some through →
          (Family steps root through →
            (∀ other window, other < position → made? steps other = some window →
              ¬ Family steps root other → Spares steps position window) ∧
            ∀ holding ∈ start.holdings (steps.take position),
              (reached steps (position + 1)).memory.descriptor holding =
                (reached steps position).memory.descriptor holding) ∧
          (¬ Family steps root through →
            ∀ member window, member < position → made? steps member = some window →
              Family steps root member → Spares steps position window)) ∧
    (∀ position step, steps[position]? = some step → step.writes? = none →
      (∀ other window, other < position → made? steps other = some window →
        Spares steps position window) ∧
      ∀ label, touched? steps position ≠ some (.buffer label) →
        (reached steps (position + 1)).content? label =
          (reached steps position).content? label) := by
  constructor
  · intro root step target answer hstep htarget hanswer hok
    obtain ⟨output, houtput, hbound, hcontent⟩ := exists_made_of_output? hstep htarget hanswer hok
    have hroot : ∀ source start stop target,
        steps[root]? ≠ some (.view source start stop target) := by
      intro source start stop target' hview
      obtain rfl := Option.some.inj (hstep.symm.trans hview)
      cases htarget
    refine ⟨output, houtput, hbound, hcontent, ?_⟩
    intro position writer source through hwriter hwrites horigin
    have hspares : ∀ other window, other < position → made? steps other = some window →
        ¬ (Family steps root through ↔ Family steps root other) → Spares steps position window :=
      fun _ _ => spares_of_not_family_iff houtput hroot hwriter hwrites horigin
    constructor
    · intro hthrough
      refine ⟨?_, fun _ => descriptor_of_mem_holdings hwriter⟩
      intro other window hlt hmade hother
      exact hspares other window hlt hmade fun h => hother (h.mp hthrough)
    · intro hthrough member window hlt hmade hmember
      exact hspares member window hlt hmade fun h => hthrough (h.mpr hmember)
  · intro position step hstep hwrites
    constructor
    · intro other window hlt hmade
      exact spares_of_writes?_eq_none hstep hwrites (inside_of_made? hmade hlt)
    · intro label htouched
      refine content?_of_spares hstep htouched ?_
      intro window hbound
      obtain ⟨made, howned⟩ := owned_reached steps position
      exact spares_of_writes?_eq_none hstep hwrites (howned.buffers_inside label window hbound)

theorem outputs_are_fresh_of_view :
    let steps : List Step :=
      [.load "key" [1, 2], .concat ["key", "key"] "twice", .view "twice" 1 3 "part",
        .load "twice" [5], .fill "part" 9, .put "key" 0 7]
    Family steps 1 2 ∧ Spares steps 4 ⟨0, 0, 2⟩ ∧ Spares steps 4 ⟨2, 0, 1⟩ ∧
      Spares steps 5 ⟨1, 0, 4⟩ ∧ Spares steps 5 ⟨1, 1, 2⟩ ∧
      (reached steps 2).content? "key" = (reached steps 1).content? "key" := by
  intro steps
  have hanswer : (start.run steps).2[1]? = some (.content [1, 2, 1, 2]) := by decide +kernel
  obtain ⟨-, -, -, -, hframe⟩ := (outputs_are_fresh steps).1 1 _ "twice" _ rfl rfl hanswer rfl
  have hpart : Family steps 1 2 := .view rfl (by decide +kernel) .root
  have hsource : ¬ Family steps 1 0 := fun h => absurd (le_of_family h) (by decide)
  have hlater : ¬ Family steps 1 3 := not_family_of_fresh (by decide) nofun
  have hthrough := (hframe 4 (.fill "part" 9) "part" 2 rfl rfl (by decide +kernel)).1 hpart
  have haround := (hframe 5 (.put "key" 0 7) "key" 0 rfl rfl (by decide +kernel)).2 hsource
  refine ⟨hpart, hthrough.1 0 _ (by decide) (by decide +kernel) hsource,
    hthrough.1 3 _ (by decide) (by decide +kernel) hlater,
    haround 1 _ (by decide) (by decide +kernel) .root,
    haround 2 _ (by decide) (by decide +kernel) hpart, ?_⟩
  exact ((outputs_are_fresh steps).2 1 (.concat ["key", "key"] "twice") rfl rfl).2 "key"
    (by decide +kernel)

end Session

end IpsecTransform
