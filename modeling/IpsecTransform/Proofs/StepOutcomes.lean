import IpsecTransform.Proofs.KeyOwnership
import IpsecTransform.Proofs.RecordSlices

/-!
What the steps of a session do, told in bytes and descriptors. Fifteen kinds of steps make
six kinds of changes, and the change and the answer of a step depend only on what stands
under its labels. Windows and blocks carry this out: they settle which later writes a buffer
will see, and nothing else.
-/

namespace IpsecTransform

/-- What a step changes in a session. -/
inductive Change where
  | none
  /-- A buffer of fresh memory is bound. -/
  | make (target : String) (content : Bytes)
  /-- A part of a buffer is bound. -/
  | share (source target : String) (extent : Extent)
  /-- A buffer is written from an offset on. -/
  | write (source : String) (offset : Nat) (bytes : Bytes)
  | build (target : String) (descriptor : Descriptor)
  | drop (target : String)

namespace Session

open Memory

def content? (session : Session) (label : String) : Option Bytes :=
  (session.buffers.get? label).map session.memory.read

def reading (session : Session) (label : String) (go : Bytes → Change × Answer) :
    Change × Answer :=
  match session.content? label with
  | some content => go content
  | none => (.none, .failed .unboundLabel)

def consulting (session : Session) (label : String) (go : Descriptor → Change × Answer) :
    Change × Answer :=
  match session.descriptor? label with
  | some descriptor => go descriptor
  | none => (.none, .failed .unboundLabel)

theorem reading_of_content? {session : Session} {label : String} {content : Bytes}
    (h : session.content? label = some content) (go : Bytes → Change × Answer) :
    session.reading label go = go content := by
  rw [reading, h]

theorem consulting_of_descriptor? {session : Session} {label : String} {descriptor : Descriptor}
    (h : session.descriptor? label = some descriptor) (go : Descriptor → Change × Answer) :
    session.consulting label go = go descriptor := by
  rw [consulting, h]

theorem reading_cases {session : Session} {label : String} {go : Bytes → Change × Answer}
    {motive : Change × Answer → Prop} (hunbound : motive (.none, .failed .unboundLabel))
    (hbound : ∀ content, motive (go content)) : motive (session.reading label go) := by
  rw [reading]
  cases session.content? label with
  | none => exact hunbound
  | some content => exact hbound content

theorem consulting_cases {session : Session} {label : String} {go : Descriptor → Change × Answer}
    {motive : Change × Answer → Prop} (hunbound : motive (.none, .failed .unboundLabel))
    (hbound : ∀ descriptor, motive (go descriptor)) : motive (session.consulting label go) := by
  rw [consulting]
  cases session.descriptor? label with
  | none => exact hunbound
  | some descriptor => exact hbound descriptor

def making (target : String) (content : Bytes) : Change × Answer :=
  (.make target content, .content content)

def building (target : String) : Except Fault Descriptor → Change × Answer
  | .ok descriptor => (.build target descriptor, .fields descriptor)
  | .error fault => (.none, .failed fault)

/-- What a step changes and what it answers. -/
def outcome (session : Session) : Step → Change × Answer
  | .load target bytes => making target bytes
  | .view source start stop target =>
      session.reading source fun content =>
        (.share source target { start, size := stop - start },
          .content ((content.drop start).take (stop - start)))
  | .concat sources target =>
      match sources.mapM session.content? with
      | some contents => making target contents.flatten
      | none => (.none, .failed .unboundLabel)
  | .fill source value =>
      session.reading source fun content =>
        (.write source 0 (List.replicate content.length value),
          .content (List.replicate content.length value))
  | .put source position value =>
      session.reading source fun content =>
        (.write source position [value],
          .content ((content.overwrite? position [value]).getD content))
  | .content source => session.reading source fun content => (.none, .content content)
  | .create target name key requested =>
      session.reading key fun key => building target (Descriptor.create name key requested)
  | .trust target name key truncation =>
      session.reading key fun key => building target (.ok { name, key, truncation })
  | .fields source => session.consulting source fun descriptor => (.none, .fields descriptor)
  | .exportKey source target =>
      session.consulting source fun descriptor => making target descriptor.key
  | .describe source reveal =>
      session.consulting source fun descriptor => (.none, .text (descriptor.describe reveal))
  | .encode source target =>
      session.consulting source fun descriptor => making target (Record.encode descriptor)
  | .decode source target =>
      session.reading source fun record => building target (Record.decode record)
  | .compare left right =>
      (.none, .equal (Descriptor.equal (session.descriptor? left) (session.descriptor? right)))
  | .drop source => (.drop source, .dropped (session.descriptor? source).isSome)

/-- How a change is carried out in memory, which may grow beside it. -/
inductive Performs (session : Session) : Change → Session → Prop where
  | none {memory : Memory} (hgrows : session.memory.Extends memory) :
      Performs session .none { session with memory }
  | make {target : String} {content : Bytes} {grown : Memory}
      (hgrows : session.memory.Extends grown) :
      Performs session (.make target content)
        { session with
          memory := (grown.allocate content).2
          buffers := session.buffers.bind target (grown.allocate content).1 }
  | share {source target : String} {extent : Extent} {window : Window}
      (hbound : session.buffers.get? source = some window) :
      Performs session (.share source target extent)
        { session with buffers := session.buffers.bind target (window.part extent) }
  | write {source : String} {offset : Nat} {bytes : Bytes} {window : Window}
      (hbound : session.buffers.get? source = some window) :
      Performs session (.write source offset bytes)
        { session with memory := session.memory.write window offset bytes }
  | build {target : String} {descriptor : Descriptor} {memory : Memory} {holding : Holding}
      (hgrows : session.memory.Extends memory) (hfresh : session.memory.Fresh memory holding.key)
      (hdescriptor : memory.descriptor holding = descriptor) :
      Performs session (.build target descriptor)
        { session with memory, descriptors := session.descriptors.bind target holding }
  | drop {target : String} :
      Performs session (.drop target)
        { session with descriptors := session.descriptors.drop target }

/-- A step has the outcome: its change is carried out, and its answer given. -/
structure Realizes (session : Session) (outcome : Change × Answer) (result : Session × Answer) :
    Prop where
  performs : session.Performs outcome.1 result.1
  answer : result.2 = outcome.2

variable {session : Session}

theorem realizes_none {answer : Answer} : session.Realizes (.none, answer) (session, answer) :=
  ⟨.none (Extends.refl session.memory), rfl⟩

theorem realizes_withBuffer {label : String} {go : Window → Session × Answer}
    {outcome : Bytes → Change × Answer}
    (h : ∀ window, session.buffers.get? label = some window →
      session.Realizes (outcome (session.memory.read window)) (go window)) :
    session.Realizes (session.reading label outcome) (session.withBuffer label go) := by
  rw [reading, content?, withBuffer]
  cases hbound : session.buffers.get? label with
  | none => exact realizes_none
  | some window => exact h window hbound

theorem realizes_withDescriptor {label : String} {go : Holding → Session × Answer}
    {outcome : Descriptor → Change × Answer}
    (h : ∀ holding, session.Realizes (outcome (session.memory.descriptor holding)) (go holding)) :
    session.Realizes (session.consulting label outcome) (session.withDescriptor label go) := by
  rw [consulting, descriptor?, withDescriptor]
  cases session.descriptors.get? label with
  | none => exact realizes_none
  | some holding => exact h holding

theorem realizes_making {target : String} {content : Bytes} {grown : Memory}
    (hgrows : session.memory.Extends grown) :
    session.Realizes (making target content)
      (session.bindBuffer target (grown.allocate content)) :=
  ⟨.make hgrows, congrArg Answer.content (made_allocate grown content).read⟩

theorem realizes_showFields (holding : Holding) :
    session.Realizes (.none, .fields (session.memory.descriptor holding))
      (session.showFields holding) := by
  have hshown := made_exportKey session.memory holding
  exact ⟨.none hshown.grows, congrArg
    (fun key => Answer.fields { name := holding.name, key, truncation := holding.truncation })
    hshown.read⟩

theorem realizes_building {target : String} {result : Except Fault Descriptor}
    {made : Except Fault Holding × Memory} (h : session.memory.Builds result made) :
    session.Realizes (building target result) (session.bindDescriptor target made) := by
  rcases made with ⟨outcome, memory⟩
  obtain ⟨hgrows, hfresh, rfl⟩ := h
  cases outcome with
  | error fault => exact ⟨.none hgrows, rfl⟩
  | ok holding =>
      have hkey := hfresh holding rfl
      have hshown := (made_exportKey memory holding).grows
      refine ⟨.build (hgrows.trans hshown) (hkey.extend hshown) ?_,
        (realizes_showFields holding).answer⟩
      exact congrArg
        (fun key => ({ name := holding.name, key, truncation := holding.truncation } : Descriptor))
        (hshown.read_eq hkey.inside)

theorem mapM_content? (session : Session) (labels : List String) :
    labels.mapM session.content? =
      (labels.mapM session.buffers.get?).map fun windows => windows.map session.memory.read := by
  induction labels with
  | nil => rfl
  | cons label labels ih =>
      simp only [List.mapM_cons, ih, content?]
      cases session.buffers.get? label with
      | none => rfl
      | some window => cases labels.mapM session.buffers.get? <;> rfl

/-- Every step has its outcome, as long as the buffers lie inside their blocks. -/
theorem realizes_step (session : Session) (step : Step)
    (hinside : ∀ label window, session.buffers.get? label = some window →
      window.Inside session.memory) :
    session.Realizes (session.outcome step) (session.step step) := by
  cases step with
  | load target bytes => exact realizes_making (Extends.refl session.memory)
  | view source start stop target =>
      apply realizes_withBuffer
      intro window hbound
      exact ⟨.share hbound, congrArg Answer.content (read_part session.memory window _)⟩
  | concat sources target =>
      rw [outcome, Session.step, mapM_content?]
      cases sources.mapM session.buffers.get? with
      | none => exact realizes_none
      | some windows =>
          simp only [Option.map_some, ← Bytes.concat_eq_flatten]
          exact realizes_making (Extends.refl session.memory)
  | fill source value =>
      apply realizes_withBuffer
      intro window hbound
      have hwindow := hinside source window hbound
      have hread := read_write hwindow 0 (List.replicate window.size value)
      rw [Bytes.overwrite?_all (by rw [List.length_replicate, length_read hwindow])] at hread
      rw [length_read hwindow]
      exact ⟨.write hbound, congrArg Answer.content hread⟩
  | put source position value =>
      apply realizes_withBuffer
      intro window hbound
      exact ⟨.write hbound, congrArg Answer.content
        (read_write (hinside source window hbound) position [value])⟩
  | content source =>
      apply realizes_withBuffer
      intro window _
      exact realizes_none
  | create target name key requested =>
      apply realizes_withBuffer
      intro window hbound
      have hbuilds := builds_create session.memory name window requested
      rw [← length_read (hinside key window hbound)] at hbuilds
      exact realizes_building hbuilds
  | trust target name key truncation =>
      apply realizes_withBuffer
      intro window _
      exact realizes_building (builds_hold session.memory name window truncation)
  | fields source =>
      apply realizes_withDescriptor
      intro holding
      exact realizes_showFields holding
  | exportKey source target =>
      apply realizes_withDescriptor
      intro holding
      exact realizes_making (Extends.refl session.memory)
  | describe source reveal =>
      apply realizes_withDescriptor
      intro holding
      exact realizes_none
  | encode source target =>
      apply realizes_withDescriptor
      intro holding
      obtain ⟨grown, hgrows, hencode⟩ := exists_allocate_encode session.memory holding
      rw [hencode]
      exact realizes_making hgrows
  | decode source target =>
      apply realizes_withBuffer
      intro window hbound
      have hwindow := hinside source window hbound
      have hbuilds := builds_decode hwindow
      have hslice : (session.memory.slice window).Inside := hwindow.stop_le
      rw [Record.decodeSlice_eq_decode hslice] at hbuilds
      exact realizes_building hbuilds
  | compare left right => exact realizes_none
  | drop source =>
      refine ⟨.drop, ?_⟩
      rw [Session.step, outcome, descriptor?, Option.isSome_map]

end Session

def Change.rebound (change : Change) (label : String) (before : Option Descriptor) :
    Option Descriptor :=
  match change with
  | .build target descriptor => if label = target then some descriptor else before
  | .drop target => if label = target then Option.none else before
  | _ => before

theorem Change.of_rebound_eq_some {change : Change} {label : String} {before : Option Descriptor}
    {descriptor : Descriptor} (h : change.rebound label before = some descriptor) :
    before = some descriptor ∨ change = .build label descriptor := by
  cases change with
  | build target built =>
      rw [rebound] at h
      split at h
      · rename_i hlabel
        rw [hlabel, Option.some.inj h]
        exact Or.inr rfl
      · exact Or.inl h
  | drop target =>
      rw [rebound] at h
      split at h
      · cases h
      · exact Or.inl h
  | none | make _ _ | share _ _ _ | write _ _ _ => exact Or.inl h

namespace Session

open Memory

theorem descriptor?_of_performs {session after : Session} {change : Change} {made : List Holding}
    (h : session.Owned made) (hperforms : session.Performs change after) (label : String) :
    after.descriptor? label = change.rebound label (session.descriptor? label) := by
  have hkey : ∀ holding, session.descriptors.get? label = some holding →
      holding.key.Inside session.memory :=
    fun holding hbound => h.keys_inside holding (h.bound_made label holding hbound)
  cases hperforms with
  | none hgrows =>
      exact descriptor?_congr rfl fun holding hbound => hgrows.read_eq (hkey holding hbound)
  | @make _ content grown hgrows =>
      have hgrows := hgrows.trans (made_allocate grown content).grows
      exact descriptor?_congr rfl fun holding hbound => hgrows.read_eq (hkey holding hbound)
  | share hbound => exact descriptor?_congr rfl fun _ _ => rfl
  | write hwindow =>
      refine descriptor?_congr rfl ?_
      intro holding hbound
      exact read_write_of_ne
        (h.buffers_apart _ _ hwindow holding (h.bound_made label holding hbound)).symm
  | @build target _ memory holding hgrows hfresh hdescriptor =>
      rw [Change.rebound]
      by_cases hlabel : label = target
      · rw [if_pos hlabel, descriptor?, Bindings.get?_bind, if_pos hlabel, Option.map_some,
          hdescriptor]
      · rw [if_neg hlabel]
        refine descriptor?_congr ?_ fun holding hbound => hgrows.read_eq (hkey holding hbound)
        rw [Bindings.get?_bind, if_neg hlabel]
  | @drop target =>
      rw [Change.rebound]
      by_cases hlabel : label = target
      · rw [if_pos hlabel, descriptor?, Bindings.get?_drop, if_pos hlabel, Option.map_none]
      · rw [if_neg hlabel]
        refine descriptor?_congr ?_ fun _ _ => rfl
        rw [Bindings.get?_drop, if_neg hlabel]

theorem reading_eq_build_iff {session : Session} {label target : String}
    {go : Bytes → Change × Answer} {descriptor : Descriptor} :
    (session.reading label go).1 = .build target descriptor ↔
      ∃ content, session.content? label = some content ∧
        (go content).1 = .build target descriptor := by
  rw [reading]
  cases session.content? label with
  | none => simp
  | some content => simp

theorem consulting_eq_build_iff {session : Session} {label target : String}
    {go : Descriptor → Change × Answer} {descriptor : Descriptor} :
    (session.consulting label go).1 = .build target descriptor ↔
      ∃ found, session.descriptor? label = some found ∧
        (go found).1 = .build target descriptor := by
  rw [consulting]
  cases session.descriptor? label with
  | none => simp
  | some found => simp

theorem building_eq_build_iff {target target' : String} {result : Except Fault Descriptor}
    {descriptor : Descriptor} :
    (building target result).1 = .build target' descriptor ↔
      target = target' ∧ result = .ok descriptor := by
  cases result with
  | error fault => simp [building]
  | ok built => simp [building]

theorem outcome_eq_build {session : Session} {step : Step} {target : String}
    {descriptor : Descriptor} (h : (session.outcome step).1 = .build target descriptor) :
    (∃ name label key requested, step = .create target name label requested ∧
        session.content? label = some key ∧
        Descriptor.create name key requested = .ok descriptor) ∨
      (∃ name label truncation, step = .trust target name label truncation) ∨
      (∃ source record, step = .decode source target ∧ session.content? source = some record ∧
        Record.decode record = .ok descriptor) := by
  cases step with
  | create target' name label requested =>
      obtain ⟨key, hkey, hbuild⟩ := reading_eq_build_iff.mp h
      obtain ⟨rfl, hcreate⟩ := building_eq_build_iff.mp hbuild
      exact Or.inl ⟨name, label, key, requested, rfl, hkey, hcreate⟩
  | trust target' name label truncation =>
      obtain ⟨key, -, hbuild⟩ := reading_eq_build_iff.mp h
      obtain ⟨rfl, -⟩ := building_eq_build_iff.mp hbuild
      exact Or.inr (Or.inl ⟨name, label, truncation, rfl⟩)
  | decode source target' =>
      obtain ⟨record, hrecord, hbuild⟩ := reading_eq_build_iff.mp h
      obtain ⟨rfl, hdecode⟩ := building_eq_build_iff.mp hbuild
      exact Or.inr (Or.inr ⟨source, record, rfl, hrecord, hdecode⟩)
  | concat sources target' =>
      rw [outcome] at h
      cases hcontents : sources.mapM session.content? with
      | none => simp [hcontents] at h
      | some contents => simp [hcontents, making] at h
  | view | fill | put | content =>
      obtain ⟨content, -, hbuild⟩ := reading_eq_build_iff.mp h
      cases hbuild
  | fields | exportKey | describe | encode =>
      obtain ⟨found, -, hbuild⟩ := consulting_eq_build_iff.mp h
      cases hbuild
  | load | compare | drop => cases h

end Session

end IpsecTransform
