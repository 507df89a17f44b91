import Mathlib.Data.Set.Defs
import IpsecTransform.Proofs.DescriptorLikeness
import IpsecTransform.Proofs.MemoryMirrors
import IpsecTransform.Proofs.StepOutcomes

/-!
Two sessions side by side. Under the labels of a scope both show alike bytes and bind alike
descriptors, and where buffers share memory in one they do in the other. Alike changes on both
sides keep it so, and so does a change on one side that keeps out of the scope.
-/

namespace IpsecTransform

/-- A label of a session, with the kind of what it is bound to. -/
inductive Label where
  | buffer (label : String)
  | descriptor (label : String)
deriving DecidableEq

namespace Change

/-- The same change with alike bytes. -/
inductive Alike (alike : UInt8 → UInt8 → Prop) : Change → Change → Prop where
  | none : Alike alike .none .none
  | make {target : String} {content content' : Bytes}
      (hcontent : List.Forall₂ alike content content') :
      Alike alike (.make target content) (.make target content')
  | share {source target : String} {extent : Extent} :
      Alike alike (.share source target extent) (.share source target extent)
  | write {source : String} {offset : Nat} {bytes bytes' : Bytes}
      (hbytes : List.Forall₂ alike bytes bytes') :
      Alike alike (.write source offset bytes) (.write source offset bytes')
  | build {target : String} {descriptor descriptor' : Descriptor}
      (hdescriptor : descriptor.Alike alike descriptor') :
      Alike alike (.build target descriptor) (.build target descriptor')
  | drop {target : String} : Alike alike (.drop target) (.drop target)

def source? : Change → Option String
  | .share source .. => some source
  | .write source .. => some source
  | _ => Option.none

def sets? : Change → Option Label
  | .make target _ => some (.buffer target)
  | .share _ target _ => some (.buffer target)
  | .build target _ => some (.descriptor target)
  | .drop target => some (.descriptor target)
  | _ => Option.none

variable {alike : UInt8 → UInt8 → Prop} {change change' : Change} {label : String}

theorem alike_refl (change : Change) : change.Alike Eq change := by
  cases change with
  | none => exact .none
  | make target content => exact .make (List.forall₂_refl content)
  | share source target extent => exact .share
  | write source offset bytes => exact .write (List.forall₂_refl bytes)
  | build target descriptor => exact .build descriptor.alike_refl
  | drop target => exact .drop

theorem rebound_of_sets?_ne (h : change.sets? ≠ some (.descriptor label))
    (before : Option Descriptor) : change.rebound label before = before := by
  cases change with
  | build target descriptor =>
      refine if_neg ?_
      rintro rfl
      exact h rfl
  | drop target =>
      refine if_neg ?_
      rintro rfl
      exact h rfl
  | none | make _ _ | share _ _ _ | write _ _ _ => rfl

theorem Alike.rebound (h : change.Alike alike change') {before before' : Option Descriptor}
    (hbefore : change.sets? ≠ some (.descriptor label) →
      Option.Rel (Descriptor.Alike alike) before before') :
    Option.Rel (Descriptor.Alike alike) (change.rebound label before)
      (change'.rebound label before') := by
  cases h with
  | @build target descriptor descriptor' hdescriptor =>
      rw [Change.rebound, Change.rebound]
      split
      · exact .some hdescriptor
      · rename_i hlabel
        refine hbefore ?_
        rintro ⟨⟩
        exact hlabel rfl
  | @drop target =>
      rw [Change.rebound, Change.rebound]
      split
      · exact .none
      · rename_i hlabel
        refine hbefore ?_
        rintro ⟨⟩
        exact hlabel rfl
  | none | make _ | share | write _ =>
      refine hbefore ?_
      rintro ⟨⟩

end Change

section Options

variable {Left Right : Type} {related : Left → Right → Prop} {left : Option Left}
  {right : Option Right}

theorem rel_cases (h : Option.Rel related left right) :
    (left = none ∧ right = none) ∨
      ∃ value value', left = some value ∧ right = some value' ∧ related value value' := by
  cases h with
  | none => exact Or.inl ⟨rfl, rfl⟩
  | some hrelated => exact Or.inr ⟨_, _, rfl, rfl, hrelated⟩

theorem rel_refl {Value : Type} {related : Value → Value → Prop} (h : ∀ value, related value value)
    (value : Option Value) : Option.Rel related value value := by
  cases value with
  | some value => exact .some (h value)
  | none => exact .none

theorem rel_map {Left' Right' : Type} {related' : Left' → Right' → Prop}
    (h : Option.Rel related left right) {go : Left → Left'} {go' : Right → Right'}
    (hgo : ∀ left right, related left right → related' (go left) (go' right)) :
    Option.Rel related' (left.map go) (right.map go') := by
  cases h with
  | some hrelated => exact .some (hgo _ _ hrelated)
  | none => exact .none

theorem rel_of_imp {related' : Left → Right → Prop} (h : Option.Rel related left right)
    (himp : ∀ left right, related left right → related' left right) :
    Option.Rel related' left right := by
  have hmap := rel_map h himp
  rwa [Option.map_id', Option.map_id'] at hmap

theorem map_eq_of_rel {Value : Type} (h : Option.Rel related left right) {go : Left → Value}
    {go' : Right → Value} (hgo : ∀ left right, related left right → go left = go' right) :
    left.map go = right.map go' := by
  rcases rel_cases h with ⟨rfl, rfl⟩ | ⟨value, value', rfl, rfl, hrelated⟩
  · rfl
  · rw [Option.map_some, Option.map_some, hgo value value' hrelated]

theorem eq_of_rel {Value : Type} {related : Value → Value → Prop} {left right : Option Value}
    (h : Option.Rel related left right) (heq : ∀ left right, related left right → left = right) :
    left = right := by
  have hmap := map_eq_of_rel h heq
  rwa [Option.map_id', Option.map_id'] at hmap

theorem isSome_eq_of_rel (h : Option.Rel related left right) : left.isSome = right.isSome := by
  rcases rel_cases h with ⟨rfl, rfl⟩ | ⟨value, value', rfl, rfl, -⟩
  · rfl
  · rfl

theorem rel_mapM {go : String → Option Left} {go' : String → Option Right}
    (h : ∀ label, Option.Rel related (go label) (go' label)) (labels : List String) :
    Option.Rel (List.Forall₂ related) (labels.mapM go) (labels.mapM go') := by
  induction labels with
  | nil => exact .some .nil
  | cons label labels ih =>
      rw [List.mapM_cons, List.mapM_cons]
      rcases rel_cases (h label) with ⟨hleft, hright⟩ | ⟨value, value', hleft, hright, hvalue⟩
      · rw [hleft, hright]
        exact .none
      · rw [hleft, hright]
        rcases rel_cases ih with ⟨hrest, hrest'⟩ | ⟨values, values', hrest, hrest', hvalues⟩
        · rw [hrest, hrest']
          exact .none
        · rw [hrest, hrest']
          exact .some (.cons hvalue hvalues)

end Options

namespace Session

open Memory

/-- Under the labels of a scope both sessions hold the same, up to where it lies in memory and
up to bytes that are alike. -/
structure Mirrors (alike : UInt8 → UInt8 → Prop) (pairs : Nat → Nat → Prop) (scope : Set Label)
    (left right : Session) : Prop where
  memory : left.memory.Mirrors alike pairs right.memory
  buffers : ∀ label, .buffer label ∈ scope →
    Option.Rel (Window.Paired pairs) (left.buffers.get? label) (right.buffers.get? label)
  descriptors : ∀ label, .descriptor label ∈ scope →
    Option.Rel (Descriptor.Alike alike) (left.descriptor? label) (right.descriptor? label)

variable {alike : UInt8 → UInt8 → Prop} {pairs : Nat → Nat → Prop} {scope : Set Label}
  {left right left' right' : Session} {change change' : Change} {made made' : List Holding}

theorem mirrors_start (alike : UInt8 → UInt8 → Prop) :
    start.Mirrors alike (fun _ _ => False) Set.univ start where
  memory := Memory.mirrors_unpaired alike _ _
  buffers _ _ := .none
  descriptors _ _ := .none

theorem Mirrors.mono (h : left.Mirrors alike pairs scope right) {smaller : Set Label}
    (hsmaller : ∀ label ∈ smaller, label ∈ scope) : left.Mirrors alike pairs smaller right where
  memory := h.memory
  buffers label hlabel := h.buffers label (hsmaller _ hlabel)
  descriptors label hlabel := h.descriptors label (hsmaller _ hlabel)

theorem Mirrors.content? (h : left.Mirrors alike pairs scope right) {label : String}
    (hlabel : .buffer label ∈ scope) :
    Option.Rel (List.Forall₂ alike) (left.content? label) (right.content? label) :=
  rel_map (h.buffers label hlabel) fun _ _ hwindow => h.memory.read hwindow

theorem Mirrors.exists_paired (h : left.Mirrors alike pairs scope right) {label : String}
    {window' : Window} (hlabel : .buffer label ∈ scope)
    (hbound : right.buffers.get? label = some window') :
    ∃ window, left.buffers.get? label = some window ∧ window.Paired pairs window' := by
  rcases rel_cases (h.buffers label hlabel) with ⟨-, hright⟩ | ⟨window, other, hleft, hright, hpaired⟩
  · rw [hbound] at hright
    cases hright
  · rw [hbound, Option.some.injEq] at hright
    rw [← hright] at hpaired
    exact ⟨window, hleft, hpaired⟩

theorem Mirrors.rel_bind (h : left.Mirrors alike pairs scope right) {pairs' : Nat → Nat → Prop}
    (hpairs : ∀ index index', pairs index index' → pairs' index index') {target : String}
    {window window' : Window} (hwindow : window.Paired pairs' window') {label : String}
    (hlabel : .buffer label ∈ scope ∨ some (Label.buffer target) = some (.buffer label)) :
    Option.Rel (Window.Paired pairs') ((left.buffers.bind target window).get? label)
      ((right.buffers.bind target window').get? label) := by
  rw [Bindings.get?_bind, Bindings.get?_bind]
  split
  · exact .some hwindow
  · rename_i hne
    have hscope : .buffer label ∈ scope := by
      refine hlabel.resolve_right ?_
      rintro ⟨⟩
      exact hne rfl
    exact rel_of_imp (h.buffers label hscope) fun _ _ hpaired => hpaired.imp hpairs

/-- Alike changes put windows on paired blocks under their target: fresh blocks are paired, and
what shares memory on one side shares it on the other. -/
theorem Mirrors.performs_buffers (h : left.Mirrors alike pairs scope right)
    (hchange : change.Alike alike change')
    (hsource : ∀ label, change.source? = some label → .buffer label ∈ scope)
    (hleft : left.Performs change left') (hright : right.Performs change' right') :
    ∃ pairs', right.memory.AddsFresh pairs pairs' ∧
      left'.memory.Mirrors alike pairs' right'.memory ∧
      ∀ label, .buffer label ∈ scope ∨ change.sets? = some (.buffer label) →
        Option.Rel (Window.Paired pairs') (left'.buffers.get? label)
          (right'.buffers.get? label) := by
  have hkept := addsFresh_refl right.memory pairs
  have hbuffers : ∀ label, .buffer label ∈ scope ∨ none = some (Label.buffer label) →
      Option.Rel (Window.Paired pairs) (left.buffers.get? label) (right.buffers.get? label) :=
    fun label hlabel => h.buffers label (hlabel.resolve_right nofun)
  cases hchange with
  | none =>
      cases hleft with
      | none hgrows =>
      cases hright with
      | none hgrows' => exact ⟨pairs, hkept, h.memory.extend hgrows hgrows', hbuffers⟩
  | make hcontent =>
      cases hleft with
      | @make _ _ grown hgrows =>
      cases hright with
      | @make _ _ grown' hgrows' =>
      exact ⟨joined pairs grown grown', addsFresh_joined hgrows' grown pairs,
        (h.memory.extend hgrows hgrows').allocate hcontent,
        fun label => h.rel_bind (fun _ _ => Or.inl) (paired_allocate hcontent.length_eq)⟩
  | @share source target extent =>
      cases hleft with
      | @share _ _ _ window hbound =>
      cases hright with
      | @share _ _ _ window' hbound' =>
      obtain ⟨other, hother, hpaired⟩ := h.exists_paired (hsource source rfl) hbound'
      rw [hbound, Option.some.injEq] at hother
      subst hother
      exact ⟨pairs, hkept, h.memory, fun label => h.rel_bind (fun _ _ => id) (hpaired.part extent)⟩
  | @write source offset bytes bytes' hbytes =>
      cases hleft with
      | @write _ _ _ window hbound =>
      cases hright with
      | @write _ _ _ window' hbound' =>
      obtain ⟨other, hother, hpaired⟩ := h.exists_paired (hsource source rfl) hbound'
      rw [hbound, Option.some.injEq] at hother
      subst hother
      exact ⟨pairs, hkept, h.memory.write hpaired offset hbytes, hbuffers⟩
  | build hdescriptor =>
      cases hleft with
      | build hgrows =>
      cases hright with
      | build hgrows' =>
      exact ⟨pairs, hkept, h.memory.extend hgrows hgrows',
        fun label hlabel => hbuffers label (hlabel.imp_right nofun)⟩
  | drop =>
      cases hleft
      cases hright
      exact ⟨pairs, hkept, h.memory, fun label hlabel => hbuffers label (hlabel.imp_right nofun)⟩

theorem Mirrors.performs (h : left.Mirrors alike pairs scope right) (howned : left.Owned made)
    (howned' : right.Owned made') (hchange : change.Alike alike change')
    (hsource : ∀ label, change.source? = some label → .buffer label ∈ scope)
    (hleft : left.Performs change left') (hright : right.Performs change' right') :
    ∃ pairs', right.memory.AddsFresh pairs pairs' ∧
      left'.Mirrors alike pairs' {label | label ∈ scope ∨ change.sets? = some label} right' := by
  obtain ⟨pairs', hpairs, hmemory, hbuffers⟩ := h.performs_buffers hchange hsource hleft hright
  refine ⟨pairs', hpairs, hmemory, hbuffers, ?_⟩
  intro label hlabel
  rw [descriptor?_of_performs howned hleft, descriptor?_of_performs howned' hright]
  exact hchange.rebound fun hne => h.descriptors label (hlabel.resolve_right hne)

theorem get?_buffers_of_performs (h : left.Performs change left') {label : String}
    (hsets : change.sets? ≠ some (.buffer label)) :
    left'.buffers.get? label = left.buffers.get? label := by
  have hne : ∀ target, change.sets? = some (.buffer target) → label ≠ target := by
    rintro target htarget rfl
    exact hsets htarget
  cases h with
  | make => rw [Bindings.get?_bind, if_neg (hne _ rfl)]
  | share => rw [Bindings.get?_bind, if_neg (hne _ rfl)]
  | none | write | build | drop => rfl

theorem Mirrors.performs_right (h : left.Mirrors alike pairs scope right)
    (howned : right.Owned made) (hright : right.Performs change right')
    (hsets : ∀ label ∈ scope, change.sets? ≠ some label)
    (hsource : ∀ label window, change.source? = some label →
      right.buffers.get? label = some window → ∀ index, ¬ pairs index window.block) :
    left.Mirrors alike pairs scope right' := by
  have hdescriptors : ∀ label, .descriptor label ∈ scope →
      Option.Rel (Descriptor.Alike alike) (left.descriptor? label) (right'.descriptor? label) := by
    intro label hlabel
    rw [descriptor?_of_performs howned hright, Change.rebound_of_sets?_ne (hsets _ hlabel)]
    exact h.descriptors label hlabel
  have hbuffers : ∀ label, .buffer label ∈ scope →
      Option.Rel (Window.Paired pairs) (left.buffers.get? label) (right'.buffers.get? label) := by
    intro label hlabel
    rw [get?_buffers_of_performs hright (hsets _ hlabel)]
    exact h.buffers label hlabel
  refine ⟨?_, hbuffers, hdescriptors⟩
  have hrefl := Extends.refl left.memory
  cases hright with
  | none hgrows => exact h.memory.extend hrefl hgrows
  | @make target content grown hgrows =>
      exact h.memory.extend hrefl (hgrows.trans (made_allocate grown content).grows)
  | @write source offset bytes window hbound =>
      exact h.memory.write_right (hsource source window rfl hbound) offset bytes
  | build hgrows => exact h.memory.extend hrefl hgrows
  | share | drop => exact h.memory

end Session

end IpsecTransform
