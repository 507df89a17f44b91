import Mathlib.Data.List.Forall2
import IpsecTransform.Proofs.MemoryWindows

/-!
Two memories side by side. Some blocks of one stand for blocks of the other and hold alike
bytes; the other blocks of either memory may be anything. Reading, allocating and writing on
both sides keep it so, and a write on one side does as long as it stays out of paired blocks.
-/

namespace IpsecTransform

variable {alike : UInt8 → UInt8 → Prop} {pairs : Nat → Nat → Prop}

structure Window.Paired (pairs : Nat → Nat → Prop) (left right : Window) : Prop where
  block : pairs left.block right.block
  start : left.start = right.start
  size : left.size = right.size

theorem Window.Paired.part {left right : Window} (h : left.Paired pairs right) (extent : Extent) :
    (left.part extent).Paired pairs (right.part extent) := by
  refine ⟨h.block, ?_, ?_⟩
  · simp only [Window.part, h.start, h.size]
  · simp only [Window.part, h.size]

theorem Window.Paired.imp {pairs' : Nat → Nat → Prop} {left right : Window}
    (h : left.Paired pairs right)
    (hpairs : ∀ index index', pairs index index' → pairs' index index') :
    left.Paired pairs' right :=
  ⟨hpairs _ _ h.block, h.start, h.size⟩

theorem Bytes.forall₂_overwrite? {left right part part' : Bytes} (h : List.Forall₂ alike left right)
    (hpart : List.Forall₂ alike part part') (position : Nat) :
    List.Forall₂ alike ((left.overwrite? position part).getD left)
      ((right.overwrite? position part').getD right) := by
  rw [overwrite?, overwrite?, ← h.length_eq, ← hpart.length_eq]
  split
  · exact List.rel_append (List.rel_append (List.forall₂_take position h) hpart)
      (List.forall₂_drop (position + part.length) h)
  · exact h

namespace Memory

/-- Blocks are paired one to one, and paired blocks hold alike bytes. -/
structure Mirrors (alike : UInt8 → UInt8 → Prop) (pairs : Nat → Nat → Prop)
    (left right : Memory) : Prop where
  left_lt : ∀ index index', pairs index index' → index < left.blocks.length
  right_lt : ∀ index index', pairs index index' → index' < right.blocks.length
  one_to_one : ∀ first first' second second', pairs first first' → pairs second second' →
    (first = second ↔ first' = second')
  blocks : ∀ index index', pairs index index' →
    List.Forall₂ alike (left.block index) (right.block index')

variable {left right : Memory}

theorem mirrors_unpaired (alike : UInt8 → UInt8 → Prop) (left right : Memory) :
    left.Mirrors alike (fun _ _ => False) right where
  left_lt := nofun
  right_lt := nofun
  one_to_one := nofun
  blocks := nofun

theorem Mirrors.read (h : left.Mirrors alike pairs right) {window window' : Window}
    (hwindow : window.Paired pairs window') :
    List.Forall₂ alike (left.read window) (right.read window') := by
  simp only [Memory.read, slice, Slice.bytes, hwindow.start, hwindow.size]
  exact List.forall₂_take _ (List.forall₂_drop _ (h.blocks _ _ hwindow.block))

theorem Mirrors.extend (h : left.Mirrors alike pairs right) {left' right' : Memory}
    (hleft : left.Extends left') (hright : right.Extends right') :
    left'.Mirrors alike pairs right' where
  left_lt index index' hpair := Nat.lt_of_lt_of_le (h.left_lt index index' hpair) hleft.length_le
  right_lt index index' hpair := Nat.lt_of_lt_of_le (h.right_lt index index' hpair) hright.length_le
  one_to_one := h.one_to_one
  blocks index index' hpair := by
    rw [hleft.block_eq (h.left_lt index index' hpair),
      hright.block_eq (h.right_lt index index' hpair)]
    exact h.blocks index index' hpair

/-- The pairing with the next block of either memory paired, too. -/
def joined (pairs : Nat → Nat → Prop) (left right : Memory) (index index' : Nat) : Prop :=
  pairs index index' ∨ (index = left.blocks.length ∧ index' = right.blocks.length)

def AddsFresh (memory : Memory) (pairs pairs' : Nat → Nat → Prop) : Prop :=
  ∀ index index', pairs' index index' → pairs index index' ∨ memory.blocks.length ≤ index'

theorem addsFresh_refl (memory : Memory) (pairs : Nat → Nat → Prop) :
    memory.AddsFresh pairs pairs := fun _ _ => Or.inl

theorem addsFresh_joined {grown : Memory} (hgrows : right.Extends grown) (left : Memory)
    (pairs : Nat → Nat → Prop) : right.AddsFresh pairs (joined pairs left grown) := by
  rintro index index' (hpair | ⟨-, rfl⟩)
  · exact Or.inl hpair
  · exact Or.inr hgrows.length_le

theorem Mirrors.allocate (h : left.Mirrors alike pairs right) {content content' : Bytes}
    (hcontent : List.Forall₂ alike content content') :
    Mirrors alike (joined pairs left right) (left.allocate content).2
      (right.allocate content').2 := by
  have hleft := made_allocate left content
  have hright := made_allocate right content'
  have hbefore := h.extend hleft.grows hright.grows
  refine ⟨?_, ?_, ?_, ?_⟩
  · rintro index index' (hpair | ⟨rfl, -⟩)
    · exact hbefore.left_lt index index' hpair
    · exact hleft.fresh.inside.block_lt
  · rintro index index' (hpair | ⟨-, rfl⟩)
    · exact hbefore.right_lt index index' hpair
    · exact hright.fresh.inside.block_lt
  · rintro first first' second second' (hfirst | ⟨rfl, rfl⟩) (hsecond | ⟨rfl, rfl⟩)
    · exact h.one_to_one first first' second second' hfirst hsecond
    · -- blocks that were there before are not the new ones
      exact iff_of_false (Nat.ne_of_lt (h.left_lt first first' hfirst))
        (Nat.ne_of_lt (h.right_lt first first' hfirst))
    · exact iff_of_false (Nat.ne_of_gt (h.left_lt second second' hsecond))
        (Nat.ne_of_gt (h.right_lt second second' hsecond))
    · exact iff_of_true rfl rfl
  · rintro index index' (hpair | ⟨rfl, rfl⟩)
    · exact hbefore.blocks index index' hpair
    · rw [block_allocate, block_allocate]
      exact hcontent

theorem paired_allocate {content content' : Bytes} (h : content.length = content'.length) :
    (left.allocate content).1.Paired (joined pairs left right) (right.allocate content').1 :=
  ⟨Or.inr ⟨rfl, rfl⟩, rfl, h⟩

theorem Mirrors.write (h : left.Mirrors alike pairs right) {window window' : Window}
    (hwindow : window.Paired pairs window') (offset : Nat) {bytes bytes' : Bytes}
    (hbytes : List.Forall₂ alike bytes bytes') :
    (left.write window offset bytes).Mirrors alike pairs (right.write window' offset bytes') := by
  have hleft := h.left_lt _ _ hwindow.block
  have hright := h.right_lt _ _ hwindow.block
  refine ⟨?_, ?_, h.one_to_one, ?_⟩
  · rw [length_blocks_write]
    exact h.left_lt
  · rw [length_blocks_write]
    exact h.right_lt
  · intro index index' hpair
    have hsame := h.one_to_one _ _ _ _ hpair hwindow.block
    rcases Nat.lt_or_ge window.size (offset + bytes.length) with hlong | hroom
    · have hlong' : window'.size < offset + bytes'.length := by
        rwa [← hwindow.size, ← hbytes.length_eq]
      rw [Memory.write, Memory.write, if_neg (Nat.not_le.mpr hlong), if_neg (Nat.not_le.mpr hlong')]
      exact h.blocks index index' hpair
    · have hroom' : offset + bytes'.length ≤ window'.size := by
        rwa [← hwindow.size, ← hbytes.length_eq]
      by_cases hblock : index = window.block
      · rw [hblock, hsame.mp hblock, block_write_self hleft hroom, block_write_self hright hroom',
          hwindow.start]
        exact Bytes.forall₂_overwrite? (h.blocks _ _ hwindow.block) hbytes _
      · rw [block_write_of_ne left window offset bytes hblock,
          block_write_of_ne right window' offset bytes' fun heq => hblock (hsame.mpr heq)]
        exact h.blocks index index' hpair

theorem Mirrors.write_right (h : left.Mirrors alike pairs right) {window : Window}
    (hwindow : ∀ index, ¬ pairs index window.block) (offset : Nat) (bytes : Bytes) :
    left.Mirrors alike pairs (right.write window offset bytes) where
  left_lt := h.left_lt
  right_lt index index' hpair := by
    rw [length_blocks_write]
    exact h.right_lt index index' hpair
  one_to_one := h.one_to_one
  blocks index index' hpair := by
    rw [block_write_of_ne right window offset bytes]
    · exact h.blocks index index' hpair
    · rintro rfl
      exact hwindow index hpair

end Memory

end IpsecTransform
