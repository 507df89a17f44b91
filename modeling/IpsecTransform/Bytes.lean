namespace IpsecTransform

/-- A finite string of bytes. -/
abbrev Bytes := List UInt8

namespace Bytes

/-- The block with the bytes from `position` on replaced by `part`; refused when
`part` would run past the end, so the length never changes. -/
def overwrite? (block : Bytes) (position : Nat) (part : Bytes) : Option Bytes :=
  if position + part.length ≤ block.length then
    some (block.take position ++ part ++ block.drop (position + part.length))
  else none

theorem length_of_overwrite? {block part result : Bytes} {position : Nat}
    (h : overwrite? block position part = some result) :
    result.length = block.length := by
  unfold overwrite? at h
  split at h
  · rename_i hroom
    cases h
    simp only [List.length_append, List.length_take, List.length_drop]
    omega
  · cases h

/-- A block under construction: the bytes before `position` have been written. -/
structure Cursor where
  block : Bytes
  position : Nat

def Cursor.put? (cursor : Cursor) (part : Bytes) : Option Cursor :=
  (overwrite? cursor.block cursor.position part).map fun block =>
    { block, position := cursor.position + part.length }

def Cursor.putAll? (cursor : Cursor) (parts : List Bytes) : Option Cursor :=
  parts.foldlM Cursor.put? cursor

def totalLength (parts : List Bytes) : Nat :=
  parts.foldl (fun total part => total + part.length) 0

/-- A zeroed block of the given size, with nothing written yet. -/
def Cursor.blank (size : Nat) : Cursor :=
  { block := List.replicate size 0, position := 0 }

/-- The parts in order, copied into one block that has exactly their total
length; every write is checked, and none is refused. -/
def concat (parts : List Bytes) : Bytes :=
  ((Cursor.blank (totalLength parts)).putAll? parts).elim [] Cursor.block

/-- All differing bits of two byte strings of one length, gathered position by
position without an early exit. -/
def difference (left right : Bytes) : UInt8 :=
  (left.zip right).foldl (fun gathered pair => gathered ||| (pair.1 ^^^ pair.2)) 0

/-- Equality of byte strings; once the lengths agree every position is looked at,
wherever the first difference is. -/
def same (left right : Bytes) : Bool :=
  left.length == right.length && difference left right == 0

end Bytes

end IpsecTransform
