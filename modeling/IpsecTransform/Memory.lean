import IpsecTransform.Bytes.Slice

/-!
Memory shared between byte strings. Blocks are only added and keep their size; a
window is a run of positions of one block, and windows of one block see each
other's writes. Two windows that were allocated apart never do.
-/

namespace IpsecTransform

/-- A run of positions of one block of a memory. -/
structure Window where
  block : Nat
  start : Nat
  size : Nat
deriving DecidableEq, Repr

namespace Window

/-- The part of a window in an extent; what lies past its end is left out. The part
belongs to the same block, so it shares the bytes. -/
def part (window : Window) (extent : Extent) : Window :=
  { block := window.block
    start := window.start + min extent.start window.size
    size := min extent.size (window.size - extent.start) }

end Window

/-- The blocks that have been allocated so far. -/
structure Memory where
  blocks : List Bytes

namespace Memory

def empty : Memory := ⟨[]⟩

def block (memory : Memory) (index : Nat) : Bytes := memory.blocks.getD index []

def slice (memory : Memory) (window : Window) : Slice :=
  ⟨memory.block window.block, window.start, window.size⟩

/-- The bytes that a window shows. -/
def read (memory : Memory) (window : Window) : Bytes := (memory.slice window).bytes

/-- A fresh block, shown by a window on all of it. -/
def allocate (memory : Memory) (bytes : Bytes) : Window × Memory :=
  (⟨memory.blocks.length, 0, bytes.length⟩, ⟨memory.blocks ++ [bytes]⟩)

def copy (memory : Memory) (window : Window) : Window × Memory :=
  memory.allocate (memory.read window)

/-- A fresh block with the bytes that the windows show, one after the other. -/
def concat (memory : Memory) (windows : List Window) : Window × Memory :=
  memory.allocate (Bytes.concat (windows.map memory.read))

/-- Writes through a window. A write that does not lie inside the window leaves the
memory as it is. -/
def write (memory : Memory) (window : Window) (offset : Nat) (bytes : Bytes) : Memory :=
  if offset + bytes.length ≤ window.size then
    { blocks := memory.blocks.modify window.block fun block =>
        (block.overwrite? (window.start + offset) bytes).getD block }
  else memory

/-- Writes one value at every position of a window. -/
def fill (memory : Memory) (window : Window) (value : UInt8) : Memory :=
  memory.write window 0 (List.replicate window.size value)

end Memory

end IpsecTransform
