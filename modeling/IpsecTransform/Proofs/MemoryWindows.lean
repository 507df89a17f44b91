import Mathlib.Data.List.GetD
import Mathlib.Order.Lattice
import IpsecTransform.Memory.Holding
import IpsecTransform.Proofs.ByteStrings

namespace IpsecTransform

/-- A window lies inside its block. -/
structure Window.Inside (memory : Memory) (window : Window) : Prop where
  block_lt : window.block < memory.blocks.length
  stop_le : window.start + window.size ≤ (memory.block window.block).length

namespace Memory

def Extends (before after : Memory) : Prop := before.blocks <+: after.blocks

structure Fresh (before after : Memory) (window : Window) : Prop where
  le_block : before.blocks.length ≤ window.block
  inside : window.Inside after

theorem Extends.refl (memory : Memory) : memory.Extends memory := List.prefix_rfl

theorem Extends.trans {first second third : Memory} (h : first.Extends second)
    (h' : second.Extends third) : first.Extends third := List.IsPrefix.trans h h'

theorem Extends.length_le {before after : Memory} (h : before.Extends after) :
    before.blocks.length ≤ after.blocks.length := List.IsPrefix.length_le h

theorem Extends.block_eq {before after : Memory} (h : before.Extends after) {index : Nat}
    (hindex : index < before.blocks.length) : after.block index = before.block index := by
  obtain ⟨added, hadded⟩ := h
  rw [block, block, ← hadded, List.getD_append _ _ _ _ hindex]

theorem Extends.inside {before after : Memory} (h : before.Extends after) {window : Window}
    (hinside : window.Inside before) : window.Inside after := by
  refine ⟨lt_of_lt_of_le hinside.block_lt h.length_le, ?_⟩
  rw [h.block_eq hinside.block_lt]
  exact hinside.stop_le

theorem Extends.slice_eq {before after : Memory} (h : before.Extends after) {window : Window}
    (hinside : window.Inside before) : after.slice window = before.slice window := by
  rw [slice, slice, h.block_eq hinside.block_lt]

theorem Extends.read_eq {before after : Memory} (h : before.Extends after) {window : Window}
    (hinside : window.Inside before) : after.read window = before.read window := by
  rw [read, read, h.slice_eq hinside]

theorem Fresh.of_extends {first second third : Memory} {window : Window}
    (h : first.Extends second) (hfresh : second.Fresh third window) :
    first.Fresh third window :=
  ⟨le_trans h.length_le hfresh.le_block, hfresh.inside⟩

theorem Fresh.extend {first second third : Memory} {window : Window}
    (hfresh : first.Fresh second window) (h : second.Extends third) :
    first.Fresh third window :=
  ⟨hfresh.le_block, h.inside hfresh.inside⟩

theorem Fresh.block_ne {before after : Memory} {window other : Window}
    (hfresh : before.Fresh after window) (hinside : other.Inside before) :
    other.block ≠ window.block := by
  have hlt := hinside.block_lt
  have hle := hfresh.le_block
  omega

theorem length_read {memory : Memory} {window : Window} (h : window.Inside memory) :
    (memory.read window).length = window.size := by
  have hstop := h.stop_le
  simp only [read, slice, Slice.bytes, List.length_take, List.length_drop]
  omega

theorem inside_part {memory : Memory} {window : Window} (h : window.Inside memory)
    (extent : Extent) : (window.part extent).Inside memory := by
  refine ⟨h.block_lt, ?_⟩
  have hstop := h.stop_le
  simp only [Window.part]
  omega

theorem read_part (memory : Memory) (window : Window) (extent : Extent) :
    memory.read (window.part extent) = (memory.slice window).extract extent := by
  simp only [read, Slice.extract, Slice.bytes, slice, Window.part]
  rw [List.drop_take, List.drop_drop, List.take_take]
  rcases le_or_gt extent.start window.size with hle | hlt
  · rw [min_eq_left hle]
  · -- past the end of the window both sides are empty
    rw [Nat.sub_eq_zero_of_le (le_of_lt hlt), min_eq_right (Nat.zero_le _), List.take_zero,
      List.take_zero]

private theorem length_getD_overwrite? (block : Bytes) (position : Nat) (part : Bytes) :
    ((block.overwrite? position part).getD block).length = block.length := by
  cases hwritten : block.overwrite? position part with
  | none => rfl
  | some result => exact Bytes.length_of_overwrite? hwritten

theorem length_blocks_write (memory : Memory) (window : Window) (offset : Nat) (bytes : Bytes) :
    (memory.write window offset bytes).blocks.length = memory.blocks.length := by
  rw [write]
  split
  · exact List.length_modify ..
  · rfl

theorem block_write_of_ne (memory : Memory) (window : Window) (offset : Nat) (bytes : Bytes)
    {index : Nat} (h : index ≠ window.block) :
    (memory.write window offset bytes).block index = memory.block index := by
  rw [write]
  split
  · simp only [block, List.getD_eq_getElem?_getD]
    rw [List.getElem?_modify_ne _ _ h.symm]
  · rfl

theorem length_block_write (memory : Memory) (window : Window) (offset : Nat) (bytes : Bytes)
    (index : Nat) :
    ((memory.write window offset bytes).block index).length = (memory.block index).length := by
  rcases eq_or_ne index window.block with rfl | hne
  · rw [write]
    split
    · simp only [block, List.getD_eq_getElem?_getD]
      rw [List.getElem?_modify_eq]
      cases memory.blocks[window.block]? with
      | none => rfl
      | some block => exact length_getD_overwrite? block (window.start + offset) bytes
    · rfl
  · rw [block_write_of_ne memory window offset bytes hne]

theorem inside_write {memory : Memory} {window other : Window} {offset : Nat} {bytes : Bytes}
    (h : other.Inside memory) : other.Inside (memory.write window offset bytes) := by
  refine ⟨?_, ?_⟩
  · rw [length_blocks_write]
    exact h.block_lt
  · rw [length_block_write]
    exact h.stop_le

theorem read_write_of_ne {memory : Memory} {window other : Window} {offset : Nat} {bytes : Bytes}
    (h : other.block ≠ window.block) :
    (memory.write window offset bytes).read other = memory.read other := by
  rw [read, read, slice, slice, block_write_of_ne memory window offset bytes h]

theorem block_write_self {memory : Memory} {window : Window} {offset : Nat} {bytes : Bytes}
    (hblock : window.block < memory.blocks.length) (hroom : offset + bytes.length ≤ window.size) :
    (memory.write window offset bytes).block window.block =
      ((memory.block window.block).overwrite? (window.start + offset) bytes).getD
        (memory.block window.block) := by
  rw [write, if_pos hroom]
  simp only [block, List.getD_eq_getElem?_getD, List.getElem?_modify_eq,
    List.getElem?_eq_getElem hblock, Option.getD_some]
  rfl

theorem exists_append_of_inside {memory : Memory} {window : Window} (h : window.Inside memory) :
    ∃ front back, front.length = window.start ∧
      memory.block window.block = front ++ (memory.read window ++ back) := by
  refine ⟨(memory.block window.block).take window.start,
    (memory.block window.block).drop (window.start + window.size), ?_, ?_⟩
  · exact List.length_take_of_le (by have := h.stop_le; omega)
  · rw [read, slice, Slice.bytes, ← List.drop_drop, List.take_append_drop, List.take_append_drop]

theorem read_write {memory : Memory} {window : Window} (h : window.Inside memory) (offset : Nat)
    (bytes : Bytes) :
    (memory.write window offset bytes).read window =
      ((memory.read window).overwrite? offset bytes).getD (memory.read window) := by
  have hsize := length_read h
  rcases Nat.lt_or_ge window.size (offset + bytes.length) with hlong | hroom
  · rw [write, if_neg (by omega), Bytes.overwrite?, if_neg (by omega), Option.getD_none]
  · obtain ⟨front, back, hfront, hblock⟩ := exists_append_of_inside h
    have hcontent := Bytes.overwrite?_append [] (memory.read window) [] bytes offset (by omega)
    simp only [List.nil_append, List.append_nil, List.length_nil, Nat.zero_add] at hcontent
    rw [read, slice, Slice.bytes, block_write_self h.block_lt hroom, hblock, ← hfront,
      Bytes.overwrite?_append _ _ _ _ _ (by omega), hcontent, Option.getD_some, Option.getD_some,
      List.drop_left]
    apply List.take_left'
    simp only [List.length_append, List.length_take, List.length_drop]
    omega

structure Made (before : Memory) (content : Bytes) (made : Window × Memory) : Prop where
  grows : before.Extends made.2
  fresh : before.Fresh made.2 made.1
  read : made.2.read made.1 = content

theorem block_allocate (memory : Memory) (bytes : Bytes) :
    (memory.allocate bytes).2.block memory.blocks.length = bytes := by
  simp [allocate, block]

theorem made_allocate (memory : Memory) (bytes : Bytes) :
    memory.Made bytes (memory.allocate bytes) := by
  have hblock := block_allocate memory bytes
  refine ⟨List.prefix_append _ _, ⟨Nat.le_refl _, ?_, ?_⟩, ?_⟩
  · simp [allocate]
  · change 0 + bytes.length ≤ ((memory.allocate bytes).2.block memory.blocks.length).length
    rw [hblock, Nat.zero_add]
  · rw [read, slice, Slice.bytes]
    change List.take bytes.length
      (List.drop 0 ((memory.allocate bytes).2.block memory.blocks.length)) = bytes
    rw [hblock, List.drop_zero, List.take_length]

theorem made_copy (memory : Memory) (window : Window) :
    memory.Made (memory.read window) (memory.copy window) :=
  made_allocate memory (memory.read window)

theorem made_concat (memory : Memory) (windows : List Window) :
    memory.Made (windows.map memory.read).flatten (memory.concat windows) := by
  rw [← Bytes.concat_eq_flatten]
  exact made_allocate memory _

theorem made_exportKey (memory : Memory) (holding : Holding) :
    memory.Made (memory.descriptor holding).key (memory.exportKey holding) :=
  made_copy memory holding.key

theorem exists_allocate_encode (memory : Memory) (holding : Holding) :
    ∃ grown, memory.Extends grown ∧
      memory.encode holding = grown.allocate (Record.encode (memory.descriptor holding)) := by
  have hkey := made_exportKey memory holding
  refine ⟨(memory.exportKey holding).2, hkey.grows, ?_⟩
  rw [Record.encode, ← hkey.read]
  rfl

theorem made_encode (memory : Memory) (holding : Holding) :
    memory.Made (Record.encode (memory.descriptor holding)) (memory.encode holding) := by
  obtain ⟨grown, hgrows, hencode⟩ := exists_allocate_encode memory holding
  have hrecord := made_allocate grown (Record.encode (memory.descriptor holding))
  rw [hencode]
  exact ⟨hgrows.trans hrecord.grows, hrecord.fresh.of_extends hgrows, hrecord.read⟩

/-- A descriptor built in memory, or the fault that building it has met; a key that has been
built lies in fresh memory. -/
structure Builds (before : Memory) (result : Except Fault Descriptor)
    (made : Except Fault Holding × Memory) : Prop where
  grows : before.Extends made.2
  fresh : ∀ holding, made.1 = .ok holding → before.Fresh made.2 holding.key
  built : made.1.map made.2.descriptor = result

theorem builds_hold (memory : Memory) (name : Text) (key : Window) (truncation : Number) :
    memory.Builds (.ok { name, key := memory.read key, truncation })
      (.ok (memory.hold name key truncation).1, (memory.hold name key truncation).2) := by
  have hkey := made_copy memory key
  refine ⟨hkey.grows, ?_, ?_⟩
  · intro holding hholding
    rw [← Except.ok.inj hholding]
    exact hkey.fresh
  · change Except.ok ({ name, key := _, truncation } : Descriptor) = _
    rw [← hkey.read]
    rfl

theorem builds_error (memory : Memory) (fault : Fault) :
    memory.Builds (.error fault) (.error fault, memory) :=
  ⟨Extends.refl memory, nofun, rfl⟩

theorem Builds.of_extends {first second : Memory} {result : Except Fault Descriptor}
    {made : Except Fault Holding × Memory} (h : second.Builds result made)
    (hgrows : first.Extends second) : first.Builds result made :=
  ⟨hgrows.trans h.grows, fun holding hholding => (h.fresh holding hholding).of_extends hgrows,
    h.built⟩

theorem builds_create (memory : Memory) (name : Text) (key : Window) (requested : Option Number) :
    memory.Builds
      ((Descriptor.settle name key.size requested).map fun truncation =>
        { name, key := memory.read key, truncation })
      (memory.create name key requested) := by
  rw [create]
  cases Descriptor.settle name key.size requested with
  | ok truncation => exact builds_hold memory name key truncation
  | error fault => exact builds_error memory fault

theorem builds_andThen {Made : Type} {memory : Memory} {outcome : Except Fault Made}
    {result : Made → Except Fault Descriptor}
    {go : Made → Memory → Except Fault Holding × Memory}
    (h : ∀ value, memory.Builds (result value) (go value memory)) :
    memory.Builds (outcome.bind result) (andThen (outcome, memory) go) := by
  cases outcome with
  | ok value => exact h value
  | error fault => exact builds_error memory fault

/-- What comes after a field goes on in a memory that has grown by its copy. -/
theorem builds_copyField {memory : Memory} {window : Window} {offset : Nat}
    {result : Extent → Except Fault Descriptor}
    {go : Nat × Window → Memory → Except Fault Holding × Memory}
    (h : ∀ extent, (memory.copy (window.part extent)).2.Builds (result extent)
      (go (extent.stop, (memory.copy (window.part extent)).1)
        (memory.copy (window.part extent)).2)) :
    memory.Builds ((Record.field (memory.slice window) offset).bind result)
      (andThen (memory.copyField window offset) go) := by
  rw [copyField]
  cases Record.field (memory.slice window) offset with
  | ok extent => exact (h extent).of_extends (made_copy memory (window.part extent)).grows
  | error fault => exact builds_error memory fault

theorem builds_decode {memory : Memory} {window : Window} (h : window.Inside memory) :
    memory.Builds (Record.decodeSlice (memory.slice window)) (memory.decode window) := by
  have hsize : (memory.slice window).size = window.size := rfl
  rw [decode, Record.decodeSlice_eq_ite, hsize]
  split
  · exact builds_error memory .malformedRecord
  apply builds_copyField
  intro name
  have hname := made_copy memory (window.part name)
  have hslice := hname.grows.slice_eq h
  rw [← hslice]
  apply builds_copyField
  intro key
  have hkey := made_copy (memory.copy (window.part name)).2 (window.part key)
  rw [← hkey.grows.slice_eq (hname.grows.inside h)]
  apply builds_andThen
  intro truncation
  -- the copies show the fields of the record, which no copy has changed
  have hnameRead := hkey.grows.read_eq hname.fresh.inside
  have hkeyRead := hkey.read
  rw [hname.read, read_part] at hnameRead
  rw [hname.grows.read_eq (inside_part h key), read_part] at hkeyRead
  rw [hkey.grows.slice_eq (hname.grows.inside h), hslice, ← hnameRead, ← hkeyRead]
  cases Record.decodeName _ with
  | ok text => exact builds_hold _ text _ (.ofInt truncation)
  | error fault => exact builds_error _ fault

end Memory

end IpsecTransform
