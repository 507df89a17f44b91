import IpsecTransform.Proofs.MemoryWindows
import IpsecTransform.Proofs.RecordSlices

/-!
What reading a record asks of its bytes, and in which order. Whatever is answered, every word and
every copy that is asked for lies inside the slice, so that no read is ever refused and the bytes
around the slice do not matter.
-/

namespace IpsecTransform

/-- A reading that knows the bytes only by what it asks of them: words at offsets, and copies of
extents. -/
inductive Reading (Result : Type) where
  | done (outcome : Except Fault Result)
  | word (offset : Nat) (next : Bytes → Reading Result)
  | copy (extent : Extent) (next : Bytes → Reading Result)

namespace Reading

variable {Result : Type}

/-- The outcome when a slice gives the answers; a word that it refuses ends the reading. -/
def run (slice : Slice) : Reading Result → Except Fault Result
  | done outcome => outcome
  | word offset next => (slice.word offset).bind fun bytes => (next bytes).run slice
  | copy extent next => (next (slice.extract extent)).run slice

/-- The extents that are asked for in order when a slice gives the answers. -/
def asked (slice : Slice) : Reading Result → List Extent
  | done _ => []
  | word offset next =>
      { start := offset, size := BigEndian.wordSize } ::
        match slice.word offset with
        | .ok bytes => (next bytes).asked slice
        | .error _ => []
  | copy extent next => extent :: (next (slice.extract extent)).asked slice

/-- Whatever the answers are, nothing is asked for past the given size. -/
def Within (size : Nat) : Reading Result → Prop
  | done _ => True
  | word offset next => offset + BigEndian.wordSize ≤ size ∧ ∀ bytes, (next bytes).Within size
  | copy extent next => extent.stop ≤ size ∧ ∀ bytes, (next bytes).Within size

theorem stop_le_of_within {slice : Slice} {reading : Reading Result}
    (h : reading.Within slice.size) : ∀ extent ∈ reading.asked slice, extent.stop ≤ slice.size := by
  induction reading with
  | done outcome => exact nofun
  | word offset next ih =>
      obtain ⟨hword, hnext⟩ := h
      intro extent hextent
      rw [asked, Slice.word_of_le hword] at hextent
      rcases List.mem_cons.mp hextent with rfl | hextent
      · exact hword
      · exact ih _ (hnext _) extent hextent
  | copy asked next ih =>
      obtain ⟨hcopy, hnext⟩ := h
      intro extent hextent
      rcases List.mem_cons.mp hextent with rfl | hextent
      · exact hcopy
      · exact ih _ (hnext _) extent hextent

end Reading

namespace Record

/-- The reading of the field whose length stands at an offset: the length, and a copy of the bytes
that it announces. It goes on with the copy and the offset behind it. -/
def readField (size offset : Nat) (next : Bytes → Nat → Reading Descriptor) :
    Reading Descriptor :=
  if size < offset + lengthSize then .done (.error .malformedRecord)
  else
    .word offset fun bytes =>
      let extent : Extent := { start := offset + lengthSize, size := BigEndian.unsigned bytes }
      if size - extent.start < extent.size then .done (.error .malformedRecord)
      else .copy extent fun content => next content extent.stop

/-- The reading of a record of a given size: two fields, and the word at its end. -/
def reading (size : Nat) : Reading Descriptor :=
  if size < minimumSize then .done (.error .malformedRecord)
  else
    readField size 0 fun name stop =>
      readField size stop fun key stop =>
        if stop + truncationSize = size then
          .word stop fun bytes =>
            .done ((decodeName name).map fun name =>
              { name, key, truncation := .ofInt (BigEndian.signed bytes) })
        else .done (.error .malformedRecord)

theorem within_readField {size offset : Nat} {next : Bytes → Nat → Reading Descriptor}
    (h : ∀ content stop, (next content stop).Within size) :
    (readField size offset next).Within size := by
  rw [readField]
  split
  · trivial
  · rename_i hroom
    refine ⟨Nat.le_of_not_lt hroom, ?_⟩
    intro bytes
    simp only
    split
    · trivial
    · rename_i hsize
      refine ⟨?_, fun content => h content _⟩
      simp only [Extent.stop] at hsize ⊢
      omega

/-- The checks come before the reads, and each of them is strong enough for the read behind it. -/
theorem within_reading (size : Nat) : (reading size).Within size := by
  rw [reading]
  split
  · trivial
  · apply within_readField
    intro name stop
    apply within_readField
    intro key stop
    split
    · rename_i hstop
      exact ⟨Nat.le_of_eq hstop, fun _ => trivial⟩
    · trivial

theorem run_readField (slice : Slice) (offset : Nat)
    (next : Bytes → Nat → Reading Descriptor) :
    (readField slice.size offset next).run slice =
      (field slice offset).bind fun extent =>
        (next (slice.extract extent) extent.stop).run slice := by
  rw [readField, field_eq_ite]
  rcases Nat.lt_or_ge slice.size (offset + lengthSize) with hshort | hroom
  · rw [if_pos hshort, if_pos (Or.inl hshort)]
    rfl
  · rw [if_neg (Nat.not_lt.mpr hroom), Reading.run, Slice.word_of_le hroom]
    simp only [Except.bind, Nat.not_lt.mpr hroom, false_or]
    split
    · rfl
    · rfl

theorem stop_le_of_field {slice : Slice} {offset : Nat} {extent : Extent}
    (h : field slice offset = .ok extent) : extent.stop ≤ slice.size := by
  rw [field_eq_ite] at h
  split at h
  · cases h
  · rename_i hroom
    rw [← Except.ok.inj h]
    simp only [Extent.stop]
    omega

theorem run_reading (slice : Slice) : (reading slice.size).run slice = decodeSlice slice := by
  rw [reading, decodeSlice_eq_ite]
  split
  · rfl
  rw [run_readField]
  refine congrArg _ (funext fun name => ?_)
  rw [run_readField]
  refine congrArg _ (funext fun key => ?_)
  rw [closing]
  split
  · rename_i hstop
    rw [Reading.run, Slice.word_of_le (Nat.le_of_eq hstop), Slice.signed_of_le (Nat.le_of_eq hstop)]
    simp only [Except.bind, Reading.run]
  · rfl

end Record

namespace Memory

/-- The descriptor that decoding a window gives, or the fault that it meets. -/
def decoded (memory : Memory) (window : Window) : Except Fault Descriptor :=
  (memory.decode window).1.map (memory.decode window).2.descriptor

theorem decoded_eq_decodeSlice {memory : Memory} {window : Window} (h : window.Inside memory) :
    memory.decoded window = Record.decodeSlice (memory.slice window) :=
  (builds_decode h).built

theorem decoded_eq_decode {memory : Memory} {window : Window} (h : window.Inside memory) :
    memory.decoded window = Record.decode (memory.read window) := by
  have hslice : (memory.slice window).Inside := h.stop_le
  rw [decoded_eq_decodeSlice h, Record.decodeSlice_eq_decode hslice, read]

/-- Decoding a window is decoding a fresh copy of its bytes, whatever stands around it. Every word
and every copy that decoding asks for lies inside the window, whatever lengths the record
announces, and so does every field that is found. All that decoding can find fault with is the
record. -/
theorem decoding_stays_inside (memory : Memory) (window : Window) (hinside : window.Inside memory) :
    memory.decoded window = Record.decode (memory.read window) ∧
    (memory.copy window).2.decoded (memory.copy window).1 = memory.decoded window ∧
    (∀ (memory' : Memory) (window' : Window), window'.Inside memory' →
      memory'.read window' = memory.read window →
      memory'.decoded window' = memory.decoded window) ∧
    (Record.reading window.size).run (memory.slice window) = memory.decoded window ∧
    (Record.reading window.size).Within window.size ∧
    (∀ extent ∈ (Record.reading window.size).asked (memory.slice window),
      extent.stop ≤ window.size) ∧
    (∀ offset extent, Record.field (memory.slice window) offset = .ok extent →
      extent.start = offset + Record.lengthSize ∧ extent.stop ≤ window.size) ∧
    (∀ fault, memory.decoded window = .error fault → fault = .malformedRecord) := by
  have hdecoded := decoded_eq_decode hinside
  have hwithin := Record.within_reading window.size
  refine ⟨hdecoded, ?_, ?_, ?_, hwithin, ?_, ?_, ?_⟩
  · have hcopy := made_copy memory window
    rw [decoded_eq_decode hcopy.fresh.inside, hcopy.read, hdecoded]
  · intro memory' window' hinside' hread
    rw [decoded_eq_decode hinside', hread, hdecoded]
  · rw [decoded_eq_decodeSlice hinside]
    exact Record.run_reading (memory.slice window)
  · have hslice : (Record.reading window.size).Within (memory.slice window).size := hwithin
    exact Reading.stop_le_of_within hslice
  · intro offset extent hfield
    exact ⟨Record.start_of_field hfield, Record.stop_le_of_field hfield⟩
  · intro fault hfault
    rw [hdecoded] at hfault
    exact Record.decode_error hfault

theorem decoding_stays_inside_of_record :
    let memory : Memory := ⟨[[9, 0, 0, 0, 1, 0x41, 0, 0, 0, 1, 7, 0, 0, 0, 128, 9]]⟩
    let window : Window := { block := 0, start := 1, size := 14 }
    window.Inside memory ∧
      memory.decoded window = .ok { name := [0x41], key := [7], truncation := .ofInt 128 } ∧
      (memory.copy window).2.decoded (memory.copy window).1 = memory.decoded window ∧
      (Record.reading window.size).asked (memory.slice window) =
        [⟨0, 4⟩, ⟨4, 1⟩, ⟨5, 4⟩, ⟨9, 1⟩, ⟨10, 4⟩] ∧
      ∀ extent ∈ (Record.reading window.size).asked (memory.slice window),
        extent.stop ≤ window.size := by
  intro memory window
  have hinside : window.Inside memory := ⟨by decide, by decide⟩
  have hdecoding := decoding_stays_inside memory window hinside
  exact ⟨hinside, by decide +kernel, hdecoding.2.1, by decide +kernel, hdecoding.2.2.2.2.2.1⟩

end Memory

end IpsecTransform
