import IpsecTransform.Proofs.RecordGrammar

namespace IpsecTransform.Slice

def Inside (slice : Slice) : Prop := slice.start + slice.size ≤ slice.block.length

variable {slice : Slice} {offset : Nat}

theorem size_whole_bytes (h : slice.Inside) : (whole slice.bytes).size = slice.size := by
  rw [Inside] at h
  simp only [whole, bytes, List.length_take, List.length_drop]
  omega

theorem wordAt_whole_bytes (h : offset + BigEndian.wordSize ≤ slice.size) :
    (whole slice.bytes).wordAt offset = slice.wordAt offset := by
  have hword : min BigEndian.wordSize (slice.size - offset) = BigEndian.wordSize :=
    Nat.min_eq_left (by omega)
  rw [wordAt_whole, wordAt, bytes, List.drop_take, List.drop_drop, List.take_take]
  change List.take (min BigEndian.wordSize _) _ = _
  rw [hword]

theorem extract_whole_bytes (slice : Slice) (extent : Extent) :
    (whole slice.bytes).extract extent = slice.extract extent := by
  rw [extract, bytes_whole, extract]

end IpsecTransform.Slice

namespace IpsecTransform.Record

open Slice (whole)

theorem field_congr {left right : Slice} {offset : Nat} (hsize : left.size = right.size)
    (hword : offset + BigEndian.wordSize ≤ left.size → left.wordAt offset = right.wordAt offset) :
    field left offset = field right offset := by
  rw [field_eq_ite, field_eq_ite, ← hsize]
  rcases Nat.lt_or_ge left.size (offset + lengthSize) with hshort | hroom
  · rw [if_pos (Or.inl hshort), if_pos (Or.inl hshort)]
  · rw [hword hroom]

/-- The framing is settled by the size and by three words: the two lengths and the last word. -/
theorem frame_congr {left right : Slice} (hsize : left.size = right.size)
    (hname : BigEndian.wordSize ≤ left.size → left.wordAt 0 = right.wordAt 0)
    (hkey : ∀ name, field left 0 = .ok name → name.stop + BigEndian.wordSize ≤ left.size →
      left.wordAt name.stop = right.wordAt name.stop)
    (hlast : ∀ offset, offset + BigEndian.wordSize = left.size →
      left.wordAt offset = right.wordAt offset) : frame left = frame right := by
  have hfirst : field left 0 = field right 0 :=
    field_congr hsize fun hroom => hname (by rwa [Nat.zero_add] at hroom)
  rw [frame, frame, ← hsize, ← hfirst]
  split
  · rfl
  · cases hfound : field left 0 with
    | error fault => rfl
    | ok name =>
        have hsecond : field left name.stop = field right name.stop :=
          field_congr hsize (hkey name hfound)
        simp only [Except.bind, ← hsecond]
        cases field left name.stop with
        | error fault => rfl
        | ok key =>
            have hclosing : closing left key.stop = closing right key.stop := by
              rw [closing, closing, ← hsize]
              split
              · rename_i hstop
                have hroom : key.stop + BigEndian.wordSize ≤ left.size := Nat.le_of_eq hstop
                rw [Slice.signed_of_le hroom, Slice.signed_of_le (by rwa [← hsize]),
                  hlast key.stop hstop]
              · rfl
            simp only [hclosing]

theorem frame_whole_bytes {slice : Slice} (h : slice.Inside) :
    frame (whole slice.bytes) = frame slice := by
  have hsize := Slice.size_whole_bytes h
  have hword : ∀ offset, offset + BigEndian.wordSize ≤ (whole slice.bytes).size →
      (whole slice.bytes).wordAt offset = slice.wordAt offset := by
    intro offset hoffset
    exact Slice.wordAt_whole_bytes (by rwa [← hsize])
  exact frame_congr hsize (fun hroom => hword 0 (by rwa [Nat.zero_add]))
    (fun name _ => hword name.stop) (fun offset hstop => hword offset (Nat.le_of_eq hstop))

theorem decodeSlice_eq_decode {slice : Slice} (h : slice.Inside) :
    decodeSlice slice = decode slice.bytes := by
  simp only [decode, decodeSlice, frame_whole_bytes h, Slice.extract_whole_bytes]

end IpsecTransform.Record
