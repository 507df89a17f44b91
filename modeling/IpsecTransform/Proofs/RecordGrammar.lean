import IpsecTransform.Record
import IpsecTransform.Proofs.NumberIntegers
import IpsecTransform.Proofs.Utf8Spelling

namespace IpsecTransform.Slice

def wordAt (slice : Slice) (offset : Nat) : Bytes :=
  (slice.block.drop (slice.start + offset)).take BigEndian.wordSize

theorem word_of_le {slice : Slice} {offset : Nat}
    (h : offset + BigEndian.wordSize ≤ slice.size) :
    slice.word offset = .ok (slice.wordAt offset) := by
  rw [word, if_pos h]
  rfl

theorem unsigned_of_le {slice : Slice} {offset : Nat}
    (h : offset + BigEndian.wordSize ≤ slice.size) :
    slice.unsigned offset = .ok (BigEndian.unsigned (slice.wordAt offset)) := by
  rw [Slice.unsigned, word_of_le h]
  rfl

theorem signed_of_le {slice : Slice} {offset : Nat}
    (h : offset + BigEndian.wordSize ≤ slice.size) :
    slice.signed offset = .ok (BigEndian.signed (slice.wordAt offset)) := by
  rw [Slice.signed, word_of_le h]
  rfl

theorem wordAt_whole (record : Bytes) (offset : Nat) :
    (whole record).wordAt offset = (record.drop offset).take 4 := by
  rw [wordAt, whole, Nat.zero_add]
  rfl

theorem wordAt_whole_append (front word rest : Bytes) (h : word.length = 4) :
    (whole (front ++ (word ++ rest))).wordAt front.length = word := by
  rw [wordAt_whole, List.drop_left, ← h, List.take_left]

theorem extract_whole_append (front content rest : Bytes) :
    (whole (front ++ (content ++ rest))).extract ⟨front.length, content.length⟩ = content := by
  rw [extract, bytes_whole, List.drop_left, List.take_left]

end IpsecTransform.Slice

namespace IpsecTransform.Record

open Slice (whole)

theorem field_eq_ite (slice : Slice) (offset : Nat) :
    field slice offset =
      if slice.size < offset + lengthSize ∨
          slice.size - (offset + lengthSize) < BigEndian.unsigned (slice.wordAt offset) then
        .error .malformedRecord
      else
        .ok { start := offset + lengthSize, size := BigEndian.unsigned (slice.wordAt offset) } := by
  rw [field]
  rcases Nat.lt_or_ge slice.size (offset + lengthSize) with hshort | hroom
  · rw [if_pos hshort, if_pos (Or.inl hshort)]
  · rw [if_neg (Nat.not_lt.mpr hroom), Slice.unsigned_of_le hroom]
    simp only [Except.bind, Nat.not_lt.mpr hroom, false_or]

theorem field_error {slice : Slice} {offset : Nat} {fault : Fault}
    (h : field slice offset = .error fault) : fault = .malformedRecord := by
  rw [field_eq_ite] at h
  split at h
  · exact (Except.error.inj h).symm
  · cases h

theorem field_append (front content rest : Bytes) (h : content.length < 2 ^ 32) :
    field (whole (front ++ (BigEndian.encode content.length ++ (content ++ rest)))) front.length =
      .ok { start := front.length + lengthSize, size := content.length } := by
  have hsize : (whole (front ++ (BigEndian.encode content.length ++ (content ++ rest)))).size =
      front.length + (lengthSize + (content.length + rest.length)) := by
    simp only [whole, List.length_append, BigEndian.length_encode]
    rfl
  rw [field_eq_ite, hsize, Slice.wordAt_whole_append _ _ _ (BigEndian.length_encode _),
    BigEndian.unsigned_encode_of_lt h, if_neg (by omega)]

theorem field_append_inj {content content' rest rest' : Bytes} (h : content.length < 2 ^ 32)
    (h' : content'.length < 2 ^ 32)
    (happend : BigEndian.encode content.length ++ (content ++ rest) =
      BigEndian.encode content'.length ++ (content' ++ rest')) :
    content = content' ∧ rest = rest' := by
  obtain ⟨hword, hfield⟩ := List.append_inj happend rfl
  have hlength : content.length = content'.length := by
    have hunsigned := congrArg BigEndian.unsigned hword
    rwa [BigEndian.unsigned_encode_of_lt h, BigEndian.unsigned_encode_of_lt h'] at hunsigned
  exact List.append_inj hfield hlength

theorem start_of_field {slice : Slice} {offset : Nat} {extent : Extent}
    (h : field slice offset = .ok extent) : extent.start = offset + lengthSize := by
  rw [field_eq_ite] at h
  split at h
  · cases h
  · rw [← Except.ok.inj h]

theorem exists_announced {bytes : Bytes} (hword : 4 ≤ bytes.length)
    (hsize : BigEndian.unsigned (bytes.take 4) ≤ bytes.length - 4) :
    ∃ content rest, content.length = BigEndian.unsigned (bytes.take 4) ∧
      content.length < 2 ^ 32 ∧
      bytes = BigEndian.encode content.length ++ (content ++ rest) := by
  have hfour : (bytes.take 4).length = 4 := List.length_take_of_le hword
  have hcontent : ((bytes.drop 4).take (BigEndian.unsigned (bytes.take 4))).length =
      BigEndian.unsigned (bytes.take 4) :=
    List.length_take_of_le (by rwa [List.length_drop])
  refine ⟨(bytes.drop 4).take (BigEndian.unsigned (bytes.take 4)),
    (bytes.drop 4).drop (BigEndian.unsigned (bytes.take 4)), hcontent, ?_, ?_⟩
  · rw [hcontent]
    exact BigEndian.unsigned_lt hfour
  · rw [hcontent, BigEndian.encode_unsigned hfour, List.take_append_drop, List.take_append_drop]

/-- A field that is found spells its own length: the bytes from the offset on begin with
the length of the content, followed by the content. -/
theorem exists_of_field {record : Bytes} {offset : Nat} {extent : Extent}
    (h : field (whole record) offset = .ok extent) :
    ∃ content rest, content.length < 2 ^ 32 ∧
      record.drop offset = BigEndian.encode content.length ++ (content ++ rest) ∧
      extent = { start := offset + lengthSize, size := content.length } := by
  rw [field_eq_ite, Slice.wordAt_whole] at h
  split at h
  · cases h
  · rename_i hroom
    have hstart : offset + 4 ≤ record.length := Nat.le_of_not_lt (not_or.mp hroom).1
    have hsize : BigEndian.unsigned ((record.drop offset).take 4) ≤
        record.length - (offset + 4) := Nat.le_of_not_lt (not_or.mp hroom).2
    have hlength : (record.drop offset).length = record.length - offset := List.length_drop
    obtain ⟨content, rest, hcontent, hlt, hbytes⟩ :
        ∃ content rest : Bytes,
          content.length = BigEndian.unsigned ((record.drop offset).take 4) ∧
          content.length < 2 ^ 32 ∧
          record.drop offset = BigEndian.encode content.length ++ (content ++ rest) :=
      exists_announced (by omega) (by omega)
    refine ⟨content, rest, hlt, hbytes, ?_⟩
    rw [hcontent, ← Except.ok.inj h]

/-- A byte string split into the fields of a record: the name and the key, each behind its
length, and a last word. -/
structure Splits (record name key last : Bytes) : Prop where
  name_lt : name.length < 2 ^ 32
  key_lt : key.length < 2 ^ 32
  length_last : last.length = 4
  eq_append : record = BigEndian.encode name.length ++ name ++
    BigEndian.encode key.length ++ key ++ last

def frameOf (name key last : Bytes) : Frame :=
  { name := { start := lengthSize, size := name.length }
    key := { start := lengthSize + name.length + lengthSize, size := key.length }
    truncation := BigEndian.signed last }

theorem closing_eq_ok_iff {slice : Slice} {offset : Nat} {truncation : Int} :
    closing slice offset = .ok truncation ↔
      offset + truncationSize = slice.size ∧
        truncation = BigEndian.signed (slice.wordAt offset) := by
  rw [closing]
  split
  · rename_i hstop
    rw [Slice.signed_of_le (Nat.le_of_eq hstop), Except.ok.injEq, and_iff_right hstop, eq_comm]
  · rename_i hstop
    exact iff_of_false nofun fun h => hstop h.1

theorem closing_error {slice : Slice} {offset : Nat} {fault : Fault}
    (h : closing slice offset = .error fault) : fault = .malformedRecord := by
  rw [closing] at h
  split at h
  · -- the last word ends where the slice ends, so it can be read
    rename_i hstop
    rw [Slice.signed_of_le (Nat.le_of_eq hstop)] at h
    cases h
  · exact (Except.error.inj h).symm

theorem frame_eq_ok_iff {slice : Slice} {found : Frame} :
    frame slice = .ok found ↔
      field slice 0 = .ok found.name ∧ field slice found.name.stop = .ok found.key ∧
        found.key.stop + truncationSize = slice.size ∧
        found.truncation = BigEndian.signed (slice.wordAt found.key.stop) := by
  rw [frame]
  constructor
  · intro h
    split at h
    · cases h
    obtain ⟨name, hname, h⟩ := Fault.bind_eq_ok_iff.mp h
    obtain ⟨key, hkey, h⟩ := Fault.bind_eq_ok_iff.mp h
    obtain ⟨truncation, hclosing, rfl⟩ := Fault.map_eq_ok_iff.mp h
    exact ⟨hname, hkey, closing_eq_ok_iff.mp hclosing⟩
  · rintro ⟨hname, hkey, hclosing⟩
    have hstart := start_of_field hname
    have hstart' := start_of_field hkey
    have hminimum : ¬ slice.size < minimumSize := by
      have hstop := hclosing.1
      simp only [Extent.stop, minimumSize, lengthSize, truncationSize, BigEndian.wordSize] at *
      omega
    rw [if_neg hminimum]
    refine Fault.bind_eq_ok_iff.mpr ⟨found.name, hname, ?_⟩
    refine Fault.bind_eq_ok_iff.mpr ⟨found.key, hkey, ?_⟩
    exact Fault.map_eq_ok_iff.mpr ⟨found.truncation, closing_eq_ok_iff.mpr hclosing, rfl⟩

theorem frame_error {slice : Slice} {fault : Fault} (h : frame slice = .error fault) :
    fault = .malformedRecord := by
  rw [frame] at h
  split at h
  · exact (Except.error.inj h).symm
  rcases Fault.bind_eq_error_iff.mp h with hname | ⟨name, -, h⟩
  · exact field_error hname
  rcases Fault.bind_eq_error_iff.mp h with hkey | ⟨key, -, h⟩
  · exact field_error hkey
  · exact closing_error (Fault.map_eq_error_iff.mp h)

theorem frame_of_splits {record name key last : Bytes} (h : Splits record name key last) :
    frame (whole record) = .ok (frameOf name key last) := by
  have hname := field_append [] name (BigEndian.encode key.length ++ key ++ last) h.name_lt
  have hkey := field_append (BigEndian.encode name.length ++ name) key last h.key_lt
  have hlast := Slice.wordAt_whole_append
    (BigEndian.encode name.length ++ name ++ BigEndian.encode key.length ++ key) last []
    h.length_last
  have hrecord := h.eq_append
  have hlength := h.length_last
  simp only [List.append_assoc, List.nil_append, List.append_nil] at hname hkey hlast hrecord
  rw [← hrecord] at hname hkey hlast
  simp only [List.length_append, BigEndian.length_encode, List.length_nil] at hname hkey hlast
  have hstop : (frameOf name key last).key.stop = 4 + (name.length + (4 + key.length)) := by
    simp only [frameOf, Extent.stop, lengthSize, BigEndian.wordSize]
    omega
  rw [frame_eq_ok_iff]
  refine ⟨hname, hkey, ?_, ?_⟩
  · rw [hstop, whole, hrecord]
    simp only [List.length_append, BigEndian.length_encode, hlength, truncationSize,
      BigEndian.wordSize]
    omega
  · rw [hstop, hlast, frameOf]

theorem exists_splits_of_frame {record : Bytes} {found : Frame}
    (h : frame (whole record) = .ok found) :
    ∃ name key last, Splits record name key last ∧ found = frameOf name key last := by
  obtain ⟨hname, hkey, hstop, -⟩ := frame_eq_ok_iff.mp h
  obtain ⟨name, afterName, hnameLt, hnameBytes, hnameExtent⟩ := exists_of_field hname
  obtain ⟨key, last, hkeyLt, hkeyBytes, hkeyExtent⟩ := exists_of_field hkey
  rw [List.drop_zero] at hnameBytes
  have hnameStop : found.name.stop = (BigEndian.encode name.length ++ name).length := by
    rw [hnameExtent, Extent.stop, List.length_append, BigEndian.length_encode, lengthSize,
      BigEndian.wordSize]
  have hafter : record.drop found.name.stop = afterName := by
    rw [hnameBytes, ← List.append_assoc, hnameStop, List.drop_left]
  have hrecord : record = BigEndian.encode name.length ++ name ++
      BigEndian.encode key.length ++ key ++ last := by
    rw [hnameBytes, ← hafter, hkeyBytes]
    simp only [List.append_assoc]
  have hlast : last.length = 4 := by
    have hlength := congrArg List.length hrecord
    simp only [List.length_append, BigEndian.length_encode] at hlength hnameStop
    rw [hkeyExtent, Extent.stop, hnameStop] at hstop
    simp only [whole, lengthSize, truncationSize, BigEndian.wordSize] at hstop
    omega
  have hsplits : Splits record name key last := ⟨hnameLt, hkeyLt, hlast, hrecord⟩
  refine ⟨name, key, last, hsplits, ?_⟩
  rw [frame_of_splits hsplits, Except.ok.injEq] at h
  exact h.symm

theorem splits_unique {record name key last name' key' last' : Bytes}
    (h : Splits record name key last) (h' : Splits record name' key' last') :
    name = name' ∧ key = key' ∧ last = last' := by
  have hframe : frameOf name key last = frameOf name' key' last' := by
    have hok := frame_of_splits h
    rw [frame_of_splits h', Except.ok.injEq] at hok
    exact hok.symm
  have hnameLength : name.length = name'.length := congrArg (fun found => found.name.size) hframe
  have hkeyLength : key.length = key'.length := congrArg (fun found => found.key.size) hframe
  have hlastLength : last.length = last'.length := h.length_last.trans h'.length_last.symm
  have happend := h.eq_append.symm.trans h'.eq_append
  rw [hnameLength, hkeyLength] at happend
  obtain ⟨hfront, hlast⟩ := List.append_inj' happend hlastLength
  obtain ⟨hfront, hkey⟩ := List.append_inj' hfront hkeyLength
  obtain ⟨hfront, -⟩ := List.append_inj' hfront rfl
  obtain ⟨-, hname⟩ := List.append_inj' hfront hnameLength
  exact ⟨hname, hkey, hlast⟩

theorem extract_name {record name key last : Bytes} (h : Splits record name key last) :
    (whole record).extract (frameOf name key last).name = name := by
  have hextract := Slice.extract_whole_append (BigEndian.encode name.length) name
    (BigEndian.encode key.length ++ key ++ last)
  have hrecord := h.eq_append
  simp only [List.append_assoc] at hextract hrecord
  rw [← hrecord] at hextract
  exact hextract

theorem extract_key {record name key last : Bytes} (h : Splits record name key last) :
    (whole record).extract (frameOf name key last).key = key := by
  have hextract := Slice.extract_whole_append
    (BigEndian.encode name.length ++ name ++ BigEndian.encode key.length) key last
  have hrecord := h.eq_append
  simp only [List.append_assoc] at hextract hrecord
  rw [← hrecord] at hextract
  simp only [List.length_append, BigEndian.length_encode] at hextract
  rw [frameOf, lengthSize, BigEndian.wordSize, Nat.add_assoc]
  exact hextract

theorem decodeName_eq_ok_iff {bytes : Bytes} {name : Text} :
    decodeName bytes = .ok name ↔ Utf8.decode? bytes = some name := by
  rw [decodeName]
  cases Utf8.decode? bytes with
  | none => exact iff_of_false nofun nofun
  | some text =>
      change Except.ok text = Except.ok name ↔ _
      rw [Except.ok.injEq, Option.some.injEq]

theorem decodeName_error {bytes : Bytes} {fault : Fault}
    (h : decodeName bytes = .error fault) : fault = .malformedRecord := by
  rw [decodeName] at h
  cases hname : Utf8.decode? bytes with
  | none =>
      rw [hname] at h
      exact (Except.error.inj h).symm
  | some text =>
      rw [hname] at h
      cases h

theorem decode_eq_ok_iff {record : Bytes} {descriptor : Descriptor} :
    decode record = .ok descriptor ↔
      ∃ name last, Splits record name descriptor.key last ∧
        Utf8.decode? name = some descriptor.name ∧
        descriptor.truncation = .ofInt (BigEndian.signed last) := by
  rw [decode, decodeSlice]
  constructor
  · intro h
    obtain ⟨found, hframe, h⟩ := Fault.bind_eq_ok_iff.mp h
    obtain ⟨text, hname, rfl⟩ := Fault.map_eq_ok_iff.mp h
    obtain ⟨name, key, last, hsplits, rfl⟩ := exists_splits_of_frame hframe
    rw [extract_name hsplits] at hname
    rw [extract_key hsplits]
    exact ⟨name, last, hsplits, decodeName_eq_ok_iff.mp hname, by rw [frameOf]⟩
  · rintro ⟨name, last, hsplits, hname, htruncation⟩
    refine Fault.bind_eq_ok_iff.mpr ⟨_, frame_of_splits hsplits, ?_⟩
    rw [extract_name hsplits, extract_key hsplits]
    refine Fault.map_eq_ok_iff.mpr ⟨descriptor.name, decodeName_eq_ok_iff.mpr hname, ?_⟩
    rw [frameOf, ← htruncation]

theorem decode_error {record : Bytes} {fault : Fault} (h : decode record = .error fault) :
    fault = .malformedRecord := by
  rw [decode, decodeSlice] at h
  rcases Fault.bind_eq_error_iff.mp h with hframe | ⟨found, -, h⟩
  · exact frame_error hframe
  · exact decodeName_error (Fault.map_eq_error_iff.mp h)

theorem decode_of_forall_ne {record : Bytes} (h : ∀ descriptor, decode record ≠ .ok descriptor) :
    decode record = .error .malformedRecord := by
  cases hdecode : decode record with
  | ok descriptor => exact absurd hdecode (h descriptor)
  | error fault => rw [decode_error hdecode]

theorem exists_decode_iff {record : Bytes} :
    (∃ descriptor, decode record = .ok descriptor) ↔
      ∃ name key last, Splits record name key last ∧ Utf8.Strict name := by
  constructor
  · rintro ⟨descriptor, hdecode⟩
    obtain ⟨name, last, hsplits, hname, -⟩ := decode_eq_ok_iff.mp hdecode
    exact ⟨name, descriptor.key, last, hsplits, Utf8.exists_decode?_iff_strict.mp ⟨_, hname⟩⟩
  · rintro ⟨name, key, last, hsplits, hstrict⟩
    obtain ⟨text, htext⟩ := Utf8.exists_decode?_iff_strict.mpr hstrict
    exact ⟨{ name := text, key, truncation := .ofInt (BigEndian.signed last) },
      decode_eq_ok_iff.mpr ⟨name, last, hsplits, htext, rfl⟩⟩

/-- Reading accepts exactly the byte strings of the grammar, in which a name field is
strictly valid UTF-8. The splitting is unique. Whatever the fields hold, the key is what is read,
the name is the text that its field holds, and the truncation length is the number that the last
word spells in two's complement; everything else is one and the same fault. The lengths in front
of the fields are spelled in base 256, the most significant byte first. -/
theorem decode_follows_grammar (record : Bytes) :
    ((∃ descriptor, decode record = .ok descriptor) ↔
      ∃ name key last, Splits record name key last ∧ Utf8.Strict name) ∧
    (∀ name key last name' key' last', Splits record name key last →
      Splits record name' key' last' → name = name' ∧ key = key' ∧ last = last') ∧
    (∀ name key last, Splits record name key last → Utf8.Strict name →
      ∃ (text : Text) (value : Int) (truncation : Dyadic), Utf8.Holds name text ∧
        BigEndian.SpellsSigned last value ∧ truncation.toRat = value ∧
        decode record = .ok { name := text, key, truncation := .finite truncation }) ∧
    ((¬ ∃ name key last, Splits record name key last ∧ Utf8.Strict name) →
      decode record = .error .malformedRecord ∧
        Fault.malformedRecord.code? = some "MALFORMED_RECORD") ∧
    (∀ size : Nat, size < 2 ^ 32 → BigEndian.Spells (BigEndian.encode size) size) := by
  refine ⟨exists_decode_iff, fun _ _ _ _ _ _ => splits_unique, ?_, ?_,
    fun _ => BigEndian.spells_encode⟩
  · intro name key last hsplits hstrict
    obtain ⟨text, htext⟩ := Utf8.exists_decode?_iff_strict.mpr hstrict
    refine ⟨text, BigEndian.signed last, Dyadic.ofInt (BigEndian.signed last),
      Utf8.decode?_eq_some_iff_holds.mp htext, BigEndian.spellsSigned_signed hsplits.length_last,
      Number.toRat_ofInt _, ?_⟩
    exact decode_eq_ok_iff.mpr ⟨name, last, hsplits, htext, rfl⟩
  · intro hnone
    refine ⟨decode_of_forall_ne ?_, rfl⟩
    intro descriptor hdecode
    exact hnone (exists_decode_iff.mp ⟨descriptor, hdecode⟩)

theorem decode_follows_grammar_of_mark :
    decode [0, 0, 0, 4, 0xEF, 0xBB, 0xBF, 0x41, 0, 0, 0, 1, 7, 0xFF, 0xFF, 0xFF, 0x80] =
      .ok { name := [0x41], key := [7], truncation := .ofInt (-128) } ∧
    decode [0, 0, 0, 4, 0xF0, 0x9F, 0x98, 0x80, 0, 0, 0, 0, 0, 0, 1, 0] =
      .ok { name := [0xD83D, 0xDE00], key := [], truncation := .ofInt 256 } ∧
    decode [] = .error .malformedRecord := by
  have hread : ∀ {record name key last : Bytes} {text : Text} {value : Int},
      Splits record name key last → Utf8.Strict name → Utf8.Holds name text →
      BigEndian.SpellsSigned last value →
      decode record = .ok { name := text, key, truncation := .ofInt value } := by
    intro record name key last text value hsplits hstrict htext hvalue
    obtain ⟨text', value', truncation, htext', hvalue', htruncation, hdecode⟩ :=
      (decode_follows_grammar record).2.2.1 name key last hsplits hstrict
    have hfinite : truncation = Dyadic.ofInt value := by
      rw [← Dyadic.toRat_inj, htruncation, hvalue'.unique hvalue, Number.toRat_ofInt]
    rw [hdecode, htext'.unique htext, hfinite, Number.ofInt]
  refine ⟨?_, ?_, ?_⟩
  · have hsplits : Splits
        [0, 0, 0, 4, 0xEF, 0xBB, 0xBF, 0x41, 0, 0, 0, 1, 7, 0xFF, 0xFF, 0xFF, 0x80]
        [0xEF, 0xBB, 0xBF, 0x41] [7] [0xFF, 0xFF, 0xFF, 0x80] :=
      ⟨by decide, by decide, rfl, by decide⟩
    have hstrict : Utf8.Strict [0xEF, 0xBB, 0xBF, 0x41] :=
      Utf8.strict_iff_exists_encodeScalars.mpr ⟨['\uFEFF', 'A'], rfl⟩
    have htext : Utf8.Holds [0xEF, 0xBB, 0xBF, 0x41] [0x41] :=
      .marked (Utf8.spells_iff.mpr ⟨['A'], rfl, rfl⟩)
    exact hread hsplits hstrict htext ⟨by decide, by decide, .word 0xFF 0xFF 0xFF 0x80⟩
  · have hsplits : Splits [0, 0, 0, 4, 0xF0, 0x9F, 0x98, 0x80, 0, 0, 0, 0, 0, 0, 1, 0]
        [0xF0, 0x9F, 0x98, 0x80] [] [0, 0, 1, 0] := ⟨by decide, by decide, rfl, by decide⟩
    have hstrict : Utf8.Strict [0xF0, 0x9F, 0x98, 0x80] :=
      Utf8.strict_iff_exists_encodeScalars.mpr ⟨['😀'], rfl⟩
    have htext : Utf8.Holds [0xF0, 0x9F, 0x98, 0x80] [0xD83D, 0xDE00] :=
      .plain (by decide) (Utf8.spells_iff.mpr ⟨['😀'], rfl, rfl⟩)
    exact hread hsplits hstrict htext ⟨by decide, by decide, .word 0 0 1 0⟩
  · refine ((decode_follows_grammar []).2.2.2.1 ?_).1
    rintro ⟨name, key, last, hnone, -⟩
    have hlength := congrArg List.length hnone.eq_append
    simp only [List.length_append, BigEndian.length_encode, List.length_nil] at hlength
    omega

end IpsecTransform.Record
