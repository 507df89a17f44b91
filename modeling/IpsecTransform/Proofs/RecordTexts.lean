import IpsecTransform.Proofs.DescriptorEquality
import IpsecTransform.Proofs.HexGrammar

namespace IpsecTransform.Record

open Hex (Denotes)

variable {text digits : Text} {record : Bytes} {descriptor : Descriptor}

theorem decodeHex_of_denotes (h : Denotes text digits record) : decodeHex text = decode record := by
  rw [decodeHex, Hex.decode_eq_ok_iff.mpr ⟨digits, h⟩]

theorem decodeHex_eq_ok_iff :
    decodeHex text = .ok descriptor ↔
      ∃ digits record, Denotes text digits record ∧ decode record = .ok descriptor := by
  constructor
  · intro h
    cases hbytes : Hex.decode text with
    | error fault =>
        rw [decodeHex, hbytes] at h
        cases h
    | ok record =>
        obtain ⟨digits, hdenotes⟩ := Hex.decode_eq_ok_iff.mp hbytes
        exact ⟨digits, record, hdenotes, (decodeHex_of_denotes hdenotes).symm.trans h⟩
  · rintro ⟨digits, record, hdenotes, hdecode⟩
    rw [decodeHex_of_denotes hdenotes, hdecode]

theorem decodeHex_error {fault : Fault} (h : decodeHex text = .error fault) :
    fault = .malformedRecord := by
  rw [decodeHex] at h
  split at h
  · exact decode_error h
  · exact (Except.error.inj h).symm

/-- The name field of the record does not begin with a byte order mark. -/
def Markless (record : Bytes) : Prop :=
  ∃ name key last, Splits record name key last ∧ ¬ Utf8.markBytes <+: name

theorem encode_of_markless (h : decode record = .ok descriptor) (hmarkless : Markless record) :
    encode descriptor = record := by
  obtain ⟨name, key, last, hsplits, hplain⟩ := hmarkless
  obtain ⟨name', last', hsplits', -⟩ := decode_eq_ok_iff.mp h
  obtain ⟨rfl, -, -⟩ := splits_unique hsplits hsplits'
  exact (encode_of_decode h hsplits').1 hplain

theorem encodeHex_of_markless (hdenotes : Denotes text digits record) (hmarkless : Markless record)
    (h : decodeHex text = .ok descriptor) : encodeHex descriptor = digits.lower := by
  rw [decodeHex_of_denotes hdenotes] at h
  rw [encodeHex, encode_of_markless h hmarkless, Hex.lower_of_spells hdenotes.spells]

theorem equals_iff_of_markless {record' : Bytes} {descriptor' : Descriptor}
    (h : decode record = .ok descriptor) (h' : decode record' = .ok descriptor')
    (hmarkless : Markless record) (hmarkless' : Markless record') :
    descriptor.equals (some descriptor') = true ↔ record = record' := by
  constructor
  · intro hequals
    rw [← encode_of_markless h hmarkless, ← encode_of_markless h' hmarkless']
    exact encode_eq_of_agree (agree_of_equals hequals)
  · rintro rfl
    rw [h, Except.ok.injEq] at h'
    rw [← h']
    exact Descriptor.equals_self_of_decodable (decodable_of_decode h)

/-- A record is read from just the texts that spell it in digits of either case, behind one mark
or none; every other text is refused as a malformed record. As long as the name field begins with
no byte order mark, writing what was read gives the digits in lower case, so that two texts are
read as equal descriptors exactly when they differ at most in mark and case. -/
theorem text_transport :
    (∀ text, (∃ descriptor, decodeHex text = .ok descriptor) ↔
      ∃ digits record, Denotes text digits record ∧
        ∃ descriptor, decode record = .ok descriptor) ∧
    (∀ text digits record, Denotes text digits record → decodeHex text = decode record) ∧
    (∀ text fault, decodeHex text = .error fault →
      fault = .malformedRecord ∧ fault.code? = some "MALFORMED_RECORD") ∧
    (∀ text digits record descriptor, Denotes text digits record → Markless record →
      decodeHex text = .ok descriptor → encodeHex descriptor = digits.lower) ∧
    (∀ text digits record descriptor text' digits' record' descriptor',
      Denotes text digits record → Markless record → decodeHex text = .ok descriptor →
      Denotes text' digits' record' → Markless record' → decodeHex text' = .ok descriptor' →
      (descriptor.equals (some descriptor') = true ↔ digits.lower = digits'.lower)) := by
  refine ⟨?_, fun _ _ _ => decodeHex_of_denotes, ?_, fun _ _ _ _ => encodeHex_of_markless, ?_⟩
  · intro text
    constructor
    · rintro ⟨descriptor, h⟩
      obtain ⟨digits, record, hdenotes, hdecode⟩ := decodeHex_eq_ok_iff.mp h
      exact ⟨digits, record, hdenotes, descriptor, hdecode⟩
    · rintro ⟨digits, record, hdenotes, descriptor, hdecode⟩
      exact ⟨descriptor, decodeHex_eq_ok_iff.mpr ⟨digits, record, hdenotes, hdecode⟩⟩
  · intro text fault h
    obtain rfl := decodeHex_error h
    exact ⟨rfl, rfl⟩
  · intro text digits record descriptor text' digits' record' descriptor' hdenotes hmarkless h
      hdenotes' hmarkless' h'
    rw [decodeHex_of_denotes hdenotes] at h
    rw [decodeHex_of_denotes hdenotes'] at h'
    rw [equals_iff_of_markless h h' hmarkless hmarkless', Hex.lower_of_spells hdenotes.spells,
      Hex.lower_of_spells hdenotes'.spells]
    exact ⟨congrArg Hex.encode, Hex.encode_injective⟩

theorem text_transport_of_mark :
    decodeHex (Text.ofString "0x0000000141000000010Fffffff80") =
      .ok { name := [0x41], key := [15], truncation := .ofInt (-128) } ∧
    encodeHex { name := [0x41], key := [15], truncation := .ofInt (-128) } =
      Text.ofString "0000000141000000010fffffff80" ∧
    decodeHex (Text.ofString "0x0x0000000141000000010Fffffff80") = .error .malformedRecord ∧
    decodeHex (Text.ofString "000") = .error .malformedRecord := by
  let digits := Text.ofString "0000000141000000010Fffffff80"
  let record : Bytes := [0, 0, 0, 1, 0x41, 0, 0, 0, 1, 15, 0xFF, 0xFF, 0xFF, 0x80]
  have hread : decodeHex (Text.ofString "0x0000000141000000010Fffffff80") =
      .ok { name := [0x41], key := [15], truncation := .ofInt (-128) } := by decide +kernel
  have hdenotes : Denotes (Text.ofString "0x0000000141000000010Fffffff80") digits record :=
    ⟨Or.inr (by decide +kernel), Hex.spells_of_pairs (by decide +kernel)⟩
  have hmarkless : Markless record :=
    ⟨[0x41], [15], [0xFF, 0xFF, 0xFF, 0x80], ⟨by decide, by decide, rfl, by decide⟩, by decide⟩
  have hrefused : ∀ text, (decodeHex text).isOk = false →
      decodeHex text = .error .malformedRecord := by
    intro text hfails
    cases houtcome : decodeHex text with
    | ok descriptor =>
        rw [houtcome] at hfails
        cases hfails
    | error fault => rw [(text_transport.2.2.1 text fault houtcome).1]
  refine ⟨hread, ?_, hrefused _ (by decide +kernel), hrefused _ (by decide +kernel)⟩
  exact text_transport.2.2.2.1 _ digits record _ hdenotes hmarkless hread

end IpsecTransform.Record
