import IpsecTransform.Proofs.HexGrammar

namespace IpsecTransform.Hex

variable {text digits : Text} {bytes : Bytes}

/-- The text without its mark. One mark is taken and no more, and `0X` is none. -/
inductive Bare : Text → Text → Prop where
  | marked (digits : Text) : Bare (mark ++ digits) digits
  | plain {text : Text} (h : ¬ mark <+: text) : Bare text text

theorem unmarked_eq_self (h : ¬ mark <+: text) : unmarked text = text := by
  refine if_neg ?_
  intro hmark
  exact h (hmark ▸ List.take_prefix mark.length text)

theorem bare_unmarked (text : Text) : Bare text (unmarked text) := by
  by_cases hmark : mark <+: text
  · obtain ⟨digits, rfl⟩ := hmark
    rw [unmarked_mark_append]
    exact .marked digits
  · rw [unmarked_eq_self hmark]
    exact .plain hmark

theorem unmarked_of_bare (h : Bare text digits) : unmarked text = digits := by
  cases h with
  | marked => exact unmarked_mark_append digits
  | plain hplain => exact unmarked_eq_self hplain

theorem decode_of_odd (h : Bare text digits) (hodd : digits.length % 2 = 1) :
    decode text = .error .oddHexLength := by
  rw [decode, unmarked_of_bare h, if_neg (by omega)]

theorem decode_of_even (h : Bare text digits) (heven : digits.length % 2 = 0) :
    decode text = pairs digits := by
  rw [decode, unmarked_of_bare h, if_pos heven]

theorem even_of_decode_ne (h : Bare text digits) (hne : decode text ≠ .error .oddHexLength) :
    digits.length % 2 = 0 := by
  rcases Nat.mod_two_eq_zero_or_one digits.length with heven | hodd
  · exact heven
  · exact absurd (decode_of_odd h hodd) hne

/-- The byte at a position is spelled by the two digits at twice the position. -/
def SpelledAt (digits : Text) (bytes : Bytes) (position : Nat) : Prop :=
  ∃ high low upper lower byte, digits[2 * position]? = some high ∧
    digits[2 * position + 1]? = some low ∧ IsDigit high upper ∧ IsDigit low lower ∧
    bytes[position]? = some byte ∧ byte.toNat = 16 * upper.toNat + lower.toNat

theorem spelledAt_cons_succ {high low : UInt16} {byte : UInt8} {position : Nat}
    (h : SpelledAt digits bytes position) :
    SpelledAt (high :: low :: digits) (byte :: bytes) (position + 1) := h

theorem toNat_of_isDigit {high low : UInt16} {upper lower : UInt8} (hhigh : IsDigit high upper)
    (hlow : IsDigit low lower) : (16 * upper + lower).toNat = 16 * upper.toNat + lower.toNat := by
  have hupper := lt_of_isDigit hhigh
  have hlower := lt_of_isDigit hlow
  simp only [UInt8.toNat_add, UInt8.toNat_mul, UInt8.reduceToNat]
  omega

theorem spelledAt_of_spells (h : Spells digits bytes) {position : Nat}
    (hposition : position < bytes.length) : SpelledAt digits bytes position := by
  induction h generalizing position with
  | nil => cases hposition
  | @cons high low upper lower digits bytes hhigh hlow _ ih =>
      cases position with
      | zero =>
          exact ⟨high, low, upper, lower, _, rfl, rfl, hhigh, hlow, rfl,
            toNat_of_isDigit hhigh hlow⟩
      | succ position =>
          exact spelledAt_cons_succ (ih (Nat.lt_of_succ_lt_succ hposition))

def AnyDigit (unit : UInt16) : Prop := ∃ value, IsDigit unit value

theorem anyDigit_iff {unit : UInt16} : AnyDigit unit ↔ (value? unit).isSome = true := by
  simp only [AnyDigit, ← value?_eq_some_iff, Option.isSome_iff_exists]

instance (unit : UInt16) : Decidable (AnyDigit unit) := decidable_of_iff _ anyDigit_iff.symm

theorem anyDigit_of_spells (h : Spells digits bytes) : ∀ unit ∈ digits, AnyDigit unit := by
  induction h with
  | nil => exact List.forall_mem_nil AnyDigit
  | cons hhigh hlow _ ih =>
      rw [List.forall_mem_cons, List.forall_mem_cons]
      exact ⟨⟨_, hhigh⟩, ⟨_, hlow⟩, ih⟩

theorem even_of_cons_cons {high low : UInt16} (h : (high :: low :: digits).length % 2 = 0) :
    digits.length % 2 = 0 := by
  rw [List.length_cons, List.length_cons] at h
  omega

theorem exists_spells (heven : digits.length % 2 = 0) (hdigits : ∀ unit ∈ digits, AnyDigit unit) :
    ∃ bytes, Spells digits bytes := by
  -- two units at a time, as they are read
  induction digits using pairs.induct with
  | case1 => exact ⟨[], .nil⟩
  | case2 unit => cases heven
  | case3 high low rest upper lower hlow hhigh ih =>
      rw [List.forall_mem_cons, List.forall_mem_cons] at hdigits
      obtain ⟨bytes, hrest⟩ := ih (even_of_cons_cons heven) hdigits.2.2
      exact ⟨_, .cons (value?_eq_some_iff.mp hhigh) (value?_eq_some_iff.mp hlow) hrest⟩
  | case4 high low rest hnone =>
      rw [List.forall_mem_cons, List.forall_mem_cons] at hdigits
      obtain ⟨⟨upper, hhigh⟩, ⟨lower, hlow⟩, -⟩ := hdigits
      exact (hnone upper lower (value?_eq_some_iff.mpr hhigh) (value?_eq_some_iff.mpr hlow)).elim

theorem pairs_error {fault : Fault} (heven : digits.length % 2 = 0)
    (h : pairs digits = .error fault) : fault = .nonHexDigit := by
  induction digits using pairs.induct with
  | case1 => cases h
  | case2 unit => cases heven
  | case3 high low rest upper lower hlow hhigh ih =>
      simp only [pairs, hhigh, hlow, Fault.map_eq_error_iff] at h
      exact ih (even_of_cons_cons heven) h
  | case4 high low rest hnone =>
      rw [pairs] at h
      split at h
      · rename_i upper lower hhigh hlow
        exact (hnone upper lower hhigh hlow).elim
      · exact (Except.error.inj h).symm

theorem decode_eq_ok_iff_spells (h : Bare text digits) :
    decode text = .ok bytes ↔ Spells digits bytes := by
  constructor
  · intro hdecode
    have heven := even_of_decode_ne h (by simp [hdecode])
    rw [decode_of_even h heven] at hdecode
    exact spells_of_pairs hdecode
  · intro hspells
    have hlength := length_of_spells hspells
    rw [decode_of_even h (by omega), pairs_of_spells hspells]

theorem decode_eq_oddHexLength_iff (h : Bare text digits) :
    decode text = .error .oddHexLength ↔ digits.length % 2 = 1 := by
  constructor
  · intro herror
    rcases Nat.mod_two_eq_zero_or_one digits.length with heven | hodd
    · rw [decode_of_even h heven] at herror
      cases pairs_error heven herror
    · exact hodd
  · exact decode_of_odd h

theorem decode_eq_nonHexDigit_iff (h : Bare text digits) :
    decode text = .error .nonHexDigit ↔
      digits.length % 2 = 0 ∧ ¬ ∀ unit ∈ digits, AnyDigit unit := by
  constructor
  · intro herror
    have heven := even_of_decode_ne h (by simp [herror])
    refine ⟨heven, ?_⟩
    intro hdigits
    obtain ⟨bytes, hspells⟩ := exists_spells heven hdigits
    rw [(decode_eq_ok_iff_spells h).mpr hspells] at herror
    cases herror
  · rintro ⟨heven, hwrong⟩
    cases hdecode : decode text with
    | ok bytes =>
        have hspells := (decode_eq_ok_iff_spells h).mp hdecode
        exact absurd (anyDigit_of_spells hspells) hwrong
    | error fault =>
        rw [decode_of_even h heven] at hdecode
        rw [pairs_error heven hdecode]

/-- Reading the text is refused with that message. -/
def FailsWith (text : Text) (message : String) : Prop :=
  ∃ fault, decode text = .error fault ∧ fault.message = message

theorem failsWith_message_iff {fault : Fault} :
    FailsWith text fault.message ↔ decode text = .error fault := by
  constructor
  · rintro ⟨other, hdecode, hmessage⟩
    rw [hdecode, Fault.message_injective hmessage]
  · exact fun hdecode => ⟨fault, hdecode, rfl⟩

/-- Behind one mark or none, a text has an odd number of units and is refused for its length,
whatever they are; or one of its units, anywhere, is no digit, and it is refused for that; or it
is read as bytes, each from the two digits at twice its position. -/
theorem reading_sorts_texts (text : Text) :
    ∃ digits, Bare text digits ∧ (∀ other, Bare text other → other = digits) ∧
      (FailsWith text "Invalid hex string: odd length" ↔ digits.length % 2 = 1) ∧
      (FailsWith text "Invalid hex string: non-hex character" ↔
        digits.length % 2 = 0 ∧ ∃ unit ∈ digits, ¬ AnyDigit unit) ∧
      (digits.length % 2 = 0 → (∀ unit ∈ digits, AnyDigit unit) →
        ∃ bytes, decode text = .ok bytes ∧ bytes.length = digits.length / 2 ∧
          ∀ position < bytes.length, SpelledAt digits bytes position) := by
  have hbare := bare_unmarked text
  refine ⟨unmarked text, hbare, fun other h => (unmarked_of_bare h).symm, ?_, ?_, ?_⟩
  · exact failsWith_message_iff.trans (decode_eq_oddHexLength_iff hbare)
  · refine failsWith_message_iff.trans ((decode_eq_nonHexDigit_iff hbare).trans ?_)
    simp only [Classical.not_forall, exists_prop]
  · intro heven hdigits
    obtain ⟨bytes, hspells⟩ := exists_spells heven hdigits
    have hlength := length_of_spells hspells
    exact ⟨bytes, (decode_eq_ok_iff_spells hbare).mpr hspells, by omega,
      fun position => spelledAt_of_spells hspells⟩

theorem reading_sorts_texts_of_marks :
    FailsWith (Text.ofString "0x0x1f") "Invalid hex string: non-hex character" ∧
      FailsWith (Text.ofString "0x0x1") "Invalid hex string: odd length" ∧
      ∃ bytes, decode (Text.ofString "0xaF07") = .ok bytes ∧ bytes.length = 2 ∧
        SpelledAt (Text.ofString "aF07") bytes 0 := by
  have hdoubled : Bare (Text.ofString "0x0x1f") (Text.ofString "0x1f") := .marked _
  have hodd : Bare (Text.ofString "0x0x1") (Text.ofString "0x1") := .marked _
  have hread : Bare (Text.ofString "0xaF07") (Text.ofString "aF07") := .marked _
  refine ⟨?_, ?_, ?_⟩
  · obtain ⟨digits, -, hunique, -, hwrong, -⟩ := reading_sorts_texts (Text.ofString "0x0x1f")
    obtain rfl := hunique _ hdoubled
    exact hwrong.mpr ⟨rfl, 0x78, by decide, by decide⟩
  · obtain ⟨digits, -, hunique, hlength, -⟩ := reading_sorts_texts (Text.ofString "0x0x1")
    obtain rfl := hunique _ hodd
    exact hlength.mpr rfl
  · obtain ⟨digits, -, hunique, -, -, hbytes⟩ := reading_sorts_texts (Text.ofString "0xaF07")
    obtain rfl := hunique _ hread
    have hspells : Spells (Text.ofString "aF07") [0xAF, 0x07] := spells_of_pairs rfl
    obtain ⟨bytes, hdecode, hlength, hspelled⟩ := hbytes rfl (anyDigit_of_spells hspells)
    have hsize : bytes.length = 2 := hlength
    exact ⟨bytes, hdecode, hsize, hspelled 0 (by omega)⟩

theorem spells_encode (bytes : Bytes) : Spells (encode bytes) bytes :=
  spells_of_pairs (pairs_encode bytes)

theorem not_mark_prefix_encode (bytes : Bytes) : ¬ mark <+: encode bytes := by
  intro hmark
  have hunit : 0x78 ∈ encode bytes := hmark.subset (by decide)
  exact absurd (isSome_value?_of_mem_encode hunit) (by decide)

theorem decode_encode (bytes : Bytes) : decode (encode bytes) = .ok bytes :=
  (decode_eq_ok_iff_spells (.plain (not_mark_prefix_encode bytes))).mpr (spells_encode bytes)

theorem decode_mark_encode (bytes : Bytes) : decode (mark ++ encode bytes) = .ok bytes :=
  (decode_eq_ok_iff_spells (.marked (encode bytes))).mpr (spells_encode bytes)

theorem encode_of_decode (h : Bare text digits) (hdecode : decode text = .ok bytes) :
    encode bytes = digits.lower :=
  (lower_of_spells ((decode_eq_ok_iff_spells h).mp hdecode)).symm

/-- Bytes that have been written are read again, with a mark in front or without one, and what is
written never begins with a mark. A text that is read is written again without its mark and in
lower case, so that two such texts are read as the same bytes just when they differ at most in
mark and case. -/
theorem reading_and_writing_invert :
    (∀ bytes, decode (encode bytes) = .ok bytes ∧ decode (mark ++ encode bytes) = .ok bytes ∧
      ¬ mark <+: encode bytes) ∧
    (∀ text digits bytes, Bare text digits → decode text = .ok bytes →
      encode bytes = digits.lower) ∧
    (∀ text digits bytes text' digits' bytes', Bare text digits → decode text = .ok bytes →
      Bare text' digits' → decode text' = .ok bytes' →
      (decode text = decode text' ↔ digits.lower = digits'.lower)) := by
  refine ⟨?_, fun _ _ _ => encode_of_decode, ?_⟩
  · intro bytes
    exact ⟨decode_encode bytes, decode_mark_encode bytes, not_mark_prefix_encode bytes⟩
  · intro text digits bytes text' digits' bytes' hbare hdecode hbare' hdecode'
    rw [← encode_of_decode hbare hdecode, ← encode_of_decode hbare' hdecode', hdecode, hdecode',
      Except.ok.injEq]
    exact ⟨congrArg encode, encode_injective⟩

theorem reading_and_writing_invert_of_cases :
    let bytes : Bytes := [0x00, 0xFA, 0xBC]
    decode (Text.ofString "0x00fABc") = .ok bytes ∧ decode (Text.ofString "00FaBC") = .ok bytes ∧
      encode bytes = (Text.ofString "00FaBC").lower ∧
      decode (Text.ofString "0x00fABc") = decode (Text.ofString "00FaBC") := by
  intro bytes
  have hmarked : Bare (Text.ofString "0x00fABc") (Text.ofString "00fABc") := .marked _
  have hplain : Bare (Text.ofString "00FaBC") (Text.ofString "00FaBC") := .plain (by decide)
  have hfirst : decode (Text.ofString "0x00fABc") = .ok bytes := rfl
  have hsecond : decode (Text.ofString "00FaBC") = .ok bytes := rfl
  exact ⟨hfirst, hsecond, reading_and_writing_invert.2.1 _ _ _ hplain hsecond,
    (reading_and_writing_invert.2.2 _ _ _ _ _ _ hmarked hfirst hplain hsecond).mpr (by decide)⟩

end IpsecTransform.Hex
