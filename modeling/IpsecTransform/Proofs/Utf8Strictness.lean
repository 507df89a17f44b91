import Mathlib
import IpsecTransform.Text.Utf8
import IpsecTransform.Proofs.TextScalars

/-!
Strict UTF-8. The byte strings that are read are those of the published table of
well-formed sequences, and each is the written form of what is read from it.
-/

namespace IpsecTransform.Utf8

theorem isTrail_iff {byte : UInt8} :
    isTrail byte = true ↔ 0x80 ≤ byte.toNat ∧ byte.toNat < 0xC0 := by
  simp [isTrail, UInt8.le_iff_toNat_le, UInt8.lt_iff_toNat_lt]

theorem toNat_trail (payload : Nat) : (trail payload).toNat = 0x80 + payload % 0x40 := by
  rw [trail, UInt8.toNat_ofNat']
  omega

theorem isTrail_trail (payload : Nat) : isTrail (trail payload) = true := by
  rw [isTrail_iff, toNat_trail]
  omega

theorem trail_eq {byte : UInt8} (h : isTrail byte = true) {payload : Nat}
    (hpayload : payload % 0x40 = byte.toNat % 0x40) : trail payload = byte := by
  rw [isTrail_iff] at h
  rw [← UInt8.toNat_inj, toNat_trail]
  omega

/-- A sequence of several bytes is read as the number it spells, provided that its
bytes continue it, the number needs them all, and it is a scalar value. -/
theorem scalar?_eq_some_iff {least lead : Nat} {trails : Bytes} {scalar : Char} :
    scalar? least lead trails = some scalar ↔
      (∀ byte ∈ trails, isTrail byte = true) ∧ least ≤ scalar.toNat ∧
        assemble lead trails = scalar.toNat := by
  simp only [scalar?, List.all_eq_true]
  constructor
  · intro h
    split at h
    · rename_i hread
      obtain ⟨htrails, hleast, hvalid⟩ := hread
      have hvalue : scalar.toNat = assemble lead trails := by
        rw [← Option.some.inj h, Char.toNat_ofNat, if_pos hvalid]
      exact ⟨htrails, hvalue ▸ hleast, hvalue.symm⟩
    · cases h
  · rintro ⟨htrails, hleast, hvalue⟩
    rw [hvalue, if_pos ⟨htrails, hleast, scalar.valid⟩, Char.ofNat_toNat]

theorem exists_scalar? {least lead : Nat} {trails : Bytes}
    (htrails : ∀ byte ∈ trails, isTrail byte = true)
    (hleast : least ≤ assemble lead trails) (hvalid : (assemble lead trails).isValidChar) :
    ∃ scalar, scalar? least lead trails = some scalar := by
  refine ⟨Char.ofNat (assemble lead trails), ?_⟩
  rw [scalar?_eq_some_iff, Char.toNat_ofNat, if_pos hvalid]
  exact ⟨htrails, hleast, rfl⟩

theorem decodeScalars?_one {lead : UInt8} (rest : Bytes) (h : lead.toNat < 0x80) :
    decodeScalars? (lead :: rest) = (decodeScalars? rest).map (Char.ofNat lead.toNat :: ·) := by
  have hlead : lead < 0x80 := UInt8.lt_iff_toNat_lt.mpr h
  cases rest <;> simp [decodeScalars?, hlead]

theorem decodeScalars?_two {lead : UInt8} (second : UInt8) (rest : Bytes)
    (hlow : 0xC0 ≤ lead.toNat) (hhigh : lead.toNat < 0xE0) :
    decodeScalars? (lead :: second :: rest) =
      (scalar? 0x80 (lead.toNat - 0xC0) [second]).bind fun scalar =>
        (decodeScalars? rest).map (scalar :: ·) := by
  have hone : ¬ lead < 0x80 := by simp [UInt8.lt_iff_toNat_lt]; omega
  have htrail : ¬ lead < 0xC0 := by simpa [UInt8.lt_iff_toNat_lt] using hlow
  have htwo : lead < 0xE0 := UInt8.lt_iff_toNat_lt.mpr hhigh
  rw [decodeScalars?, if_neg hone, if_neg htrail, if_pos htwo]

theorem decodeScalars?_three {lead : UInt8} (second third : UInt8) (rest : Bytes)
    (hlow : 0xE0 ≤ lead.toNat) (hhigh : lead.toNat < 0xF0) :
    decodeScalars? (lead :: second :: third :: rest) =
      (scalar? 0x800 (lead.toNat - 0xE0) [second, third]).bind fun scalar =>
        (decodeScalars? rest).map (scalar :: ·) := by
  have hone : ¬ lead < 0x80 := by simp [UInt8.lt_iff_toNat_lt]; omega
  have htrail : ¬ lead < 0xC0 := by simp [UInt8.lt_iff_toNat_lt]; omega
  have htwo : ¬ lead < 0xE0 := by simpa [UInt8.lt_iff_toNat_lt] using hlow
  have hthree : lead < 0xF0 := UInt8.lt_iff_toNat_lt.mpr hhigh
  rw [decodeScalars?, if_neg hone, if_neg htrail, if_neg htwo, if_pos hthree]

theorem decodeScalars?_four {lead : UInt8} (second third fourth : UInt8) (rest : Bytes)
    (hlow : 0xF0 ≤ lead.toNat) (hhigh : lead.toNat < 0xF8) :
    decodeScalars? (lead :: second :: third :: fourth :: rest) =
      (scalar? 0x10000 (lead.toNat - 0xF0) [second, third, fourth]).bind fun scalar =>
        (decodeScalars? rest).map (scalar :: ·) := by
  have hone : ¬ lead < 0x80 := by simp [UInt8.lt_iff_toNat_lt]; omega
  have htrail : ¬ lead < 0xC0 := by simp [UInt8.lt_iff_toNat_lt]; omega
  have htwo : ¬ lead < 0xE0 := by simp [UInt8.lt_iff_toNat_lt]; omega
  have hthree : ¬ lead < 0xF0 := by simpa [UInt8.lt_iff_toNat_lt] using hlow
  have hfour : lead < 0xF8 := UInt8.lt_iff_toNat_lt.mpr hhigh
  rw [decodeScalars?, if_neg hone, if_neg htrail, if_neg htwo, if_neg hthree, if_pos hfour]

theorem encodeScalar_eq_one {scalar : Char} (h : scalar.toNat < 0x80) :
    ∃ lead, encodeScalar scalar = [lead] ∧ lead.toNat < 0x80 ∧
      Char.ofNat lead.toNat = scalar := by
  have hlead : (UInt8.ofNat scalar.toNat).toNat = scalar.toNat := by
    rw [UInt8.toNat_ofNat']
    omega
  refine ⟨UInt8.ofNat scalar.toNat, by rw [encodeScalar, if_pos h], ?_, ?_⟩
  · rwa [hlead]
  · rw [hlead, Char.ofNat_toNat]

theorem encodeScalar_eq_two {scalar : Char} (hlow : 0x80 ≤ scalar.toNat)
    (hhigh : scalar.toNat < 0x800) :
    ∃ lead second, encodeScalar scalar = [lead, second] ∧
      0xC0 ≤ lead.toNat ∧ lead.toNat < 0xE0 ∧
      scalar? 0x80 (lead.toNat - 0xC0) [second] = some scalar := by
  have hlead : (UInt8.ofNat (0xC0 + scalar.toNat / 0x40)).toNat =
      0xC0 + scalar.toNat / 0x40 := by
    rw [UInt8.toNat_ofNat']
    omega
  refine ⟨_, _, by rw [encodeScalar, if_neg (by omega), if_pos hhigh], ?_, ?_, ?_⟩
  · omega
  · omega
  · rw [scalar?_eq_some_iff, hlead]
    refine ⟨by simp [isTrail_trail], hlow, ?_⟩
    simp only [assemble, List.foldl_cons, List.foldl_nil, toNat_trail]
    omega

theorem encodeScalar_eq_three {scalar : Char} (hlow : 0x800 ≤ scalar.toNat)
    (hhigh : scalar.toNat < 0x10000) :
    ∃ lead second third, encodeScalar scalar = [lead, second, third] ∧
      0xE0 ≤ lead.toNat ∧ lead.toNat < 0xF0 ∧
      scalar? 0x800 (lead.toNat - 0xE0) [second, third] = some scalar := by
  have hlead : (UInt8.ofNat (0xE0 + scalar.toNat / 0x1000)).toNat =
      0xE0 + scalar.toNat / 0x1000 := by
    rw [UInt8.toNat_ofNat']
    omega
  refine ⟨_, _, _,
    by rw [encodeScalar, if_neg (by omega), if_neg (by omega), if_pos hhigh], ?_, ?_, ?_⟩
  · omega
  · omega
  · rw [scalar?_eq_some_iff, hlead]
    refine ⟨by simp [isTrail_trail], hlow, ?_⟩
    simp only [assemble, List.foldl_cons, List.foldl_nil, toNat_trail]
    omega

theorem encodeScalar_eq_four {scalar : Char} (hlow : 0x10000 ≤ scalar.toNat) :
    ∃ lead second third fourth, encodeScalar scalar = [lead, second, third, fourth] ∧
      0xF0 ≤ lead.toNat ∧ lead.toNat < 0xF8 ∧
      scalar? 0x10000 (lead.toNat - 0xF0) [second, third, fourth] = some scalar := by
  have hvalid : scalar.toNat.isValidChar := scalar.valid
  unfold Nat.isValidChar at hvalid
  have hlead : (UInt8.ofNat (0xF0 + scalar.toNat / 0x40000)).toNat =
      0xF0 + scalar.toNat / 0x40000 := by
    rw [UInt8.toNat_ofNat']
    omega
  refine ⟨_, _, _, _,
    by rw [encodeScalar, if_neg (by omega), if_neg (by omega), if_neg (by omega)], ?_, ?_, ?_⟩
  · omega
  · omega
  · rw [scalar?_eq_some_iff, hlead]
    refine ⟨by simp [isTrail_trail], hlow, ?_⟩
    simp only [assemble, List.foldl_cons, List.foldl_nil, toNat_trail]
    omega

theorem encodeScalar_cases (scalar : Char) :
    (∃ lead, encodeScalar scalar = [lead] ∧ lead.toNat < 0x80 ∧
        Char.ofNat lead.toNat = scalar) ∨
      (∃ lead second, encodeScalar scalar = [lead, second] ∧
        0xC0 ≤ lead.toNat ∧ lead.toNat < 0xE0 ∧
        scalar? 0x80 (lead.toNat - 0xC0) [second] = some scalar) ∨
      (∃ lead second third, encodeScalar scalar = [lead, second, third] ∧
        0xE0 ≤ lead.toNat ∧ lead.toNat < 0xF0 ∧
        scalar? 0x800 (lead.toNat - 0xE0) [second, third] = some scalar) ∨
      ∃ lead second third fourth, encodeScalar scalar = [lead, second, third, fourth] ∧
        0xF0 ≤ lead.toNat ∧ lead.toNat < 0xF8 ∧
        scalar? 0x10000 (lead.toNat - 0xF0) [second, third, fourth] = some scalar := by
  rcases Nat.lt_or_ge scalar.toNat 0x80 with hone | hone
  · exact Or.inl (encodeScalar_eq_one hone)
  right
  rcases Nat.lt_or_ge scalar.toNat 0x800 with htwo | htwo
  · exact Or.inl (encodeScalar_eq_two hone htwo)
  right
  rcases Nat.lt_or_ge scalar.toNat 0x10000 with hthree | hthree
  · exact Or.inl (encodeScalar_eq_three htwo hthree)
  · exact Or.inr (encodeScalar_eq_four hthree)

theorem decodeScalars?_encodeScalar_append (scalar : Char) (rest : Bytes) :
    decodeScalars? (encodeScalar scalar ++ rest) =
      (decodeScalars? rest).map (scalar :: ·) := by
  rcases encodeScalar_cases scalar with
    ⟨lead, hbytes, hlead, hread⟩ | ⟨lead, second, hbytes, hlow, hhigh, hread⟩ |
      ⟨lead, second, third, hbytes, hlow, hhigh, hread⟩ |
      ⟨lead, second, third, fourth, hbytes, hlow, hhigh, hread⟩
  · rw [hbytes, List.singleton_append, decodeScalars?_one rest hlead, hread]
  · rw [hbytes]
    change decodeScalars? (lead :: second :: rest) = _
    rw [decodeScalars?_two second rest hlow hhigh, hread, Option.bind_some]
  · rw [hbytes]
    change decodeScalars? (lead :: second :: third :: rest) = _
    rw [decodeScalars?_three second third rest hlow hhigh, hread, Option.bind_some]
  · rw [hbytes]
    change decodeScalars? (lead :: second :: third :: fourth :: rest) = _
    rw [decodeScalars?_four second third fourth rest hlow hhigh, hread, Option.bind_some]

theorem decodeScalars?_encodeScalars (scalars : List Char) :
    decodeScalars? (encodeScalars scalars) = some scalars := by
  induction scalars with
  | nil => rfl
  | cons scalar scalars ih =>
      rw [encodeScalars, List.flatMap_cons, decodeScalars?_encodeScalar_append]
      change (decodeScalars? (encodeScalars scalars)).map _ = _
      rw [ih, Option.map_some]

theorem encodeScalar_of_ascii {lead : UInt8} (h : lead < 0x80) :
    encodeScalar (Char.ofNat lead.toNat) = [lead] := by
  rw [UInt8.lt_iff_toNat_lt] at h
  change lead.toNat < 0x80 at h
  have hvalid : lead.toNat.isValidChar := by
    unfold Nat.isValidChar
    omega
  simp [encodeScalar, Char.toNat_ofNat, hvalid, h]

theorem encodeScalar_of_two {lead second : UInt8} {scalar : Char}
    (hlow : 0xC0 ≤ lead.toNat) (hhigh : lead.toNat < 0xE0)
    (h : scalar? 0x80 (lead.toNat - 0xC0) [second] = some scalar) :
    encodeScalar scalar = [lead, second] := by
  obtain ⟨htrails, hleast, hvalue⟩ := scalar?_eq_some_iff.mp h
  have hsecond := htrails second (by simp)
  have hrange := isTrail_iff.mp hsecond
  simp only [assemble, List.foldl_cons, List.foldl_nil] at hvalue
  have hlead : UInt8.ofNat (0xC0 + scalar.toNat / 0x40) = lead := by
    rw [← UInt8.toNat_inj, UInt8.toNat_ofNat']
    omega
  rw [encodeScalar, if_neg (by omega), if_pos (by omega), hlead,
    trail_eq hsecond (by omega)]

theorem encodeScalar_of_three {lead second third : UInt8} {scalar : Char}
    (hlow : 0xE0 ≤ lead.toNat) (hhigh : lead.toNat < 0xF0)
    (h : scalar? 0x800 (lead.toNat - 0xE0) [second, third] = some scalar) :
    encodeScalar scalar = [lead, second, third] := by
  obtain ⟨htrails, hleast, hvalue⟩ := scalar?_eq_some_iff.mp h
  have hsecond := htrails second (by simp)
  have hthird := htrails third (by simp)
  have hrange := isTrail_iff.mp hsecond
  have hrange' := isTrail_iff.mp hthird
  simp only [assemble, List.foldl_cons, List.foldl_nil] at hvalue
  have hlead : UInt8.ofNat (0xE0 + scalar.toNat / 0x1000) = lead := by
    rw [← UInt8.toNat_inj, UInt8.toNat_ofNat']
    omega
  rw [encodeScalar, if_neg (by omega), if_neg (by omega), if_pos (by omega), hlead,
    trail_eq hsecond (by omega), trail_eq hthird (by omega)]

theorem encodeScalar_of_four {lead second third fourth : UInt8} {scalar : Char}
    (hlow : 0xF0 ≤ lead.toNat) (hhigh : lead.toNat < 0xF8)
    (h : scalar? 0x10000 (lead.toNat - 0xF0) [second, third, fourth] = some scalar) :
    encodeScalar scalar = [lead, second, third, fourth] := by
  obtain ⟨htrails, hleast, hvalue⟩ := scalar?_eq_some_iff.mp h
  have hsecond := htrails second (by simp)
  have hthird := htrails third (by simp)
  have hfourth := htrails fourth (by simp)
  have hrange := isTrail_iff.mp hsecond
  have hrange' := isTrail_iff.mp hthird
  have hrange'' := isTrail_iff.mp hfourth
  simp only [assemble, List.foldl_cons, List.foldl_nil] at hvalue
  have hlead : UInt8.ofNat (0xF0 + scalar.toNat / 0x40000) = lead := by
    rw [← UInt8.toNat_inj, UInt8.toNat_ofNat']
    omega
  rw [encodeScalar, if_neg (by omega), if_neg (by omega), if_neg (by omega), hlead,
    trail_eq hsecond (by omega), trail_eq hthird (by omega), trail_eq hfourth (by omega)]

theorem encodeScalars_of_bind {read : Option Char} {sequence rest : Bytes}
    {scalars : List Char} (hread : ∀ scalar, read = some scalar → encodeScalar scalar = sequence)
    (hrest : ∀ values, decodeScalars? rest = some values → encodeScalars values = rest)
    (h : (read.bind fun scalar => (decodeScalars? rest).map (scalar :: ·)) = some scalars) :
    encodeScalars scalars = sequence ++ rest := by
  obtain ⟨scalar, hscalar, hmap⟩ := Option.bind_eq_some_iff.mp h
  obtain ⟨values, hvalues, rfl⟩ := Option.map_eq_some_iff.mp hmap
  rw [encodeScalars, List.flatMap_cons, hread scalar hscalar]
  exact congrArg (sequence ++ ·) (hrest values hvalues)

theorem encodeScalars_of_decodeScalars? {bytes : Bytes} {scalars : List Char}
    (h : decodeScalars? bytes = some scalars) : encodeScalars scalars = bytes := by
  fun_induction decodeScalars? bytes generalizing scalars with
  | case1 =>
      rw [← Option.some.inj h]
      rfl
  | case2 lead rest hone ih =>
      obtain ⟨values, hvalues, rfl⟩ := Option.map_eq_some_iff.mp h
      rw [encodeScalars, List.flatMap_cons, encodeScalar_of_ascii hone]
      exact congrArg (lead :: ·) (ih hvalues)
  | case4 lead hone htrail htwo second rest ih =>
      have hlow : 0xC0 ≤ lead.toNat := UInt8.le_iff_toNat_le.mp (UInt8.not_lt.mp htrail)
      have hhigh : lead.toNat < 0xE0 := UInt8.lt_iff_toNat_lt.mp htwo
      exact encodeScalars_of_bind (fun _ => encodeScalar_of_two hlow hhigh) (fun _ => ih) h
  | case6 lead hone htrail htwo hthree second third rest ih =>
      have hlow : 0xE0 ≤ lead.toNat := UInt8.le_iff_toNat_le.mp (UInt8.not_lt.mp htwo)
      have hhigh : lead.toNat < 0xF0 := UInt8.lt_iff_toNat_lt.mp hthree
      exact encodeScalars_of_bind (fun _ => encodeScalar_of_three hlow hhigh) (fun _ => ih) h
  | case8 lead hone htrail htwo hthree hfour second third fourth rest ih =>
      have hlow : 0xF0 ≤ lead.toNat := UInt8.le_iff_toNat_le.mp (UInt8.not_lt.mp hthree)
      have hhigh : lead.toNat < 0xF8 := UInt8.lt_iff_toNat_lt.mp hfour
      exact encodeScalars_of_bind (fun _ => encodeScalar_of_four hlow hhigh) (fun _ => ih) h
  | case3 | case5 | case7 | case9 | case10 => cases h

theorem decodeScalars?_eq_some_iff {bytes : Bytes} {scalars : List Char} :
    decodeScalars? bytes = some scalars ↔ encodeScalars scalars = bytes := by
  constructor
  · exact encodeScalars_of_decodeScalars?
  · rintro rfl
    exact decodeScalars?_encodeScalars scalars

theorem encodeScalars_injective {left right : List Char}
    (h : encodeScalars left = encodeScalars right) : left = right := by
  have hleft := decodeScalars?_encodeScalars left
  rw [h, decodeScalars?_encodeScalars] at hleft
  exact (Option.some.inj hleft).symm

/-- The rows of the table: the range of each byte of a sequence. After `0xE0` and
`0xF0` the second byte leaves out what has a shorter form, after `0xED` the surrogates,
and after `0xF4` what is no scalar value. -/
def rows : List (List (UInt8 × UInt8)) :=
  [[(0x00, 0x7F)],
    [(0xC2, 0xDF), (0x80, 0xBF)],
    [(0xE0, 0xE0), (0xA0, 0xBF), (0x80, 0xBF)],
    [(0xE1, 0xEC), (0x80, 0xBF), (0x80, 0xBF)],
    [(0xED, 0xED), (0x80, 0x9F), (0x80, 0xBF)],
    [(0xEE, 0xEF), (0x80, 0xBF), (0x80, 0xBF)],
    [(0xF0, 0xF0), (0x90, 0xBF), (0x80, 0xBF), (0x80, 0xBF)],
    [(0xF1, 0xF3), (0x80, 0xBF), (0x80, 0xBF), (0x80, 0xBF)],
    [(0xF4, 0xF4), (0x80, 0x8F), (0x80, 0xBF), (0x80, 0xBF)]]

def InRange (byte : UInt8) (range : UInt8 × UInt8) : Prop :=
  range.1 ≤ byte ∧ byte ≤ range.2

def IsSequence (bytes : Bytes) : Prop :=
  ∃ row ∈ rows, List.Forall₂ InRange bytes row

/-- Well-formed sequences, one after the other. -/
inductive Strict : Bytes → Prop where
  | nil : Strict []
  | append {sequence rest : Bytes} :
      IsSequence sequence → Strict rest → Strict (sequence ++ rest)

theorem inRange_iff {byte low high : UInt8} :
    InRange byte (low, high) ↔ low.toNat ≤ byte.toNat ∧ byte.toNat ≤ high.toNat := by
  rw [InRange, UInt8.le_iff_toNat_le, UInt8.le_iff_toNat_le]

/-- The number that the bytes of a scalar value spell, with six bits from each byte behind the
first. -/
theorem encodeScalar_spells (scalar : Char) :
    (∃ first, encodeScalar scalar = [first] ∧ first.toNat < 0x80 ∧
        first.toNat = scalar.toNat) ∨
      (∃ first second, encodeScalar scalar = [first, second] ∧
        (0xC0 ≤ first.toNat ∧ first.toNat < 0xE0) ∧
        (0x80 ≤ second.toNat ∧ second.toNat < 0xC0) ∧ 0x80 ≤ scalar.toNat ∧
        (first.toNat - 0xC0) * 0x40 + (second.toNat - 0x80) = scalar.toNat) ∨
      (∃ first second third, encodeScalar scalar = [first, second, third] ∧
        (0xE0 ≤ first.toNat ∧ first.toNat < 0xF0) ∧
        (0x80 ≤ second.toNat ∧ second.toNat < 0xC0) ∧
        (0x80 ≤ third.toNat ∧ third.toNat < 0xC0) ∧ 0x800 ≤ scalar.toNat ∧
        (first.toNat - 0xE0) * 0x1000 + (second.toNat - 0x80) * 0x40 + (third.toNat - 0x80) =
          scalar.toNat) ∨
      ∃ first second third fourth, encodeScalar scalar = [first, second, third, fourth] ∧
        (0xF0 ≤ first.toNat ∧ first.toNat < 0xF8) ∧
        (0x80 ≤ second.toNat ∧ second.toNat < 0xC0) ∧
        (0x80 ≤ third.toNat ∧ third.toNat < 0xC0) ∧
        (0x80 ≤ fourth.toNat ∧ fourth.toNat < 0xC0) ∧ 0x10000 ≤ scalar.toNat ∧
        (first.toNat - 0xF0) * 0x40000 + (second.toNat - 0x80) * 0x1000 +
          (third.toNat - 0x80) * 0x40 + (fourth.toNat - 0x80) = scalar.toNat := by
  rcases encodeScalar_cases scalar with
    ⟨first, hbytes, hfirst, hread⟩ | ⟨first, second, hbytes, hlow, hhigh, hread⟩ |
      ⟨first, second, third, hbytes, hlow, hhigh, hread⟩ |
      ⟨first, second, third, fourth, hbytes, hlow, hhigh, hread⟩
  · have hvalid : first.toNat.isValidChar := Or.inl (by omega)
    refine Or.inl ⟨first, hbytes, hfirst, ?_⟩
    rw [← hread, Char.toNat_ofNat, if_pos hvalid]
  · obtain ⟨htrails, hleast, hvalue⟩ := scalar?_eq_some_iff.mp hread
    simp only [List.mem_singleton, forall_eq, isTrail_iff] at htrails
    simp only [assemble, List.foldl_cons, List.foldl_nil] at hvalue
    exact Or.inr (Or.inl ⟨first, second, hbytes, ⟨hlow, hhigh⟩, htrails, hleast, by omega⟩)
  · obtain ⟨htrails, hleast, hvalue⟩ := scalar?_eq_some_iff.mp hread
    simp only [List.mem_cons, List.not_mem_nil, or_false, forall_eq_or_imp, forall_eq,
      isTrail_iff] at htrails
    simp only [assemble, List.foldl_cons, List.foldl_nil] at hvalue
    exact Or.inr (Or.inr (Or.inl ⟨first, second, third, hbytes, ⟨hlow, hhigh⟩, htrails.1, htrails.2,
      hleast, by omega⟩))
  · obtain ⟨htrails, hleast, hvalue⟩ := scalar?_eq_some_iff.mp hread
    simp only [List.mem_cons, List.not_mem_nil, or_false, forall_eq_or_imp, forall_eq,
      isTrail_iff] at htrails
    simp only [assemble, List.foldl_cons, List.foldl_nil] at hvalue
    exact Or.inr (Or.inr (Or.inr ⟨first, second, third, fourth, hbytes, ⟨hlow, hhigh⟩, htrails.1,
      htrails.2.1, htrails.2.2, hleast, by omega⟩))

/-- The written form of a scalar value follows a row. The row is told by the first byte;
the range of the second is narrowed by the scalar value that the bytes spell. -/
theorem isSequence_encodeScalar (scalar : Char) : IsSequence (encodeScalar scalar) := by
  have hvalid : scalar.toNat.isValidChar := scalar.valid
  unfold Nat.isValidChar at hvalid
  rcases encodeScalar_spells scalar with
    ⟨lead, hbytes, hlead, -⟩ | ⟨lead, second, hbytes, hlead, hsecond, hleast, hvalue⟩ |
      ⟨lead, second, third, hbytes, hlead, hsecond, hthird, hleast, hvalue⟩ |
      ⟨lead, second, third, fourth, hbytes, hlead, hsecond, hthird, hfourth, hleast, hvalue⟩
  · rw [hbytes]
    refine ⟨[(0x00, 0x7F)], by simp [rows], ?_⟩
    simp [inRange_iff]
    omega
  · rw [hbytes]
    refine ⟨[(0xC2, 0xDF), (0x80, 0xBF)], by simp [rows], ?_⟩
    simp [inRange_iff]
    omega
  · rw [hbytes]
    have hrow : lead.toNat = 0xE0 ∨ (0xE1 ≤ lead.toNat ∧ lead.toNat ≤ 0xEC) ∨
        lead.toNat = 0xED ∨ 0xEE ≤ lead.toNat := by omega
    rcases hrow with hrow | hrow | hrow | hrow
    · refine ⟨[(0xE0, 0xE0), (0xA0, 0xBF), (0x80, 0xBF)], by simp [rows], ?_⟩
      simp [inRange_iff]
      omega
    · refine ⟨[(0xE1, 0xEC), (0x80, 0xBF), (0x80, 0xBF)], by simp [rows], ?_⟩
      simp [inRange_iff]
      omega
    · refine ⟨[(0xED, 0xED), (0x80, 0x9F), (0x80, 0xBF)], by simp [rows], ?_⟩
      simp [inRange_iff]
      omega
    · refine ⟨[(0xEE, 0xEF), (0x80, 0xBF), (0x80, 0xBF)], by simp [rows], ?_⟩
      simp [inRange_iff]
      omega
  · rw [hbytes]
    have hrow : lead.toNat = 0xF0 ∨ (0xF1 ≤ lead.toNat ∧ lead.toNat ≤ 0xF3) ∨
        lead.toNat = 0xF4 := by omega
    rcases hrow with hrow | hrow | hrow
    · refine ⟨[(0xF0, 0xF0), (0x90, 0xBF), (0x80, 0xBF), (0x80, 0xBF)], by simp [rows], ?_⟩
      simp [inRange_iff]
      omega
    · refine ⟨[(0xF1, 0xF3), (0x80, 0xBF), (0x80, 0xBF), (0x80, 0xBF)], by simp [rows], ?_⟩
      simp [inRange_iff]
      omega
    · refine ⟨[(0xF4, 0xF4), (0x80, 0x8F), (0x80, 0xBF), (0x80, 0xBF)], by simp [rows], ?_⟩
      simp [inRange_iff]
      omega

theorem exists_encodeScalar_one {bytes : Bytes}
    (h : List.Forall₂ InRange bytes [(0x00, 0x7F)]) : ∃ scalar, encodeScalar scalar = bytes := by
  simp only [List.forall₂_cons_right_iff, List.forall₂_nil_right_iff] at h
  obtain ⟨lead, _, hlead, rfl, rfl⟩ := h
  refine ⟨Char.ofNat lead.toNat, encodeScalar_of_ascii (UInt8.lt_iff_toNat_lt.mpr ?_)⟩
  exact Nat.lt_succ_of_le (inRange_iff.mp hlead).2

theorem exists_encodeScalar_two {bytes : Bytes}
    (h : List.Forall₂ InRange bytes [(0xC2, 0xDF), (0x80, 0xBF)]) :
    ∃ scalar, encodeScalar scalar = bytes := by
  simp only [List.forall₂_cons_right_iff, List.forall₂_nil_right_iff, inRange_iff,
    UInt8.reduceToNat] at h
  obtain ⟨lead, _, hlead, ⟨second, _, hsecond, rfl, rfl⟩, rfl⟩ := h
  obtain ⟨scalar, hread⟩ : ∃ scalar, scalar? 0x80 (lead.toNat - 0xC0) [second] = some scalar := by
    apply exists_scalar?
    · simp only [List.mem_singleton, forall_eq, isTrail_iff]
      omega
    · simp only [assemble, List.foldl_cons, List.foldl_nil]
      omega
    · simp only [assemble, List.foldl_cons, List.foldl_nil, Nat.isValidChar]
      omega
  exact ⟨scalar, encodeScalar_of_two (by omega) (by omega) hread⟩

theorem exists_encodeScalar_three {bytes : Bytes} {low high low' high' : UInt8}
    (h : List.Forall₂ InRange bytes [(low, high), (low', high'), (0x80, 0xBF)])
    (hlead : 0xE0 ≤ low.toNat ∧ high.toNat ≤ 0xEF)
    (htrail : 0x80 ≤ low'.toNat ∧ high'.toNat ≤ 0xBF)
    (hleast : low.toNat = 0xE0 → 0xA0 ≤ low'.toNat)
    (hsurrogate : low.toNat ≤ 0xED → 0xED ≤ high.toNat → high'.toNat ≤ 0x9F) :
    ∃ scalar, encodeScalar scalar = bytes := by
  simp only [List.forall₂_cons_right_iff, List.forall₂_nil_right_iff, inRange_iff,
    UInt8.reduceToNat] at h
  obtain ⟨lead, _, hfirst, ⟨second, _, hsecond, ⟨third, _, hthird, rfl, rfl⟩, rfl⟩, rfl⟩ := h
  obtain ⟨scalar, hread⟩ :
      ∃ scalar, scalar? 0x800 (lead.toNat - 0xE0) [second, third] = some scalar := by
    apply exists_scalar?
    · simp only [List.mem_cons, List.not_mem_nil, or_false, forall_eq_or_imp, forall_eq,
        isTrail_iff]
      omega
    · simp only [assemble, List.foldl_cons, List.foldl_nil]
      omega
    · simp only [assemble, List.foldl_cons, List.foldl_nil, Nat.isValidChar]
      omega
  exact ⟨scalar, encodeScalar_of_three (by omega) (by omega) hread⟩

theorem exists_encodeScalar_four {bytes : Bytes} {low high low' high' : UInt8}
    (h : List.Forall₂ InRange bytes [(low, high), (low', high'), (0x80, 0xBF), (0x80, 0xBF)])
    (hlead : 0xF0 ≤ low.toNat ∧ high.toNat ≤ 0xF4)
    (htrail : 0x80 ≤ low'.toNat ∧ high'.toNat ≤ 0xBF)
    (hleast : low.toNat = 0xF0 → 0x90 ≤ low'.toNat)
    (hmost : high.toNat = 0xF4 → high'.toNat ≤ 0x8F) :
    ∃ scalar, encodeScalar scalar = bytes := by
  simp only [List.forall₂_cons_right_iff, List.forall₂_nil_right_iff, inRange_iff,
    UInt8.reduceToNat] at h
  obtain ⟨lead, _, hfirst, ⟨second, _, hsecond, ⟨third, _, hthird,
    ⟨fourth, _, hfourth, rfl, rfl⟩, rfl⟩, rfl⟩, rfl⟩ := h
  obtain ⟨scalar, hread⟩ :
      ∃ scalar, scalar? 0x10000 (lead.toNat - 0xF0) [second, third, fourth] = some scalar := by
    apply exists_scalar?
    · simp only [List.mem_cons, List.not_mem_nil, or_false, forall_eq_or_imp, forall_eq,
        isTrail_iff]
      omega
    · simp only [assemble, List.foldl_cons, List.foldl_nil]
      omega
    · simp only [assemble, List.foldl_cons, List.foldl_nil, Nat.isValidChar]
      omega
  exact ⟨scalar, encodeScalar_of_four (by omega) (by omega) hread⟩

theorem exists_encodeScalar_of_isSequence {bytes : Bytes} (h : IsSequence bytes) :
    ∃ scalar, encodeScalar scalar = bytes := by
  obtain ⟨row, hrow, hbytes⟩ := h
  simp only [rows, List.mem_cons, List.not_mem_nil, or_false] at hrow
  -- one case for each row, in the order of the table
  rcases hrow with rfl | rfl | rfl | rfl | rfl | rfl | rfl | rfl | rfl
  · exact exists_encodeScalar_one hbytes
  · exact exists_encodeScalar_two hbytes
  · exact exists_encodeScalar_three hbytes (by decide) (by decide) (by decide) (by decide)
  · exact exists_encodeScalar_three hbytes (by decide) (by decide) (by decide) (by decide)
  · exact exists_encodeScalar_three hbytes (by decide) (by decide) (by decide) (by decide)
  · exact exists_encodeScalar_three hbytes (by decide) (by decide) (by decide) (by decide)
  · exact exists_encodeScalar_four hbytes (by decide) (by decide) (by decide) (by decide)
  · exact exists_encodeScalar_four hbytes (by decide) (by decide) (by decide) (by decide)
  · exact exists_encodeScalar_four hbytes (by decide) (by decide) (by decide) (by decide)

theorem strict_iff_exists_encodeScalars {bytes : Bytes} :
    Strict bytes ↔ ∃ scalars, encodeScalars scalars = bytes := by
  constructor
  · intro h
    induction h with
    | nil => exact ⟨[], rfl⟩
    | append hsequence _ ih =>
        obtain ⟨scalar, rfl⟩ := exists_encodeScalar_of_isSequence hsequence
        obtain ⟨scalars, rfl⟩ := ih
        exact ⟨scalar :: scalars, rfl⟩
  · rintro ⟨scalars, rfl⟩
    induction scalars with
    | nil => exact .nil
    | cons scalar scalars ih => exact .append (isSequence_encodeScalar scalar) ih

theorem encode_ofScalars (scalars : List Char) :
    encode (Text.ofScalars scalars) = encodeScalars scalars := by
  rw [encode, Text.scalars_ofScalars]

theorem encode_repaired (text : Text) : encode text.repaired = encode text := by
  rw [encode, Text.scalars_repaired, encode]

theorem encode_injective_of_isWellFormed {left right : Text} (hleft : left.isWellFormed = true)
    (hright : right.isWellFormed = true) (h : encode left = encode right) : left = right := by
  have hscalars := encodeScalars_injective h
  rw [← Text.repaired_of_isWellFormed hleft, ← Text.repaired_of_isWellFormed hright,
    ← Text.ofScalars_scalars, ← Text.ofScalars_scalars, hscalars]

theorem decode?_eq_some_iff {bytes : Bytes} {text : Text} :
    decode? bytes = some text ↔
      ∃ scalars, encodeScalars scalars = bytes ∧ (Text.ofScalars scalars).withoutMark = text := by
  simp only [decode?, Option.map_eq_some_iff, decodeScalars?_eq_some_iff]

theorem decode?_encode (text : Text) : decode? (encode text) = some text.repaired.withoutMark := by
  rw [decode?, encode, decodeScalars?_encodeScalars, Option.map_some, Text.ofScalars_scalars]

theorem exists_decode?_iff_strict {bytes : Bytes} :
    (∃ text, decode? bytes = some text) ↔ Strict bytes := by
  rw [strict_iff_exists_encodeScalars]
  simp only [decode?_eq_some_iff]
  constructor
  · rintro ⟨text, scalars, hscalars, -⟩
    exact ⟨scalars, hscalars⟩
  · rintro ⟨scalars, hscalars⟩
    exact ⟨_, scalars, hscalars, rfl⟩

end IpsecTransform.Utf8
