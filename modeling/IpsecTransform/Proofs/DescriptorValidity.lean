import IpsecTransform.Proofs.RecordRelay
import IpsecTransform.Proofs.RunPositions

namespace IpsecTransform.Session

/-- Wherever a record is read, its bytes are a record that the run has written before. -/
def ReadsOwnRecords (steps : List Step) : Prop :=
  ∀ position source target, steps[position]? = some (.decode source target) →
    ∃ earlier label record, earlier < position ∧ Writes steps earlier label record ∧
      (reached steps position).content? source = some record

/-- No buffer ever holds more bytes than a record can announce. -/
def BuffersFit (steps : List Step) : Prop :=
  ∀ count label content, (reached steps count).content? label = some content →
    content.length < 2 ^ 32

variable {steps : List Step}

/-- Every descriptor that is ever bound is valid, and its record can be read. -/
theorem valid_reached
    (htrust : ∀ target name key truncation, .trust target name key truncation ∉ steps)
    (hrecords : ReadsOwnRecords steps) (hfit : BuffersFit steps) (count : Nat) :
    ∀ label descriptor, (reached steps count).descriptor? label = some descriptor →
      descriptor.Valid ∧ descriptor.key.length < 2 ^ 32 := by
  -- on all earlier states at once, since a record may be read long after it was written
  induction count using Nat.strong_induction_on with
  | _ count ih =>
      intro label descriptor hbound
      cases count with
      | zero => cases hbound
      | succ position =>
          cases hstep : steps[position]? with
          | none =>
              rw [reached_succ_of_length_le (List.getElem?_eq_none_iff.mp hstep)] at hbound
              exact ih position (Nat.lt_succ_self position) label descriptor hbound
          | some step =>
              rw [descriptor?_reached_succ hstep] at hbound
              rcases Change.of_rebound_eq_some hbound with hbefore | hbuild
              · exact ih position (Nat.lt_succ_self position) label descriptor hbefore
              rcases outcome_eq_build hbuild with
                ⟨name, source, key, requested, -, hkey, hcreate⟩ |
                ⟨name, source, truncation, rfl⟩ | ⟨source, record, rfl, hcontent, hdecode⟩
              · obtain ⟨hvalid, rfl⟩ := Descriptor.valid_of_create hcreate
                exact ⟨hvalid, hfit position source _ hkey⟩
              · exact absurd (List.mem_of_getElem? hstep) (htrust _ _ _ _)
              · obtain ⟨earlier, written, _, hlt, hwrites, hread⟩ := hrecords _ _ _ hstep
                rw [hcontent, Option.some.injEq] at hread
                obtain ⟨before, hbefore, rfl⟩ := exists_descriptor_of_writes hwrites
                have hvalid := ih earlier (by omega) written before hbefore
                rw [hread, Record.decode_encode_of_valid hvalid.1 hvalid.2, Except.ok.injEq]
                  at hdecode
                rwa [hdecode] at hvalid

theorem decode_gives_back
    (htrust : ∀ target name key truncation, .trust target name key truncation ∉ steps)
    (hrecords : ReadsOwnRecords steps) (hfit : BuffersFit steps) {position earlier : Nat}
    {source target label : String} {record : Bytes}
    (hstep : steps[position]? = some (.decode source target))
    (hwrites : Writes steps earlier label record)
    (hcontent : (reached steps position).content? source = some record) :
    ∃ descriptor, (reached steps earlier).descriptor? label = some descriptor ∧
      (start.run steps).2[position]? = some (.fields descriptor) ∧
      (reached steps (position + 1)).descriptor? target = some descriptor := by
  obtain ⟨descriptor, hbound, rfl⟩ := exists_descriptor_of_writes hwrites
  obtain ⟨hvalid, hkey⟩ := valid_reached htrust hrecords hfit earlier label descriptor hbound
  exact ⟨descriptor, hbound,
    decode_at hstep hcontent (Record.decode_encode_of_valid hvalid hkey)⟩

/-- A session without trusted fields that reads only records of its own never refuses one, and
it gives back what has been written. In every state that it reaches, each descriptor has a known
name and a length that its rule admits, limited to the bits of the key, so that creation could
have given it. -/
theorem validity_survives_transport (steps : List Step)
    (htrust : ∀ target name key truncation, .trust target name key truncation ∉ steps)
    (hrecords : ReadsOwnRecords steps) (hfit : BuffersFit steps) :
    (∀ position source target, steps[position]? = some (.decode source target) →
      ∃ descriptor, (start.run steps).2[position]? = some (.fields descriptor) ∧
        (reached steps (position + 1)).descriptor? target = some descriptor ∧
        ∀ earlier label record, earlier < position → Writes steps earlier label record →
          (reached steps position).content? source = some record →
          (reached steps earlier).descriptor? label = some descriptor) ∧
    (∀ count label descriptor, (reached steps count).descriptor? label = some descriptor →
      ∃ (algorithm : Algorithm) (length stored : Int), descriptor.name = algorithm.name ∧
        Algorithm.validTruncation algorithm.name (.ofInt length) = true ∧
        stored = min length (8 * descriptor.key.length) ∧
        descriptor.truncation = .ofInt stored ∧
        0 ≤ stored ∧ stored ≤ 8 * descriptor.key.length ∧
        stored ≤ algorithm.rule.truncation.largest ∧
        Descriptor.create descriptor.name descriptor.key (some (.ofInt length)) =
          .ok descriptor) := by
  constructor
  · intro position source target hstep
    obtain ⟨earlier, label, record, -, hwrites, hcontent⟩ := hrecords position source target hstep
    obtain ⟨descriptor, -, hanswer, hbound⟩ :=
      decode_gives_back htrust hrecords hfit hstep hwrites hcontent
    refine ⟨descriptor, hanswer, hbound, ?_⟩
    intro earlier' label' record' _ hwrites' hcontent'
    obtain ⟨descriptor', hbefore, -, hbound'⟩ :=
      decode_gives_back htrust hrecords hfit hstep hwrites' hcontent'
    rw [hbound, Option.some.injEq] at hbound'
    rw [hbefore, hbound']
  · intro count label descriptor hbound
    obtain ⟨⟨algorithm, length, hname, hadmits, htruncation⟩, -⟩ :=
      valid_reached htrust hrecords hfit count label descriptor hbound
    have hpositive := Algorithm.le_of_admits hadmits
    refine ⟨algorithm, length, _, hname, Algorithm.validTruncation_name hadmits, rfl, htruncation,
      by omega, by omega, by omega, ?_⟩
    rw [hname, Descriptor.create_name _ hadmits, ← htruncation, ← hname]

theorem buffersFit_of_entries
    (h : ∀ count ≤ steps.length, ∀ entry ∈ (reached steps count).buffers.entries,
      ((reached steps count).memory.read entry.2).length < 2 ^ 32) : BuffersFit steps := by
  intro count label content hcontent
  have hcount : reached steps count = reached steps (min count steps.length) := by
    rw [reached, reached, ← List.take_eq_take_min]
  rw [hcount] at hcontent
  obtain ⟨window, hwindow, rfl⟩ := Option.map_eq_some_iff.mp hcontent
  obtain ⟨front, back, hentries, -⟩ := List.lookup_eq_some_iff.mp hwindow
  refine h _ (Nat.min_le_right _ _) (label, window) ?_
  rw [hentries]
  exact List.mem_append_right front List.mem_cons_self

theorem validity_survives_transport_of_copy :
    let steps : List Step :=
      [.load "key" [7, 7], .create "mac" Algorithm.hmacMd5.name "key" (some (.ofInt 128)),
        .encode "mac" "record", .concat ["record"] "copy", .fill "record" 0, .drop "mac",
        .decode "copy" "back"]
    ReadsOwnRecords steps ∧ BuffersFit steps ∧
      ∃ descriptor, (start.run steps).2[6]? = some (.fields descriptor) ∧
        (reached steps 2).descriptor? "mac" = some descriptor ∧
        descriptor.truncation = .ofInt 16 := by
  intro steps
  let mac : Descriptor := { name := Algorithm.hmacMd5.name, key := [7, 7], truncation := .ofInt 16 }
  have hwrites : Writes steps 2 "mac" (Record.encode mac) :=
    ⟨⟨"record", rfl⟩, by decide +kernel⟩
  have hcontent : (reached steps 6).content? "copy" = some (Record.encode mac) := by
    decide +kernel
  have hrecords : ReadsOwnRecords steps := by
    intro position source target hstep
    match position, hstep with
    | 6, rfl => exact ⟨2, "mac", _, by decide, hwrites, hcontent⟩
  have hfit : BuffersFit steps := buffersFit_of_entries (by decide +kernel)
  obtain ⟨descriptor, hanswer, -, hback⟩ :=
    (validity_survives_transport steps (by simp [steps]) hrecords hfit).1 6 "copy" "back" rfl
  have hbefore := hback 2 "mac" _ (by decide) hwrites hcontent
  have hmac : (reached steps 2).descriptor? "mac" = some mac := by decide +kernel
  refine ⟨hrecords, hfit, descriptor, hanswer, hbefore, ?_⟩
  rw [hmac, Option.some.injEq] at hbefore
  rw [← hbefore]

end IpsecTransform.Session
