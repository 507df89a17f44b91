import IpsecTransform.Proofs.DiagnosticTexts
import IpsecTransform.Proofs.TextNormalization
import IpsecTransform.Settings

namespace IpsecTransform.Settings

open Text (whiteSpace Blends Lowers)

/-- Blanks, then the digit one or a spelling of `true` whose letters are of either case, then
blanks. -/
def Affirms (text : Text) : Prop :=
  ∃ front core back, text = front ++ core ++ back ∧ front ⊆ whiteSpace ∧ back ⊆ whiteSpace ∧
    (core = Text.ofString "1" ∨ Blends (Text.ofString "true") (Text.ofString "TRUE") core)

theorem mem_affirmatives_iff {text : Text} :
    text ∈ affirmatives ↔ text = Text.ofString "true" ∨ text = Text.ofString "1" := by
  rw [affirmatives, List.mem_pair]

theorem trim_of_mem_affirmatives {text : Text} (h : text ∈ affirmatives) : text.trim = text := by
  rcases mem_affirmatives_iff.mp h with rfl | rfl
  · decide
  · decide

theorem lower_mem_affirmatives_iff {core : Text} :
    core.lower ∈ affirmatives ↔
      core = Text.ofString "1" ∨ Blends (Text.ofString "true") (Text.ofString "TRUE") core := by
  rw [mem_affirmatives_iff, Text.lower_eq_true_iff, Text.lower_eq_one_iff, or_comm]

theorem affirms_iff {text : Text} : Affirms text ↔ text.trim.lower ∈ affirmatives := by
  constructor
  · rintro ⟨front, core, back, rfl, hfront, hback, hcore⟩
    have hlower := lower_mem_affirmatives_iff.mpr hcore
    rw [Text.trim_append_append (fun unit h => Text.isBlank_iff.mpr (hfront h))
      (fun unit h => Text.isBlank_iff.mpr (hback h)), ← Text.trim_lower,
      trim_of_mem_affirmatives hlower]
    exact hlower
  · intro h
    obtain ⟨front, back, htext, hfront, hback⟩ := Text.exists_eq_append_trim text
    exact ⟨front, text.trim, back, htext, fun unit h => Text.isBlank_iff.mp (hfront unit h),
      fun unit h => Text.isBlank_iff.mp (hback unit h), lower_mem_affirmatives_iff.mp h⟩

theorem debuggable_iff {value : Option Text} :
    (load value).debuggable = true ↔ (value.getD []).trim.lower ∈ affirmatives :=
  List.contains_iff_mem

theorem not_affirms_nil : ¬ Affirms [] := by
  rw [affirms_iff]
  decide

theorem debuggable_iff_affirms {value : Option Text} :
    (load value).debuggable = true ↔ ∃ given, value = some given ∧ Affirms given := by
  rw [debuggable_iff, ← affirms_iff]
  cases value with
  | none =>
      refine iff_of_false not_affirms_nil ?_
      rintro ⟨given, ⟨⟩, -⟩
  | some given => simp only [Option.getD_some, Option.some.injEq, exists_eq_left']

/-- The units that make up the affirmatives. -/
def decisive : Text := affirmatives.flatten

theorem lt_of_mem_decisive {unit : UInt16} (h : unit ∈ decisive) : unit.toNat < 0x80 := by
  have hdecisive : decisive.all (· < 0x80) = true := by decide
  exact UInt16.lt_iff_toNat_lt.mp (of_decide_eq_true (List.all_eq_true.mp hdecisive unit h))

theorem subset_decisive {word : Text} (h : word ∈ affirmatives) : word ⊆ decisive :=
  fun _ hunit => List.mem_flatten.mpr ⟨word, h, hunit⟩

theorem mem_affirmatives_iff_of_lowers {text lowered : Text} (h : Lowers decisive text lowered) :
    lowered ∈ affirmatives ↔ text.lower ∈ affirmatives := by
  have hword {word : Text} (hmem : word ∈ affirmatives) : lowered = word ↔ text.lower = word :=
    Text.eq_iff_of_lowers (fun _ => lt_of_mem_decisive) h (subset_decisive hmem)
  constructor
  · intro hmem
    rwa [(hword hmem).mp rfl]
  · intro hmem
    rwa [(hword hmem).mpr rfl]

theorem load_eq_of_lowers {lowerCase : Text → Text}
    (h : ∀ text, Lowers decisive text (lowerCase text)) (value : Option Text) :
    load value = { debuggable := affirmatives.contains (lowerCase (value.getD []).trim) } := by
  rw [load, Settings.mk.injEq, Bool.eq_iff_iff, List.contains_iff_mem, List.contains_iff_mem]
  exact (mem_affirmatives_iff_of_lowers (h _)).symm

/-- Keys are revealed just for a value that affirms it: the digit one or the word `true`, its
letters of either case, with blanks around it or without. For every other value, and for none, they
are hidden, and every descriptor is described by the text that it always shows. It makes no
difference how letters beyond ASCII are lowered, as long as no decisive unit comes of them. -/
theorem affirmatives_reveal_keys (value : Option Text) :
    ((load value).debuggable = true ↔ ∃ given, value = some given ∧ Affirms given) ∧
    ((¬ ∃ given, value = some given ∧ Affirms given) →
      (load value).debuggable = false ∧
        ∀ descriptor : Descriptor,
          descriptor.describe (load value).debuggable = descriptor.text) ∧
    ((∃ given, value = some given ∧ Affirms given) →
      ∀ descriptor : Descriptor,
        descriptor.describe (load value).debuggable ≠ descriptor.text) ∧
    (∀ lowerCase : Text → Text, (∀ text, Lowers decisive text (lowerCase text)) →
      load value =
        { debuggable := affirmatives.contains (lowerCase (value.getD []).trim) }) := by
  refine ⟨debuggable_iff_affirms, ?_, ?_, ?_⟩
  · intro hother
    have hhidden : (load value).debuggable = false := by
      rw [← Bool.not_eq_true, debuggable_iff_affirms]
      exact hother
    rw [hhidden]
    exact ⟨rfl, fun _ => rfl⟩
  · intro haffirms descriptor
    rw [debuggable_iff_affirms.mpr haffirms]
    exact (Descriptor.describe_false_ne_describe_true descriptor descriptor).symm
  · intro lowerCase h
    exact load_eq_of_lowers h value

theorem affirmatives_reveal_keys_of_blanks :
    let affirming : Text := [0xFEFF] ++ Text.ofString "tRuE" ++ [0x2029, 0x00A0]
    let other : Text := Text.ofString " t rue"
    Affirms affirming ∧ (load (some affirming)).debuggable = true ∧
      (∀ descriptor : Descriptor,
        descriptor.describe (load (some affirming)).debuggable ≠ descriptor.text) ∧
      (load (some other)).debuggable = false ∧
      load (some other) = { debuggable := affirmatives.contains other.trim.lower } := by
  intro affirming other
  have haffirms : Affirms affirming :=
    ⟨_, _, _, rfl, by decide, by decide, Or.inr (Text.lower_eq_true_iff.mp (by decide))⟩
  have hother : ¬ ∃ given, some other = some given ∧ Affirms given := by
    rw [← debuggable_iff_affirms]
    decide
  obtain ⟨hiff, -, hreveals, -⟩ := affirmatives_reveal_keys (some affirming)
  obtain ⟨-, hhides, -, hlowers⟩ := affirmatives_reveal_keys (some other)
  exact ⟨haffirms, hiff.mpr ⟨affirming, rfl, haffirms⟩, hreveals ⟨affirming, rfl, haffirms⟩,
    (hhides hother).1, hlowers Text.lower (Text.lowers_lower fun _ => lt_of_mem_decisive)⟩

end IpsecTransform.Settings
