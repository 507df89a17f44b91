import IpsecTransform.Proofs.DescriptorEquality
import IpsecTransform.Proofs.RunPositions
import IpsecTransform.Proofs.ValidationTable

namespace IpsecTransform

namespace TruncationRule

/-- The condition for an admitted length, limited to the bits of a key, to be admitted again. -/
def Sustains : TruncationRule → Int → Nat → Prop
  | oneOf lengths, length, keyBits => length ≤ keyBits ∨ keyBits ∈ lengths
  | between least _, _, keyBits => least ≤ keyBits

instance (rule : TruncationRule) (length : Int) (keyBits : Nat) :
    Decidable (rule.Sustains length keyBits) :=
  match rule with
  | oneOf lengths => inferInstanceAs (Decidable (length ≤ keyBits ∨ keyBits ∈ lengths))
  | between least _ => inferInstanceAs (Decidable (least ≤ keyBits))

theorem admits_oneOf_natCast_iff {lengths : List Nat} {length : Nat} :
    (oneOf lengths).admits length = true ↔ length ∈ lengths := by
  simp only [admits, List.any_eq_true, beq_iff_eq, Int.natCast_inj, exists_eq_right]

theorem admits_min_iff {rule : TruncationRule} {length : Int} {keyBits : Nat}
    (h : rule.admits length = true) :
    rule.admits (min length keyBits) = true ↔ rule.Sustains length keyBits := by
  cases rule with
  | oneOf lengths =>
      rw [Sustains]
      rcases le_or_gt length keyBits with hfits | hlong
      · rw [min_eq_left hfits]
        exact iff_of_true h (Or.inl hfits)
      · rw [min_eq_right hlong.le, admits_oneOf_natCast_iff, or_iff_right (not_le.mpr hlong)]
  | between least most =>
      rw [Algorithm.admits_between_iff] at h ⊢
      rw [Sustains]
      omega

theorem lt_of_not_sustains {rule : TruncationRule} {length : Int} {keyBits : Nat}
    (h : rule.admits length = true) (hsustains : ¬ rule.Sustains length keyBits) :
    keyBits < length := by
  cases rule with
  | oneOf lengths => exact not_le.mp fun hfits => hsustains (Or.inl hfits)
  | between least most =>
      have hleast := (Algorithm.admits_between_iff.mp h).1
      rw [Sustains] at hsustains
      omega

end TruncationRule

namespace Algorithm

theorem tabled_name_iff {algorithm : Algorithm} {length : Int} :
    Tabled algorithm.name length ↔ algorithm.rule.truncation.admits length = true := by
  rw [tabled_iff]
  constructor
  · rintro ⟨other, hname, hadmits⟩
    rwa [name_injective hname] at hadmits
  · exact fun h => ⟨algorithm, rfl, h⟩

end Algorithm

namespace Descriptor

structure Settled (descriptor : Descriptor) (algorithm : Algorithm) (length : Int) : Prop where
  name : descriptor.name = algorithm.name
  admits : algorithm.rule.truncation.admits length = true
  truncation : descriptor.truncation = .ofInt (min length (8 * descriptor.key.length : Nat))

/-- Creation from the fields that a descriptor shows. -/
def rebuild (descriptor : Descriptor) : Except Fault Descriptor :=
  create descriptor.name descriptor.key (some descriptor.truncation)

variable {descriptor again : Descriptor} {algorithm : Algorithm} {length : Int}

theorem exists_settled_of_create {name : Text} {key : Bytes} {requested : Option Number}
    (h : create name key requested = .ok descriptor) :
    ∃ algorithm length, algorithm.name = name ∧
      requested.getD (.ofInt (8 * key.length)) = .ofInt length ∧
      descriptor.key = key ∧ Settled descriptor algorithm length := by
  obtain ⟨length, hlength, htabled, rfl⟩ := create_eq_ok_iff_tabled.mp h
  obtain ⟨algorithm, hname, hadmits⟩ := Algorithm.tabled_iff.mp htabled
  exact ⟨algorithm, length, hname, hlength, rfl, hname.symm, hadmits, rfl⟩

theorem limited_again (h : Settled descriptor algorithm length) :
    { descriptor with
      truncation := .ofInt (min (min length (8 * descriptor.key.length : Nat))
        (8 * descriptor.key.length)) } = descriptor := by
  have hlimit : min (min length (8 * descriptor.key.length : Nat)) (8 * descriptor.key.length) =
      min length (8 * descriptor.key.length : Nat) := by omega
  rw [hlimit, ← h.truncation]

theorem rebuild_eq_ok_iff (h : Settled descriptor algorithm length) :
    rebuild descriptor = .ok again ↔
      algorithm.rule.truncation.Sustains length (8 * descriptor.key.length) ∧
        again = descriptor := by
  rw [← TruncationRule.admits_min_iff h.admits, ← Algorithm.tabled_name_iff, ← h.name]
  constructor
  · intro hrebuild
    obtain ⟨stored, hstored, htabled, rfl⟩ := create_eq_ok_iff_tabled.mp hrebuild
    rw [Option.getD_some, h.truncation] at hstored
    obtain rfl := Number.ofInt_injective hstored
    exact ⟨htabled, limited_again h⟩
  · rintro ⟨htabled, hagain⟩
    refine create_eq_ok_iff_tabled.mpr ⟨_, h.truncation, htabled, ?_⟩
    rw [hagain]
    exact (limited_again h).symm

theorem rebuild_of_not_sustains (h : Settled descriptor algorithm length)
    (hsustains : ¬ algorithm.rule.truncation.Sustains length (8 * descriptor.key.length)) :
    rebuild descriptor = .error .invalidArgument := by
  cases hrebuild : rebuild descriptor with
  | ok again => exact absurd ((rebuild_eq_ok_iff h).mp hrebuild).1 hsustains
  | error fault =>
      rw [rebuild, create, Fault.map_eq_error_iff] at hrebuild
      rw [settle_error hrebuild]

theorem length_key_of_not_sustains (h : Settled descriptor algorithm length)
    (hsustains : ¬ algorithm.rule.truncation.Sustains length (8 * descriptor.key.length)) :
    descriptor.key.length < 64 := by
  have hshort := TruncationRule.lt_of_not_sustains h.admits hsustains
  have hlargest := (Algorithm.le_of_admits h.admits).2
  have hmost := Algorithm.largest_le algorithm
  omega

end Descriptor

namespace Session

variable {steps : List Step} {position : Nat} {label copy : String} {descriptor : Descriptor}

theorem content?_of_make {step : Step} {target : String} {content : Bytes}
    (h : steps[position]? = some step)
    (hmake : ((reached steps position).outcome step).1 = .make target content) :
    (reached steps (position + 1)).content? target = some content := by
  have hperforms := (realizes_reached h).performs
  rw [hmake] at hperforms
  generalize reached steps (position + 1) = after at hperforms ⊢
  cases hperforms with
  | @make _ _ grown _ =>
      rw [content?, Bindings.get?_bind, if_pos rfl, Option.map_some]
      exact congrArg some (Memory.made_allocate grown content).read

theorem answer_of_rebuild {target : String}
    (hexport : steps[position]? = some (.exportKey label copy))
    (hcreate : steps[position + 1]? =
      some (.create target descriptor.name copy (some descriptor.truncation)))
    (hbound : (reached steps position).descriptor? label = some descriptor) :
    (start.run steps).2[position + 1]? = some (building target descriptor.rebuild).2 := by
  have hkey : (reached steps (position + 1)).content? copy = some descriptor.key := by
    apply content?_of_make hexport
    rw [outcome, consulting_of_descriptor? hbound, making]
  rw [answer_eq_outcome hcreate, outcome, reading_of_content? hkey, Descriptor.rebuild]

end Session

namespace Descriptor

/-- A descriptor that has been created can be created anew from the fields it shows just when its
key leaves enough of the length: the bits of the key reach the least length of the rule or, where
the rule lists its lengths, they reach the length that was asked for or are listed themselves.
What is created anew is the same descriptor. Where it is refused the record can be read all the
same. A session that has exported the key is answered accordingly. -/
theorem rebuilding_follows_rule (name : Text) (key : Bytes) (requested : Option Number)
    (descriptor : Descriptor) (h : create name key requested = .ok descriptor) :
    ∃ (algorithm : Algorithm) (length : Int), algorithm.name = name ∧
      requested.getD (.ofInt (8 * key.length)) = .ofInt length ∧
      ((∃ again, rebuild descriptor = .ok again) ↔
        algorithm.rule.truncation.Sustains length (8 * key.length)) ∧
      (∀ again, rebuild descriptor = .ok again →
        again = descriptor ∧ again.equals (some descriptor) = true) ∧
      (¬ algorithm.rule.truncation.Sustains length (8 * key.length) →
        rebuild descriptor = .error .invalidArgument ∧
        Fault.invalidArgument.code? = some "INVALID_ARGUMENT" ∧
        ∃ back, Record.decode (Record.encode descriptor) = .ok back ∧
          back.equals (some descriptor) = true) ∧
      ∀ steps position label copy target,
        steps[position]? = some (.exportKey label copy) →
        steps[position + 1]? =
          some (.create target descriptor.name copy (some descriptor.truncation)) →
        (Session.reached steps position).descriptor? label = some descriptor →
        (Session.start.run steps).2[position + 1]? =
          some (Session.building target (rebuild descriptor)).2 := by
  obtain ⟨algorithm, length, hname, hlength, rfl, hsettled⟩ := exists_settled_of_create h
  have hvalid := (valid_of_create h).1
  have hself := equals_self_of_decodable (Record.decodable_of_valid hvalid)
  refine ⟨algorithm, length, hname, hlength, ?_, ?_, ?_, ?_⟩
  · constructor
    · rintro ⟨again, hrebuild⟩
      exact ((rebuild_eq_ok_iff hsettled).mp hrebuild).1
    · exact fun hsustains => ⟨descriptor, (rebuild_eq_ok_iff hsettled).mpr ⟨hsustains, rfl⟩⟩
  · intro again hrebuild
    obtain ⟨-, rfl⟩ := (rebuild_eq_ok_iff hsettled).mp hrebuild
    exact ⟨rfl, hself⟩
  · intro hsustains
    have hkey := length_key_of_not_sustains hsettled hsustains
    exact ⟨rebuild_of_not_sustains hsettled hsustains, rfl, descriptor,
      Record.decode_encode_of_valid hvalid (by omega), hself⟩
  · intro steps position label copy target hexport hcreate hbound
    exact Session.answer_of_rebuild hexport hcreate hbound

theorem rebuilding_follows_rule_of_short_keys :
    let key : Bytes := List.replicate 16 7
    let cipher : Descriptor := { name := Algorithm.aesCbc.name, key, truncation := .ofInt 128 }
    let mac : Descriptor := { name := Algorithm.hmacSha384.name, key, truncation := .ofInt 128 }
    let steps : List Step :=
      [.load "key" key, .create "mac" mac.name "key" (some (.ofInt 192)), .exportKey "mac" "copy",
        .create "again" mac.name "copy" (some mac.truncation)]
    create Algorithm.aesCbc.name key (some (.ofInt 256)) = .ok cipher ∧
      (∃ again, rebuild cipher = .ok again) ∧
      create Algorithm.hmacSha384.name key (some (.ofInt 192)) = .ok mac ∧
      rebuild mac = .error .invalidArgument ∧
      (∃ back, Record.decode (Record.encode mac) = .ok back ∧ back.equals (some mac) = true) ∧
      (Session.start.run steps).2[3]? = some (.failed .invalidArgument) := by
  intro key cipher mac steps
  have hcipher : create Algorithm.aesCbc.name key (some (.ofInt 256)) = .ok cipher :=
    create_name key (by decide)
  have hmac : create Algorithm.hmacSha384.name key (some (.ofInt 192)) = .ok mac :=
    create_name key (by decide)
  refine ⟨hcipher, ?_, hmac, ?_⟩
  · obtain ⟨algorithm, length, hname, hlength, hiff, -⟩ := rebuilding_follows_rule _ _ _ _ hcipher
    obtain rfl := Algorithm.name_injective hname
    obtain rfl : 256 = length := Number.ofInt_injective hlength
    exact hiff.mpr (by decide)
  · obtain ⟨algorithm, length, hname, hlength, -, -, hrefused, hsession⟩ :=
      rebuilding_follows_rule _ _ _ _ hmac
    obtain rfl := Algorithm.name_injective hname
    obtain rfl : 192 = length := Number.ofInt_injective hlength
    obtain ⟨hrebuild, -, hback⟩ := hrefused (by decide)
    have hanswer := hsession steps 2 "mac" "copy" "again" rfl rfl (by decide +kernel)
    rw [hrebuild] at hanswer
    exact ⟨hrebuild, hback, hanswer⟩

end Descriptor

end IpsecTransform
