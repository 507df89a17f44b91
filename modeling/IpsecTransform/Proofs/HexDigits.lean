import IpsecTransform.Hex

namespace IpsecTransform.Hex

theorem value?_digit {value : UInt8} (h : value.toNat < 16) :
    value? (digit value) = some value := by
  have hdigits : ∀ number < 16,
      value? (digit (UInt8.ofNat number)) = some (UInt8.ofNat number) := by decide
  have hvalue := hdigits value.toNat h
  rwa [UInt8.ofNat_toNat] at hvalue

theorem high_low_eq (byte : UInt8) : 16 * (byte / 16) + byte % 16 = byte := by
  have hbyte := byte.toNat_lt
  rw [← UInt8.toNat_inj]
  simp only [UInt8.toNat_add, UInt8.toNat_mul, UInt8.toNat_div, UInt8.toNat_mod, UInt8.reduceToNat]
  omega

theorem value?_high (byte : UInt8) : value? (digit (byte / 16)) = some (byte / 16) := by
  have hbyte := byte.toNat_lt
  apply value?_digit
  simp only [UInt8.toNat_div, UInt8.reduceToNat]
  omega

theorem value?_low (byte : UInt8) : value? (digit (byte % 16)) = some (byte % 16) := by
  apply value?_digit
  simp only [UInt8.toNat_mod, UInt8.reduceToNat]
  omega

theorem encode_cons (byte : UInt8) (bytes : Bytes) :
    encode (byte :: bytes) = digit (byte / 16) :: digit (byte % 16) :: encode bytes := rfl

theorem pairs_encode (bytes : Bytes) : pairs (encode bytes) = .ok bytes := by
  induction bytes with
  | nil => rfl
  | cons byte bytes ih =>
      rw [encode_cons, pairs]
      simp only [value?_high, value?_low, ih, Except.map, high_low_eq]

theorem isSome_value?_of_mem_encode {unit : UInt16} {bytes : Bytes} (h : unit ∈ encode bytes) :
    (value? unit).isSome = true := by
  induction bytes with
  | nil => cases h
  | cons byte bytes ih =>
      rw [encode_cons, List.mem_cons, List.mem_cons] at h
      rcases h with rfl | rfl | hrest
      · rw [value?_high, Option.isSome_some]
      · rw [value?_low, Option.isSome_some]
      · exact ih hrest

theorem encode_injective {left right : Bytes} (h : encode left = encode right) : left = right := by
  have hpairs := pairs_encode left
  rw [h, pairs_encode, Except.ok.injEq] at hpairs
  exact hpairs.symm

end IpsecTransform.Hex
