import BcmUtils.Verification.Subnets.Masks

/-! # IPv4 subnets

The functions of an address with a prefix length, and the default for an address without
one. -/

namespace BcmUtils.Subnets

open CLib

/-! ## Printed addresses -/

theorem inetNumber_printNat (b : Byte) : inetNumber (printNat b.toNat) = some b.toNat := by
  have hall : ∀ n : Fin 256, inetNumber (printNat n) = some (n : ℕ) := by
    decide +kernel
  exact hall ⟨b.toNat, b.toNat_lt⟩

/-- `inet_addr` reads back a printed address. -/
theorem inetAton_dotted (x : BitVec 32) : inetAton (dotted x) = some x := by
  have hx := x.isLt
  have hparts : (dotted x).splitOn (chr '.') = (bytesOf .big x).map fun b => printNat b.toNat :=
    splitOn_intercalate_map (by simp [bytesOf]) fun _ _ => not_mem_printNat (by decide) _
  have hnumbers : ((bytesOf .big x).map fun b => printNat b.toNat).mapM inetNumber =
      some ((bytesOf .big x).map UInt8.toNat) := by
    refine mapM_of_getElem? (by simp) fun k s n hs hn => ?_
    rw [List.getElem?_map] at hs hn
    cases hb : (bytesOf .big x)[k]? with
    | none => simp [hb] at hs
    | some b =>
        simp only [hb, Option.map_some, Option.some.injEq] at hs hn
        rw [← hs, ← hn, inetNumber_printNat]
  rw [inetAton, hparts, bind_of_eq hnumbers]
  simp only [bytesOf, List.map_cons, List.map_nil, UInt8.toNat_ofNat']
  rw [if_pos (by omega), Option.some.injEq]
  apply BitVec.eq_of_toNat_eq
  rw [BitVec.toNat_ofNat]
  omega

theorem addressOf_dotted (x : BitVec 32) : addressOf (dotted x) = x := by
  rw [addressOf, inetAton_dotted]
  rfl

theorem slash_not_mem_dotted (x : BitVec 32) : chr '/' ∉ dotted x :=
  Bindings.not_mem_inetNtoa (by decide) (by decide) _

/-- An address with the length of its prefix behind it. -/
def withPrefix (x : BitVec 32) (p : ℕ) : CStr := dotted x ++ chr '/' :: printNat p

theorem hostPart_withPrefix (x : BitVec 32) (p : ℕ) : hostPart (withPrefix x p) = dotted x :=
  hostPart_append (slash_not_mem_dotted x) _

theorem prefixPart_withPrefix (x : BitVec 32) {p : ℕ} (hp : p ≤ 32) :
    prefixPart (withPrefix x p) = some (p : ℤ) := by
  have hint : IsInt p := by
    simp only [IsInt, intMin, intMax]
    omega
  rw [withPrefix, prefixPart_append (slash_not_mem_dotted x), atoi_printNat hint]

theorem netmask_withPrefix (x : BitVec 32) {p : ℕ} (hp : p ≤ 32) :
    netmask 32 (withPrefix x p) = prefixMask 32 p := by
  simp only [netmask, prefixPart_withPrefix x hp, Int.toNat_natCast, BitVec.signExtend_eq]

theorem fits_withPrefix (x : BitVec 32) {p : ℕ} (hp : p ≤ 32) {cap room : ℕ} (hroom : 15 ≤ room) :
    Fits cap room (withPrefix x p) := by
  have hlen := Bindings.length_inetNtoa_le (length_bytesOf .big x)
  constructor
  · simp only [AddressFits, prefixPart_withPrefix x hp, hostPart_withPrefix, dotted,
      Option.isSome_some, if_true]
    omega
  · intro n hn
    rw [prefixPart_withPrefix x hp, Option.mem_some] at hn
    omega

/-! ## Prefixes -/

theorem and_or_not_self {w : ℕ} (x m : BitVec w) : x &&& m ||| ~~~ m = x ||| ~~~ m := by
  apply BitVec.eq_of_getLsbD_eq
  intro i hi
  simp only [BitVec.getLsbD_or, BitVec.getLsbD_and, BitVec.getLsbD_not]
  cases m.getLsbD i with
  | false => simp [hi]
  | true => simp

/-- The functions compare, clear and set the bits that the prefix lengths say. -/
theorem subnet_functions_of_prefix (H : Host) (x y : BitVec 32) {p q : ℕ} (hp : p ≤ 32)
    (hq : q ≤ 32) :
    isInSameSubnet H.endian (dotted x) (withPrefix y p) =
        some (if SamePrefix p x y then 1 else 0) ∧
      isinSameSubnet H (withPrefix x p) (withPrefix y q) =
        some (if p = q ∧ SamePrefix p x y then 1 else 0) ∧
      getSubmaskAddr H (withPrefix x p) = some (dotted (x &&& prefixMask 32 p)) ∧
      getBroadcastAddr H (withPrefix x p) = some (dotted (x ||| ~~~ prefixMask 32 p)) ∧
      getNetmaskStr H (withPrefix x p) = some (dotted (prefixMask 32 p)) := by
  refine ⟨?_, ?_, ?_, ?_, ?_⟩
  · rw [isInSameSubnet_eq, if_pos (fits_withPrefix y hp (by omega)), netmask_withPrefix y hp,
      hostPart_withPrefix, addressOf_dotted, addressOf_dotted]
    simp only [and_prefixMask_eq_iff]
  · have hy := @fits_withPrefix y _ hq 18 17 (by omega)
    have hx := @fits_withPrefix x _ hp 18 17 (by omega)
    rw [isinSameSubnet_eq, if_pos ⟨hy, hx⟩, netmask_withPrefix x hp, netmask_withPrefix y hq,
      hostPart_withPrefix, hostPart_withPrefix, addressOf_dotted, addressOf_dotted]
    have hcomm : (q = p ∧ SamePrefix q y x) ↔ (p = q ∧ SamePrefix p x y) := by
      constructor
      · rintro ⟨rfl, h⟩
        exact ⟨rfl, fun i hi => (h i hi).symm⟩
      · rintro ⟨rfl, h⟩
        exact ⟨rfl, fun i hi => (h i hi).symm⟩
    simp only [prefixMask_inj hq hp, and_prefixMask_eq_iff, hcomm]
  · rw [getSubmaskAddr_eq, if_pos (fits_withPrefix x hp (by omega)), netmask_withPrefix x hp,
      hostPart_withPrefix, addressOf_dotted]
  · rw [getBroadcastAddr_eq, if_pos (fits_withPrefix x hp (by omega)), prefixPart_withPrefix x hp,
      hostPart_withPrefix, addressOf_dotted, Option.getD_some, Int.toNat_natCast,
      and_or_not_self]
  · rw [getNetmaskStr_eq, if_pos (fits_withPrefix x hp (by omega)), netmask_withPrefix x hp]

theorem subnet_functions_of_prefix_26 :
    getSubmaskAddr ⟨.little, 64, by decide⟩ (withPrefix 0xc0a8014d 26) =
      some (dotted 0xc0a80140) := by
  obtain ⟨-, -, hsubmask, -⟩ := subnet_functions_of_prefix ⟨.little, 64, by decide⟩ 0xc0a8014d 0
    (by decide : 26 ≤ 32) (by decide : 0 ≤ 32)
  exact hsubmask.trans (by decide)

end BcmUtils.Subnets
