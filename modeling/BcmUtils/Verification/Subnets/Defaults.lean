import BcmUtils.Verification.Subnets.Ipv4

/-! # The default prefix length

An address without a prefix length stands for one with `/24`, but the constant of the code is
the mask of the last three bytes in every function that uses it. -/

namespace BcmUtils.Subnets

open CLib

variable {H : Host} {a b : CStr} {cap room : ℕ}

/-- Both calls have a result, and it is the same. -/
def SameResult {α : Type} (x y : Option α) : Prop := ∃ r, x = some r ∧ y = some r

theorem sameResult_ite {α : Type} {P Q : Prop} [Decidable P] [Decidable Q] {r r' : α} :
    SameResult (if P then some r else none) (if Q then some r' else none) ↔
      P ∧ Q ∧ r = r' := by
  by_cases hP : P
  · by_cases hQ : Q
    · simp [SameResult, hP, hQ, eq_comm]
    · simp [SameResult, hQ]
  · simp [SameResult, hP]

/-- The address with the default length written out. -/
def slash24 (a : CStr) : CStr := a ++ text "/24"

theorem prefixPart_slash24 (ha : chr '/' ∉ a) : prefixPart (slash24 a) = some 24 :=
  prefixPart_append ha _

theorem hostPart_slash24 (ha : chr '/' ∉ a) : hostPart (slash24 a) = a :=
  hostPart_append ha _

theorem fits_slash24 (ha : chr '/' ∉ a) : Fits cap room (slash24 a) ↔ a.length ≤ room := by
  rw [Fits, PrefixFits, prefixPart_slash24 ha, AddressFits, hostPart_slash24 ha]
  simp [prefixPart_slash24 ha]

theorem fits_of_not_mem (ha : chr '/' ∉ a) : Fits cap room a ↔ a.length < cap := by
  rw [Fits, PrefixFits, AddressFits, hostPart_of_not_mem ha]
  simp [prefixPart_of_not_mem ha]

theorem netmask_slash24 (ha : chr '/' ∉ a) : netmask 32 (slash24 a) = prefixMask 32 24 := by
  simp only [netmask, prefixPart_slash24 ha, BitVec.signExtend_eq]
  rfl

theorem netmask_of_not_mem (ha : chr '/' ∉ a) : netmask 32 a = 0xffffff :=
  netmask_eq_default.mpr (prefixPart_of_not_mem ha)

/-- The last three bytes are the same. -/
def SameEnd (x y : BitVec 32) : Prop := x.setWidth 24 = y.setWidth 24

instance (x y : BitVec 32) : Decidable (SameEnd x y) := inferInstanceAs (Decidable (_ = _))

theorem and_default_eq_iff (x y : BitVec 32) :
    x &&& 0xffffff = y &&& 0xffffff ↔ SameEnd x y := by
  have hmask : (0xffffff : BitVec 32) = (BitVec.allOnes 24).setWidth 32 := by decide
  rw [hmask, SameEnd]
  constructor
  · intro h
    apply BitVec.eq_of_getLsbD_eq
    intro i hi
    have hbit := congrArg (fun m : BitVec 32 => m.getLsbD i) h
    have hi' : i < 32 := by omega
    simp only [BitVec.getLsbD_and, BitVec.getLsbD_setWidth, BitVec.getLsbD_allOnes, hi, hi',
      decide_true, Bool.true_and, Bool.and_true] at hbit ⊢
    exact hbit
  · intro h
    apply BitVec.eq_of_getLsbD_eq
    intro i hi
    simp only [BitVec.getLsbD_and, BitVec.getLsbD_setWidth, BitVec.getLsbD_allOnes, hi,
      decide_true, Bool.true_and]
    by_cases h24 : i < 24
    · have hbit := congrArg (fun m : BitVec 24 => m.getLsbD i) h
      simpa [h24] using hbit
    · simp [h24]

/-- The prefix length of the other address, and the bytes that decide the comparison with it. -/
def DefaultAgrees (a b : CStr) : Prop :=
  match prefixPart b with
  | none => ¬ SameEnd (addressOf a) (addressOf (hostPart b))
  | some n => n = 24 → ¬ SamePrefix 24 (addressOf a) (addressOf (hostPart b))

theorem netmask_eq_slash24 (hb : PrefixFits b) :
    netmask 32 b = prefixMask 32 24 ↔ prefixPart b = some 24 := by
  cases hp : prefixPart b with
  | none =>
      rw [netmask_eq_default.mpr hp]
      decide
  | some n =>
      have hn := hb n hp
      simp only [netmask, hp, BitVec.signExtend_eq, Option.some.injEq]
      rw [prefixMask_inj (by omega) (by omega)]
      omega

theorem ite_eq_ite_iff {P Q : Prop} [Decidable P] [Decidable Q] :
    (if P then (1 : ℤ) else 0) = (if Q then 1 else 0) ↔ (P ↔ Q) := by
  by_cases hP : P
  · by_cases hQ : Q
    · simp [hP, hQ]
    · simp [hP, hQ]
  · by_cases hQ : Q
    · simp [hP, hQ]
    · simp [hP, hQ]

theorem isInSameSubnet_default (e : Endian) (ha : chr '/' ∉ a) (b : CStr) :
    SameResult (isInSameSubnet e b a) (isInSameSubnet e b (slash24 a)) ↔
      a.length < 18 ∧
        (SameEnd (addressOf b) (addressOf a) ↔ SamePrefix 24 (addressOf b) (addressOf a)) := by
  rw [isInSameSubnet_eq, isInSameSubnet_eq, sameResult_ite, fits_of_not_mem ha, fits_slash24 ha,
    ite_eq_ite_iff, netmask_of_not_mem ha, netmask_slash24 ha, hostPart_of_not_mem ha,
    hostPart_slash24 ha, and_default_eq_iff, and_prefixMask_eq_iff, ← and_assoc]
  apply and_congr_left'
  omega

theorem isinSameSubnet_comm (H : Host) (x s : CStr) :
    isinSameSubnet H x s = isinSameSubnet H s x := by
  have hcomm : (netmask 32 s = netmask 32 x ∧
        addressOf (hostPart s) &&& netmask 32 s = addressOf (hostPart x) &&& netmask 32 s) ↔
      (netmask 32 x = netmask 32 s ∧
        addressOf (hostPart x) &&& netmask 32 x = addressOf (hostPart s) &&& netmask 32 x) := by
    constructor
    · intro h
      exact ⟨h.1.symm, h.1 ▸ h.2.symm⟩
    · intro h
      exact ⟨h.1.symm, h.1 ▸ h.2.symm⟩
  rw [isinSameSubnet_eq, isinSameSubnet_eq]
  simp only [hcomm, @and_comm (Fits 18 17 s)]

theorem isinSameSubnet_default (H : Host) (ha : chr '/' ∉ a) (b : CStr) :
    SameResult (isinSameSubnet H b a) (isinSameSubnet H b (slash24 a)) ↔
      a.length < 18 ∧ Fits 18 17 b ∧ DefaultAgrees a b := by
  rw [isinSameSubnet_eq, isinSameSubnet_eq, sameResult_ite, fits_of_not_mem ha, fits_slash24 ha,
    ite_eq_ite_iff, netmask_of_not_mem ha, netmask_slash24 ha, hostPart_of_not_mem ha,
    hostPart_slash24 ha, and_default_eq_iff, and_prefixMask_eq_iff]
  have hagrees : Fits 18 17 b → (((0xffffff = netmask 32 b ∧
        SameEnd (addressOf a) (addressOf (hostPart b))) ↔
      (prefixMask 32 24 = netmask 32 b ∧
        SamePrefix 24 (addressOf a) (addressOf (hostPart b)))) ↔ DefaultAgrees a b) := by
    intro hb
    rw [@eq_comm _ 0xffffff, @eq_comm _ (prefixMask 32 24), netmask_eq_default,
      netmask_eq_slash24 hb.2, DefaultAgrees]
    cases prefixPart b with
    | none => simp
    | some n => simp
  constructor
  · intro h
    exact ⟨h.1.1, h.1.2, (hagrees h.1.2).mp h.2.2⟩
  · intro h
    exact ⟨⟨h.1, h.2.1⟩, ⟨by omega, h.2.1⟩, (hagrees h.2.1).mpr h.2.2⟩

theorem getBroadcastAddr_default (H : Host) (ha : chr '/' ∉ a) :
    SameResult (getBroadcastAddr H a) (getBroadcastAddr H (slash24 a)) ↔ a.length < 18 := by
  rw [getBroadcastAddr_eq, getBroadcastAddr_eq, sameResult_ite, fits_of_not_mem ha,
    fits_slash24 ha, hostPart_of_not_mem ha, hostPart_slash24 ha, prefixPart_of_not_mem ha,
    prefixPart_slash24 ha]
  constructor
  · intro h
    exact h.1
  · intro h
    exact ⟨h, by omega, rfl⟩

theorem getNetmaskStr_default (H : Host) (ha : chr '/' ∉ a) :
    ¬ SameResult (getNetmaskStr H a) (getNetmaskStr H (slash24 a)) := by
  rw [getNetmaskStr_eq, getNetmaskStr_eq, sameResult_ite, netmask_of_not_mem ha,
    netmask_slash24 ha, dotted_inj]
  intro h
  exact absurd h.2.2 (by decide)

theorem and_masks_eq_iff (x : BitVec 32) :
    x &&& 0xffffff = x &&& prefixMask 32 24 ↔ x &&& 0xff0000ff = 0 := by
  have hxor : (0xff0000ff : BitVec 32) = 0xffffff ^^^ prefixMask 32 24 := by decide
  have hdistrib : x &&& (0xffffff ^^^ prefixMask 32 24) =
      (x &&& 0xffffff) ^^^ (x &&& prefixMask 32 24) := by
    apply BitVec.eq_of_getLsbD_eq
    intro i hi
    simp only [BitVec.getLsbD_and, BitVec.getLsbD_xor, Bool.and_xor_distrib_left]
  rw [hxor, hdistrib, ← BitVec.xor_eq_zero_iff]
  rfl

theorem getSubmaskAddr_default (H : Host) (ha : chr '/' ∉ a) :
    SameResult (getSubmaskAddr H a) (getSubmaskAddr H (slash24 a)) ↔
      a.length < 18 ∧ addressOf a &&& 0xff0000ff = 0 := by
  rw [getSubmaskAddr_eq, getSubmaskAddr_eq, sameResult_ite, fits_of_not_mem ha, fits_slash24 ha,
    netmask_of_not_mem ha, netmask_slash24 ha, hostPart_of_not_mem ha, hostPart_slash24 ha,
    dotted_inj, and_masks_eq_iff]
  constructor
  · intro h
    exact ⟨by omega, h.2.2⟩
  · intro h
    exact ⟨by omega, by omega, h.2⟩

theorem getMaskAddr_default (ha : chr '/' ∉ a) :
    SameResult (getMaskAddr a) (getMaskAddr (slash24 a)) := by
  have hslash : strchr (chr '/') (slash24 a) = some (text "/24") := strchr_append_cons ha _
  rw [getMaskAddr, getMaskAddr, strchr_eq_none.mpr ha, hslash]
  exact ⟨24, rfl, rfl⟩

theorem getNetmaskAddr_default (ha : chr '/' ∉ a) :
    ¬ SameResult (getNetmaskAddr a) (getNetmaskAddr (slash24 a)) := by
  have hslash : strchr (chr '/') (slash24 a) = some (text "/24") := strchr_append_cons ha _
  have hmask : getNetmaskAddr (slash24 a) = some 0xffffff00 := by
    rw [getNetmaskAddr, hslash]
    rfl
  rw [hmask, getNetmaskAddr, strchr_eq_none.mpr ha]
  intro h
  obtain ⟨r, hr, hr'⟩ := h
  rw [← hr', Option.some.injEq] at hr
  exact absurd hr (by decide)

/-- Exactly when the functions take an address without a prefix length as one with `/24`. -/
theorem default_prefix_iff (H : Host) {a : CStr} (ha : chr '/' ∉ a) (b : CStr) :
    (SameResult (isInSameSubnet H.endian b a) (isInSameSubnet H.endian b (slash24 a)) ↔
        a.length < 18 ∧
          (SameEnd (addressOf b) (addressOf a) ↔ SamePrefix 24 (addressOf b) (addressOf a))) ∧
      (SameResult (isinSameSubnet H b a) (isinSameSubnet H b (slash24 a)) ↔
        a.length < 18 ∧ Fits 18 17 b ∧ DefaultAgrees a b) ∧
      (SameResult (isinSameSubnet H a b) (isinSameSubnet H (slash24 a) b) ↔
        a.length < 18 ∧ Fits 18 17 b ∧ DefaultAgrees a b) ∧
      (SameResult (getBroadcastAddr H a) (getBroadcastAddr H (slash24 a)) ↔ a.length < 18) ∧
      ¬ SameResult (getNetmaskStr H a) (getNetmaskStr H (slash24 a)) ∧
      (SameResult (getSubmaskAddr H a) (getSubmaskAddr H (slash24 a)) ↔
        a.length < 18 ∧ addressOf a &&& 0xff0000ff = 0) ∧
      SameResult (getMaskAddr a) (getMaskAddr (slash24 a)) ∧
      ¬ SameResult (getNetmaskAddr a) (getNetmaskAddr (slash24 a)) := by
  refine ⟨isInSameSubnet_default H.endian ha b, isinSameSubnet_default H ha b, ?_,
    getBroadcastAddr_default H ha, getNetmaskStr_default H ha, getSubmaskAddr_default H ha,
    getMaskAddr_default ha, getNetmaskAddr_default ha⟩
  rw [isinSameSubnet_comm H a b, isinSameSubnet_comm H (slash24 a) b]
  exact isinSameSubnet_default H ha b

theorem default_prefix_iff_broadcast :
    SameResult (getBroadcastAddr ⟨.big, 32, by decide⟩ (text "10.0.0.1"))
      (getBroadcastAddr ⟨.big, 32, by decide⟩ (slash24 (text "10.0.0.1"))) :=
  (default_prefix_iff ⟨.big, 32, by decide⟩ (by decide) []).2.2.2.1.mpr (by decide)

/-- Two hosts of one `/24` that `is_in_same_subnet` keeps apart without the length. -/
theorem default_prefix_differs :
    ¬ SameResult (isInSameSubnet .little (text "192.168.1.2") (text "192.168.1.1"))
        (isInSameSubnet .little (text "192.168.1.2") (slash24 (text "192.168.1.1"))) := by
  have hdefault : isInSameSubnet .little (text "192.168.1.2") (text "192.168.1.1") = some 0 := by
    decide +kernel
  have hslash24 : isInSameSubnet .little (text "192.168.1.2") (slash24 (text "192.168.1.1")) =
      some 1 := by
    decide +kernel
  rw [hdefault, hslash24]
  intro h
  obtain ⟨r, hr, hr'⟩ := h
  rw [← hr', Option.some.injEq] at hr
  exact absurd hr (by decide)

end BcmUtils.Subnets
