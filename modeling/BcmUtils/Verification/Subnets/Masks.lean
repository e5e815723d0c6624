import BcmUtils.Model.Subnets
import BcmUtils.Verification.Bindings.Encoding

/-! # What the subnet functions compute

Each function answers from the address and the mask of its text, the same on every host. -/

namespace BcmUtils.Subnets

open CLib

/-! ## Masks -/

theorem prefixMask_succ {i : ℕ} (hi : i ≤ 31) :
    prefixMask 32 i ||| 1#32 <<< (31 - i) = prefixMask 32 (i + 1) := by
  apply BitVec.eq_of_getLsbD_eq
  intro j hj
  rw [BitVec.getLsbD_or, getLsbD_prefixMask, getLsbD_prefixMask, BitVec.getLsbD_shiftLeft,
    BitVec.getLsbD_one, Bool.eq_iff_iff]
  simp only [Bool.or_eq_true, Bool.and_eq_true, Bool.not_eq_true', decide_eq_true_eq,
    decide_eq_false_iff_not]
  omega

/-- The rounds up to the last bit each add one; a further round shifts by a negative number. -/
theorem netmaskLoop_eq {w i n : ℕ} (hi : i ≤ 32) :
    netmaskLoop w i n ((prefixMask 32 i).signExtend w) =
      if i + n ≤ 32 then some ((prefixMask 32 (i + n)).signExtend w) else none := by
  induction n generalizing i with
  | zero => rw [netmaskLoop, Nat.add_zero, if_pos hi]
  | succ n ih =>
      rw [netmaskLoop]
      by_cases h : i ≤ 31
      · rw [if_pos h, ← BitVec.signExtend_or, prefixMask_succ h, ih (by omega),
          Nat.add_right_comm, Nat.add_assoc]
      · rw [if_neg h, if_neg (by omega)]

theorem netmaskOf_eq (w : ℕ) (mask : ℤ) :
    netmaskOf w mask =
      if mask ≤ 32 then some ((prefixMask 32 mask.toNat).signExtend w) else none := by
  have hzero : (0 : BitVec w) = (prefixMask 32 0).signExtend w := by
    have h : prefixMask 32 0 = 0 := by decide
    rw [h]
    apply BitVec.eq_of_getLsbD_eq
    intro i hi
    simp [BitVec.getLsbD_signExtend]
  rw [netmaskOf, hzero, netmaskLoop_eq (by omega), Nat.zero_add]
  by_cases h : mask ≤ 32
  · rw [if_pos h, if_pos (by omega)]
  · rw [if_neg h, if_neg (by omega)]

theorem setWidth_signExtend {w : ℕ} (hw : 32 ≤ w) (n : BitVec 32) :
    (n.signExtend w).setWidth 32 = n := by
  apply BitVec.eq_of_getLsbD_eq
  intro i hi
  rw [BitVec.getLsbD_setWidth, BitVec.getLsbD_signExtend]
  simp [hi, hi.trans_le hw]

/-! ## The parts of a text -/

/-- The text before `/`. -/
def hostPart (s : CStr) : CStr := s.takeWhile (· ≠ chr '/')

/-- The number behind `/`. -/
def prefixPart (s : CStr) : Option ℤ := (strchr (chr '/') s).map fun p => atoi p.tail

/-- The address part fits the array that it is copied to. -/
def AddressFits (cap room : ℕ) (s : CStr) : Prop :=
  (hostPart s).length < if (prefixPart s).isSome then room + 1 else cap

/-- The mask is defined. -/
def PrefixFits (s : CStr) : Prop := ∀ n ∈ prefixPart s, n ≤ 32

/-- The text is one that the functions have a result for. -/
def Fits (cap room : ℕ) (s : CStr) : Prop := AddressFits cap room s ∧ PrefixFits s

instance (cap room : ℕ) (s : CStr) : Decidable (AddressFits cap room s) :=
  inferInstanceAs (Decidable (_ < _))

instance (s : CStr) : Decidable (PrefixFits s) :=
  inferInstanceAs (Decidable (∀ n ∈ prefixPart s, n ≤ 32))

instance (cap room : ℕ) (s : CStr) : Decidable (Fits cap room s) :=
  inferInstanceAs (Decidable (_ ∧ _))

/-- The mask that the loop or the constant gives in a variable of `w` bits. -/
def netmask (w : ℕ) (s : CStr) : BitVec w :=
  match prefixPart s with
  | none => 0xffffff
  | some n => (prefixMask 32 n.toNat).signExtend w

variable {s t u : CStr} {w cap room : ℕ} {H : Host} {e : Endian}

theorem hostPart_of_not_mem (h : chr '/' ∉ t) : hostPart t = t := by
  rw [hostPart, List.takeWhile_eq_self_iff]
  intro b hb
  simpa using fun hslash : b = chr '/' => h (hslash ▸ hb)

theorem prefixPart_of_not_mem (h : chr '/' ∉ t) : prefixPart t = none := by
  rw [prefixPart, strchr_eq_none.mpr h]
  rfl

theorem hostPart_append (h : chr '/' ∉ t) (u : CStr) : hostPart (t ++ chr '/' :: u) = t := by
  have htake : ∀ b ∈ t, (decide (b ≠ chr '/')) = true := by
    intro b hb
    simpa using fun hslash : b = chr '/' => h (hslash ▸ hb)
  rw [hostPart, List.takeWhile_append_of_pos htake]
  simp

theorem prefixPart_append (h : chr '/' ∉ t) (u : CStr) :
    prefixPart (t ++ chr '/' :: u) = some (atoi u) := by
  rw [prefixPart, strchr_append_cons h]
  rfl

theorem copyLanip_eq (cap room : ℕ) (s : CStr) :
    copyLanip cap room s =
      if AddressFits cap room s then some (hostPart s, (strchr (chr '/') s).map List.tail)
      else none := by
  cases hp : strchr (chr '/') s with
  | none =>
      have hs := strchr_eq_none.mp hp
      simp only [copyLanip, hp, store, AddressFits, prefixPart_of_not_mem hs,
        hostPart_of_not_mem hs, Option.isSome_none, Bool.false_eq_true, if_false]
      split <;> rfl
  | some p =>
      obtain ⟨t, rfl, ht, u, rfl⟩ := strchr_eq_some hp
      simp only [copyLanip, hp, between_append, Option.bind_some, copyField, AddressFits,
        prefixPart_append ht, hostPart_append ht, Option.isSome_some, if_true,
        Nat.lt_add_one_iff]
      split <;> rfl

theorem netmaskBehind_eq (w : ℕ) (s : CStr) :
    netmaskBehind w ((strchr (chr '/') s).map List.tail) =
      if PrefixFits s then some (netmask w s) else none := by
  cases hp : strchr (chr '/') s with
  | none =>
      have hs := prefixPart_of_not_mem (strchr_eq_none.mp hp)
      simp [PrefixFits, netmask, hs, netmaskBehind]
  | some p =>
      obtain ⟨t, rfl, ht, u, rfl⟩ := strchr_eq_some hp
      have hs := prefixPart_append ht u
      simp [PrefixFits, netmask, hs, netmaskBehind, netmaskOf_eq]

/-- The head shared by the functions: the address in `lanip`, then the mask. -/
theorem copyLanip_netmask {β : Type} (w cap room : ℕ) (s : CStr)
    (f : CStr × Option CStr → BitVec w → Option β) :
    (copyLanip cap room s >>= fun lp => netmaskBehind w lp.2 >>= fun m => f lp m) =
      if Fits cap room s then
        f (hostPart s, (strchr (chr '/') s).map List.tail) (netmask w s)
      else none := by
  rw [copyLanip_eq]
  by_cases ha : AddressFits cap room s
  · rw [if_pos ha, bind_of_eq rfl, netmaskBehind_eq]
    by_cases hm : PrefixFits s
    · have hfits : Fits cap room s := ⟨ha, hm⟩
      rw [if_pos hm, if_pos hfits]
      rfl
    · have hfits : ¬ Fits cap room s := fun h => hm h.2
      rw [if_neg hm, if_neg hfits]
      rfl
  · have hfits : ¬ Fits cap room s := fun h => ha h.1
    rw [if_neg ha, if_neg hfits]
    rfl

/-! ## Addresses -/

/-- The address that `inet_addr` reads, as a number. -/
def addressOf (s : CStr) : BitVec 32 := (inetAton s).getD INADDR_NONE

/-- An address as it is printed. -/
def dotted (n : BitVec 32) : CStr := inetNtoa (bytesOf .big n)

theorem inetAddr_eq (e : Endian) (s : CStr) : inetAddr e s = networkWord e (addressOf s) := by
  rw [inetAddr, addressOf]
  cases inetAton s with
  | none => cases e <;> decide
  | some n => rfl

theorem inetNtoa_networkWord (e : Endian) (n : BitVec 32) :
    inetNtoa (bytesOf e (networkWord e n)) = dotted n := by
  rw [bytesOf_networkWord, dotted]

theorem dotted_inj {m n : BitVec 32} : dotted m = dotted n ↔ m = n := by
  constructor
  · intro h
    have hbytes := Bindings.inetPton_inetNtoa (length_bytesOf .big m)
    have hbytes' := Bindings.inetPton_inetNtoa (length_bytesOf .big n)
    rw [dotted, dotted] at h
    rw [h, hbytes', Option.some.injEq] at hbytes
    rw [← wordOf_bytesOf .big m, ← hbytes, wordOf_bytesOf]
  · rintro rfl
    rfl

/-- Words under a mask are compared as the numbers are under it. -/
theorem masked_eq_iff (e : Endian) (s t : CStr) (m : BitVec 32) :
    inetAddr e s &&& ntohl e m = inetAddr e t &&& ntohl e m ↔
      addressOf s &&& m = addressOf t &&& m := by
  rw [inetAddr_eq, inetAddr_eq, ntohl_eq_networkWord, ← networkWord_and, ← networkWord_and,
    networkWord_inj]

/-! ## Variables of type `long` -/

theorem setWidth_long_inj (H : Host) {m n : BitVec 32} :
    m.setWidth H.long = n.setWidth H.long ↔ m = n := by
  constructor
  · intro h
    have hback := congrArg (BitVec.setWidth 32) h
    rwa [BitVec.setWidth_setWidth_of_le _ H.le_long, BitVec.setWidth_setWidth_of_le _ H.le_long,
      BitVec.setWidth_eq, BitVec.setWidth_eq] at hback
  · rintro rfl
    rfl

theorem setWidth_netmask (H : Host) (s : CStr) :
    (netmask H.long s).setWidth 32 = netmask 32 s := by
  cases hp : prefixPart s with
  | none =>
      simp only [netmask, hp]
      exact BitVec.setWidth_ofNat_of_le H.le_long _
  | some n =>
      simp only [netmask, hp]
      rw [setWidth_signExtend H.le_long, BitVec.signExtend_eq]

/-- The constant is no mask that the loop computes. -/
theorem netmask_eq_default : netmask 32 s = 0xffffff ↔ prefixPart s = none := by
  cases hp : prefixPart s with
  | none => simp [netmask, hp]
  | some n =>
      have hne : prefixMask 32 n.toNat ≠ 0xffffff := by
        intro h
        have hfirst := congrArg (fun m : BitVec 32 => m.getMsbD 0) h
        have hlast := congrArg (fun m : BitVec 32 => m.getMsbD 8) h
        simp only [getMsbD_prefixMask] at hfirst hlast
        have hfalse : (0xffffff : BitVec 32).getMsbD 0 = false := by decide
        have htrue : (0xffffff : BitVec 32).getMsbD 8 = true := by decide
        rw [hfalse, decide_eq_false_iff_not] at hfirst
        rw [htrue, decide_eq_true_eq] at hlast
        omega
      simpa [netmask, hp] using hne

/-- Masks that differ in a `long` differ in their last 32 bits. -/
theorem netmask_long_eq_iff (H : Host) (s t : CStr) :
    netmask H.long s = netmask H.long t ↔ netmask 32 s = netmask 32 t := by
  constructor
  · intro h
    rw [← setWidth_netmask H, h, setWidth_netmask]
  · intro h
    cases hs : prefixPart s with
    | none =>
        have ht : prefixPart t = none := by
          rw [← netmask_eq_default, ← h, netmask_eq_default, hs]
        simp only [netmask, hs, ht]
    | some n =>
        cases ht : prefixPart t with
        | none =>
            rw [netmask_eq_default.mpr ht, netmask_eq_default, hs] at h
            cases h
        | some m =>
            simp only [netmask, hs, ht, BitVec.signExtend_eq] at h ⊢
            rw [h]

theorem masked_long_eq_iff (H : Host) (s t : CStr) (m : BitVec 32) :
    (inetAddr H.endian s).setWidth H.long &&& (ntohl H.endian m).setWidth H.long =
        (inetAddr H.endian t).setWidth H.long &&& (ntohl H.endian m).setWidth H.long ↔
      addressOf s &&& m = addressOf t &&& m := by
  rw [← BitVec.setWidth_and, ← BitVec.setWidth_and, setWidth_long_inj, masked_eq_iff]

/-! ## The functions -/

theorem isInSameSubnet_eq (e : Endian) (x s : CStr) :
    isInSameSubnet e x s =
      if Fits 18 17 s then
        some (if addressOf x &&& netmask 32 s = addressOf (hostPart s) &&& netmask 32 s then 1
          else 0)
      else none := by
  simp only [isInSameSubnet]
  rw [copyLanip_netmask]
  simp only [masked_eq_iff]
  rfl

theorem isinSameSubnet_eq (H : Host) (x s : CStr) :
    isinSameSubnet H x s =
      if Fits 18 17 s ∧ Fits 18 17 x then
        some (if netmask 32 s = netmask 32 x ∧
            addressOf (hostPart s) &&& netmask 32 s =
              addressOf (hostPart x) &&& netmask 32 s then 1
          else 0)
      else none := by
  simp only [isinSameSubnet]
  rw [copyLanip_netmask]
  by_cases hs : Fits 18 17 s
  · rw [if_pos hs]
    rw [copyLanip_netmask]
    by_cases hx : Fits 18 17 x
    · rw [if_pos hx, if_pos (And.intro hs hx)]
      simp only [masked_long_eq_iff, ne_eq, netmask_long_eq_iff, setWidth_netmask]
      by_cases hmask : netmask 32 s = netmask 32 x
      · rw [if_neg (not_not_intro hmask)]
        simp only [hmask, true_and]
        rfl
      · rw [if_pos hmask, if_neg fun h => hmask h.1]
        rfl
    · rw [if_neg hx, if_neg fun h : Fits 18 17 s ∧ Fits 18 17 x => hx h.2]
  · rw [if_neg hs, if_neg fun h => hs h.1]

theorem getSubmaskAddr_eq (H : Host) (s : CStr) :
    getSubmaskAddr H s =
      if Fits 24 17 s then some (dotted (addressOf (hostPart s) &&& netmask 32 s)) else none := by
  simp only [getSubmaskAddr]
  rw [copyLanip_netmask]
  simp only [setWidth_netmask, ntohl_eq_networkWord, inetAddr_eq, ← BitVec.setWidth_and,
    ← networkWord_and, BitVec.setWidth_setWidth_of_le _ H.le_long, BitVec.setWidth_eq,
    inetNtoa_networkWord]
  rfl

theorem getNetmaskStr_eq (H : Host) (s : CStr) :
    getNetmaskStr H s = if Fits 18 18 s then some (dotted (netmask 32 s)) else none := by
  simp only [getNetmaskStr]
  rw [copyLanip_netmask]
  simp only [setWidth_netmask, ntohl_eq_networkWord, inetNtoa_networkWord]
  rfl

theorem getBroadcastAddr_eq (H : Host) (s : CStr) :
    getBroadcastAddr H s =
      if Fits 18 17 s then
        some (dotted (addressOf (hostPart s) &&& prefixMask 32 ((prefixPart s).getD 24).toNat |||
          ~~~ prefixMask 32 ((prefixPart s).getD 24).toNat))
      else none := by
  have hbroadcast : ∀ (t : CStr) (n : ℕ), inetNtoa (bytesOf H.endian
      (((inetAddr H.endian t).setWidth H.long &&&
          (ntohl H.endian (((prefixMask 32 n).signExtend H.long).setWidth 32)).setWidth H.long |||
        (ntohl H.endian ((~~~ (prefixMask 32 n).signExtend H.long).setWidth 32)).setWidth
          H.long).setWidth 32)) =
      dotted (addressOf t &&& prefixMask 32 n ||| ~~~ prefixMask 32 n) := by
    intro t n
    rw [BitVec.setWidth_not H.le_long, setWidth_signExtend H.le_long, ntohl_eq_networkWord,
      ntohl_eq_networkWord, inetAddr_eq, ← BitVec.setWidth_and, ← BitVec.setWidth_or,
      ← networkWord_and, ← networkWord_or, BitVec.setWidth_setWidth_of_le _ H.le_long,
      BitVec.setWidth_eq, inetNtoa_networkWord]
  have hmask : ((strchr (chr '/') s).map List.tail).map atoi = prefixPart s := by
    rw [prefixPart, Option.map_map]
    rfl
  have hpart : (prefixPart s).getD 24 ≤ 32 ↔ PrefixFits s := by
    rw [PrefixFits]
    cases prefixPart s with
    | none => simp
    | some n => simp
  simp only [getBroadcastAddr]
  rw [copyLanip_eq]
  by_cases ha : AddressFits 18 17 s
  · rw [if_pos ha, bind_of_eq rfl]
    dsimp only
    rw [hmask, netmaskOf_eq]
    by_cases hm : PrefixFits s
    · have hfits : Fits 18 17 s := ⟨ha, hm⟩
      rw [if_pos (hpart.mpr hm), if_pos hfits, bind_of_eq rfl, hbroadcast]
      rfl
    · have hfits : ¬ Fits 18 17 s := fun h => hm h.2
      rw [if_neg fun h => hm (hpart.mp h), if_neg hfits]
      rfl
  · have hfits : ¬ Fits 18 17 s := fun h => ha h.1
    rw [if_neg ha, if_neg hfits]
    rfl

end BcmUtils.Subnets
