import BcmUtils.Foundation.Joined
import BcmUtils.Model.MacText
import BcmUtils.Verification.Bindings.Encoding

/-! # The parsers of MAC addresses agree

All of them accumulate the bytes of the address, two digits or one byte at a time. With a signed
`char` a byte from 128 on is subtracted from the value, and one is lost from the byte in front. -/

namespace BcmUtils.MacText

open CLib
open Bindings (hexDigit_of_isHex cliStr2mac_pairs)

/-- The bytes of an address appended to a number. -/
def appendBytes (acc : ℕ) (bs : List Byte) : ℕ := bs.foldl (fun n b => 256 * n + b.toNat) acc

/-- An address with the two characters that spell each of its bytes. -/
structure MacSpelling where
  mac : List Byte
  pairs : List (Byte × Byte)
  length_mac : mac.length = 6
  spelled : List.Forall₂ IsHexPair mac pairs

/-- The two characters of a byte. -/
def pairText (p : Byte × Byte) : CStr := [p.1, p.2]

namespace MacSpelling

variable (m : MacSpelling)

/-- The twelve digits. -/
def plain : CStr := m.pairs.flatMap pairText

/-- The pairs with a separator between them. -/
def separated (c : Byte) : CStr := [c].intercalate (m.pairs.map pairText)

/-- The value of the address. -/
def value : BitVec 64 := BitVec.ofNat 64 (bigNat m.mac)

end MacSpelling

/-! ## Digits -/

/-- Two digits append a byte. -/
theorem append_pair {b : Byte} {hi lo : ℕ} (hhi : hi = b.toNat / 16) (hlo : lo = b.toNat % 16)
    (acc : ℕ) :
    (BitVec.ofNat 64 acc * 16 + BitVec.ofNat 64 hi) * 16 + BitVec.ofNat 64 lo =
      BitVec.ofNat 64 (256 * acc + b.toNat) := by
  have hsixteen : (16 : BitVec 64) = BitVec.ofNat 64 16 := rfl
  have hvalue : 256 * acc + b.toNat = (acc * 16 + hi) * 16 + lo := by omega
  rw [hvalue, hsixteen, ← BitVec.ofNat_mul, ← BitVec.ofNat_add, ← BitVec.ofNat_mul,
    ← BitVec.ofNat_add]

section

variable {b : Byte} {p : Byte × Byte} (h : IsHexPair b p)

include h

theorem str2macLoop_pair (len acc : ℕ) (rest : CStr) :
    str2macLoop (len + 2) (pairText p ++ rest) (BitVec.ofNat 64 acc) =
      str2macLoop len rest (BitVec.ofNat 64 (256 * acc + b.toNat)) := by
  obtain ⟨hi, hhi, hhi'⟩ := hexDigit_of_isHex h.1
  obtain ⟨lo, hlo, hlo'⟩ := hexDigit_of_isHex h.2
  rw [← append_pair hhi' hlo' acc]
  simp only [pairText, List.cons_append, List.nil_append, str2macLoop, hhi, hlo]

theorem str2macBlackholeLoop_pair (len acc : ℕ) (rest : CStr) :
    str2macBlackholeLoop (len + 2) (pairText p ++ rest) (BitVec.ofNat 64 acc) =
      str2macBlackholeLoop len rest (BitVec.ofNat 64 (256 * acc + b.toNat)) := by
  obtain ⟨hi, hhi, hhi'⟩ := hexDigit_of_isHex h.1
  obtain ⟨lo, hlo, hlo'⟩ := hexDigit_of_isHex h.2
  rw [← append_pair hhi' hlo' acc]
  simp only [pairText, List.cons_append, List.nil_append, str2macBlackholeLoop, hhi, hlo]

end

/-! ## The parsers of text -/

section

variable {mac : List Byte} {pairs : List (Byte × Byte)} (h : List.Forall₂ IsHexPair mac pairs)

include h

theorem str2macLoop_plain (acc : ℕ) :
    str2macLoop (2 * mac.length) (pairs.flatMap pairText) (BitVec.ofNat 64 acc) =
      BitVec.ofNat 64 (appendBytes acc mac) := by
  induction h generalizing acc with
  | nil => rfl
  | cons hp hrest ih =>
      rw [List.length_cons, Nat.mul_succ, List.flatMap_cons, str2macLoop_pair hp, ih]
      rfl

/-- The loop ends with the text, also if it may go on. -/
theorem str2macBlackholeLoop_plain (extra acc : ℕ) :
    str2macBlackholeLoop (2 * mac.length + extra) (pairs.flatMap pairText) (BitVec.ofNat 64 acc) =
      BitVec.ofNat 64 (appendBytes acc mac) := by
  induction h generalizing acc with
  | nil =>
      cases extra with
      | zero => rfl
      | succ extra => simp [str2macBlackholeLoop, appendBytes]
  | @cons b p mac pairs hp hrest ih =>
      have hlen : 2 * (b :: mac).length + extra = 2 * mac.length + extra + 2 := by
        rw [List.length_cons]
        omega
      rw [hlen, List.flatMap_cons, str2macBlackholeLoop_pair hp, ih]
      rfl

/-- Separators in front of the pairs are skipped. -/
theorem str2macBlackholeLoop_separated {c : Byte} (hc : c = chr ':' ∨ c = chr '-')
    (extra acc : ℕ) :
    str2macBlackholeLoop (3 * mac.length + extra) (pairs.flatMap fun p => c :: pairText p)
        (BitVec.ofNat 64 acc) =
      BitVec.ofNat 64 (appendBytes acc mac) := by
  have hdigit : hexDigit c = none := by
    cases hc with
    | inl hc => rw [hc]; decide
    | inr hc => rw [hc]; decide
  induction h generalizing acc with
  | nil =>
      cases extra with
      | zero => rfl
      | succ extra => simp [str2macBlackholeLoop, appendBytes]
  | @cons b p mac pairs hp hrest ih =>
      have hlen : 3 * (b :: mac).length + extra = 3 * mac.length + extra + 2 + 1 := by
        rw [List.length_cons]
        omega
      rw [hlen, List.flatMap_cons, List.cons_append, str2macBlackholeLoop]
      simp only [hdigit, if_pos hc]
      rw [str2macBlackholeLoop_pair hp, ih]
      rfl

theorem str2macBlackholeLoop_joined {c : Byte} (hc : c = chr ':' ∨ c = chr '-') (extra : ℕ) :
    str2macBlackholeLoop (3 * mac.length + extra) ([c].intercalate (pairs.map pairText)) 0 =
      BitVec.ofNat 64 (bigNat mac) := by
  cases h with
  | nil =>
      cases extra with
      | zero => rfl
      | succ extra => rfl
  | @cons b p mac pairs hp hrest =>
      have hlen : 3 * (b :: mac).length + extra = 3 * mac.length + (extra + 1) + 2 := by
        rw [List.length_cons]
        omega
      rw [hlen, List.map_cons, intercalate_cons_eq_flatMap, List.flatMap_map]
      have hfirst := str2macBlackholeLoop_pair hp (3 * mac.length + (extra + 1)) 0
        (pairs.flatMap fun p => c :: pairText p)
      exact hfirst.trans (str2macBlackholeLoop_separated hrest hc (extra + 1) _)

end

/-! ## Raw bytes -/

/-- What a signed `char` takes from the byte in front. -/
def borrow (c : CharSign) (b : Byte) : ℕ := if c = .signed ∧ 128 ≤ b then 256 else 0

theorem value_add_borrow (c : CharSign) (b : Byte) : c.value b + borrow c b = b.toNat := by
  have hb := b.toNat_lt
  have hge : 128 ≤ b ↔ 128 ≤ b.toNat := Iff.rfl
  cases c with
  | signed =>
      rw [CharSign.value, borrow, BitVec.toInt_eq_toNat_cond]
      simp only [true_and, hge, UInt8.toNat_toBitVec]
      split
      · rw [if_neg (by omega)]
        rfl
      · rw [if_pos (by omega)]
        omega
  | unsigned => simp [CharSign.value, borrow]

/-- The borrowed parts of all bytes. -/
def borrowed (c : CharSign) (acc : ℕ) (bs : List Byte) : ℕ :=
  bs.foldl (fun n b => 256 * n + borrow c b) acc

/-- The loop computes the value less the borrowed parts. -/
theorem hex2macLoop_eq (c : CharSign) (bs : List Byte) (acc taken : ℕ) (val : BitVec 64)
    (hval : val + BitVec.ofNat 64 taken = BitVec.ofNat 64 acc) :
    ∃ val', hex2macLoop c bs.length bs val = some val' ∧
      val' + BitVec.ofNat 64 (borrowed c taken bs) = BitVec.ofNat 64 (appendBytes acc bs) := by
  induction bs generalizing acc taken val with
  | nil => exact ⟨val, rfl, hval⟩
  | cons b bs ih =>
      apply ih
      have hshift : val <<< 8 = BitVec.ofNat 64 256 * val := by
        rw [BitVec.shiftLeft_eq_mul_twoPow, BitVec.mul_comm]
        rfl
      have hbyte : BitVec.ofInt 64 (c.value b) + BitVec.ofNat 64 (borrow c b) =
          BitVec.ofNat 64 b.toNat := by
        rw [← BitVec.ofInt_natCast, ← BitVec.ofInt_natCast, ← BitVec.ofInt_add, value_add_borrow]
      calc val <<< 8 + BitVec.ofInt 64 (c.value b) + BitVec.ofNat 64 (256 * taken + borrow c b)
          = BitVec.ofNat 64 256 * (val + BitVec.ofNat 64 taken) +
              (BitVec.ofInt 64 (c.value b) + BitVec.ofNat 64 (borrow c b)) := by
            rw [hshift, BitVec.ofNat_add, BitVec.ofNat_mul, BitVec.mul_add]
            ac_rfl
        _ = BitVec.ofNat 64 (256 * acc + b.toNat) := by
            rw [hval, hbyte, BitVec.ofNat_add, BitVec.ofNat_mul]

theorem borrowed_bound (c : CharSign) (bs : List Byte) (acc : ℕ) :
    borrowed c acc bs + 2 ≤ (acc + 2) * 256 ^ bs.length := by
  induction bs generalizing acc with
  | nil => simp [borrowed]
  | cons b bs ih =>
      have hb : borrow c b ≤ 256 := by
        rw [borrow]
        split <;> omega
      have hrest := ih (256 * acc + borrow c b)
      have hmono : (256 * acc + borrow c b + 2) * 256 ^ bs.length ≤
          ((acc + 2) * 256) * 256 ^ bs.length := Nat.mul_le_mul_right _ (by omega)
      rw [List.length_cons, Nat.pow_succ, Nat.mul_comm (256 ^ bs.length), ← Nat.mul_assoc]
      exact hrest.trans hmono

theorem borrow_eq_zero_iff (c : CharSign) (b : Byte) :
    borrow c b = 0 ↔ c = .unsigned ∨ b < 128 := by
  have hlt : ¬ 128 ≤ b ↔ b < 128 := UInt8.not_le
  rw [borrow, ← hlt]
  cases c with
  | signed => simp
  | unsigned => simp

/-- Something is borrowed exactly if there is a negative byte. -/
theorem borrowed_eq_zero_iff (c : CharSign) (bs : List Byte) (acc : ℕ) :
    borrowed c acc bs = 0 ↔ acc = 0 ∧ ∀ b ∈ bs, c = .unsigned ∨ b < 128 := by
  induction bs generalizing acc with
  | nil => simp [borrowed]
  | cons b bs ih =>
      have hstep := ih (256 * acc + borrow c b)
      have hacc : 256 * acc + borrow c b = 0 ↔ acc = 0 ∧ borrow c b = 0 := by omega
      rw [hacc, borrow_eq_zero_iff, and_assoc] at hstep
      rw [List.forall_mem_cons]
      exact hstep

/-! ## All parsers -/

/-- All parsers read the value of the address. -/
structure ParsersAgree (c : CharSign) (m : MacSpelling) : Prop where
  str2mac : str2mac m.plain = m.value
  blackhole_plain : str2macBlackhole m.plain = m.value
  blackhole_colon : str2macBlackhole (m.separated (chr ':')) = m.value
  blackhole_hyphen : str2macBlackhole (m.separated (chr '-')) = m.value
  cli : ∀ val : List Byte, val.length = 6 →
    ∃ bytes, cliStr2mac m.plain 0 val = some bytes ∧ BitVec.ofNat 64 (bigNat bytes) = m.value
  hex2mac : hex2mac c m.mac = some m.value

theorem str2mac_plain (m : MacSpelling) : str2mac m.plain = m.value := by
  have h := str2macLoop_plain m.spelled 0
  rw [m.length_mac] at h
  exact h

theorem str2macBlackhole_plain (m : MacSpelling) : str2macBlackhole m.plain = m.value := by
  have h := str2macBlackholeLoop_plain m.spelled 6 0
  rw [m.length_mac] at h
  exact h

theorem str2macBlackhole_separated (m : MacSpelling) {c : Byte} (hc : c = chr ':' ∨ c = chr '-') :
    str2macBlackhole (m.separated c) = m.value := by
  have h := str2macBlackholeLoop_joined m.spelled hc 0
  rw [m.length_mac] at h
  exact h

theorem hex2mac_eq_iff (c : CharSign) (m : MacSpelling) :
    hex2mac c m.mac = some m.value ↔ ∀ b ∈ m.mac, c = .unsigned ∨ b < 128 := by
  obtain ⟨val, hrun, hval⟩ := hex2macLoop_eq c m.mac 0 0 0 (by decide)
  have hbound := borrowed_bound c m.mac 0
  rw [m.length_mac] at hrun hbound
  have hsmall : borrowed c 0 m.mac < 2 ^ 64 := by omega
  have hzero : BitVec.ofNat 64 (borrowed c 0 m.mac) = 0#64 ↔ borrowed c 0 m.mac = 0 := by
    rw [← BitVec.toNat_inj, BitVec.toNat_ofNat, Nat.mod_eq_of_lt hsmall]
    rfl
  have hvalue : m.value = val + BitVec.ofNat 64 (borrowed c 0 m.mac) := hval.symm
  have hsame : val = val + BitVec.ofNat 64 (borrowed c 0 m.mac) ↔
      BitVec.ofNat 64 (borrowed c 0 m.mac) = 0#64 := by
    rw [eq_comm, BitVec.add_right_eq_self]
  rw [hex2mac, hrun, Option.some.injEq, hvalue, hsame, hzero, borrowed_eq_zero_iff]
  simp only [true_and]

/-- The parsers agree on an address exactly if a plain `char` is unsigned or no byte has its top
bit set. -/
theorem mac_parsers_agree_iff (c : CharSign) (m : MacSpelling) :
    ParsersAgree c m ↔ ∀ b ∈ m.mac, c = .unsigned ∨ b < 128 := by
  constructor
  · intro h
    exact (hex2mac_eq_iff c m).mp h.hex2mac
  · intro h
    refine ⟨str2mac_plain m, str2macBlackhole_plain m, str2macBlackhole_separated m (Or.inl rfl),
      str2macBlackhole_separated m (Or.inr rfl), ?_, (hex2mac_eq_iff c m).mpr h⟩
    intro val hval
    have hread := cliStr2mac_pairs m.spelled [] [] (hval.trans m.length_mac.symm)
    rw [List.append_nil] at hread
    exact ⟨m.mac, hread, rfl⟩

/-- With a signed `char`, `00:00:00:00:00:80` is read by `hex2mac` as a negative number. -/
theorem mac_parsers_disagree : ¬ ∀ (c : CharSign) (m : MacSpelling), ParsersAgree c m := by
  intro h
  have hsigned := h .signed ⟨[0, 0, 0, 0, 0, 128],
    [(48, 48), (48, 48), (48, 48), (48, 48), (48, 48), (56, 48)], rfl, by decide⟩
  have hhex := hsigned.hex2mac
  revert hhex
  decide

end BcmUtils.MacText
