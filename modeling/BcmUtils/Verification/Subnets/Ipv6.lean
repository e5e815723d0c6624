import BcmUtils.Verification.Bindings.Encoding
import BcmUtils.Model.Subnets

/-! # IPv6 subnets

The words that `check_ipv6_same_subnet` compares hold other bits than the prefix. -/

namespace BcmUtils.Subnets

open CLib

variable {e : Endian} {A G : BitVec 128} {p q k n : ℕ}

/-! ## The bits that are compared -/

/-- The bits that are compared for the prefix length `p`: all words before one of them, and of
this word those that the shift leaves. -/
def Compared (e : Endian) (p i : ℕ) : Prop :=
  i / 32 < 3 - p / 32 ∨ i / 32 = 3 - p / 32 ∧ p % 32 ≤ networkBit e (31 - i % 32)

instance (e : Endian) (p i : ℕ) : Decidable (Compared e p i) :=
  inferInstanceAs (Decidable (_ ∨ _))

/-- The addresses differ in a bit that is compared. -/
def DifferCompared (e : Endian) (p : ℕ) (A G : BitVec 128) : Prop :=
  ∃ i < 128, Compared e p i ∧ A.getMsbD i ≠ G.getMsbD i

instance (e : Endian) (p : ℕ) (A G : BitVec 128) : Decidable (DifferCompared e p A G) :=
  inferInstanceAs (Decidable (∃ i < 128, _))

theorem getLsbD_s6Addr32 (hk : k ≤ 3) {j : ℕ} (hj : j < 32) :
    (s6Addr32 e A k).getLsbD j = A.getMsbD (32 * k + (31 - networkBit e j)) := by
  have hbit := @networkBit_lt e j hj
  rw [s6Addr32, getLsbD_networkWord hj, BitVec.getLsbD_extractLsb', BitVec.getMsbD_eq_getLsbD,
    decide_eq_true hbit, decide_eq_true (by omega : 32 * k + (31 - networkBit e j) < 128)]
  congr 2
  omega

/-- A shifted word holds the bits that the shift leaves. -/
theorem s6Addr32_shift_eq_iff (hk : k ≤ 3) :
    s6Addr32 e A k >>> n = s6Addr32 e G k >>> n ↔
      ∀ i, i / 32 = k → n ≤ networkBit e (31 - i % 32) → A.getMsbD i = G.getMsbD i := by
  constructor
  · intro h i hi hn
    have hbit := congrArg (fun m : BitVec 32 => m.getLsbD (networkBit e (31 - i % 32) - n)) h
    have hlt := @networkBit_lt e (31 - i % 32) (by omega)
    simp only [BitVec.getLsbD_ushiftRight, Nat.add_sub_cancel' hn] at hbit
    rw [getLsbD_s6Addr32 hk hlt, getLsbD_s6Addr32 hk hlt, networkBit_networkBit (by omega)] at hbit
    have hplace : 32 * k + (31 - (31 - i % 32)) = i := by omega
    rwa [hplace] at hbit
  · intro h
    apply BitVec.eq_of_getLsbD_eq
    intro j hj
    rw [BitVec.getLsbD_ushiftRight, BitVec.getLsbD_ushiftRight]
    by_cases hlt : n + j < 32
    · have hbit := @networkBit_lt e _ hlt
      rw [getLsbD_s6Addr32 hk hlt, getLsbD_s6Addr32 hk hlt]
      apply h
      · omega
      · have hplace : 31 - (32 * k + (31 - networkBit e (n + j))) % 32 = networkBit e (n + j) := by
          omega
        rw [hplace, networkBit_networkBit hlt]
        omega
    · rw [BitVec.getLsbD_of_ge _ _ (by omega), BitVec.getLsbD_of_ge _ _ (by omega)]

theorem s6Addr32_eq_iff (hk : k ≤ 3) :
    s6Addr32 e A k = s6Addr32 e G k ↔ ∀ i, i / 32 = k → A.getMsbD i = G.getMsbD i := by
  have hshift := @s6Addr32_shift_eq_iff e A G k 0 hk
  simpa using hshift

/-- The words compared for a prefix length that leaves a proper shift. -/
theorem compareWords_eq (e : Endian) (hp : p < 128) (A G : BitVec 128) :
    compareWords (s6Addr32 e A) (s6Addr32 e G) (3 - p / 32) (p % 32 : ℕ) =
      some (if DifferCompared e p A G then -1 else 0) := by
  have hdiffer : ¬ DifferCompared e p A G ↔
      (∀ j < 3 - p / 32, s6Addr32 e A j = s6Addr32 e G j) ∧
        s6Addr32 e A (3 - p / 32) >>> (p % 32) = s6Addr32 e G (3 - p / 32) >>> (p % 32) := by
    rw [s6Addr32_shift_eq_iff (by omega)]
    constructor
    · intro h
      have hsame : ∀ i < 128, Compared e p i → A.getMsbD i = G.getMsbD i := by
        intro i hi hc
        by_contra hne
        exact h ⟨i, hi, hc, hne⟩
      constructor
      · intro j hj
        rw [s6Addr32_eq_iff (by omega)]
        intro i hi
        exact hsame i (by omega) (Or.inl (by omega))
      · intro i hi hn
        exact hsame i (by omega) (Or.inr ⟨hi, hn⟩)
    · intro h hd
      obtain ⟨i, hi, hc, hne⟩ := hd
      cases hc with
      | inl hlt =>
          have hword := h.1 (i / 32) hlt
          rw [s6Addr32_eq_iff (by omega)] at hword
          exact hne (hword i rfl)
      | inr heq => exact hne (h.2 i heq.1 heq.2)
  rw [compareWords]
  by_cases hwords : ∀ j < 3 - p / 32, s6Addr32 e A j = s6Addr32 e G j
  · rw [if_pos hwords, if_pos (by omega), Int.toNat_natCast]
    by_cases hlast : s6Addr32 e A (3 - p / 32) >>> (p % 32) = s6Addr32 e G (3 - p / 32) >>> (p % 32)
    · rw [if_pos hlast, if_neg (hdiffer.mpr ⟨hwords, hlast⟩)]
    · rw [if_neg hlast, if_pos (by_contra fun h => hlast (hdiffer.mp h).2)]
  · rw [if_neg hwords, if_pos (by_contra fun h => hwords (hdiffer.mp h).1)]

/-- Up to the length 64 the prefix is among the bits compared. -/
theorem compared_of_lt {i : ℕ} (hp : p ≤ 64) (hi : i < p) : Compared e p i := by
  by_cases h64 : p = 64
  · have hbits : i / 32 < 3 - p / 32 ∨ i / 32 = 3 - p / 32 ∧ p % 32 = 0 := by omega
    cases hbits with
    | inl hlt => exact Or.inl hlt
    | inr heq => exact Or.inr ⟨heq.1, by omega⟩
  · exact Or.inl (by omega)

/-- From the length 64 on only bits of the prefix are compared. -/
theorem lt_of_compared {i : ℕ} (hp : 64 ≤ p) (hc : Compared e p i) : i < p := by
  cases hc with
  | inl hlt => omega
  | inr heq => omega

/-! ## Texts of addresses -/

/-- The bytes of an address text. -/
def AddressByte (b : Byte) : Prop := (hexDigit b).isSome ∨ b = chr ':' ∨ b = chr '.'

theorem addressByte_of_isDigit {b : Byte} (h : isDigit b = true) : AddressByte b := by
  have hb : chr '0' ≤ b ∧ b ≤ chr '9' := by
    rw [isDigit, Bool.and_eq_true, decide_eq_true_eq, decide_eq_true_eq] at h
    exact h
  left
  rw [hexDigit, if_pos hb]
  rfl

theorem not_addressByte_slash : ¬ AddressByte (chr '/') := by
  intro h
  rcases h with h | h | h
  · exact absurd h (by decide)
  · exact absurd h (by decide)
  · exact absurd h (by decide)

theorem addressByte_of_inetDigits {base : ℕ} {s : CStr} {v : ℕ} (h : inetDigits base s = some v) :
    ∀ b ∈ s, AddressByte b := by
  rw [inetDigits] at h
  have hfold : ∀ acc, s.foldlM (fun n b => do
      let d ← hexDigit b
      if d.toNat < base then some (base * n + d.toNat) else none) acc = some v →
      ∀ b ∈ s, AddressByte b := by
    clear h
    induction s with
    | nil => simp
    | cons c s ih =>
        intro acc h
        rw [List.foldlM_cons] at h
        cases hc : hexDigit c with
        | none => simp [hc] at h
        | some d =>
            rw [hc, bind_of_eq rfl] at h
            by_cases hd : d.toNat < base
            · rw [if_pos hd, bind_of_eq rfl] at h
              intro b hb
              rcases List.mem_cons.mp hb with rfl | hb
              · exact Or.inl (by rw [hc]; rfl)
              · exact ih _ h b hb
            · simp [hd] at h
  exact hfold 0 h

theorem hexGroup_spec {s : CStr} {g : BitVec 16} (h : hexGroup s = some g) :
    s.length ≤ 4 ∧ ∀ b ∈ s, AddressByte b := by
  rw [hexGroup] at h
  split at h
  · rename_i hlen
    cases hd : inetDigits 16 s with
    | none => simp [hd] at h
    | some v => exact ⟨hlen.2, addressByte_of_inetDigits hd⟩
  · cases h

/-- The bytes and the length of parts joined by a separator. -/
theorem intercalate_spec {c : Byte} {parts : List CStr} {m : ℕ} (hc : AddressByte c)
    (h : ∀ part ∈ parts, part.length ≤ m ∧ ∀ b ∈ part, AddressByte b) :
    ([c].intercalate parts).length ≤ (m + 1) * parts.length ∧
      ∀ b ∈ [c].intercalate parts, AddressByte b := by
  refine ⟨length_intercalate_le fun part hpart => (h part hpart).1, fun b hb => ?_⟩
  cases mem_intercalate hb with
  | inl hsep => exact hsep ▸ hc
  | inr hpart =>
      obtain ⟨part, hpart, hb⟩ := hpart
      exact (h part hpart).2 b hb

theorem inetPart_spec {s : CStr} {b : Byte} (h : inetPart s = some b) :
    s.length ≤ 3 ∧ ∀ b ∈ s, AddressByte b := by
  rw [inetPart] at h
  split at h
  · rename_i hpart
    exact ⟨hpart.2.1, fun b hb => addressByte_of_isDigit (List.all_eq_true.mp hpart.2.2.1 b hb)⟩
  · cases h

theorem inetPton_spec {s : CStr} {addr : List Byte} (h : inetPton s = some addr) :
    s.length ≤ 16 ∧ ∀ b ∈ s, AddressByte b := by
  rw [inetPton] at h
  split at h
  · rename_i hlen
    have hjoin := @intercalate_spec (chr '.') (s.splitOn (chr '.')) 3 (Or.inr (Or.inr rfl)) (by
      intro part hpart
      obtain ⟨b, hb⟩ := exists_of_mapM h hpart
      exact inetPart_spec hb)
    rw [List.intercalate_splitOn, hlen] at hjoin
    exact hjoin
  · cases h

theorem hexGroups_spec {parts : List CStr} {gs : List (BitVec 16)} (h : hexGroups parts = some gs) :
    ([chr ':'].intercalate parts).length ≤ 5 * gs.length + 6 ∧
      ∀ b ∈ [chr ':'].intercalate parts, AddressByte b := by
  induction parts generalizing gs with
  | nil => simp
  | cons part parts ih =>
      cases parts with
      | nil =>
          rw [List.intercalate_singleton]
          rw [hexGroups] at h
          cases hpton : inetPton part with
          | some addr =>
              have hpart := inetPton_spec hpton
              simp only [hpton, Option.some.injEq] at h
              rw [← h]
              exact ⟨by simpa using hpart.1, hpart.2⟩
          | none =>
              simp only [hpton] at h
              cases hgroup : hexGroup part with
              | none => simp [hgroup] at h
              | some g =>
                  have hspec := hexGroup_spec hgroup
                  exact ⟨by omega, hspec.2⟩
      | cons part' parts =>
          rw [hexGroups] at h
          · cases hgroup : hexGroup part with
            | none => simp [hgroup] at h
            | some g =>
                rw [hgroup, bind_of_eq rfl] at h
                cases hrest : hexGroups (part' :: parts) with
                | none => simp [hrest] at h
                | some rest =>
                    rw [hrest, bind_of_eq rfl] at h
                    cases h
                    have hpart := hexGroup_spec hgroup
                    have hparts := ih hrest
                    rw [List.intercalate_cons_cons, List.length_cons]
                    constructor
                    · simp only [List.length_append, List.length_singleton]
                      omega
                    · intro b hb
                      simp only [List.mem_append, List.mem_singleton] at hb
                      rcases hb with (hb | rfl) | hb
                      · exact hpart.2 b hb
                      · exact Or.inr (Or.inl rfl)
                      · exact hparts.2 b hb
          · simp

theorem splitColons_eq_some {s l r : CStr} (h : splitColons s = some (l, r)) :
    s = l ++ chr ':' :: chr ':' :: r := by
  induction s generalizing l with
  | nil => cases h
  | cons b s ih =>
      cases s with
      | nil => cases h
      | cons c s =>
          rw [splitColons] at h
          split at h
          · rename_i hcolons
            cases h
            rw [hcolons.1, hcolons.2, List.nil_append]
          · cases hrest : splitColons (c :: s) with
            | none => simp [hrest] at h
            | some lr =>
                simp only [hrest, Option.map_some, Option.some.injEq, Prod.mk.injEq] at h
                rw [← h.1, List.cons_append, ← ih (l := lr.1) (by rw [hrest, ← h.2])]

theorem intercalate_colonParts (s : CStr) : [chr ':'].intercalate (colonParts s) = s := by
  rw [colonParts]
  split
  · rename_i h
    rw [h]
    rfl
  · exact List.intercalate_splitOn _

/-- An address text fits the array it is copied to and has no `/`. -/
theorem inetPton6_spec {s : CStr} (h : inetPton6 s = some A) : s.length < 64 ∧ chr '/' ∉ s := by
  have hbytes : s.length < 64 ∧ ∀ b ∈ s, AddressByte b := by
    rw [inetPton6] at h
    cases hsplit : splitColons s with
    | none =>
        rw [hsplit] at h
        cases hgs : hexGroups (colonParts s) with
        | none => simp [hgs] at h
        | some gs =>
            simp only [hgs, bind_of_eq rfl] at h
            split at h
            · rename_i hlen
              have hparts := hexGroups_spec hgs
              rw [intercalate_colonParts] at hparts
              exact ⟨by omega, hparts.2⟩
            · cases h
    | some lr =>
        cases hleft : (colonParts lr.1).mapM hexGroup with
        | none => simp [hsplit, hleft] at h
        | some left =>
            cases hright : hexGroups (colonParts lr.2) with
            | none => simp [hsplit, hleft, hright] at h
            | some right =>
                simp only [hsplit, hleft, hright, bind_of_eq rfl] at h
                split at h
                · rename_i hlen
                  have hl := @intercalate_spec (chr ':') (colonParts lr.1) 4 (Or.inr (Or.inl rfl))
                    (by
                      intro part hpart
                      obtain ⟨g, hg⟩ := exists_of_mapM hleft hpart
                      exact hexGroup_spec hg)
                  have hr := hexGroups_spec hright
                  rw [intercalate_colonParts, ← length_of_mapM hleft] at hl
                  rw [intercalate_colonParts] at hr
                  rw [splitColons_eq_some hsplit]
                  constructor
                  · simp only [List.length_append, List.length_cons]
                    omega
                  · intro b hb
                    simp only [List.mem_append, List.mem_cons] at hb
                    rcases hb with hb | rfl | rfl | hb
                    · exact hl.2 b hb
                    · exact Or.inr (Or.inl rfl)
                    · exact Or.inr (Or.inl rfl)
                    · exact hr.2 b hb
                · cases h
  exact ⟨hbytes.1, fun hslash => not_addressByte_slash (hbytes.2 _ hslash)⟩

/-! ## The answer -/

/-- An address text with the length of its prefix behind it. -/
def slashed (a : CStr) (p : ℕ) : CStr := a ++ chr '/' :: printNat p

/-- The gateway's prefix length is not read, and the answer for the address's own is that of
the bits compared. -/
theorem checkIpv6SameSubnet_eq (e : Endian) {a g : CStr} (ha : inetPton6 a = some A)
    (hg : inetPton6 g = some G) (hp : p ≤ 128) (q : ℕ) :
    checkIpv6SameSubnet e (slashed a p) (slashed g q) =
      if p < 128 then some (if DifferCompared e p A G then -1 else 0) else none := by
  have hint : IsInt p := by
    simp only [IsInt, intMin, intMax]
    omega
  have hread := atoi_printNat hint
  have hne : ∀ (s : CStr) (n : ℕ), slashed s n ≠ [] := by
    intro s n
    simp [slashed]
  have ha' := inetPton6_spec ha
  have hg' := inetPton6_spec hg
  rw [checkIpv6SameSubnet, if_neg (hne g q), if_neg (hne a p), slashed, slashed,
    strchr_append_cons ha'.2, strchr_append_cons hg'.2]
  simp only [incr_cons, bind_of_eq rfl, hread, ne_eq, not_true_eq_false, if_false, between_append,
    Option.bind_some, store_of_lt ha'.1, store_of_lt hg'.1, ha, hg]
  by_cases hlt : p < 128
  · rw [if_pos hlt, ← compareWords_eq e hlt]
    split_ifs with h96 h64 h32
    · have hword : 3 - p / 32 = 0 := by omega
      have hshift : ((p % 32 : ℕ) : ℤ) = p - 96 := by omega
      rw [hword, hshift]
    · have hword : 3 - p / 32 = 1 := by omega
      have hshift : ((p % 32 : ℕ) : ℤ) = p - 64 := by omega
      rw [hword, hshift]
    · have hword : 3 - p / 32 = 2 := by omega
      have hshift : ((p % 32 : ℕ) : ℤ) = p - 32 := by omega
      rw [hword, hshift]
    · have hword : 3 - p / 32 = 3 := by omega
      have hshift : ((p % 32 : ℕ) : ℤ) = p := by omega
      rw [hword, hshift]
  · -- The shift by all 32 bits of a word is undefined.
    rw [if_neg hlt, if_pos (by omega), compareWords, if_pos (by omega), if_neg (by omega)]

/-- The inputs for which the bits compared decide the same as the prefixes. -/
def ComparedDecides (e : Endian) (p q : ℕ) (A G : BitVec 128) : Prop :=
  p < 128 ∧ (p ≠ q → DifferCompared e p A G) ∧
    (p = q → p < 64 → SamePrefix p A G → ¬ DifferCompared e p A G) ∧
    (p = q → 64 < p → ¬ SamePrefix p A G → DifferCompared e p A G)

theorem ite_differ_eq_iff {D S : Prop} [Decidable D] [Decidable S] :
    (if D then (-1 : ℤ) else 0) = (if S then 0 else -1) ↔ (D ↔ ¬ S) := by
  by_cases hD : D
  · by_cases hS : S
    · simp [hD, hS]
    · simp [hD, hS]
  · by_cases hS : S
    · simp [hD, hS]
    · simp [hD, hS]

/-- The answer says whether the subnets are the same exactly for these inputs. -/
theorem checkIpv6SameSubnet_iff (e : Endian) {a g : CStr} {A G : BitVec 128} {p : ℕ}
    (ha : inetPton6 a = some A) (hg : inetPton6 g = some G) (hp : p ≤ 128) (q : ℕ) :
    checkIpv6SameSubnet e (slashed a p) (slashed g q) =
        some (if p = q ∧ SamePrefix p A G then 0 else -1) ↔
      ComparedDecides e p q A G := by
  have hsame : p ≤ 64 → ¬ DifferCompared e p A G → SamePrefix p A G := by
    intro h64 hd i hi
    by_contra hne
    exact hd ⟨i, by omega, compared_of_lt h64 hi, hne⟩
  have hdiffer : 64 ≤ p → DifferCompared e p A G → ¬ SamePrefix p A G := by
    intro h64 hd hS
    obtain ⟨i, -, hc, hne⟩ := hd
    exact hne (hS i (lt_of_compared h64 hc))
  rw [checkIpv6SameSubnet_eq e ha hg hp q, ComparedDecides]
  by_cases hlt : p < 128
  · rw [if_pos hlt, Option.some.injEq, ite_differ_eq_iff]
    constructor
    · intro h
      refine ⟨hlt, fun hne => h.mpr fun hand => hne hand.1, ?_, ?_⟩
      · exact fun heq _ hS hd => h.mp hd ⟨heq, hS⟩
      · exact fun heq _ hS => h.mpr fun hand => hS hand.2
    · intro h
      by_cases heq : p = q
      · by_cases hS : SamePrefix p A G
        · -- below 64 by the condition, from 64 on the bits compared are bits of the prefix
          have hd : ¬ DifferCompared e p A G := by
            cases Nat.lt_or_ge p 64 with
            | inl hlow => exact h.2.2.1 heq hlow hS
            | inr hhigh => exact fun hd => hdiffer hhigh hd hS
          exact ⟨fun hd' => absurd hd' hd, fun hand => absurd ⟨heq, hS⟩ hand⟩
        · -- up to 64 the bits compared include the prefix, above 64 by the condition
          have hd : DifferCompared e p A G := by
            cases Nat.lt_or_ge 64 p with
            | inl hhigh => exact h.2.2.2 heq hhigh hS
            | inr hlow => exact not_not.mp fun hd => hS (hsame hlow hd)
          exact ⟨fun _ hand => hS hand.2, fun _ => hd⟩
      · exact ⟨fun _ hand => heq hand.1, fun _ => h.2.1 heq⟩
  · simp [hlt]

/-- Addresses of one `/48` network that the function takes to be in different subnets. -/
theorem checkIpv6SameSubnet_48 :
    inetPton6 (text "2001:db8::1") = some 0x20010db8000000000000000000000001 ∧
      inetPton6 (text "2001:db8:0:1::1") = some 0x20010db8000000010000000000000001 ∧
      checkIpv6SameSubnet .little (slashed (text "2001:db8::1") 48)
          (slashed (text "2001:db8:0:1::1") 48) ≠
        some (if 48 = 48 ∧ SamePrefix 48 (0x20010db8000000000000000000000001 : BitVec 128)
          0x20010db8000000010000000000000001 then 0 else -1) := by
  refine ⟨?_, ?_, ?_⟩
  · decide +kernel
  · decide +kernel
  · decide +kernel

/-- Both prefixes of 64 bits are the same and so are the bits compared. -/
theorem checkIpv6SameSubnet_64 :
    checkIpv6SameSubnet .little (slashed (text "2001:db8::1") 64)
        (slashed (text "2001:db8::2") 64) =
      some (if 64 = 64 ∧ SamePrefix 64 (0x20010db8000000000000000000000001 : BitVec 128)
        0x20010db8000000000000000000000002 then 0 else -1) :=
  (checkIpv6SameSubnet_iff .little (by decide +kernel) (by decide +kernel) (by decide) 64).mpr
    ⟨by decide, by decide, by decide, by decide⟩

end BcmUtils.Subnets
