import BcmUtils.Foundation.Words

/-! # Prefixes and network byte order

The first bits of a word, the mask that keeps them, and words whose bytes in memory are in
network order. -/

namespace CLib

section Prefixes

variable {w p q : ℕ} {x y : BitVec w}

/-- The first `p` bits are the same, the most significant bit first. -/
def SamePrefix (p : ℕ) (x y : BitVec w) : Prop := ∀ i < p, x.getMsbD i = y.getMsbD i

instance (p : ℕ) (x y : BitVec w) : Decidable (SamePrefix p x y) :=
  inferInstanceAs (Decidable (∀ i < p, _))

/-- The word that begins with `p` ones and ends with zeros. -/
def prefixMask (w p : ℕ) : BitVec w := BitVec.allOnes w <<< (w - p)

@[simp] theorem getLsbD_prefixMask (i : ℕ) :
    (prefixMask w p).getLsbD i = decide (i < w ∧ w - p ≤ i) := by
  rw [prefixMask, BitVec.getLsbD_shiftLeft, BitVec.getLsbD_allOnes, Bool.eq_iff_iff]
  simp only [Bool.and_eq_true, Bool.not_eq_true', decide_eq_true_eq, decide_eq_false_iff_not]
  omega

@[simp] theorem getMsbD_prefixMask (i : ℕ) :
    (prefixMask w p).getMsbD i = decide (i < w ∧ i < p) := by
  rw [BitVec.getMsbD_eq_getLsbD, getLsbD_prefixMask, Bool.eq_iff_iff]
  simp only [Bool.and_eq_true, decide_eq_true_eq]
  omega

/-- Words agree under the mask exactly if they agree in the bits that it keeps. -/
theorem and_prefixMask_eq_iff :
    x &&& prefixMask w p = y &&& prefixMask w p ↔ SamePrefix p x y := by
  constructor
  · intro h i hi
    by_cases hw : i < w
    · have hbit : (x &&& prefixMask w p).getMsbD i = (y &&& prefixMask w p).getMsbD i := by
        rw [h]
      simpa [hw, hi] using hbit
    · rw [BitVec.getMsbD_of_ge _ _ (by omega), BitVec.getMsbD_of_ge _ _ (by omega)]
  · intro h
    apply BitVec.eq_of_getMsbD_eq
    intro i hw
    rw [BitVec.getMsbD_and, BitVec.getMsbD_and, getMsbD_prefixMask]
    by_cases hi : i < p
    · rw [h i hi]
    · simp [hi]

theorem prefixMask_inj (hp : p ≤ w) (hq : q ≤ w) :
    prefixMask w p = prefixMask w q ↔ p = q := by
  constructor
  · intro h
    have hbit : ∀ i, (i < w ∧ i < p) ↔ (i < w ∧ i < q) := by
      intro i
      have hi : (prefixMask w p).getMsbD i = (prefixMask w q).getMsbD i := by
        rw [h]
      rw [getMsbD_prefixMask, getMsbD_prefixMask, Bool.eq_iff_iff] at hi
      simpa using hi
    have h₁ := hbit p
    have h₂ := hbit q
    omega
  · rintro rfl
    rfl

end Prefixes

section NetworkOrder

variable {e : Endian} {i : ℕ} {m n : BitVec 32}

/-- `ntohl`: the number whose bytes in network order are the word's bytes in memory. -/
def ntohl (e : Endian) (n : BitVec 32) : BitVec 32 := wordOf .big (bytesOf e n)

/-- The word whose bytes in memory are the number's bytes in network order. -/
def networkWord (e : Endian) (n : BitVec 32) : BitVec 32 := wordOf e (bytesOf .big n)

/-- The place in the number of a bit of its word in memory. -/
def networkBit : Endian → ℕ → ℕ
  | .little, i => 8 * (3 - i / 8) + i % 8
  | .big, i => i

theorem networkBit_lt (hi : i < 32) : networkBit e i < 32 := by
  cases e with
  | little =>
      rw [networkBit]
      omega
  | big => exact hi

theorem networkBit_networkBit (hi : i < 32) : networkBit e (networkBit e i) = i := by
  cases e with
  | little =>
      simp only [networkBit]
      omega
  | big => rfl

theorem toNat_append_eq {v w : ℕ} (x : BitVec v) (y : BitVec w) :
    (x ++ y).toNat = x.toNat * 2 ^ w + y.toNat := by
  rw [BitVec.toNat_append, ← Nat.shiftLeft_add_eq_or_of_lt y.isLt, Nat.shiftLeft_eq]

/-- A little-endian machine has the bytes of the number in the opposite order. -/
theorem networkWord_little (n : BitVec 32) :
    networkWord .little n = n.extractLsb' 0 8 ++ (n.extractLsb' 8 8 ++
      (n.extractLsb' 16 8 ++ n.extractLsb' 24 8)) := by
  have hn := n.isLt
  apply BitVec.eq_of_toNat_eq
  simp only [networkWord, wordOf, bytesOf, bigNat, List.map_cons, List.map_nil, List.reverse_cons,
    List.reverse_nil, List.nil_append, List.cons_append, List.foldl_cons, List.foldl_nil,
    UInt8.toNat_ofNat', toNat_append_eq, BitVec.extractLsb'_toNat, BitVec.toNat_ofNat,
    Nat.shiftRight_eq_div_pow]
  simp only [Nat.reducePow, Nat.reduceAdd, Nat.div_one]
  omega

theorem getLsbD_networkWord (hi : i < 32) :
    (networkWord e n).getLsbD i = n.getLsbD (networkBit e i) := by
  cases e with
  | little =>
      -- The bit `i` stands at the place `i % 8` of the byte `i / 8` from the end.
      have hbyte : ∀ j k, j < 8 → k = networkBit .little i →
          (decide (j < 8) && n.getLsbD k) = n.getLsbD (networkBit .little i) := by
        intro j k hj hk
        rw [decide_eq_true hj, Bool.true_and, hk]
      rw [networkWord_little]
      simp only [BitVec.getLsbD_append, BitVec.getLsbD_extractLsb']
      split_ifs
      all_goals
        apply hbyte
        · omega
        · rw [networkBit]
          omega
  | big => rw [networkWord, wordOf_bytesOf, networkBit]

theorem ntohl_eq_networkWord (e : Endian) (n : BitVec 32) : ntohl e n = networkWord e n := by
  cases e <;> rfl

theorem networkWord_and (e : Endian) (m n : BitVec 32) :
    networkWord e (m &&& n) = networkWord e m &&& networkWord e n := by
  apply BitVec.eq_of_getLsbD_eq
  intro i hi
  rw [getLsbD_networkWord hi, BitVec.getLsbD_and, BitVec.getLsbD_and, getLsbD_networkWord hi,
    getLsbD_networkWord hi]

theorem networkWord_or (e : Endian) (m n : BitVec 32) :
    networkWord e (m ||| n) = networkWord e m ||| networkWord e n := by
  apply BitVec.eq_of_getLsbD_eq
  intro i hi
  rw [getLsbD_networkWord hi, BitVec.getLsbD_or, BitVec.getLsbD_or, getLsbD_networkWord hi,
    getLsbD_networkWord hi]

theorem networkWord_networkWord (e : Endian) (n : BitVec 32) :
    networkWord e (networkWord e n) = n := by
  apply BitVec.eq_of_getLsbD_eq
  intro i hi
  rw [getLsbD_networkWord hi, getLsbD_networkWord (networkBit_lt hi), networkBit_networkBit hi]

theorem networkWord_inj : networkWord e m = networkWord e n ↔ m = n := by
  constructor
  · intro h
    rw [← networkWord_networkWord e m, h, networkWord_networkWord]
  · rintro rfl
    rfl

/-- The bytes in memory of such a word are those of the number. -/
theorem bytesOf_networkWord (e : Endian) (n : BitVec 32) :
    bytesOf e (networkWord e n) = bytesOf .big n :=
  bytesOf_wordOf e (length_bytesOf .big n)

end NetworkOrder

end CLib
