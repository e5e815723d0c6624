import BcmUtils.Foundation.Memory

/-! # Words in memory

The four bytes of a 32-bit word, in the byte order of the machine. -/

namespace CLib

/-- The byte order of a machine. -/
inductive Endian
  | little | big
  deriving DecidableEq, Repr

/-- Whether a plain `char` is signed. -/
inductive CharSign
  | signed | unsigned
  deriving DecidableEq, Repr

/-- The value of a plain `char`. -/
def CharSign.value (c : CharSign) (b : Byte) : ℤ :=
  match c with
  | .signed => b.toBitVec.toInt
  | .unsigned => b.toNat

/-- The number that a sequence of bytes stands for, the most significant byte first. -/
def bigNat (bs : List Byte) : ℕ := bs.foldl (fun n b => 256 * n + b.toNat) 0

/-- The word that four bytes hold. -/
def wordOf (e : Endian) (bs : List Byte) : BitVec 32 :=
  match e with
  | .little => BitVec.ofNat 32 (bigNat bs.reverse)
  | .big => BitVec.ofNat 32 (bigNat bs)

/-- The four bytes that hold a word. -/
def bytesOf (e : Endian) (w : BitVec 32) : List Byte :=
  let bs := [3, 2, 1, 0].map fun (k : ℕ) => UInt8.ofNat (w.toNat / 256 ^ k)
  match e with
  | .little => bs.reverse
  | .big => bs

/-- The eight bytes that hold a double word. -/
def bytesOf64 (e : Endian) (w : BitVec 64) : List Byte :=
  match e with
  | .little => bytesOf e (w.extractLsb' 0 32) ++ bytesOf e (w.extractLsb' 32 32)
  | .big => bytesOf e (w.extractLsb' 32 32) ++ bytesOf e (w.extractLsb' 0 32)

/-- The double word that eight bytes hold. -/
def wordOf64 (e : Endian) (bs : List Byte) : BitVec 64 :=
  match e with
  | .little => wordOf e (bs.drop 4) ++ wordOf e (bs.take 4)
  | .big => wordOf e (bs.take 4) ++ wordOf e (bs.drop 4)

/-- The lowest `n` bytes of a number, the lowest one first. -/
def lowBytes : ℕ → ℕ → List Byte
  | 0, _ => []
  | n + 1, v => UInt8.ofNat v :: lowBytes n (v / 256)

/-- The `n` bytes that hold a number, as far as they can hold it. -/
def numBytes (e : Endian) (n v : ℕ) : List Byte :=
  match e with
  | .little => lowBytes n v
  | .big => (lowBytes n v).reverse

/-- The number that bytes hold. -/
def numOf (e : Endian) (bs : List Byte) : ℕ :=
  match e with
  | .little => bigNat bs.reverse
  | .big => bigNat bs

@[simp] theorem length_bytesOf (e : Endian) (w : BitVec 32) : (bytesOf e w).length = 4 := by
  cases e <;> rfl

theorem bigNat_append_singleton (bs : List Byte) (b : Byte) :
    bigNat (bs ++ [b]) = 256 * bigNat bs + b.toNat := by
  simp [bigNat]

theorem bigNat_lt (bs : List Byte) : bigNat bs < 256 ^ bs.length := by
  induction bs using List.reverseRecOn with
  | nil => simp [bigNat]
  | append_singleton bs b ih =>
      have hb := b.toNat_lt
      rw [bigNat_append_singleton, List.length_append, List.length_singleton, Nat.pow_succ]
      omega

theorem bigNat_inj {bs cs : List Byte} (hlen : bs.length = cs.length) :
    bigNat bs = bigNat cs ↔ bs = cs := by
  constructor
  · intro h
    induction bs using List.reverseRecOn generalizing cs with
    | nil => exact (List.eq_nil_of_length_eq_zero hlen.symm).symm
    | append_singleton bs b ih =>
        cases cs using List.reverseRecOn with
        | nil => simp at hlen
        | append_singleton cs c =>
            have hb := b.toNat_lt
            have hc := c.toNat_lt
            rw [bigNat_append_singleton, bigNat_append_singleton] at h
            have hbc : b = c := UInt8.toNat_inj.mp (by omega)
            rw [hbc, ih (by simpa using hlen) (by omega)]
  · rintro rfl
    rfl

theorem bigNat_eq_zero {bs : List Byte} : bigNat bs = 0 ↔ ∀ b ∈ bs, b = 0 := by
  induction bs using List.reverseRecOn with
  | nil => simp [bigNat]
  | append_singleton bs b ih =>
      have hb : b.toNat = 0 ↔ b = 0 := by
        rw [← UInt8.toNat_inj]
        rfl
      rw [bigNat_append_singleton, Nat.add_eq_zero_iff, Nat.mul_eq_zero]
      simp only [List.mem_append, List.mem_singleton, or_imp, forall_and, forall_eq, ih, hb]
      simp

/-- A word is zero exactly if its bytes are. -/
theorem wordOf_eq_zero {e : Endian} {bs : List Byte} (h : bs.length = 4) :
    wordOf e bs = 0 ↔ ∀ b ∈ bs, b = 0 := by
  have hzero : ∀ cs : List Byte, cs.length = 4 →
      (BitVec.ofNat 32 (bigNat cs) = 0 ↔ bigNat cs = 0) := by
    intro cs hcs
    have hlt := bigNat_lt cs
    rw [hcs] at hlt
    rw [← BitVec.toNat_inj, BitVec.toNat_ofNat, Nat.mod_eq_of_lt (by omega)]
    rfl
  cases e with
  | little =>
      rw [wordOf, hzero _ (by rw [List.length_reverse, h]), bigNat_eq_zero]
      simp
  | big => rw [wordOf, hzero _ h, bigNat_eq_zero]

theorem wordOf_bytesOf (e : Endian) (w : BitVec 32) : wordOf e (bytesOf e w) = w := by
  have hw := w.isLt
  have hnat : bigNat ([3, 2, 1, 0].map fun (k : ℕ) => UInt8.ofNat (w.toNat / 256 ^ k)) =
      w.toNat := by
    simp only [bigNat, List.map_cons, List.map_nil, List.foldl_cons, List.foldl_nil,
      UInt8.toNat_ofNat']
    omega
  cases e with
  | little =>
      rw [bytesOf, wordOf, List.reverse_reverse, hnat, BitVec.ofNat_toNat, BitVec.setWidth_eq]
  | big => rw [bytesOf, wordOf, hnat, BitVec.ofNat_toNat, BitVec.setWidth_eq]

/-- The bytes of the word that four bytes hold. -/
theorem bytesOf_wordOf {bs : List Byte} (e : Endian) (h : bs.length = 4) :
    bytesOf e (wordOf e bs) = bs := by
  have hofNat : ∀ as cs : List Byte, as.length = 4 → cs.length = 4 →
      BitVec.ofNat 32 (bigNat as) = BitVec.ofNat 32 (bigNat cs) → as = cs := by
    intro as cs ha hc heq
    have hlt := bigNat_lt as
    have hlt' := bigNat_lt cs
    rw [ha] at hlt
    rw [hc] at hlt'
    rw [← BitVec.toNat_inj, BitVec.toNat_ofNat, BitVec.toNat_ofNat, Nat.mod_eq_of_lt (by omega),
      Nat.mod_eq_of_lt (by omega)] at heq
    exact (bigNat_inj (ha.trans hc.symm)).mp heq
  have hword := wordOf_bytesOf e (wordOf e bs)
  cases e with
  | little =>
      have hrev := hofNat _ _ (by rw [List.length_reverse, length_bytesOf])
        (by rw [List.length_reverse, h]) hword
      exact List.reverse_injective hrev
  | big => exact hofNat _ _ (length_bytesOf _ _) h hword

theorem length_bytesOf64 (e : Endian) (w : BitVec 64) : (bytesOf64 e w).length = 8 := by
  cases e <;> rfl

theorem wordOf64_bytesOf64 (e : Endian) (w : BitVec 64) : wordOf64 e (bytesOf64 e w) = w := by
  have hhalves : w.extractLsb' 32 32 ++ w.extractLsb' 0 32 = w := by
    ext i hi
    rw [BitVec.getElem_append]
    split
    · rw [BitVec.getElem_extractLsb', Nat.zero_add, BitVec.getLsbD_eq_getElem hi]
    · rw [BitVec.getElem_extractLsb', Nat.add_sub_cancel' (by omega),
        BitVec.getLsbD_eq_getElem hi]
  cases e with
  | little =>
      rw [bytesOf64, wordOf64, List.take_left' (length_bytesOf _ _),
        List.drop_left' (length_bytesOf _ _), wordOf_bytesOf, wordOf_bytesOf, hhalves]
  | big =>
      rw [bytesOf64, wordOf64, List.take_left' (length_bytesOf _ _),
        List.drop_left' (length_bytesOf _ _), wordOf_bytesOf, wordOf_bytesOf, hhalves]

theorem length_lowBytes (n v : ℕ) : (lowBytes n v).length = n := by
  induction n generalizing v with
  | zero => rfl
  | succ n ih => rw [lowBytes, List.length_cons, ih]

theorem length_numBytes (e : Endian) (n v : ℕ) : (numBytes e n v).length = n := by
  cases e with
  | little => exact length_lowBytes n v
  | big => rw [numBytes, List.length_reverse, length_lowBytes]

theorem bigNat_lowBytes (n v : ℕ) : bigNat (lowBytes n v).reverse = v % 256 ^ n := by
  induction n generalizing v with
  | zero => simp [lowBytes, bigNat, Nat.mod_one]
  | succ n ih =>
      have hpow : 256 ^ (n + 1) = 256 * 256 ^ n := by rw [Nat.pow_succ, Nat.mul_comm]
      rw [lowBytes, List.reverse_cons, bigNat_append_singleton, ih, UInt8.toNat_ofNat', hpow,
        Nat.mod_mul, Nat.add_comm]

theorem numOf_numBytes (e : Endian) (n v : ℕ) : numOf e (numBytes e n v) = v % 256 ^ n := by
  cases e with
  | little => exact bigNat_lowBytes n v
  | big => exact bigNat_lowBytes n v

/-- A bit is in a union of words if it is in one of them. -/
theorem getLsbD_foldr_or {α : Type*} {w : ℕ} (f : α → BitVec w) (xs : List α) (k : ℕ) :
    (xs.foldr (fun x map => f x ||| map) 0).getLsbD k = xs.any fun x => (f x).getLsbD k := by
  induction xs with
  | nil => simp
  | cons x xs ih => rw [List.foldr_cons, BitVec.getLsbD_or, ih, List.any_cons]

end CLib
