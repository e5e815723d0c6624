import BcmUtils.Foundation.Crc
import BcmUtils.Model.Crc

/-! # The tables compute the bit-serial checksums

An entry of a table is its index after eight shifts, so that one round of the loops takes the
eight bits of a byte. -/

namespace BcmUtils.Crc

open CLib

/-- The bytes of a word in the opposite order. -/
def byteSwap (w : BitVec 32) : BitVec 32 :=
  w.extractLsb' 0 8 ++ (w.extractLsb' 8 8 ++ (w.extractLsb' 16 8 ++ w.extractLsb' 24 8))

theorem swap32_eq (w : BitVec 32) : swap32 w = byteSwap w := by
  apply BitVec.eq_of_getLsbD_eq
  intro i hi
  simp only [swap32, byteSwap, BitVec.getLsbD_append, BitVec.getLsbD_extractLsb', BitVec.getLsbD_or,
    BitVec.getLsbD_and, BitVec.getLsbD_shiftLeft, BitVec.getLsbD_ushiftRight]
  interval_cases i <;> simp

/-! ## The tables -/

theorem crcEntryLoop_eq (poly : BitVec 32) (j : ℕ) (crc : BitVec 32) :
    crcEntryLoop poly j crc = (crcShift poly)^[j] crc := by
  induction j generalizing crc with
  | zero => rfl
  | succ j ih =>
      have hlow : crc &&& 1 = (BitVec.ofBool (crc.getLsbD 0)).setWidth 32 :=
        BitVec.and_one_eq_setWidth_ofBool_getLsbD
      rw [crcEntryLoop, ih, Function.iterate_succ_apply, crcShift, hlow]
      congr 1
      cases crc.getLsbD 0 with
      | false => rfl
      | true => rfl

/-- The entries of the table are their indices after eight shifts. -/
def IsTable (poly : BitVec 32) (table : List (BitVec 32)) : Prop :=
  ∀ i < 256, table[i]? = some ((crcShift poly)^[8] (BitVec.ofNat 32 i))

/-- No literal of `crc_32_table` is mistyped. -/
theorem isTable_crc32Table : IsTable 0xEDB88320 crc32Table := by
  have htable : crc32Table = (List.range 256).map fun (i : ℕ) =>
      crcEntryLoop 0xEDB88320 8 (BitVec.ofNat 32 i) := by decide +kernel
  intro i hi
  rw [htable, List.getElem?_map, List.getElem?_range hi, Option.map_some, crcEntryLoop_eq]

theorem isTable_mcrc32Table : IsTable mcrcPoly mcrc32Table := by
  intro i hi
  rw [mcrc32Table, List.getElem?_map, List.getElem?_range hi, Option.map_some, crcEntryLoop_eq]

/-! ## One byte -/

theorem getLsbD_low_mask {n : ℕ} (hn : n ≤ 32) (x : BitVec 32) (i : ℕ) :
    (x &&& BitVec.ofNat 32 (2 ^ n - 1)).getLsbD i = (x.getLsbD i && decide (i < n)) := by
  rw [BitVec.getLsbD_and, BitVec.getLsbD_ofNat, Nat.testBit_two_pow_sub_one]
  by_cases hi : i < n
  · simp [hi, hi.trans_le hn]
  · simp [hi]

/-- The sign of a `char` does not reach its low byte. -/
theorem getLsbD_value (c : CharSign) (b : Byte) {i : ℕ} (hi : i < 8) :
    (BitVec.ofInt 32 (c.value b)).getLsbD i = b.toBitVec.getLsbD i := by
  cases c with
  | signed =>
      change (b.toBitVec.signExtend 32).getLsbD i = _
      rw [BitVec.getLsbD_signExtend]
      simp [hi, hi.trans_le (by decide : 8 ≤ 32)]
  | unsigned =>
      rw [CharSign.value, BitVec.ofInt_natCast, BitVec.getLsbD_ofNat,
        decide_eq_true (hi.trans_le (by decide : 8 ≤ 32)), Bool.true_and]
      rfl

/-- The eight bits of a byte, by the table. -/
theorem crcBits_byte (poly : BitVec 32) (c : CharSign) (b : Byte) (crc : BitVec 32) :
    crcBits poly (lowBits 8 b.toBitVec) crc =
      ((crc >>> 8) &&& 0x00FFFFFF) ^^^
        (crcShift poly)^[8] ((crc ^^^ BitVec.ofInt 32 (c.value b)) &&& 0xFF) := by
  have hmask : (0xFF : BitVec 32) = BitVec.ofNat 32 (2 ^ 8 - 1) := rfl
  have hmask' : (0x00FFFFFF : BitVec 32) = BitVec.ofNat 32 (2 ^ 24 - 1) := rfl
  have hword : ∀ i, 8 ≤ i → (b.toBitVec.setWidth 32).getLsbD i = false := by
    intro i hi
    rw [BitVec.getLsbD_setWidth, BitVec.getLsbD_of_ge b.toBitVec i hi, Bool.and_false]
  have hlow : ∀ i < 8, ((crc ^^^ BitVec.ofInt 32 (c.value b)) &&& 0xFF).getLsbD i =
      (crc ^^^ b.toBitVec.setWidth 32).getLsbD i := by
    intro i hi
    rw [hmask, getLsbD_low_mask (by decide), BitVec.getLsbD_xor, BitVec.getLsbD_xor,
      getLsbD_value c b hi, BitVec.getLsbD_setWidth, decide_eq_true hi, Bool.and_true,
      decide_eq_true (hi.trans (by decide : 8 < 32)), Bool.true_and]
  have hhigh : ∀ i, 8 ≤ i →
      ((crc ^^^ BitVec.ofInt 32 (c.value b)) &&& 0xFF).getLsbD i = false := by
    intro i hi
    rw [hmask, getLsbD_low_mask (by decide), decide_eq_false (Nat.not_lt.mpr hi), Bool.and_false]
  have hshift : (crc ^^^ b.toBitVec.setWidth 32) >>> 8 = (crc >>> 8) &&& 0x00FFFFFF := by
    apply BitVec.eq_of_getLsbD_eq
    intro i hi
    rw [hmask', getLsbD_low_mask (by decide), BitVec.getLsbD_ushiftRight,
      BitVec.getLsbD_ushiftRight, BitVec.getLsbD_xor, hword _ (by omega), Bool.xor_false]
    by_cases hlt : i < 24
    · rw [decide_eq_true hlt, Bool.and_true]
    · rw [BitVec.getLsbD_of_ge crc _ (by omega), Bool.false_and]
  rw [← lowBits_setWidth (by decide : 8 ≤ 32), crcBits_lowBits poly hword,
    iterate_crcShift_eq poly hlow hhigh, hshift]

/-- One round of the loop takes the bits of the byte. -/
theorem crcLoop_cons {poly : BitVec 32} {table : List (BitVec 32)} (ht : IsTable poly table)
    (c : CharSign) (length : ℕ) (b : Byte) (data : List Byte) (crc : BitVec 32) :
    crcLoop c table (length + 1) (b :: data) crc =
      crcLoop c table length data (crcBits poly (lowBits 8 b.toBitVec) crc) := by
  have hindex : ((crc ^^^ BitVec.ofInt 32 (c.value b)) &&& 0xFF).toNat < 256 := by
    rw [BitVec.toNat_and]
    exact Nat.and_lt_two_pow _ (by decide : (0xFF#32).toNat < 2 ^ 8)
  have hentry := ht _ hindex
  rw [BitVec.ofNat_toNat, BitVec.setWidth_eq] at hentry
  rw [crcLoop, bind_of_eq hentry, crcBits_byte poly c]

/-! ## All bytes -/

theorem messageBits_cons (b : Byte) (data : List Byte) :
    messageBits (b :: data) = lowBits 8 b.toBitVec ++ messageBits data := List.flatMap_cons

theorem crcLoop_eq {poly : BitVec 32} {table : List (BitVec 32)} (ht : IsTable poly table)
    (c : CharSign) {length : ℕ} {data : List Byte} (hlen : length ≤ data.length)
    (crc : BitVec 32) :
    crcLoop c table length data crc =
      some (crcBits poly (messageBits (data.take length)) crc) := by
  induction data generalizing length crc with
  | nil =>
      obtain rfl : length = 0 := Nat.le_zero.mp hlen
      rfl
  | cons b data ih =>
      cases length with
      | zero => rfl
      | succ length =>
          rw [crcLoop_cons ht, ih (Nat.le_of_succ_le_succ hlen), List.take_succ_cons,
            messageBits_cons, crcBits_append]

theorem mcrc32_eq (c : CharSign) {data : List Byte} {length : ℤ} (hlen : length ≤ data.length) :
    mcrc32 c data length = some (serialCrc mcrcPoly (data.take length.toNat)) := by
  rw [mcrc32, bind_of_eq (crcLoop_eq isTable_mcrc32Table c (by omega) 0xFFFFFFFF)]
  rfl

/-- Both functions compute a bit-serial checksum of the bytes, `crc32` with its bytes swapped. -/
theorem crc32_mcrc32_serial (c : CharSign) (data : List Byte) (length : ℤ)
    (hlen : length ≤ data.length) :
    crc32 c data length =
        some (byteSwap (serialCrc 0xEDB88320 (data.take length.toNat))) ∧
      mcrc32 c data length = some (serialCrc 0x44332211 (data.take length.toNat)) := by
  constructor
  · rw [crc32, bind_of_eq (crcLoop_eq isTable_crc32Table c (by omega) 0xFFFFFFFF), swap32_eq]
    rfl
  · exact mcrc32_eq c hlen

/-- The check value of the common checksum is `CBF43926`. -/
theorem crc32_mcrc32_serial_check :
    crc32 .signed (text "123456789") 9 = some (byteSwap 0xCBF43926) ∧
      mcrc32 .signed (text "123456789") 9 =
        some (serialCrc 0x44332211 ((text "123456789").take 9)) := by
  obtain ⟨hcrc, hmcrc⟩ := crc32_mcrc32_serial .signed (text "123456789") 9 (by decide)
  have hcheck : serialCrc 0xEDB88320 ((text "123456789").take 9) = 0xCBF43926#32 := by
    decide +kernel
  exact ⟨hcrc.trans (congrArg (fun crc => some (byteSwap crc)) hcheck), hmcrc⟩

end BcmUtils.Crc
