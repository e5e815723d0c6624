import BcmUtils.Verification.Crc.Tables

/-! # Bursts of errors

The polynomial of `mcrc32` has a clear top bit, so that one shift of the register loses a word. A
burst of errors goes undetected exactly if it is this word. -/

namespace BcmUtils.Crc

open CLib

/-! ## Differences of messages -/

/-- The positions of the bits in which two messages differ. -/
def Differ (s t : List Byte) (i : ℕ) : Prop := (messageBits s)[i]? ≠ (messageBits t)[i]?

/-- The messages differ in the word `0x88664423` at some position, and nowhere else. -/
def DifferInKernel (s t : List Byte) : Prop :=
  ∃ k, ∀ i, Differ s t i ↔ k ≤ i ∧ (0x88664423#32).getLsbD (i - k) = true

theorem length_messageBits (s : List Byte) : (messageBits s).length = 8 * s.length := by
  induction s with
  | nil => rfl
  | cons b s ih =>
      rw [messageBits_cons, List.length_append, ih, List.length_cons, lowBits, List.length_map,
        List.length_range]
      omega

theorem messageBits_injective {s t : List Byte} (h : messageBits s = messageBits t) : s = t := by
  induction s generalizing t with
  | nil =>
      cases t with
      | nil => rfl
      | cons b t => cases h
  | cons a s ih =>
      cases t with
      | nil => cases h
      | cons b t =>
          rw [messageBits_cons, messageBits_cons] at h
          obtain ⟨hbyte, hrest⟩ := List.append_inj h (by simp [lowBits])
          have hab : a.toBitVec = b.toBitVec := by
            apply BitVec.eq_of_getLsbD_eq
            intro i hi
            have hbit := congrArg (fun l => l[i]?) hbyte
            simpa [lowBits, hi] using hbit
          rw [ih hrest, UInt8.toBitVec_inj.mp hab]

/-- A window of `w` bits is a word. -/
theorem exists_window_word {bits : List Bool} {k w : ℕ} (h : k + w ≤ bits.length) :
    ∃ v : BitVec w, ∀ j < w, bits[k + j]? = some (v.getLsbD j) := by
  have hwindow : ((bits.drop k).take w).length = w := by
    rw [List.length_take, List.length_drop]
    omega
  refine ⟨(BitVec.ofBoolListLE ((bits.drop k).take w)).cast hwindow, ?_⟩
  intro j hj
  have hlt : k + j < bits.length := by omega
  rw [BitVec.getLsbD_cast, BitVec.getLsbD_ofBoolListLE, List.getD_eq_getElem?_getD,
    List.getElem?_take_of_lt hj, List.getElem?_drop, List.getElem?_eq_getElem hlt,
    Option.getD_some]

/-- The bits in which two messages of one length differ. -/
def errorBits (s t : List Byte) : List Bool :=
  List.zipWith (· ^^ ·) (messageBits s) (messageBits t)

section

variable {s t : List Byte} (hlen : s.length = t.length)

include hlen

theorem length_errorBits : (errorBits s t).length = 8 * s.length := by
  rw [errorBits, List.length_zipWith, length_messageBits, length_messageBits, hlen, Nat.min_self]

theorem errorBits_getElem? (i : ℕ) : (errorBits s t)[i]? = some true ↔ Differ s t i := by
  have hs := length_messageBits s
  have ht := length_messageBits t
  rw [errorBits, Differ, List.getElem?_zipWith]
  by_cases hi : i < 8 * s.length
  · have his : i < (messageBits s).length := by omega
    have hit : i < (messageBits t).length := by omega
    rw [List.getElem?_eq_getElem his, List.getElem?_eq_getElem hit]
    cases (messageBits s)[i] <;> cases (messageBits t)[i] <;> simp
  · rw [List.getElem?_eq_none (by omega : (messageBits s).length ≤ i),
      List.getElem?_eq_none (by omega : (messageBits t).length ≤ i)]
    simp

/-- The checksums differ exactly if the register of the difference is not zero. -/
theorem serialCrc_eq_iff {w : ℕ} (poly : BitVec w) :
    serialCrc poly s = serialCrc poly t ↔ crcBits poly (errorBits s t) 0#w = 0#w := by
  have hbits : (messageBits s).length = (messageBits t).length := by
    rw [length_messageBits, length_messageBits, hlen]
  have hxor := crcBits_xor poly hbits (BitVec.allOnes w) (BitVec.allOnes w)
  rw [BitVec.xor_self] at hxor
  rw [serialCrc, serialCrc, BitVec.xor_left_inj, errorBits, ← hxor, BitVec.xor_eq_zero_iff]

theorem errorBits_eq_false {i : ℕ} (hi : i < 8 * s.length) (h : ¬ Differ s t i) :
    (errorBits s t)[i]? = some false := by
  have hlt : i < (errorBits s t).length := by
    rw [length_errorBits hlen]
    exact hi
  rw [← errorBits_getElem? hlen, List.getElem?_eq_getElem hlt] at h
  rw [List.getElem?_eq_getElem hlt]
  simpa using h

/-- What a word in a window of the error says of the positions. -/
theorem differ_iff_of_window {k : ℕ} (hburst : ∀ i, Differ s t i → k ≤ i ∧ i < k + 32)
    {v : BitVec 32} (hv : ∀ j < 32, (errorBits s t)[k + j]? = some (v.getLsbD j)) (i : ℕ) :
    Differ s t i ↔ k ≤ i ∧ v.getLsbD (i - k) = true := by
  rw [← errorBits_getElem? hlen]
  constructor
  · intro h
    obtain ⟨hle, hlt⟩ := hburst i ((errorBits_getElem? hlen i).mp h)
    have hbit := hv (i - k) (by omega)
    rw [Nat.add_sub_cancel' hle, h, Option.some.injEq] at hbit
    exact ⟨hle, hbit.symm⟩
  · intro h
    obtain ⟨hle, hbit⟩ := h
    have hlt : i - k < 32 := by
      by_contra hge
      rw [BitVec.getLsbD_of_ge v _ (Nat.le_of_not_lt hge)] at hbit
      cases hbit
    rw [← Nat.add_sub_cancel' hle, hv _ hlt, hbit]

/-- A burst in a window of 32 bits is a word between zeros. -/
theorem errorBits_eq_burst {k : ℕ} (hk : k + 32 ≤ 8 * s.length)
    (hburst : ∀ i, Differ s t i → k ≤ i ∧ i < k + 32) :
    ∃ v : BitVec 32, (∀ i, Differ s t i ↔ k ≤ i ∧ v.getLsbD (i - k) = true) ∧
      errorBits s t = List.replicate k false ++
        (lowBits 32 v ++ List.replicate (8 * s.length - (k + 32)) false) := by
  have hlength := length_errorBits hlen
  obtain ⟨v, hv⟩ := exists_window_word (by omega : k + 32 ≤ (errorBits s t).length)
  refine ⟨v, differ_iff_of_window hlen hburst hv, ?_⟩
  apply List.ext_getElem?
  intro i
  by_cases hbefore : i < k
  · have hsame : ¬ Differ s t i := fun h => absurd (hburst i h).1 (by omega)
    rw [errorBits_eq_false hlen (by omega) hsame, List.getElem?_append_left (by simpa),
      List.getElem?_replicate, if_pos hbefore]
  · rw [List.getElem?_append_right (by simp; omega), List.length_replicate]
    by_cases hin : i < k + 32
    · rw [List.getElem?_append_left (by simp [lowBits]; omega), lowBits, List.getElem?_map,
        List.getElem?_range (by omega), Option.map_some, ← hv _ (by omega)]
      congr 1
      omega
    · rw [List.getElem?_append_right (by simp [lowBits]; omega), lowBits, List.length_map,
        List.length_range, List.getElem?_replicate]
      by_cases hend : i < 8 * s.length
      · have hsame : ¬ Differ s t i := fun h => absurd (hburst i h).2 hin
        rw [errorBits_eq_false hlen hend hsame, if_pos (by omega)]
      · rw [List.getElem?_eq_none (by omega), if_neg (by omega)]

end

/-! ## The polynomial of `mcrc32` -/

theorem crcKernel_mcrcPoly : crcKernel mcrcPoly = 0x88664423#32 := by decide

/-- The window of a burst lies in the block. -/
theorem exists_window {n k : ℕ} (hn : 32 ≤ n) {p : ℕ → Prop}
    (h : ∀ i, p i → k ≤ i ∧ i < k + 32) (hp : ∀ i, p i → i < n) :
    ∃ k', k' + 32 ≤ n ∧ ∀ i, p i → k' ≤ i ∧ i < k' + 32 := by
  refine ⟨min k (n - 32), by omega, ?_⟩
  intro i hi
  have hwindow := h i hi
  have hlt := hp i hi
  omega

theorem Differ.lt {s t : List Byte} (hlen : s.length = t.length) {i : ℕ} (h : Differ s t i) :
    i < 8 * s.length := by
  by_contra hge
  have hs := length_messageBits s
  have ht := length_messageBits t
  apply h
  rw [List.getElem?_eq_none (by omega), List.getElem?_eq_none (by omega)]

theorem exists_differ {s t : List Byte} (hne : s ≠ t) : ∃ i, Differ s t i := by
  by_contra h
  simp only [Differ, not_exists, not_not] at h
  exact hne (messageBits_injective (List.ext_getElem? h))

/-- A burst goes undetected exactly if it is the kernel. -/
theorem serialCrc_burst_iff {s t : List Byte} (hlen : s.length = t.length) (hfour : 4 ≤ s.length)
    (hne : s ≠ t) {k : ℕ} (hburst : ∀ i, Differ s t i → k ≤ i ∧ i < k + 32) :
    serialCrc mcrcPoly s = serialCrc mcrcPoly t ↔ DifferInKernel s t := by
  have htop : mcrcPoly.getLsbD (32 - 1) = false := by decide
  have hnext : mcrcPoly.getLsbD (32 - 2) = true := by decide
  obtain ⟨k', hk', hwindow⟩ :=
    exists_window (by omega : 32 ≤ 8 * s.length) hburst fun i hi => Differ.lt hlen hi
  obtain ⟨v, hv, herror⟩ := errorBits_eq_burst hlen hk' hwindow
  have hzero : v ≠ 0#32 := by
    intro hzero
    obtain ⟨i, hi⟩ := exists_differ hne
    have hbit := ((hv i).mp hi).2
    rw [hzero, BitVec.getLsbD_zero] at hbit
    cases hbit
  rw [serialCrc_eq_iff hlen, herror, crcBits_burst_eq_zero_iff htop (by decide) hnext,
    crcKernel_mcrcPoly, or_iff_right hzero]
  constructor
  · intro h
    exact ⟨k', h ▸ hv⟩
  · intro h
    obtain ⟨j, hj⟩ := h
    -- the word has its lowest and its highest bit set, and so fills the window
    have hlow := hwindow j ((hj j).mpr ⟨le_rfl, by rw [Nat.sub_self]; decide⟩)
    have hhigh := hwindow (j + 31) ((hj (j + 31)).mpr
      ⟨Nat.le_add_right j 31, by rw [Nat.add_sub_cancel_left]; decide⟩)
    obtain rfl : j = k' := by omega
    apply BitVec.eq_of_getLsbD_eq
    intro i _
    have hbits := (hv (j + i)).symm.trans (hj (j + i))
    rw [Nat.add_sub_cancel_left] at hbits
    rw [Bool.eq_iff_iff]
    constructor
    · intro h
      exact (hbits.mp ⟨Nat.le_add_right j i, h⟩).2
    · intro h
      exact (hbits.mpr ⟨Nat.le_add_right j i, h⟩).2

/-! ## The record of the device -/

/-- The check of `getSWInfo` keeps a record whose checksum is the stored one, and replaces the
address of any other. -/
theorem getSWInfo_eq (c : CharSign) (e : Endian) {info : MacInfo} {contents more : List Byte}
    (hcontents : contents.drop (LOADER_SIZE - 160) = info.1 ++ more) :
    getSWInfo c e (some contents) = some (0,
      if serialCrc mcrcPoly (info.1.take 8) = info.crc e then info
      else info.setMac e 0x001122334455) := by
  have hread : (Block.zeroed 24).overlay (contents.drop (LOADER_SIZE - 160)) = info := by
    apply Subtype.ext
    have hlen := info.2
    change (contents.drop (LOADER_SIZE - 160)).take 24 ++
      (List.replicate 24 0).drop (contents.drop (LOADER_SIZE - 160)).length = info.1
    rw [hcontents, List.drop_replicate, List.length_append, List.take_left' hlen,
      Nat.sub_eq_zero_of_le (by omega), List.replicate_zero, List.append_nil]
  have hcrc : mcrc32 c info.1 8 = some (serialCrc mcrcPoly (info.1.take 8)) :=
    mcrc32_eq c (by rw [info.2]; decide)
  simp only [getSWInfo, Option.bind_eq_bind, Option.bind_some, hread, hcrc]
  by_cases h : serialCrc mcrcPoly (info.1.take 8) = info.crc e
  · rw [if_neg (not_not_intro h.symm), if_pos h]
    rfl
  · rw [if_pos (Ne.symm h), if_neg h]
    rfl

/-- The damage of the record is a burst in its address. -/
structure DamagedAddress (record damaged : MacInfo) (k : ℕ) : Prop where
  rest_eq : damaged.1.drop 8 = record.1.drop 8
  address_ne : record.1.take 8 ≠ damaged.1.take 8
  burst : ∀ i, Differ (record.1.take 8) (damaged.1.take 8) i → k ≤ i ∧ i < k + 32

/-- In a block of four bytes and more, every burst of errors within 32 bits changes the checksum,
unless the block differs in the word `0x88664423` at some position. An address damaged by such a
burst is replaced, and it is accepted only if it differs in this word. -/
theorem mcrc32_burst_iff (c : CharSign) :
    (∀ s t : List Byte, s.length = t.length → 4 ≤ s.length → s ≠ t →
      ∀ k, (∀ i, Differ s t i → k ≤ i ∧ i < k + 32) →
        (mcrc32 c s s.length ≠ mcrc32 c t t.length ↔ ¬ DifferInKernel s t)) ∧
    ∀ (e : Endian) (record damaged : MacInfo) (k : ℕ) (contents more : List Byte),
      DamagedAddress record damaged k → mcrc32 c record.1 8 = some (record.crc e) →
      contents.drop (LOADER_SIZE - 160) = damaged.1 ++ more →
        (¬ DifferInKernel (record.1.take 8) (damaged.1.take 8) →
          getSWInfo c e (some contents) = some (0, damaged.setMac e 0x001122334455)) ∧
        (DifferInKernel (record.1.take 8) (damaged.1.take 8) →
          getSWInfo c e (some contents) = some (0, damaged)) := by
  constructor
  · intro s t hlen hfour hne k hburst
    rw [mcrc32_eq c le_rfl, mcrc32_eq c le_rfl, Int.toNat_natCast, Int.toNat_natCast,
      List.take_length, List.take_length, Ne, Option.some.injEq,
      serialCrc_burst_iff hlen hfour hne hburst]
  · intro e record damaged k contents more hdamaged hrecord hcontents
    have hlen : (record.1.take 8).length = (damaged.1.take 8).length := by
      rw [List.length_take, List.length_take, record.2, damaged.2]
    have hfour : 4 ≤ (record.1.take 8).length := by
      rw [List.length_take, record.2]
      decide
    have hcrc : record.crc e = damaged.crc e := by
      rw [MacInfo.crc, MacInfo.crc, hdamaged.rest_eq]
    have hchecksum : serialCrc mcrcPoly (record.1.take 8) = damaged.crc e := by
      rw [mcrc32_eq c (by rw [record.2]; decide), Option.some.injEq] at hrecord
      rw [← hcrc]
      exact hrecord
    have hiff := serialCrc_burst_iff hlen hfour hdamaged.address_ne hdamaged.burst
    rw [hchecksum, eq_comm] at hiff
    rw [getSWInfo_eq c e hcontents]
    constructor
    · intro hother
      rw [if_neg (mt hiff.mp hother)]
    · intro hkernel
      rw [if_pos (hiff.mpr hkernel)]

theorem differ_within_four {s t : List Byte} (hs : s.length = 4) (ht : t.length = 4) {i : ℕ}
    (h : Differ s t i) : 0 ≤ i ∧ i < 0 + 32 := by
  have hlt := Differ.lt (hs.trans ht.symm) h
  omega

/-- The word has more than one bit. -/
theorem not_differInKernel {s t : List Byte} {i : ℕ} (h : ∀ j, Differ s t j → j = i) :
    ¬ DifferInKernel s t := by
  rintro ⟨k, hk⟩
  have hfirst := h k ((hk k).mpr ⟨le_rfl, by rw [Nat.sub_self]; decide⟩)
  have hsecond := h (k + 1) ((hk (k + 1)).mpr ⟨by omega, by rw [Nat.add_sub_cancel_left]; decide⟩)
  omega

theorem differ_only {s t : List Byte} {i : ℕ} (hlen : s.length = t.length)
    (h : ∀ j < 8 * s.length, (messageBits s)[j]? ≠ (messageBits t)[j]? → j = i) (j : ℕ)
    (hj : Differ s t j) : j = i :=
  h j (hj.lt hlen) hj

/-- A record whose address begins with these eight bytes and has the checksum of eight zeros. -/
def recordOf (address : Block 8) : MacInfo :=
  ⟨address.1 ++ (bytesOf .little (serialCrc mcrcPoly (List.replicate 8 0)) ++
    List.replicate 12 0), by simp [address.2]⟩

theorem crc_recordOf (address : Block 8) :
    (recordOf address).crc .little = serialCrc mcrcPoly (List.replicate 8 0) := by
  rw [MacInfo.crc, recordOf, List.drop_left' address.2, List.take_left' (length_bytesOf _ _),
    wordOf_bytesOf]

/-- One wrong bit in four bytes, and in the address of a record. -/
theorem mcrc32_burst_iff_one :
    mcrc32 .signed [0, 0, 0, 0] 4 ≠ mcrc32 .signed [0, 0, 128, 0] 4 ∧
      getSWInfo .signed .little (some (List.replicate (LOADER_SIZE - 160) 0 ++
          ((recordOf ⟨[0, 0, 128, 0, 0, 0, 0, 0], rfl⟩).1 ++ []))) =
        some (0, (recordOf ⟨[0, 0, 128, 0, 0, 0, 0, 0], rfl⟩).setMac .little 0x001122334455) := by
  obtain ⟨hblocks, hrecords⟩ := mcrc32_burst_iff .signed
  constructor
  · refine (hblocks [0, 0, 0, 0] [0, 0, 128, 0] rfl (by decide) (by decide) 0
      fun _ h => differ_within_four rfl rfl h).mpr (not_differInKernel (i := 23) ?_)
    exact differ_only (by decide) (by decide +kernel)
  · have hone : ∀ j, Differ [0, 0, 0, 0, 0, 0, 0, 0] [0, 0, 128, 0, 0, 0, 0, 0] j → j = 23 :=
      differ_only (by decide) (by decide +kernel)
    have hdrop : ∀ (n : ℕ) (bs : List Byte), (List.replicate n 0 ++ bs).drop n = bs :=
      fun n bs => List.drop_left' List.length_replicate
    refine (hrecords .little (recordOf ⟨List.replicate 8 0, rfl⟩)
      (recordOf ⟨[0, 0, 128, 0, 0, 0, 0, 0], rfl⟩) 0 _ [] ⟨rfl, by decide, ?_⟩ ?_ ?_).1 ?_
    · intro j hj
      have hbit := hone j hj
      omega
    · rw [mcrc32_eq .signed (by decide), crc_recordOf]
      rfl
    · exact hdrop _ _
    · exact not_differInKernel hone

/-- Four zero bytes and the word have the same checksum. -/
theorem mcrc32_burst_undetected :
    ¬ ∀ s t : List Byte, s.length = t.length → 4 ≤ s.length → s ≠ t →
      ∀ k, (∀ i, Differ s t i → k ≤ i ∧ i < k + 32) →
        mcrc32 .unsigned s s.length ≠ mcrc32 .unsigned t t.length := by
  intro h
  have hne := h [0, 0, 0, 0] [0x23, 0x44, 0x66, 0x88] rfl (by decide) (by decide) 0
    fun _ h => differ_within_four rfl rfl h
  apply hne
  decide +kernel

end BcmUtils.Crc
