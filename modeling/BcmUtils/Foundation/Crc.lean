import BcmUtils.Foundation.CString
import Mathlib.Logic.Function.Iterate

/-! # Cyclic redundancy checks

A register that is shifted to the right for every bit of the message, and exclusive-ored with a
polynomial when the bit shifted out and the bit of the message differ. -/

namespace CLib

variable {w : ℕ} (poly : BitVec w)

/-- One shift of the register for a bit of the message. -/
def crcBit (crc : BitVec w) (b : Bool) : BitVec w :=
  if crc.getLsbD 0 ^^ b then (crc >>> 1) ^^^ poly else crc >>> 1

/-- One shift of the register. -/
def crcShift (crc : BitVec w) : BitVec w :=
  if crc.getLsbD 0 then (crc >>> 1) ^^^ poly else crc >>> 1

/-- All bits of a message, one after the other. -/
def crcBits (bs : List Bool) (crc : BitVec w) : BitVec w := bs.foldl (crcBit poly) crc

/-- The lowest bits of a word, the least significant one first. -/
def lowBits (n : ℕ) (v : BitVec w) : List Bool := (List.range n).map fun (i : ℕ) => v.getLsbD i

/-- The bits of a message, those of a byte with the least significant one first. -/
def messageBits (data : List Byte) : List Bool :=
  data.flatMap fun b => lowBits 8 b.toBitVec

/-- The bit-serial checksum, with all bits set at the start and inverted in the end. -/
def serialCrc (data : List Byte) : BitVec w :=
  crcBits poly (messageBits data) (BitVec.allOnes w) ^^^ BitVec.allOnes w

/-! ## Linearity -/

theorem crcBit_xor (x y : BitVec w) (a b : Bool) :
    crcBit poly (x ^^^ y) (a ^^ b) = crcBit poly x a ^^^ crcBit poly y b := by
  have hcancel : ∀ u v p : BitVec w, u ^^^ v = (u ^^^ p) ^^^ (v ^^^ p) := by
    intro u v p
    rw [BitVec.xor_assoc, ← BitVec.xor_assoc p, BitVec.xor_comm p v, BitVec.xor_assoc v,
      BitVec.xor_self, BitVec.xor_zero]
  have hmiddle : ∀ u v p : BitVec w, (u ^^^ v) ^^^ p = (u ^^^ p) ^^^ v := by
    intro u v p
    rw [BitVec.xor_assoc, BitVec.xor_comm v p, BitVec.xor_assoc]
  have hbit : ((x ^^^ y).getLsbD 0 ^^ (a ^^ b)) = ((x.getLsbD 0 ^^ a) ^^ (y.getLsbD 0 ^^ b)) := by
    rw [BitVec.getLsbD_xor]
    cases x.getLsbD 0 <;> cases y.getLsbD 0 <;> cases a <;> cases b <;> rfl
  rw [crcBit, crcBit, crcBit, hbit, BitVec.ushiftRight_xor_distrib]
  cases x.getLsbD 0 ^^ a with
  | false =>
      cases y.getLsbD 0 ^^ b with
      | false => rfl
      | true => exact BitVec.xor_assoc _ _ _
  | true =>
      cases y.getLsbD 0 ^^ b with
      | false => exact hmiddle _ _ _
      | true => exact hcancel _ _ _

theorem crcBit_false (crc : BitVec w) : crcBit poly crc false = crcShift poly crc := by
  rw [crcBit, crcShift, Bool.xor_false]

theorem crcShift_xor (x y : BitVec w) :
    crcShift poly (x ^^^ y) = crcShift poly x ^^^ crcShift poly y := by
  rw [← crcBit_false, ← crcBit_false, ← crcBit_false]
  exact crcBit_xor poly x y false false

@[simp] theorem crcShift_zero : crcShift poly 0#w = 0#w := by simp [crcShift]

theorem iterate_crcShift_zero (n : ℕ) : (crcShift poly)^[n] 0#w = 0#w :=
  Function.iterate_fixed (crcShift_zero poly) n

theorem iterate_crcShift_xor (n : ℕ) (x y : BitVec w) :
    (crcShift poly)^[n] (x ^^^ y) = (crcShift poly)^[n] x ^^^ (crcShift poly)^[n] y := by
  induction n generalizing x y with
  | zero => rfl
  | succ n ih => rw [Function.iterate_succ_apply, crcShift_xor, ih]; rfl

/-- The difference of two registers is the register of the difference. -/
theorem crcBits_xor {as bs : List Bool} (hlen : as.length = bs.length) (x y : BitVec w) :
    crcBits poly as x ^^^ crcBits poly bs y =
      crcBits poly (List.zipWith (· ^^ ·) as bs) (x ^^^ y) := by
  induction as generalizing bs x y with
  | nil =>
      cases bs with
      | nil => rfl
      | cons b bs => cases hlen
  | cons a as ih =>
      cases bs with
      | nil => cases hlen
      | cons b bs =>
          have hrest := ih (Nat.succ.inj hlen) (crcBit poly x a) (crcBit poly y b)
          rw [← crcBit_xor] at hrest
          exact hrest

theorem crcBits_append (as bs : List Bool) (crc : BitVec w) :
    crcBits poly (as ++ bs) crc = crcBits poly bs (crcBits poly as crc) := List.foldl_append

theorem crcBits_replicate_false (n : ℕ) (crc : BitVec w) :
    crcBits poly (List.replicate n false) crc = (crcShift poly)^[n] crc := by
  induction n generalizing crc with
  | zero => rfl
  | succ n ih =>
      rw [List.replicate_succ, Function.iterate_succ_apply, ← crcBit_false]
      exact ih _

/-! ## Several bits at a time -/

/-- A shift moves a word whose lowest bit is clear. -/
theorem crcShift_of_clear {v : BitVec w} (h : v.getLsbD 0 = false) :
    crcShift poly v = v >>> 1 := by
  rw [crcShift, h, if_neg Bool.false_ne_true]

/-- The lowest bit of a word may come from the message instead. -/
theorem crcShift_xor_word (crc v : BitVec w) :
    crcShift poly (crc ^^^ v) = crcBit poly crc (v.getLsbD 0) ^^^ (v >>> 1) := by
  rw [crcShift, crcBit, BitVec.getLsbD_xor, BitVec.ushiftRight_xor_distrib]
  cases crc.getLsbD 0 ^^ v.getLsbD 0 with
  | false => rfl
  | true =>
      change (crc >>> 1 ^^^ v >>> 1) ^^^ poly = (crc >>> 1 ^^^ poly) ^^^ v >>> 1
      rw [BitVec.xor_assoc, BitVec.xor_comm (v >>> 1), BitVec.xor_assoc]

theorem lowBits_succ (n : ℕ) (v : BitVec w) :
    lowBits (n + 1) v = v.getLsbD 0 :: lowBits n (v >>> 1) := by
  rw [lowBits, List.range_succ_eq_map, List.map_cons, List.map_map, lowBits]
  congr 1
  apply List.map_congr_left
  intro i _
  rw [Function.comp_apply, BitVec.getLsbD_ushiftRight, Nat.add_comm 1 i]

theorem lowBits_setWidth {n w' : ℕ} (h : n ≤ w') (v : BitVec w) :
    lowBits n (v.setWidth w') = lowBits n v := by
  apply List.map_congr_left
  intro i hi
  have hlt : i < w' := (List.mem_range.mp hi).trans_le h
  rw [BitVec.getLsbD_setWidth, decide_eq_true hlt, Bool.true_and]

/-- The bits of a short word can be put into the register all at once. -/
theorem crcBits_lowBits {n : ℕ} {v : BitVec w} (hv : ∀ i, n ≤ i → v.getLsbD i = false)
    (crc : BitVec w) : crcBits poly (lowBits n v) crc = (crcShift poly)^[n] (crc ^^^ v) := by
  induction n generalizing v crc with
  | zero =>
      have hzero : v = 0#w := by
        apply BitVec.eq_of_getLsbD_eq
        intro i _
        rw [hv i (Nat.zero_le i), BitVec.getLsbD_zero]
      rw [hzero, BitVec.xor_zero]
      rfl
  | succ n ih =>
      have hrest : ∀ i, n ≤ i → (v >>> 1).getLsbD i = false := by
        intro i hi
        rw [BitVec.getLsbD_ushiftRight]
        exact hv _ (by omega)
      rw [lowBits_succ, Function.iterate_succ_apply, crcShift_xor_word]
      exact ih hrest _

theorem iterate_crcShift_of_clear {n : ℕ} {v : BitVec w} (h : ∀ i < n, v.getLsbD i = false) :
    (crcShift poly)^[n] v = v >>> n := by
  induction n generalizing v with
  | zero => rw [BitVec.ushiftRight_zero]; rfl
  | succ n ih =>
      have hrest : ∀ i < n, (v >>> 1).getLsbD i = false := by
        intro i hi
        rw [BitVec.getLsbD_ushiftRight]
        exact h _ (by omega)
      rw [Function.iterate_succ_apply, crcShift_of_clear poly (h 0 (Nat.succ_pos n)), ih hrest,
        ← BitVec.shiftRight_add, Nat.add_comm]

/-- Several shifts move the word, and add what becomes of its lowest bits. -/
theorem iterate_crcShift_eq {n : ℕ} {crc low : BitVec w}
    (hlow : ∀ i < n, low.getLsbD i = crc.getLsbD i) (hhigh : ∀ i, n ≤ i → low.getLsbD i = false) :
    (crcShift poly)^[n] crc = (crc >>> n) ^^^ (crcShift poly)^[n] low := by
  have hclear : ∀ i < n, (crc ^^^ low).getLsbD i = false := by
    intro i hi
    rw [BitVec.getLsbD_xor, hlow i hi, Bool.xor_self]
  have hsplit : crc = (crc ^^^ low) ^^^ low := by
    rw [BitVec.xor_assoc, BitVec.xor_self, BitVec.xor_zero]
  have hshift : (crc ^^^ low) >>> n = crc >>> n := by
    apply BitVec.eq_of_getLsbD_eq
    intro i _
    rw [BitVec.getLsbD_ushiftRight, BitVec.getLsbD_ushiftRight, BitVec.getLsbD_xor,
      hhigh _ (Nat.le_add_right n i), Bool.xor_false]
  conv_lhs => rw [hsplit]
  rw [iterate_crcShift_xor, iterate_crcShift_of_clear poly hclear, hshift]

/-! ## Bursts -/

/-- The word that one shift takes to zero, if the top bit of the polynomial is clear. -/
def crcKernel : BitVec w := (poly <<< 1) ||| 1#w

theorem getLsbD_crcKernel {i : ℕ} (hi : i < w) :
    (crcKernel poly).getLsbD i = if i = 0 then true else poly.getLsbD (i - 1) := by
  rw [crcKernel, BitVec.getLsbD_or, BitVec.getLsbD_shiftLeft, BitVec.getLsbD_one]
  by_cases hzero : i = 0
  · subst hzero
    simp [hi]
  · simp [hi, hzero]

section

variable {poly} (htop : poly.getLsbD (w - 1) = false)

include htop

/-- One shift clears the kernel and nothing else. -/
theorem crcShift_eq_zero_iff (hw : 0 < w) {x : BitVec w} :
    crcShift poly x = 0#w ↔ x = 0#w ∨ x = crcKernel poly := by
  constructor
  · intro h
    rw [crcShift] at h
    split at h
    · rename_i hbit
      refine Or.inr (BitVec.eq_of_getLsbD_eq ?_)
      intro i hi
      rw [getLsbD_crcKernel poly hi]
      split
      · rename_i hzero
        rw [hzero, hbit]
      · rename_i hpos
        have hxor := congrArg (fun v => v.getLsbD (i - 1)) h
        simp only [BitVec.getLsbD_xor, BitVec.getLsbD_ushiftRight, BitVec.getLsbD_zero,
          bne_eq_false_iff_eq] at hxor
        rwa [Nat.add_sub_cancel' (by omega)] at hxor
    · rename_i hbit
      refine Or.inl (BitVec.eq_of_getLsbD_eq ?_)
      intro i hi
      rw [BitVec.getLsbD_zero]
      cases i with
      | zero => simpa using hbit
      | succ i =>
          have hshift := congrArg (fun v => v.getLsbD i) h
          simp only [BitVec.getLsbD_ushiftRight, BitVec.getLsbD_zero] at hshift
          rwa [Nat.add_comm] at hshift
  · intro h
    cases h with
    | inl h => rw [h, crcShift_zero]
    | inr h =>
        have hone : (crcKernel poly).getLsbD 0 = true := by
          rw [getLsbD_crcKernel poly hw, if_pos rfl]
        rw [h, crcShift, if_pos hone]
        apply BitVec.eq_of_getLsbD_eq
        intro i hi
        rw [BitVec.getLsbD_xor, BitVec.getLsbD_ushiftRight, BitVec.getLsbD_zero,
          bne_eq_false_iff_eq]
        by_cases hlast : 1 + i < w
        · rw [getLsbD_crcKernel poly hlast, if_neg (by omega), Nat.add_sub_cancel_left]
        · have hi' : i = w - 1 := by omega
          rw [BitVec.getLsbD_of_ge _ _ (Nat.le_of_not_lt hlast), hi', htop]

/-- No shift gives the kernel, if the bit below the top one is set. -/
theorem crcShift_ne_crcKernel (hw : 2 ≤ w) (hnext : poly.getLsbD (w - 2) = true) (x : BitVec w) :
    crcShift poly x ≠ crcKernel poly := by
  intro h
  have hkernel : (crcKernel poly).getLsbD (w - 1) = true := by
    rw [getLsbD_crcKernel poly (by omega), if_neg (by omega)]
    exact hnext
  have hshift : (x >>> 1).getLsbD (w - 1) = false := by
    rw [BitVec.getLsbD_ushiftRight]
    exact BitVec.getLsbD_of_ge _ _ (by omega)
  rw [← h, crcShift] at hkernel
  split at hkernel
  · rw [BitVec.getLsbD_xor, hshift, htop] at hkernel
    cases hkernel
  · rw [hshift] at hkernel
    cases hkernel

/-- More shifts clear no other word. -/
theorem iterate_crcShift_eq_zero_iff (hw : 2 ≤ w) (hnext : poly.getLsbD (w - 2) = true) (n : ℕ)
    {x : BitVec w} : (crcShift poly)^[n + 1] x = 0#w ↔ x = 0#w ∨ x = crcKernel poly := by
  induction n generalizing x with
  | zero => exact crcShift_eq_zero_iff htop (by omega)
  | succ n ih =>
      have hother := crcShift_ne_crcKernel htop hw hnext x
      rw [Function.iterate_succ_apply, ih]
      exact (or_iff_left hother).trans (crcShift_eq_zero_iff htop (by omega))

/-- A burst that fits the register leaves a difference, unless it is the kernel. -/
theorem crcBits_burst_eq_zero_iff (hw : 2 ≤ w) (hnext : poly.getLsbD (w - 2) = true)
    (before after : ℕ) {v : BitVec w} :
    crcBits poly (List.replicate before false ++ (lowBits w v ++ List.replicate after false)) 0#w =
        0#w ↔ v = 0#w ∨ v = crcKernel poly := by
  have hv : ∀ i, w ≤ i → v.getLsbD i = false := fun i hi => BitVec.getLsbD_of_ge v i hi
  obtain ⟨n, hn⟩ : ∃ n, after + w = n + 1 := ⟨after + w - 1, by omega⟩
  rw [crcBits_append, crcBits_append, crcBits_replicate_false poly before, iterate_crcShift_zero,
    crcBits_lowBits poly hv, BitVec.zero_xor, crcBits_replicate_false,
    ← Function.iterate_add_apply, hn]
  exact iterate_crcShift_eq_zero_iff htop hw hnext n

end

end CLib
