import BcmUtils.Model.Itoa
import Mathlib.Data.List.Induction

/-! # Numbers written by `my_itoa` -/

namespace BcmUtils.Itoa

open CLib

/-! ## The digits in reverse -/

/-- The loop writes the digits of the number behind what stands in the buffer. -/
theorem itoaDigits_spec {fuel u : ℕ} (hfuel : u < fuel) (pre : List Byte) {mid post : List Byte}
    (hmid : mid.length = (printNat u).length) :
    itoaDigits fuel u pre.length (pre ++ (mid ++ post)) =
      some (pre.length + mid.length, pre ++ ((printNat u).reverse ++ post)) := by
  induction fuel generalizing u pre mid with
  | zero => omega
  | succ fuel ih =>
      have hdigit : UInt8.ofNat (u % 10 + 48) = chr (Nat.digitChar (u % 10)) := by
        rw [chr_digitChar (by omega), Nat.add_comm]
      rw [printNat_eq, List.length_append, List.length_singleton] at hmid
      cases mid with
      | nil => simp at hmid
      | cons c mid =>
          have hwrite : writeAt pre.length [chr (Nat.digitChar (u % 10))]
              (pre ++ (c :: mid ++ post)) =
              some ((pre ++ [chr (Nat.digitChar (u % 10))]) ++ (mid ++ post)) := by
            have := @writeAt_append pre [chr (Nat.digitChar (u % 10))] [c] (mid ++ post) rfl
            simpa using this
          rw [itoaDigits, hdigit]
          simp only [hwrite, Option.bind_eq_bind, Option.bind_some]
          rw [printNat_eq u]
          by_cases hlast : u < 10
          · rw [if_pos hlast, List.length_nil, List.length_cons] at hmid
            have hnil : mid = [] := List.eq_nil_of_length_eq_zero (by omega)
            rw [if_neg (by omega), if_pos hlast, hnil]
            simp
          · rw [if_neg hlast, List.length_cons] at hmid
            have hlen : mid.length = (printNat (u / 10)).length := by omega
            have hnext := ih (by omega) (pre ++ [chr (Nat.digitChar (u % 10))]) hlen
            rw [List.length_append, List.length_singleton] at hnext
            rw [if_pos (by omega), if_neg hlast, hnext]
            simp [Nat.add_comm, Nat.add_left_comm]

/-! ## The swaps -/

/-- One round of swaps exchanges the two ends of the digits. -/
theorem itoaSwap_ends (pre : List Byte) (x z : Byte) (mid post : List Byte) :
    itoaSwap (pre.length + mid.length + 2) pre.length (pre ++ (x :: (mid ++ z :: post))) =
      if 1 < mid.length then
        itoaSwap ((pre ++ [z]).length + mid.length) (pre ++ [z]).length
          ((pre ++ [z]) ++ (mid ++ x :: post))
      else some (pre ++ (z :: (mid ++ x :: post))) := by
  have hfirst : (pre ++ (x :: (mid ++ z :: post)))[pre.length]? = some x := by simp
  have hlast : (pre ++ (x :: (mid ++ z :: post)))[pre.length + mid.length + 1]? = some z := by
    rw [List.getElem?_append_right (by omega)]
    have hpos : pre.length + mid.length + 1 - pre.length = mid.length + 1 := by omega
    simp [hpos]
  have hput : writeAt (pre.length + mid.length + 1) [x] (pre ++ (x :: (mid ++ z :: post))) =
      some (pre ++ (x :: (mid ++ x :: post))) := by
    have hwrite := @writeAt_append (pre ++ x :: mid) [x] [z] post rfl
    simpa [Nat.add_assoc] using hwrite
  have hput' : writeAt pre.length [z] (pre ++ (x :: (mid ++ x :: post))) =
      some (pre ++ (z :: (mid ++ x :: post))) :=
    @writeAt_append pre [z] [x] (mid ++ x :: post) rfl
  rw [itoaSwap]
  simp only [hfirst, hlast, hput, hput', Option.bind_eq_bind, Option.bind_some]
  by_cases hmid : 1 < mid.length
  · have hplace : pre.length + mid.length + 1 = (pre ++ [z]).length + mid.length := by
      rw [List.length_append, List.length_singleton]
      omega
    rw [if_pos (by omega), if_pos hmid, hplace, List.length_append, List.length_singleton]
    simp
  · rw [if_neg (by omega), if_neg hmid]

/-- The swaps reverse the digits and leave the rest of the buffer. -/
theorem itoaSwap_spec {mid : List Byte} (hmid : mid ≠ []) (pre post : List Byte) :
    itoaSwap (pre.length + mid.length) pre.length (pre ++ (mid ++ post)) =
      some (pre ++ (mid.reverse ++ post)) := by
  induction mid using List.bidirectionalRec generalizing pre post with
  | nil => exact absurd rfl hmid
  | singleton a =>
      have hwrite : writeAt pre.length [a] (pre ++ a :: post) = some (pre ++ a :: post) :=
        @writeAt_append pre [a] [a] post rfl
      have hend : ¬ pre.length + 1 + 1 < pre.length := by omega
      simp [itoaSwap, hwrite, hend]
  | cons_append x mid z ih =>
      have hlen : pre.length + (x :: (mid ++ [z])).length = pre.length + mid.length + 2 := by
        simp only [List.length_cons, List.length_append, List.length_nil]
        omega
      have hswap := itoaSwap_ends pre x z mid post
      rw [hlen, List.cons_append, List.append_assoc, List.singleton_append, hswap]
      by_cases hlong : 1 < mid.length
      · have hne : mid ≠ [] := List.ne_nil_of_length_pos (by omega)
        rw [if_pos hlong, ih hne (pre ++ [z]) (x :: post)]
        simp
      · -- at most one digit is left between the ends
        have hrev : mid.reverse = mid := by
          cases mid with
          | nil => rfl
          | cons y mid =>
              rw [List.length_cons] at hlong
              have hnil : mid = [] := List.eq_nil_of_length_eq_zero (by omega)
              rw [hnil]
              rfl
        rw [if_neg hlong]
        simp [hrev]

/-- The digits, their terminator and the swaps give the number in decimal. -/
theorem itoa_unsigned (u : ℕ) (pre : List Byte) {mid : List Byte}
    (hmid : mid.length = (printNat u).length) (c : Byte) (post : List Byte) :
    (do
      let (p, buf) ← itoaDigits (u + 1) u pre.length (pre ++ (mid ++ c :: post))
      let buf ← writeAt p [0] buf
      let buf ← itoaSwap p pre.length buf
      return (p, buf)) =
    some ((pre ++ printNat u).length, (pre ++ printNat u) ++ 0 :: post) := by
  have hdigits := @itoaDigits_spec (u + 1) u (Nat.lt_succ_self u) pre mid (c :: post) hmid
  have hend : writeAt (pre.length + mid.length) [0]
      (pre ++ ((printNat u).reverse ++ c :: post)) =
      some (pre ++ ((printNat u).reverse ++ 0 :: post)) := by
    have hwrite := @writeAt_append (pre ++ (printNat u).reverse) [0] [c] post rfl
    rw [List.length_append, List.length_reverse, ← hmid] at hwrite
    simpa using hwrite
  have hne : (printNat u).reverse ≠ [] := by simp [printNat_ne_nil]
  have hswap := itoaSwap_spec hne pre (0 :: post)
  rw [List.length_reverse, List.reverse_reverse, ← hmid] at hswap
  simp only [hdigits, hend, hswap, Option.bind_eq_bind, Option.bind_some]
  simp [hmid]

/-! ## The text -/

/-- A decimal text of a number: a minus if it is negative, then digits of which the first is a
zero only if there is no other one. -/
structure Decimal (s : CStr) (v : ℤ) : Prop where
  shape : ∃ ds, s = (if v < 0 then [chr '-'] else []) ++ ds ∧ ds ≠ [] ∧
    (∀ b ∈ ds, isDigit b = true) ∧ (ds.head? = some (chr '0') → ds = [chr '0'])
  value : atoi s = v

/-- Printed digits start with a zero only for zero. -/
theorem printNat_eq_of_head {n : ℕ} (h : (printNat n).head? = some (chr '0')) :
    printNat n = [chr '0'] := by
  induction n using Nat.strongRecOn with
  | ind n ih =>
      rw [printNat_eq] at h ⊢
      by_cases hlast : n < 10
      · rw [if_pos hlast, List.nil_append, List.head?_cons] at h
        rw [if_pos hlast, List.nil_append, Option.some.inj h]
      · rw [if_neg hlast, List.head?_append_of_ne_nil _ (printNat_ne_nil _)] at h
        have hzero := ih (n / 10) (by omega) h
        have hvalue := (numeral_printNat (n / 10)).value
        have hread : readDigits 0 [chr '0'] = 0 := by decide
        rw [hzero, hread] at hvalue
        omega

theorem decimal_printInt {v : ℤ} (hv : IsInt v) : Decimal (printInt v) v where
  shape := by
    cases v with
    | ofNat n =>
        exact ⟨printNat n, by simp [printInt], printNat_ne_nil n,
          fun b hb => isDigit_of_mem_printNat hb, printNat_eq_of_head⟩
    | negSucc n =>
        exact ⟨printNat (n + 1), by simp [printInt, Int.negSucc_lt_zero], printNat_ne_nil _,
          fun b hb => isDigit_of_mem_printNat hb, printNat_eq_of_head⟩
  value := atoi_printInt hv

/-- The wrapping negation of a negative number is its distance from zero. -/
theorem toNat_neg_of_toInt {val : BitVec 32} {n : ℕ} (h : val.toInt = Int.negSucc n) :
    (0 - val).toNat = n + 1 := by
  have hlt := val.isLt
  rw [BitVec.toInt_eq_toNat_cond, Int.negSucc_eq] at h
  have hzero : (0 : BitVec 32).toNat = 0 := rfl
  rw [BitVec.toNat_sub, hzero]
  split at h <;> omega

/-- `my_itoa` writes the decimal text and its terminator, at most twelve bytes, and leaves the
rest of the buffer. -/
theorem myItoa_decimal (val : BitVec 32) {buf : List Byte}
    (h : (printInt val.toInt).length < buf.length) :
    myItoa val buf = some ((printInt val.toInt).length,
        printInt val.toInt ++ 0 :: buf.drop ((printInt val.toInt).length + 1)) ∧
      Decimal (printInt val.toInt) val.toInt ∧ (printInt val.toInt).length + 1 ≤ 12 := by
  have hint := isInt_toInt val
  refine ⟨?_, decimal_printInt hint, Nat.succ_le_succ (length_printInt_le hint)⟩
  have hbuf : buf = buf.take (printInt val.toInt).length ++
      buf[(printInt val.toInt).length] :: buf.drop ((printInt val.toInt).length + 1) := by
    rw [← List.drop_eq_getElem_cons h, List.take_append_drop]
  generalize hmid : buf.take (printInt val.toInt).length = mid at hbuf
  generalize buf.drop ((printInt val.toInt).length + 1) = post at hbuf ⊢
  generalize buf[(printInt val.toInt).length] = c at hbuf
  have hlen : mid.length = (printInt val.toInt).length := by
    rw [← hmid, List.length_take]
    omega
  cases hv : val.toInt with
  | ofNat n =>
      rw [hv] at hlen
      have hn : val.toNat = n := by
        rw [BitVec.toInt_eq_toNat_cond] at hv
        split at hv <;> simp at hv <;> omega
      have hdigits := @itoa_unsigned n [] mid hlen c post
      have hpos : ¬ Int.ofNat n < 0 := by simp
      simp only [myItoa, hv, hbuf, hpos, if_false, Option.bind_eq_bind, Option.bind_some, hn]
      exact hdigits
  | negSucc n =>
      rw [hv] at hlen
      cases mid with
      | nil => simp [printInt] at hlen
      | cons d mid =>
          have hn := toNat_neg_of_toInt hv
          rw [printInt, List.length_cons, List.length_cons, Nat.succ_inj] at hlen
          have hdigits := @itoa_unsigned (n + 1) [chr '-'] mid hlen c post
          have hsign : writeAt 0 [chr '-'] (d :: mid ++ c :: post) =
              some ([chr '-'] ++ (mid ++ c :: post)) :=
            @writeAt_append [] [chr '-'] [d] (mid ++ c :: post) rfl
          simp only [myItoa, hv, hbuf, Int.negSucc_lt_zero, if_true, hsign, Option.map_some,
            Option.bind_eq_bind, Option.bind_some, hn]
          exact hdigits

/-- The least number takes twelve bytes. -/
theorem myItoa_decimal_least :
    myItoa (BitVec.ofInt 32 intMin) (List.replicate 12 0) =
      some (11, text "-2147483648" ++ [0]) := by
  exact (@myItoa_decimal (BitVec.ofInt 32 intMin) (List.replicate 12 0) (by decide)).1

end BcmUtils.Itoa
