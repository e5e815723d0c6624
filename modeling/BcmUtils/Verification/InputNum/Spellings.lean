import BcmUtils.Foundation.Hex
import BcmUtils.Model.InputNum

/-! # Numbers read by `input_num`

Each digit multiplies the accumulator by the base. Hyphens leave it as it is. -/

namespace BcmUtils.InputNum

open CLib

/-- The characters that are no hyphens are the digits `ds` of a number below the base. -/
structure Digits (base : ℕ) (ds : List ℕ) (s : CStr) : Prop where
  ne_nil : ds ≠ []
  lt_base : ∀ d ∈ ds, d < base
  spelled : List.Forall₂ IsHex ds (s.filter (· ≠ chr '-'))

/-- The texts that spell a number for `input_num`. -/
inductive Spelling (forceHex : ℤ) (v : ℕ) : CStr → Prop
  | decimal {ds : List ℕ} {s : CStr} (hforce : forceHex ≠ 1) (h : Digits 10 ds s)
      (hv : Nat.ofDigits 10 ds.reverse = v) : Spelling forceHex v s
  | prefixed {ds : List ℕ} {s : CStr} (h : Digits 16 ds s)
      (hv : Nat.ofDigits 16 ds.reverse = v) : Spelling forceHex v (chr '0' :: chr 'x' :: s)
  | bare {ds : List ℕ} {s : CStr} (hforce : forceHex = 1) (h : Digits 16 ds s)
      (hv : Nat.ofDigits 16 ds.reverse = v) : Spelling forceHex v s

/-- A digit is in one of the three ranges of the switch. -/
structure InRange (d : ℕ) (b : Byte) : Prop where
  decimal : d < 10 → chr '0' ≤ b ∧ b ≤ chr '9' ∧ (b - chr '0').toNat = d
  letter : 10 ≤ d → ¬ (chr '0' ≤ b ∧ b ≤ chr '9') ∧
    ((chr 'a' ≤ b ∧ b ≤ chr 'f' ∧ (b - chr 'a').toNat + 10 = d) ∨
      (¬ (chr 'a' ≤ b ∧ b ≤ chr 'f') ∧ chr 'A' ≤ b ∧ b ≤ chr 'F' ∧ (b - chr 'A').toNat + 10 = d))
  ne_x : b ≠ chr 'x'

instance (d : ℕ) (b : Byte) : Decidable (InRange d b) :=
  decidable_of_iff (_ ∧ _ ∧ _) ⟨fun h => ⟨h.1, h.2.1, h.2.2⟩, fun h => ⟨h.1, h.2, h.3⟩⟩

theorem inRange_of_isHex {d : ℕ} {b : Byte} (h : IsHex d b) : InRange d b :=
  h.forall_digits (by decide +kernel) (by decide +kernel)

/-- A digit continues the accumulated number. -/
theorem inputNumLoop_digit {num d : ℕ} {b : Byte} (h : IsHex d b) (hd : d < num) (s : CStr)
    (acc : ℕ) :
    inputNumLoop num (b :: s) false (BitVec.ofNat 64 acc) =
      inputNumLoop num s false (BitVec.ofNat 64 (num * acc + d)) := by
  have hrange := inRange_of_isHex h
  have hten : (10 : BitVec 64) = BitVec.ofNat 64 10 := rfl
  by_cases hdecimal : d < 10
  · obtain ⟨hlow, hhigh, hvalue⟩ := hrange.decimal hdecimal
    rw [inputNumLoop, if_neg (by decide), if_pos ⟨hlow, hhigh⟩, hvalue, ← BitVec.ofNat_mul,
      ← BitVec.ofNat_add, Nat.mul_comm]
  · have hsixteen : ¬ num = 10 := by omega
    obtain ⟨hdigit, hletter⟩ := hrange.letter (by omega)
    have hvalue : ∀ k, k + 10 = d → BitVec.ofNat 64 acc * BitVec.ofNat 64 num +
        BitVec.ofNat 64 k + 10 = BitVec.ofNat 64 (num * acc + d) := by
      intro k hk
      rw [hten, ← BitVec.ofNat_mul, ← BitVec.ofNat_add, ← BitVec.ofNat_add, Nat.add_assoc, hk,
        Nat.mul_comm]
    rw [inputNumLoop, if_neg (by decide), if_neg hdigit]
    cases hletter with
    | inl hlower => rw [if_pos ⟨hlower.1, hlower.2.1⟩, if_neg hsixteen, hvalue _ hlower.2.2]
    | inr hupper =>
        rw [if_neg hupper.1, if_pos ⟨hupper.2.1, hupper.2.2.1⟩, if_neg hsixteen,
          hvalue _ hupper.2.2.2]

/-- The loop folds the digits and skips the hyphens. -/
theorem inputNumLoop_spec {num : ℕ} {ds : List ℕ} {s : CStr} (hds : ∀ d ∈ ds, d < num)
    (h : List.Forall₂ IsHex ds (s.filter (· ≠ chr '-'))) (acc : ℕ) :
    inputNumLoop num s false (BitVec.ofNat 64 acc) =
      BitVec.ofNat 64 (ds.foldl (fun n d => num * n + d) acc) := by
  induction s generalizing ds acc with
  | nil =>
      obtain rfl := List.forall₂_nil_right_iff.mp h
      rfl
  | cons b s ih =>
      by_cases hyphen : b = chr '-'
      · rw [List.filter_cons_of_neg (by simp [hyphen])] at h
        have hskip : inputNumLoop num (b :: s) false (BitVec.ofNat 64 acc) =
            inputNumLoop num s false (BitVec.ofNat 64 acc) := by
          rw [hyphen, inputNumLoop]
          simp [chr]
        rw [hskip, ih hds h]
      · rw [List.filter_cons_of_pos (by simp [hyphen])] at h
        cases h with
        | @cons d b ds t hd hrest =>
            rw [inputNumLoop_digit hd (hds d List.mem_cons_self),
              ih (fun c hc => hds c (List.mem_cons_of_mem _ hc)) hrest]
            rfl

theorem foldl_eq_ofDigits (num : ℕ) (ds : List ℕ) :
    ds.foldl (fun n d => num * n + d) 0 = Nat.ofDigits num ds.reverse := by
  rw [Nat.ofDigits_eq_foldr, List.foldr_reverse]
  congr 1
  funext n d
  simp [Nat.add_comm]

theorem not_mem_of_spelled {ds : List ℕ} {t : CStr} (h : List.Forall₂ IsHex ds t) :
    chr 'x' ∉ t := by
  induction h with
  | nil => simp
  | cons hd _ ih => simp [(inRange_of_isHex hd).ne_x.symm, ih]

/-- The second character of a text of digits and hyphens is none of the prefix. -/
theorem charAt_digits {base : ℕ} {ds : List ℕ} {s : CStr} (h : Digits base ds s) :
    ∃ second, charAt s 1 = some second ∧ second ≠ chr 'x' := by
  cases s with
  | nil => exact absurd (List.forall₂_nil_right_iff.mp h.spelled) h.ne_nil
  | cons a s =>
      cases s with
      | nil => exact ⟨0, rfl, by decide⟩
      | cons b s =>
          refine ⟨b, by simp [charAt], fun hx => not_mem_of_spelled h.spelled ?_⟩
          rw [hx, List.mem_filter]
          exact ⟨by simp, by decide⟩

theorem inputNumLoop_digits {base v : ℕ} {ds : List ℕ} {s : CStr} (h : Digits base ds s)
    (hv : Nat.ofDigits base ds.reverse = v) : inputNumLoop base s false 0 = BitVec.ofNat 64 v := by
  rw [← hv, ← foldl_eq_ofDigits]
  exact inputNumLoop_spec h.lt_base h.spelled 0

/-- The base and the digits that `input_num` chooses give the number. -/
theorem value_of_spelling {forceHex : ℤ} {v : ℕ} {s : CStr} (h : Spelling forceHex v s) :
    ∃ second, charAt s 1 = some second ∧ ∀ num name,
      (if second = chr 'x' then (16, s.drop 2) else if forceHex = 1 then (16, s) else (10, s)) =
        (num, name) → inputNumLoop num name false 0 = BitVec.ofNat 64 v := by
  cases h with
  | decimal hforce h hv =>
      obtain ⟨second, hsecond, hne⟩ := charAt_digits h
      refine ⟨second, hsecond, fun num name heq => ?_⟩
      rw [if_neg hne, if_neg hforce, Prod.mk.injEq] at heq
      rw [← heq.1, ← heq.2, inputNumLoop_digits h hv]
  | prefixed h hv =>
      refine ⟨chr 'x', by simp [charAt], fun num name heq => ?_⟩
      rw [if_pos rfl, Prod.mk.injEq] at heq
      rw [← heq.1, ← heq.2]
      exact inputNumLoop_digits h hv
  | bare hforce h hv =>
      obtain ⟨second, hsecond, hne⟩ := charAt_digits h
      refine ⟨second, hsecond, fun num name heq => ?_⟩
      rw [if_neg hne, if_pos hforce, Prod.mk.injEq] at heq
      rw [← heq.1, ← heq.2, inputNumLoop_digits h hv]

/-- `input_num` keeps what fits of a spelled number. -/
theorem inputNum_eq (e : Endian) {forceHex : ℤ} {v : ℕ} {s : CStr} (h : Spelling forceHex v s)
    (hv : v < 2 ^ 64) (size : ℤ) (value : List Byte) :
    inputNum e s forceHex size value =
      if size ∈ [1, 2, 4, 8] then
        (writeAt 0 (numBytes e size.toNat v) value).map fun value => (0, value)
      else some (-1, value) := by
  obtain ⟨second, hsecond, hloop⟩ := value_of_spelling h
  rw [inputNum, bind_of_eq hsecond]
  generalize (if second = chr 'x' then (16, s.drop 2) else if forceHex = 1 then (16, s)
    else (10, s)) = chosen at hloop ⊢
  cases chosen with
  | mk num name =>
      have hval : (inputNumLoop num name false 0).toNat = v := by
        rw [hloop num name rfl, BitVec.toNat_ofNat, Nat.mod_eq_of_lt hv]
      simp only [hval]
      by_cases h₁ : size = 1
      · simp [h₁]
      by_cases h₂ : size = 2
      · simp [h₂]
      by_cases h₄ : size = 4
      · simp [h₄]
      by_cases h₈ : size = 8
      · simp [h₈]
      · simp [h₁, h₂, h₄, h₈]

/-- A spelled number is stored as far as it fits, in an object of one, two, four or eight bytes.
For any other size nothing is stored. -/
theorem inputNum_stores (e : Endian) {forceHex : ℤ} {v : ℕ} {s : CStr}
    (h : Spelling forceHex v s) (hv : v < 2 ^ 64) :
    (∀ size ∈ [1, 2, 4, 8], ∀ value : List Byte, size ≤ value.length →
      ∃ bytes : List Byte, bytes.length = size ∧ numOf e bytes = v % 2 ^ (8 * size) ∧
        inputNum e s forceHex (size : ℕ) value = some (0, bytes ++ value.drop size)) ∧
    ∀ size : ℤ, size ∉ [1, 2, 4, 8] → ∀ value : List Byte,
      inputNum e s forceHex size value = some (-1, value) := by
  constructor
  · intro size hsize value hvalue
    have hlen := length_numBytes e size v
    have hmem : (size : ℤ) ∈ [1, 2, 4, 8] := by
      simp only [List.mem_cons, List.not_mem_nil, or_false] at hsize ⊢
      omega
    refine ⟨numBytes e size v, hlen, ?_, ?_⟩
    · rw [numOf_numBytes, Nat.pow_mul]
    · rw [inputNum_eq e h hv, if_pos hmem, Int.toNat_natCast, writeAt, if_pos (by omega), splice,
        hlen, Nat.zero_add]
      rfl
  · intro size hsize value
    rw [inputNum_eq e h hv, if_neg hsize]

/-- The prefixed number `0x1-aB` in two bytes. -/
theorem inputNum_stores_prefixed :
    ∃ bytes : List Byte, bytes.length = 2 ∧ numOf .little bytes = 0x1ab ∧
      inputNum .little (text "0x1-aB") 0 2 [0, 0] = some (0, bytes ++ []) := by
  have hdigits : Digits 16 [1, 10, 11] (text "1-aB") := by
    constructor
    · decide
    · decide
    · decide
  exact (inputNum_stores .little (.prefixed hdigits (v := 0x1ab) (by decide)) (by decide)).1 2
    (by decide) [0, 0] (by decide)

end BcmUtils.InputNum
