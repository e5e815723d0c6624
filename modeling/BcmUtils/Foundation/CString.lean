import Mathlib.Tactic

/-! # C strings

A C string is the list of its bytes before the terminator, and a pointer into a
string is the suffix it points at. Pointer comparison and subtraction are then
comparison and subtraction of suffix lengths. Operations return `none` where the
behaviour of the C operation is undefined. -/

namespace CLib

abbrev Byte := UInt8

/-- The bytes of a string up to its terminator. -/
abbrev CStr := List Byte

def chr (c : Char) : Byte := UInt8.ofNat c.toNat

instance : Coe Char Byte := ⟨chr⟩

/-- A string literal. -/
def text (s : String) : CStr := s.toList.map chr

/-! ## Searching and copying -/

/-- `strchr`: the suffix at the first occurrence of `c`, or the null pointer. -/
def strchr (c : Byte) : CStr → Option CStr
  | [] => none
  | b :: s => if b = c then some (b :: s) else strchr c s

/-- `p + 1`, which must not step over the terminator. -/
def incr : CStr → Option CStr
  | [] => none
  | _ :: s => some s

/-- The bytes that `memcpy(_, p, q - p)` copies. A pointer `q` before `p` makes
the length wrap around. -/
def between (p q : CStr) : Option CStr :=
  if q.length ≤ p.length then some (p.take (p.length - q.length)) else none

@[simp] theorem strchr_nil (c : Byte) : strchr c [] = none := rfl

@[simp] theorem strchr_cons_self (c : Byte) (s : CStr) : strchr c (c :: s) = some (c :: s) := by
  simp [strchr]

theorem strchr_cons_of_ne {b c : Byte} (h : b ≠ c) (s : CStr) :
    strchr c (b :: s) = strchr c s := by
  simp [strchr, h]

theorem strchr_append {c : Byte} {s : CStr} (h : c ∉ s) (t : CStr) :
    strchr c (s ++ t) = strchr c t := by
  induction s with
  | nil => rfl
  | cons b s ih =>
      simp only [List.mem_cons, not_or] at h
      rw [List.cons_append, strchr_cons_of_ne (Ne.symm h.1), ih h.2]

/-- The search stops at the separator that follows a text free of it. -/
@[simp] theorem strchr_append_cons {c : Byte} {s : CStr} (h : c ∉ s) (t : CStr) :
    strchr c (s ++ c :: t) = some (c :: t) := by
  rw [strchr_append h, strchr_cons_self]

theorem strchr_eq_none {c : Byte} {s : CStr} : strchr c s = none ↔ c ∉ s := by
  induction s with
  | nil => simp
  | cons b s ih =>
      by_cases h : b = c
      · simp [strchr, h]
      · simp [strchr, h, ih, Ne.symm h]

theorem strchr_eq_some {c : Byte} {s t : CStr} (h : strchr c s = some t) :
    ∃ u, s = u ++ t ∧ c ∉ u ∧ ∃ v, t = c :: v := by
  induction s with
  | nil => simp at h
  | cons b s ih =>
      by_cases hb : b = c
      · subst b
        rw [strchr_cons_self, Option.some.injEq] at h
        exact ⟨[], by simp [h], by simp, s, h.symm⟩
      · rw [strchr_cons_of_ne hb] at h
        obtain ⟨u, hs, hu, hv⟩ := ih h
        exact ⟨b :: u, by simp [hs], by simp [hu, Ne.symm hb], hv⟩

@[simp] theorem incr_cons (b : Byte) (s : CStr) : incr (b :: s) = some s := rfl

@[simp] theorem between_append (s t : CStr) : between (s ++ t) t = some s := by
  simp [between]

/-- Execute the next statement of a `do` block. -/
theorem bind_of_eq {α β : Type} {x : Option α} {a : α} (h : x = some a) (f : α → Option β) :
    (x >>= f) = f a := by
  rw [h]
  rfl

theorem between_append_bind {β : Type} {s t : CStr} {f : CStr → Option β} {b : β}
    (h : f s = some b) : (between (s ++ t) t).bind f = some b := by
  rw [between_append, Option.bind_some, h]

/-! ## Texts in fixed arrays -/

/-- `sprintf` or `strcpy` of a text into an array of `cap` bytes, which must also
hold the terminator. -/
def store (cap : ℕ) (s : CStr) : Option CStr :=
  if s.length < cap then some s else none

/-- `strcat` onto a text kept in an array of `cap` bytes. -/
def strcat (cap : ℕ) (dst src : CStr) : Option CStr := store cap (dst ++ src)

/-- `sprintf(tmp, ...); strcat(result, tmp);` for one text after the other, where `tmp` has
`tmpCap` bytes and `result` has `cap`. -/
def appendTexts (tmpCap cap : ℕ) : List CStr → CStr → Option CStr
  | [], result => some result
  | x :: xs, result => do
      let tmp ← store tmpCap x
      let result ← strcat cap result tmp
      appendTexts tmpCap cap xs result

theorem store_of_lt {cap : ℕ} {s : CStr} (h : s.length < cap) : store cap s = some s := by
  simp [store, h]

theorem strcat_of_lt {cap : ℕ} {s t : CStr} (h : (s ++ t).length < cap) :
    strcat cap s t = some (s ++ t) := store_of_lt h

/-- The texts are appended exactly if the result has room for all of them. -/
theorem appendTexts_eq {tmpCap cap : ℕ} {xs : List CStr} (hx : ∀ x ∈ xs, x.length < tmpCap)
    {result : CStr} (hresult : result.length < cap) :
    appendTexts tmpCap cap xs result =
      if (result ++ xs.flatten).length < cap then some (result ++ xs.flatten) else none := by
  induction xs generalizing result with
  | nil =>
      rw [List.flatten_nil, List.append_nil, if_pos hresult]
      rfl
  | cons x xs ih =>
      rw [appendTexts, bind_of_eq (store_of_lt (hx x List.mem_cons_self)), List.flatten_cons,
        ← List.append_assoc]
      by_cases hfit : (result ++ x).length < cap
      · rw [bind_of_eq (strcat_of_lt hfit), ih (fun y hy => hx y (List.mem_cons_of_mem _ hy)) hfit]
      · have hfull : ¬ ((result ++ x) ++ xs.flatten).length < cap := by
          rw [@List.length_append _ (result ++ x)]
          omega
        rw [strcat, store, if_neg hfit, if_neg hfull]
        rfl

/-! ## Decimal numbers -/

def isDigit (b : Byte) : Bool := 48 ≤ b && b ≤ 57

def isSpace (b : Byte) : Bool := b = 32 || (9 ≤ b && b ≤ 13)

/-- The digits of a number, most significant first, as `%d` prints them. -/
def printNat (n : ℕ) : CStr := (Nat.toDigits 10 n).map chr

/-- `%d`. -/
def printInt : ℤ → CStr
  | .ofNat n => printNat n
  | .negSucc n => chr '-' :: printNat (n + 1)

/-- Accumulate the digits at the start of a string. -/
def readDigits (acc : ℕ) : CStr → ℕ
  | [] => acc
  | b :: s => if isDigit b then readDigits (10 * acc + (b.toNat - 48)) s else acc

def intMin : ℤ := -2147483648

def intMax : ℤ := 2147483647

/-- The values of a 32-bit `int`. -/
def IsInt (v : ℤ) : Prop := intMin ≤ v ∧ v ≤ intMax

instance (v : ℤ) : Decidable (IsInt v) := inferInstanceAs (Decidable (_ ∧ _))

theorem isInt_toInt (w : BitVec 32) : IsInt w.toInt := by
  have h₁ := @BitVec.toInt_lt 32 w
  have h₂ := BitVec.le_toInt w
  simp only [IsInt, intMin, intMax]
  omega

/-- `strtol` saturates at the bounds of a 32-bit `long`. -/
def saturate (v : ℤ) : ℤ := max intMin (min v intMax)

/-- `atoi`: blanks, an optional sign, and the digits up to the first other byte. -/
def atoi (s : CStr) : ℤ :=
  match s.dropWhile isSpace with
  | [] => 0
  | b :: t =>
      if b = chr '-' then saturate (-(readDigits 0 t : ℤ))
      else if b = chr '+' then saturate (readDigits 0 t)
      else saturate (readDigits 0 (b :: t))

theorem saturate_of_isInt {v : ℤ} (h : IsInt v) : saturate v = v := by
  simp [saturate, h.1, h.2]

theorem chr_digitChar {d : ℕ} (h : d < 10) : chr (Nat.digitChar d) = UInt8.ofNat (48 + d) := by
  simp [chr, Nat.toNat_digitChar_of_lt_ten h]

theorem isDigit_chr_digitChar {d : ℕ} (h : d < 10) : isDigit (chr (Nat.digitChar d)) = true := by
  rw [chr_digitChar h]
  have : d = 0 ∨ d = 1 ∨ d = 2 ∨ d = 3 ∨ d = 4 ∨ d = 5 ∨ d = 6 ∨ d = 7 ∨ d = 8 ∨ d = 9 := by
    omega
  rcases this with rfl | rfl | rfl | rfl | rfl | rfl | rfl | rfl | rfl | rfl <;> decide

theorem toNat_chr_digitChar {d : ℕ} (h : d < 10) : (chr (Nat.digitChar d)).toNat - 48 = d := by
  rw [chr_digitChar h, UInt8.toNat_ofNat_of_lt' (by simp only [UInt8.size]; omega)]
  omega

/-- Printing splits off the last digit. -/
theorem printNat_eq (n : ℕ) :
    printNat n = (if n < 10 then [] else printNat (n / 10)) ++ [chr (Nat.digitChar (n % 10))] := by
  unfold printNat
  rw [Nat.toDigits_eq_if (by omega)]
  split
  · simp [Nat.mod_eq_of_lt (by omega : n < 10)]
  · simp

theorem isDigit_of_mem_printNat {n : ℕ} {b : Byte} (h : b ∈ printNat n) : isDigit b = true := by
  induction n using Nat.strongRecOn with
  | ind n ih =>
      rw [printNat_eq, List.mem_append, List.mem_singleton] at h
      rcases h with h | rfl
      · split at h
        · simp at h
        · exact ih (n / 10) (by omega) h
      · exact isDigit_chr_digitChar (by omega)

theorem printNat_ne_nil (n : ℕ) : printNat n ≠ [] := by
  rw [printNat_eq]
  simp

theorem length_printNat_pos (n : ℕ) : 0 < (printNat n).length :=
  List.length_pos_of_ne_nil (printNat_ne_nil n)

theorem length_printNat_le {n k : ℕ} (hk : 1 ≤ k) (h : n < 10 ^ k) : (printNat n).length ≤ k := by
  induction k generalizing n with
  | zero => omega
  | succ k ih =>
      rw [printNat_eq]
      split
      · simp
      · rename_i hn
        have hk' : 1 ≤ k := by
          rcases k with _ | k
          · simp at h; omega
          · omega
        have hq : n / 10 < 10 ^ k := by
          rw [Nat.pow_succ] at h
          omega
        have := ih hk' hq
        simp only [List.length_append, List.length_singleton]
        omega

theorem lt_length_printNat {n k : ℕ} (h : 10 ^ k ≤ n) : k < (printNat n).length := by
  induction k generalizing n with
  | zero => exact length_printNat_pos n
  | succ k ih =>
      have hp : 0 < 10 ^ k := Nat.pow_pos (by omega)
      rw [Nat.pow_succ] at h
      rw [printNat_eq, if_neg (by omega)]
      have := ih (n := n / 10) (by omega)
      simp only [List.length_append, List.length_singleton]
      omega

/-- Reading consumes the printed digits, whatever was read before them. -/
theorem readDigits_printNat_append (n acc : ℕ) {s : CStr} :
    readDigits acc (printNat n ++ s) = readDigits (acc * 10 ^ (printNat n).length + n) s := by
  induction n using Nat.strongRecOn generalizing acc s with
  | ind n ih =>
      have hstep : ∀ a t, readDigits a (chr (Nat.digitChar (n % 10)) :: t) =
          readDigits (10 * a + n % 10) t := by
        intro a t
        rw [readDigits, if_pos (isDigit_chr_digitChar (by omega)),
          toNat_chr_digitChar (by omega)]
      rw [printNat_eq]
      split
      · rename_i hn
        rw [List.nil_append, List.cons_append, List.nil_append, hstep,
          List.length_singleton, Nat.mod_eq_of_lt hn]
        congr 1
        omega
      · rw [List.append_assoc, ih (n / 10) (by omega), List.cons_append, List.nil_append, hstep,
          List.length_append, List.length_singleton, Nat.pow_succ]
        congr 1
        have := Nat.div_add_mod n 10
        rw [← Nat.mul_assoc]
        generalize acc * 10 ^ (printNat (n / 10)).length = m
        omega

theorem readDigits_of_not_digit (acc : ℕ) {s : CStr}
    (h : ∀ b ∈ s.head?, isDigit b = false) : readDigits acc s = acc := by
  cases s with
  | nil => rfl
  | cons b s =>
      have hb := h b (by simp)
      simp [readDigits, hb]

theorem isDigit_bounds {b : Byte} (h : isDigit b = true) :
    isSpace b = false ∧ b ≠ chr '-' ∧ b ≠ chr '+' := by
  simp only [isDigit, Bool.and_eq_true, decide_eq_true_eq] at h
  have hl : 48 ≤ b.toNat := h.1
  have hr : b.toNat ≤ 57 := h.2
  refine ⟨?_, ?_, ?_⟩
  · simp only [isSpace, Bool.or_eq_false_iff, Bool.and_eq_false_iff, decide_eq_false_iff_not]
    refine ⟨?_, Or.inr ?_⟩
    · rintro rfl
      exact absurd hl (by decide)
    · intro hb
      have : b.toNat ≤ 13 := hb
      omega
  · rintro rfl
    exact absurd hl (by decide)
  · rintro rfl
    exact absurd hl (by decide)

/-- Digits are consumed one by one, also leading zeros. -/
theorem readDigits_append {s : CStr} (h : ∀ b ∈ s, isDigit b = true) (acc : ℕ) (t : CStr) :
    readDigits acc (s ++ t) = readDigits (readDigits acc s) t := by
  induction s generalizing acc with
  | nil => rfl
  | cons b s ih =>
      have hb := h b List.mem_cons_self
      rw [List.cons_append, readDigits, if_pos hb, readDigits, if_pos hb]
      exact ih (fun c hc => h c (List.mem_cons_of_mem _ hc)) _

/-- A number in digits, possibly with leading zeros. -/
structure Numeral (s : CStr) (n : ℕ) : Prop where
  ne_nil : s ≠ []
  digits : ∀ b ∈ s, isDigit b = true
  value : readDigits 0 s = n

theorem numeral_printNat (n : ℕ) : Numeral (printNat n) n where
  ne_nil := printNat_ne_nil n
  digits _ hb := isDigit_of_mem_printNat hb
  value := by
    have hread := @readDigits_printNat_append n 0 []
    rw [List.append_nil] at hread
    rw [hread, readDigits]
    omega

/-- A printed number behind another one continues its digits. -/
theorem Numeral.append_printNat {s : CStr} {m : ℕ} (hs : Numeral s m) (n : ℕ) :
    Numeral (s ++ printNat n) (m * 10 ^ (printNat n).length + n) where
  ne_nil := by simp [hs.ne_nil]
  digits b hb := (List.mem_append.mp hb).elim (hs.digits b) isDigit_of_mem_printNat
  value := by
    have hread := @readDigits_printNat_append n m []
    rw [List.append_nil] at hread
    rw [readDigits_append hs.digits, hs.value, hread, readDigits]

/-- `atoi` reads a number up to the byte that ends it. -/
theorem atoi_numeral_append {s : CStr} {n : ℕ} (hs : Numeral s n) (hn : IsInt n) {t : CStr}
    (ht : ∀ b ∈ t.head?, isDigit b = false) : atoi (s ++ t) = n := by
  have hread : readDigits 0 (s ++ t) = n := by
    rw [readDigits_append hs.digits, hs.value, readDigits_of_not_digit _ ht]
  obtain ⟨b, s, rfl⟩ := List.exists_cons_of_ne_nil hs.ne_nil
  obtain ⟨h₁, h₂, h₃⟩ := isDigit_bounds (hs.digits b List.mem_cons_self)
  unfold atoi
  rw [List.cons_append, List.dropWhile_cons_of_neg (by simp [h₁])]
  simp only [h₂, h₃, ite_false]
  rw [← List.cons_append, hread, saturate_of_isInt hn]

/-- `atoi` reads back a printed natural number up to the byte that ends it. -/
theorem atoi_printNat_append {n : ℕ} (hn : IsInt n) {s : CStr}
    (hs : ∀ b ∈ s.head?, isDigit b = false) : atoi (printNat n ++ s) = n :=
  atoi_numeral_append (numeral_printNat n) hn hs

theorem atoi_printNat {n : ℕ} (hn : IsInt n) : atoi (printNat n) = n := by
  have hread := @atoi_printNat_append n hn [] (by simp)
  rwa [List.append_nil] at hread

/-- `atoi` inverts `%d` on every `int`. -/
theorem atoi_printInt_append {v : ℤ} (hv : IsInt v) {s : CStr}
    (hs : ∀ b ∈ s.head?, isDigit b = false) : atoi (printInt v ++ s) = v := by
  cases v with
  | ofNat n => exact atoi_printNat_append hv hs
  | negSucc n =>
      have hread : readDigits 0 (printNat (n + 1) ++ s) = n + 1 := by
        rw [readDigits_printNat_append, readDigits_of_not_digit _ hs]
        omega
      have hv' : IsInt (-((n + 1 : ℕ) : ℤ)) := by simpa [Int.negSucc_eq] using hv
      unfold atoi
      rw [printInt, List.cons_append, List.dropWhile_cons_of_neg (by decide)]
      simp only [ite_true]
      rw [hread, saturate_of_isInt hv', Int.negSucc_eq]
      push_cast
      ring

theorem atoi_printInt {v : ℤ} (hv : IsInt v) : atoi (printInt v) = v := by
  have hread := @atoi_printInt_append v hv [] (by simp)
  rwa [List.append_nil] at hread

/-- `atoi` stops at the separator that follows a printed number. -/
theorem atoi_printInt_cons {v : ℤ} (hv : IsInt v) {c : Byte} (hc : isDigit c = false) (s : CStr) :
    atoi (printInt v ++ c :: s) = v :=
  atoi_printInt_append hv (by simpa using hc)

/-- `atoi` reads a number with leading zeros up to the separator behind it. -/
theorem atoi_digits_cons {s : CStr} (hne : s ≠ []) (h : ∀ b ∈ s, isDigit b = true)
    (hs : IsInt (readDigits 0 s)) {c : Byte} (hc : isDigit c = false) (t : CStr) :
    atoi (s ++ c :: t) = readDigits 0 s :=
  atoi_numeral_append ⟨hne, h, rfl⟩ hs (by simpa using hc)

theorem readDigits_append_cons {c : Byte} (hc : isDigit c = false) (acc : ℕ) (s t : CStr) :
    readDigits acc (s ++ c :: t) = readDigits acc s := by
  induction s generalizing acc with
  | nil => simp [readDigits, hc]
  | cons b s ih => rw [List.cons_append, readDigits, readDigits, ih]

/-- `atoi` reads nothing of what follows a byte that neither begins nor continues a number. -/
theorem atoi_append_cons {c : Byte} (hdigit : isDigit c = false) (hspace : isSpace c = false)
    (hminus : c ≠ chr '-') (hplus : c ≠ chr '+') (s t : CStr) :
    atoi (s ++ c :: t) = atoi s := by
  have hstop : (c :: t).dropWhile isSpace = c :: t :=
    List.dropWhile_cons_of_neg (by simp [hspace])
  unfold atoi
  rw [List.dropWhile_append, hstop]
  cases hs : s.dropWhile isSpace with
  | nil => simp [hminus, hplus, readDigits, hdigit, saturate, intMin, intMax]
  | cons b u =>
      simp only [List.isEmpty_cons, Bool.false_eq_true, ite_false, List.cons_append]
      rw [readDigits_append_cons hdigit, ← List.cons_append, readDigits_append_cons hdigit]

/-- No separator occurs in a printed number. -/
theorem not_mem_printNat {c : Byte} (hc : isDigit c = false) (n : ℕ) : c ∉ printNat n := by
  intro h
  simp [isDigit_of_mem_printNat h] at hc

theorem not_mem_printInt {c : Byte} (hc : isDigit c = false) (hm : c ≠ chr '-') (v : ℤ) :
    c ∉ printInt v := by
  cases v with
  | ofNat n => exact not_mem_printNat hc n
  | negSucc n => simp [printInt, hm, not_mem_printNat hc (n + 1)]

theorem printInt_ne_nil (v : ℤ) : printInt v ≠ [] := by
  cases v with
  | ofNat n => exact printNat_ne_nil n
  | negSucc n => simp [printInt]

/-- A 32-bit `int` prints in at most eleven characters. -/
theorem length_printInt_le {v : ℤ} (hv : IsInt v) : (printInt v).length ≤ 11 := by
  simp only [IsInt, intMin, intMax] at hv
  cases v with
  | ofNat n =>
      have : n < 10 ^ 10 := by
        have := hv.2
        simp only [Int.ofNat_eq_natCast] at this
        omega
      exact (length_printNat_le (by omega) this).trans (by omega)
  | negSucc n =>
      have : n + 1 < 10 ^ 10 := by
        have := hv.1
        simp only [Int.negSucc_eq] at this
        omega
      have := length_printNat_le (by omega) this
      simp only [printInt, List.length_cons]
      omega

/-! ## Texts made of pieces -/

theorem length_flatMap_le {α : Type*} {piece : α → CStr} {k : ℕ} {xs : List α}
    (h : ∀ x ∈ xs, (piece x).length ≤ k) : (xs.flatMap piece).length ≤ k * xs.length := by
  induction xs with
  | nil => simp
  | cons x xs ih =>
      have hx := h x List.mem_cons_self
      have hrest := ih fun y hy => h y (List.mem_cons_of_mem _ hy)
      rw [List.flatMap_cons, List.length_append, List.length_cons, Nat.mul_succ]
      omega

theorem length_flatMap_eq {α : Type*} {piece : α → CStr} {k : ℕ}
    (h : ∀ x, (piece x).length = k) (xs : List α) : (xs.flatMap piece).length = k * xs.length := by
  induction xs with
  | nil => simp
  | cons x xs ih =>
      rw [List.flatMap_cons, List.length_append, h, ih, List.length_cons, Nat.mul_succ,
        Nat.add_comm]

end CLib
