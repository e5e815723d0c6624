import BcmUtils.Foundation.CString

/-! # Taking strings apart

`strsep`, `strstr`, `strpbrk`, `strncasecmp` and `sscanf`. A pointer that may be null is an
`Option CStr`. -/

namespace CLib

/-- `strsep(&p, c)`: the text before the first `c`, and the pointer behind it, which is null if
there is no `c`. The token of a null pointer is null, and none of its uses allows that. -/
def strsep (c : Byte) (p : Option CStr) : Option (CStr × Option CStr) :=
  p.map fun s =>
    match strchr c s with
    | none => (s, none)
    | some q => (s.take (s.length - q.length), some q.tail)

/-- `strstr`: the suffix at the first occurrence of `pat`, or the null pointer. -/
def strstr (pat : CStr) : CStr → Option CStr
  | [] => if pat = [] then some [] else none
  | b :: s => if pat.isPrefixOf (b :: s) then some (b :: s) else strstr pat s

/-- `snprintf` of a text into an array of `cap` bytes. -/
def snprintf (cap : ℕ) (s : CStr) : CStr := s.take (cap - 1)

theorem strsep_append_cons {c : Byte} {s : CStr} (h : c ∉ s) (t : CStr) :
    strsep c (some (s ++ c :: t)) = some (s, some t) := by
  simp [strsep, strchr_append_cons h]

/-- The string `s` is the token `tok` alone, or the token, the separator and the string `r`. -/
def Cut (c : Byte) (s tok : CStr) : Option CStr → Prop
  | none => c ∉ tok ∧ s = tok
  | some t => c ∉ tok ∧ s = tok ++ c :: t

/-- `strsep` gives the one way to cut a string. -/
theorem strsep_eq_some_iff {c : Byte} {s tok : CStr} {r : Option CStr} :
    strsep c (some s) = some (tok, r) ↔ Cut c s tok r := by
  constructor
  · intro h
    rw [strsep, Option.map_some, Option.some.injEq] at h
    cases hs : strchr c s with
    | none =>
        rw [hs, Prod.mk.injEq] at h
        obtain ⟨rfl, rfl⟩ := h
        exact ⟨strchr_eq_none.mp hs, rfl⟩
    | some q =>
        obtain ⟨u, rfl, hu, v, rfl⟩ := strchr_eq_some hs
        rw [hs, Prod.mk.injEq] at h
        obtain ⟨rfl, rfl⟩ := h
        simp only [List.length_append, List.tail_cons, Nat.add_sub_cancel, List.take_left]
        exact ⟨hu, rfl⟩
  · intro h
    cases r with
    | none =>
        obtain ⟨htok, rfl⟩ := h
        simp [strsep, strchr_eq_none.mpr htok]
    | some t =>
        obtain ⟨htok, rfl⟩ := h
        exact strsep_append_cons htok t

/-- What `strstr` finds starts with the pattern. -/
theorem strstr_eq_some {pat s q : CStr} (h : strstr pat s = some q) : ∃ t, q = pat ++ t := by
  induction s with
  | nil =>
      rw [strstr] at h
      split at h
      · rename_i hpat
        exact ⟨[], by rw [← Option.some.inj h, hpat]; rfl⟩
      · exact absurd h (by simp)
  | cons b s ih =>
      rw [strstr] at h
      split at h
      · rename_i hpre
        obtain ⟨t, ht⟩ := List.isPrefixOf_iff_prefix.mp hpre
        exact ⟨t, by rw [← Option.some.inj h, ht]⟩
      · exact ih h

theorem strstr_append (pat s : CStr) : strstr pat (pat ++ s) = some (pat ++ s) := by
  cases h : pat ++ s with
  | nil =>
      obtain ⟨rfl, rfl⟩ := List.append_eq_nil_iff.mp h
      rfl
  | cons b t =>
      have hpre : pat.isPrefixOf (b :: t) = true := by
        rw [← h, List.isPrefixOf_iff_prefix]
        exact List.prefix_append pat s
      rw [strstr, if_pos hpre]

/-- Two bounded prints one behind the other are one. -/
theorem snprintf_snprintf_append (cap : ℕ) (s t : CStr) :
    snprintf cap (snprintf cap s ++ t) = snprintf cap (s ++ t) := by
  unfold snprintf
  rw [List.take_append, List.take_append, List.take_take, List.length_take, Nat.min_self]
  congr 2
  omega

theorem snprintf_of_lt {cap : ℕ} {s : CStr} (h : s.length < cap) : snprintf cap s = s :=
  List.take_of_length_le (by omega)

/-- A text outgrows a limit below the size of the array exactly if what is left of it does. -/
theorem lt_length_snprintf {cap n : ℕ} (h : n + 1 < cap) (s : CStr) :
    n < (snprintf cap s).length ↔ n < s.length := by
  rw [snprintf, List.length_take]
  omega

/-! ## Sets of bytes and letter case -/

/-- `strpbrk`: the suffix at the first byte among `accept`, or the null pointer. -/
def strpbrk (accept : CStr) : CStr → Option CStr
  | [] => none
  | b :: s => if b ∈ accept then some (b :: s) else strpbrk accept s

/-- `tolower` in the C locale. -/
def tolower (b : Byte) : Byte := if 65 ≤ b ∧ b ≤ 90 then b + 32 else b

/-- Whether `strncasecmp(s, t, n)` returns 0. -/
def strncasecmp (s t : CStr) (n : ℕ) : Bool := (s.take n).map tolower = (t.take n).map tolower

theorem strpbrk_eq_none {accept s : CStr} : strpbrk accept s = none ↔ ∀ b ∈ s, b ∉ accept := by
  induction s with
  | nil => simp [strpbrk]
  | cons b s ih =>
      by_cases hb : b ∈ accept
      · simp [strpbrk, hb]
      · simp [strpbrk, hb, ih]

theorem exists_strpbrk {accept s : CStr} {b : Byte} (hs : b ∈ s) (hb : b ∈ accept) :
    ∃ q, strpbrk accept s = some q := by
  cases h : strpbrk accept s with
  | none => exact absurd hb (strpbrk_eq_none.mp h b hs)
  | some q => exact ⟨q, rfl⟩

/-- Texts whose first letters differ are not equal. -/
theorem strncasecmp_cons_of_ne {b c : Byte} (h : tolower b ≠ tolower c) (s t : CStr) (n : ℕ) :
    strncasecmp (b :: s) (c :: t) (n + 1) = false := by
  simp [strncasecmp, h]

/-- Only the first `n` bytes are compared. -/
theorem strncasecmp_append {x : CStr} {n : ℕ} (hx : x.length = n) (s t : CStr) :
    strncasecmp (x ++ s) t n = strncasecmp x t n := by
  rw [strncasecmp, strncasecmp, List.take_left' hx, List.take_of_length_le hx.le]

theorem tolower_of_isDigit {b : Byte} (h : isDigit b = true) : tolower b = b := by
  have hle : b.toNat ≤ 57 := by
    simp only [isDigit, Bool.and_eq_true, decide_eq_true_eq] at h
    exact h.2
  rw [tolower, if_neg]
  intro hupper
  have : 65 ≤ b.toNat := hupper.1
  omega

/-! ## Arrays read one element at a time -/

/-- `for (i = 0; i < n; i++) read(&a[i]);` for reads that move a pointer. -/
def readArray {α : Type} (read : Option CStr → Option (α × Option CStr)) :
    (n : ℕ) → Option CStr → Option ({ as : List α // as.length = n } × Option CStr)
  | 0, p => some (⟨[], rfl⟩, p)
  | n + 1, p => do
      let (a, p) ← read p
      let (as, p) ← readArray read n p
      return (⟨a :: as.1, congrArg Nat.succ as.2⟩, p)

/-- Elements that are read back one by one are read back as an array. -/
theorem readArray_flatMap {α : Type} {read : Option CStr → Option (α × Option CStr)}
    {render : α → CStr} {n : ℕ} (as : { as : List α // as.length = n })
    (h : ∀ a ∈ as.1, ∀ t, read (some (render a ++ t)) = some (a, some t)) (t : CStr) :
    readArray read n (some (as.1.flatMap render ++ t)) = some (as, some t) := by
  obtain ⟨as, rfl⟩ := as
  induction as with
  | nil => rfl
  | cons a as ih =>
      have hrest := ih fun b hb => h b (by simp [hb])
      simp only [List.flatMap_cons, List.append_assoc, List.length_cons, readArray,
        h a (by simp), hrest, Option.bind_eq_bind, Option.bind_some]
      rfl

/-! ## Numbers read by `sscanf` -/

def skipSign : CStr → CStr
  | [] => []
  | b :: s => if b = chr '-' ∨ b = chr '+' then s else b :: s

/-- `%d` of `sscanf`: the number and the string behind it, if there is a number. -/
def scanInt (s : CStr) : Option (ℤ × CStr) :=
  match skipSign (s.dropWhile isSpace) with
  | [] => none
  | b :: t => if isDigit b then some (atoi s, (b :: t).dropWhile isDigit) else none

/-- The numbers that `sscanf` assigns for `n` conversions `%d`, each followed by `c`. -/
def scanInts (c : Byte) : ℕ → CStr → List ℤ
  | 0, _ => []
  | n + 1, s =>
      match scanInt s with
      | none => []
      | some (v, []) => [v]
      | some (v, b :: t) => if b = c then v :: scanInts c n t else [v]

theorem scanInt_printInt_cons {v : ℤ} (hv : IsInt v) {c : Byte} (hc : isDigit c = false)
    (t : CStr) :
    scanInt (printInt v ++ c :: t) = some (v, c :: t) := by
  have hnat : ∀ n, ∃ b s, printNat n ++ c :: t = b :: s ∧ isDigit b = true ∧
      (b :: s).dropWhile isDigit = c :: t := by
    intro n
    obtain ⟨b, s, hs⟩ := List.exists_cons_of_ne_nil (printNat_ne_nil n)
    refine ⟨b, s ++ c :: t, by rw [hs, List.cons_append], ?_, ?_⟩
    · exact isDigit_of_mem_printNat (n := n) (by simp [hs])
    · rw [← List.cons_append, ← hs,
        List.dropWhile_append_of_pos fun _ hb => isDigit_of_mem_printNat hb,
        List.dropWhile_cons_of_neg (by simp [hc])]
  have hatoi := atoi_printInt_cons hv hc t
  cases v with
  | ofNat n =>
      obtain ⟨b, s, hs, hb, hrest⟩ := hnat n
      obtain ⟨hspace, hminus, hplus⟩ := isDigit_bounds hb
      rw [printInt, hs] at hatoi ⊢
      rw [scanInt, List.dropWhile_cons_of_neg (by simp [hspace]), skipSign,
        if_neg (by simp [hminus, hplus])]
      simp only [hb, if_true, hatoi, hrest]
  | negSucc n =>
      obtain ⟨b, s, hs, hb, hrest⟩ := hnat (n + 1)
      rw [printInt, List.cons_append, hs] at hatoi ⊢
      rw [scanInt, List.dropWhile_cons_of_neg (by decide), skipSign, if_pos (Or.inl rfl)]
      simp only [hb, if_true, hatoi, hrest]

/-- A printed list of numbers is scanned as it was. -/
theorem scanInts_flatMap {c : Byte} (hc : isDigit c = false) {vs : List ℤ}
    (hvs : ∀ v ∈ vs, IsInt v) :
    scanInts c vs.length (vs.flatMap fun v => printInt v ++ [c]) = vs := by
  induction vs with
  | nil => rfl
  | cons v vs ih =>
      rw [List.flatMap_cons, List.append_assoc, List.singleton_append, List.length_cons, scanInts,
        scanInt_printInt_cons (hvs v (by simp)) hc]
      simp only [if_true, ih fun w hw => hvs w (by simp [hw])]

theorem isInt_atoi (s : CStr) : IsInt (atoi s) := by
  have hsat : ∀ v, IsInt (saturate v) := by
    intro v
    simp only [IsInt, saturate, intMin, intMax]
    omega
  unfold atoi
  split
  · decide
  · split
    · exact hsat _
    · split
      · exact hsat _
      · exact hsat _

theorem isInt_of_mem_scanInts {c : Byte} {n : ℕ} {s : CStr} {v : ℤ} (h : v ∈ scanInts c n s) :
    IsInt v := by
  induction n generalizing s with
  | zero => simp [scanInts] at h
  | succ n ih =>
      rw [scanInts] at h
      cases hs : scanInt s with
      | none => simp [hs] at h
      | some r =>
          obtain ⟨w, rest⟩ := r
          have hw : IsInt w := by
            rw [scanInt] at hs
            split at hs
            · simp at hs
            · split at hs
              · simp only [Option.some.injEq, Prod.mk.injEq] at hs
                exact hs.1 ▸ isInt_atoi s
              · simp at hs
          cases rest with
          | nil =>
              simp only [hs, List.mem_singleton] at h
              exact h ▸ hw
          | cons b t =>
              simp only [hs] at h
              split at h
              · rcases List.mem_cons.mp h with rfl | h
                · exact hw
                · exact ih h
              · exact List.mem_singleton.mp h ▸ hw

end CLib
