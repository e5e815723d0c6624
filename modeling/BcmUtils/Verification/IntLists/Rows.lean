import BcmUtils.Foundation.Joined
import BcmUtils.Verification.IntLists.Cells

/-! # Rows of integers

`str_to_arr_cfg` stores the cells of a text one behind the other. -/

namespace BcmUtils.IntLists

open CLib

/-! ## Integers and rows as text -/

/-- The text is a decimal number, with a sign or without. -/
inductive IntText : CStr → ℤ → Prop
  | unsigned {s : CStr} {n : ℕ} (h : Numeral s n) : IntText s n
  | plus {s : CStr} {n : ℕ} (h : Numeral s n) : IntText (chr '+' :: s) n
  | minus {s : CStr} {n : ℕ} (h : Numeral s n) : IntText (chr '-' :: s) (-n)

theorem atoi_intText {s : CStr} {v : ℤ} (h : IntText s v) (hv : IsInt v) : atoi s = v := by
  cases h with
  | unsigned h =>
      have hread := atoi_numeral_append h hv (t := []) (by simp)
      rwa [List.append_nil] at hread
  | plus h => simp [atoi, isSpace, chr, h.value, saturate_of_isInt hv]
  | minus h => simp [atoi, isSpace, chr, h.value, saturate_of_isInt hv]

theorem not_mem_intText {c : Byte} (hdigit : isDigit c = false) (hplus : c ≠ chr '+')
    (hminus : c ≠ chr '-') {s : CStr} {v : ℤ} (h : IntText s v) : c ∉ s := by
  have hnumeral : ∀ {t : CStr} {n : ℕ}, Numeral t n → c ∉ t := by
    intro t n ht hc
    rw [ht.digits c hc] at hdigit
    exact absurd hdigit (by decide)
  cases h with
  | unsigned h => exact hnumeral h
  | plus h => simp [hplus, hnumeral h]
  | minus h => simp [hminus, hnumeral h]

/-- A row of integers with their texts. -/
abbrev Row := List { p : CStr × ℤ // IntText p.1 p.2 ∧ IsInt p.2 }

namespace Row

/-- The text of a row. -/
def text (row : Row) : CStr := [chr ','].intercalate (row.map fun p => p.1.1)

/-- The numbers of a row. -/
def values (row : Row) : List ℤ := row.map fun p => p.1.2

theorem not_mem_text (row : Row) : chr ';' ∉ row.text := by
  intro h
  cases mem_intercalate h with
  | inl h => exact absurd h (by decide)
  | inr h =>
      obtain ⟨x, hx, hmem⟩ := h
      obtain ⟨p, -, rfl⟩ := List.mem_map.mp hx
      exact not_mem_intText (by decide) (by decide) (by decide) p.2.1 hmem

/-- A row with as many numbers as are asked for gives the first of them. -/
theorem numbers_text {row : Row} {inner : ℕ} (h : inner ≤ row.length) :
    numbers inner row.text = row.values.take inner := by
  by_cases hnil : row = []
  · have hzero : inner = 0 := by
      rw [hnil, List.length_nil] at h
      omega
    rw [hzero]
    rfl
  · have hcomma : ∀ p ∈ row, chr ',' ∉ p.1.1 := fun p _ =>
      not_mem_intText (by decide) (by decide) (by decide) p.2.1
    have hread : (row.map fun p => p.1.1).map atoi = row.values := by
      rw [List.map_map, values]
      exact List.map_congr_left fun p _ => atoi_intText p.2.1 p.2.2
    rw [numbers, text, splitOn_intercalate_map hnil hcomma, List.map_take, hread]

end Row

/-! ## The cells -/

theorem length_cells_le (inner outer : ℕ) (s : CStr) :
    (cells inner outer s).length ≤ inner * outer := by
  have hrow : ∀ n ∈ ((s.splitOn (chr ';')).take outer).map fun row => (numbers inner row).length,
      n ≤ inner := by
    intro n hn
    obtain ⟨row, -, rfl⟩ := List.mem_map.mp hn
    rw [numbers, List.length_map]
    exact List.length_take_le _ _
  have hsum := List.sum_le_card_nsmul _ inner hrow
  rw [List.length_map, smul_eq_mul] at hsum
  rw [cells, List.length_flatMap, Nat.mul_comm]
  exact hsum.trans (Nat.mul_le_mul_right _ (List.length_take_le _ _))

/-- In a table that is large enough, the rows stand behind each other. -/
theorem getElem?_cells {inner outer : ℕ} {rows : List Row} (houter : outer ≤ rows.length)
    (hinner : ∀ row ∈ rows, inner ≤ row.length) (rest : CStr) {r c : ℕ} (hr : r < outer)
    (hc : c < inner) :
    (cells inner outer ((rows.flatMap fun row => row.text ++ [chr ';']) ++ rest))[r * inner + c]? =
      rows[r]?.bind fun row => row.values[c]? := by
  have hrows : (((rows.flatMap fun row => row.text ++ [chr ';']) ++ rest).splitOn
      (chr ';')).take outer = (rows.take outer).map Row.text := by
    rw [splitOn_terminated fun row _ => Row.not_mem_text row,
      List.take_append_of_le_length (by simpa using houter), List.map_take]
  have hlen : ∀ row ∈ rows.take outer, (numbers inner row.text).length = inner := by
    intro row hrow
    have hle := hinner row (List.mem_of_mem_take hrow)
    rw [Row.numbers_text hle, List.length_take, Row.values, List.length_map]
    omega
  rw [cells, hrows, List.flatMap_map, getElem?_flatMap hlen hc, List.getElem?_take_of_lt hr]
  cases hrow : rows[r]? with
  | none => rfl
  | some row =>
      have hle := hinner row (List.mem_of_getElem? hrow)
      rw [Option.bind_some, Option.bind_some, Row.numbers_text hle, List.getElem?_take_of_lt hc]

/-- `str_to_arr_cfg` stores a prefix of the array, of at most `inner * outer` cells. If the text
starts with enough rows of enough integers, the integer in column `c` of row `r` is in the cell
`r * inner + c`. -/
theorem strToArrCfg_cells (s : CStr) (inner outer : ℕ) :
    ∃ written : List ℤ, written.length ≤ inner * outer ∧
      (∀ arr : List ℤ, written.length ≤ arr.length →
        strToArrCfg (some s) arr inner outer = some (0, written ++ arr.drop written.length)) ∧
      ∀ (rows : List Row) (rest : CStr),
        s = (rows.flatMap fun row => row.text ++ [chr ';']) ++ rest → outer ≤ rows.length →
        (∀ row ∈ rows, inner ≤ row.length) → ∀ r < outer, ∀ c < inner,
          ∃ row ∈ rows[r]?, ∃ v ∈ row.values[c]?, written[r * inner + c]? = some v := by
  refine ⟨cells inner outer s, length_cells_le inner outer s, ?_, ?_⟩
  · intro arr harr
    have hloop := @cfgLoop_spec inner outer s [] (arr.take (cells inner outer s).length)
      (by rw [List.length_take]; omega) (arr.drop (cells inner outer s).length)
    rw [List.nil_append, List.take_append_drop] at hloop
    rw [strToArrCfg, Int.toNat_natCast, Int.toNat_natCast]
    exact bind_of_eq hloop _
  · intro rows rest hs houter hinner r hr c hc
    have hcell := getElem?_cells houter hinner rest hr hc
    have hrow := List.getElem?_eq_getElem (hr.trans_le houter)
    have hle := hinner rows[r] (List.getElem_mem _)
    have hvalue := List.getElem?_eq_getElem
      (by rw [Row.values, List.length_map]; omega : c < (Row.values rows[r]).length)
    rw [← hs, hrow, Option.bind_some, hvalue] at hcell
    exact ⟨rows[r], hrow, _, hvalue, hcell⟩

/-- The rows of `1,-20;3,4;` as texts and numbers. -/
def twoRows : List Row :=
  [[⟨(CLib.text "1", 1), .unsigned (numeral_printNat 1), by decide⟩,
      ⟨(CLib.text "-20", -20), .minus (numeral_printNat 20), by decide⟩],
    [⟨(CLib.text "3", 3), .unsigned (numeral_printNat 3), by decide⟩,
      ⟨(CLib.text "4", 4), .unsigned (numeral_printNat 4), by decide⟩]]

/-- The second integer of the first row is in the second cell. -/
theorem strToArrCfg_cells_two :
    ∃ arr, strToArrCfg (some (CLib.text "1,-20;3,4;")) [0, 0, 0, 0] 2 2 = some (0, arr) ∧
      arr[1]? = some (-20) := by
  obtain ⟨written, hlen, hstored, hcells⟩ := strToArrCfg_cells (CLib.text "1,-20;3,4;") 2 2
  refine ⟨_, hstored [0, 0, 0, 0] hlen, ?_⟩
  obtain ⟨row, hrow, v, hv, hcell⟩ := hcells twoRows [] rfl le_rfl
    (fun row hrow => by
      simp only [twoRows, List.mem_cons, List.not_mem_nil, or_false] at hrow
      rcases hrow with rfl | rfl <;> rfl) 0 (by decide) 1 (by decide)
  obtain rfl := Option.some.inj hrow
  obtain rfl := Option.some.inj hv
  rw [List.getElem?_append_left (List.getElem?_eq_some_iff.mp hcell).1]
  exact hcell

end BcmUtils.IntLists
