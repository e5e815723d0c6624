import BcmUtils.Foundation.Joined
import BcmUtils.Verification.IntLists.Cells

/-! # Integer arrays read back

`arr_to_str_i` ends every number with the delimiter, so `str_to_arr_i` finds an empty piece behind
the last one. It is counted where the array has a cell for it. -/

namespace BcmUtils.IntLists

open CLib

/-- The text of an array. -/
def arrayText (a : List ℤ) : CStr := a.flatMap fun v => printInt v ++ [chr ',']

theorem arrToStrI_eq (a : List ℤ) : arrToStrI a [] (chr ',') a.length = some (arrayText a) := by
  have hprefix : ∀ k ≤ a.length,
      arrToStrI a [] (chr ',') (k : ℕ) = some (arrayText (a.take k)) := by
    intro k hk
    induction k with
    | zero => rfl
    | succ k ih =>
        have hbefore := ih (by omega)
        rw [arrToStrI, Int.toNat_natCast] at hbefore ⊢
        have hnext : arrayText (a.take (k + 1)) = arrayText (a.take k) ++ printInt a[k] ++
            [chr ','] := by
          rw [arrayText, List.take_succ_eq_append_getElem (by omega), List.flatMap_append,
            List.flatMap_singleton, ← List.append_assoc]
          rfl
        have hget := List.getElem?_eq_getElem (by omega : k < a.length)
        rw [List.range_succ, List.foldlM_append, bind_of_eq hbefore, List.foldlM_cons, hnext]
        simp only [hget, Option.bind_eq_bind, Option.bind_some]
        rfl
  have hall := hprefix a.length le_rfl
  rwa [List.take_length] at hall

/-- The reader finds the numbers, and a zero for the empty piece behind them. -/
theorem numbers_arrayText {a : List ℤ} (ha : ∀ v ∈ a, IsInt v) (m : ℕ) :
    numbers m (arrayText a) = (a ++ [0]).take m := by
  have hcomma : ∀ v ∈ a, chr ',' ∉ printInt v := fun v _ =>
    not_mem_printInt (by decide) (by decide) v
  have hsplit := splitOn_terminated hcomma []
  rw [List.append_nil] at hsplit
  have hread : (a.map printInt).map atoi = a := by
    rw [List.map_map]
    exact (List.map_congr_left fun v hv => atoi_printInt (ha v hv)).trans (List.map_id a)
  rw [numbers, arrayText, hsplit, List.map_take, List.map_append, hread]
  rfl

/-- Print the array `a`, and read the text into an array with room for `m` numbers. -/
def readBack (a : List ℤ) (m : ℕ) (arr : List ℤ) : Option (ℤ × Option (List ℤ)) := do
  let s ← arrToStrI a [] (chr ',') a.length
  strToArrI (some s) (some arr) m

/-- The cells are as they were, as far as there are any, and the others are zero. The returned
number counts the empty piece. -/
theorem readBack_eq {a : List ℤ} (ha : ∀ v ∈ a, IsInt v) {m : ℕ} {arr : List ℤ}
    (harr : arr.length = m) :
    readBack a m arr = some (((min m (a.length + 1) : ℕ) : ℤ),
      some (a.take m ++ List.replicate (m - a.length) 0)) := by
  have hlen : (numbers m (arrayText a)).length = min m (a.length + 1) := by
    rw [numbers_arrayText ha, List.length_take, List.length_append, List.length_singleton]
  have hclear := clearCells_eq harr []
  have hsplit : List.replicate m (0 : ℤ) = List.replicate (min m (a.length + 1)) 0 ++
      List.replicate (m - (a.length + 1)) 0 := by
    rw [← List.replicate_add]
    congr 1
    omega
  have hloop := @commaLoop_spec m (arrayText a) [] (List.replicate (min m (a.length + 1)) 0)
    (by rw [List.length_replicate, hlen]) (List.replicate (m - (a.length + 1)) 0)
  rw [List.append_nil, List.append_nil] at hclear
  rw [List.nil_append, ← hsplit, List.nil_append, hlen, List.nil_append, List.length_nil] at hloop
  rw [readBack, bind_of_eq (arrToStrI_eq a)]
  simp only [strToArrI, Int.toNat_natCast]
  rw [bind_of_eq hclear, bind_of_eq hloop]
  have hcells : numbers m (arrayText a) ++ List.replicate (m - (a.length + 1)) 0 =
      a.take m ++ List.replicate (m - a.length) 0 := by
    rw [numbers_arrayText ha]
    by_cases hm : m ≤ a.length
    · have hzero : m - (a.length + 1) = 0 := by omega
      have hzero' : m - a.length = 0 := by omega
      rw [List.take_append_of_le_length hm, hzero, hzero']
    · have hone : m - a.length = m - (a.length + 1) + 1 := by omega
      rw [List.take_of_length_le (by simp; omega), List.take_of_length_le (by omega), hone,
        List.replicate_succ, List.append_assoc, List.singleton_append]
  rw [hcells]
  rfl

/-- What is read back from the text of `a` into `m` cells: all of it with its own count if it fits,
else as much as fits. -/
structure ReadsBack (a : List ℤ) (m : ℕ) : Prop where
  fits : a.length ≤ m → ∀ arr : List ℤ, arr.length = m →
    readBack a m arr = some ((a.length : ℤ), some (a ++ List.replicate (m - a.length) 0))
  short : m < a.length → ∀ arr : List ℤ, arr.length = m →
    readBack a m arr = some ((m : ℤ), some (a.take m))

/-- The array is read back with its own count exactly if there is no spare cell. -/
theorem reads_back_iff {a : List ℤ} (ha : ∀ v ∈ a, IsInt v) (m : ℕ) :
    ReadsBack a m ↔ m ≤ a.length := by
  constructor
  · intro h
    by_contra hm
    have harr : (List.replicate m (0 : ℤ)).length = m := List.length_replicate
    have hfits := h.fits (by omega) _ harr
    rw [readBack_eq ha harr] at hfits
    have hcount := congrArg Prod.fst (Option.some.inj hfits)
    simp only [Nat.cast_inj] at hcount
    omega
  · intro hm
    constructor
    · intro hle arr harr
      obtain rfl : m = a.length := by omega
      rw [readBack_eq ha harr, List.take_length, Nat.min_eq_left (by omega)]
    · intro hlt arr harr
      have hzero : m - a.length = 0 := by omega
      rw [readBack_eq ha harr, Nat.min_eq_left (by omega), hzero, List.replicate_zero,
        List.append_nil]

/-- Two numbers into two cells. -/
theorem reads_back_iff_two : ReadsBack [7, -5] 2 ↔ 2 ≤ [(7 : ℤ), -5].length :=
  reads_back_iff (by decide) 2

/-- One number into two cells is counted as two. -/
theorem reads_back_spare_cell :
    ¬ ∀ (a : List ℤ) (m : ℕ), a ≠ [] → (∀ v ∈ a, IsInt v) → ReadsBack a m := by
  intro h
  have hfits := (h [1] 2 (by decide) (by decide)).fits (by decide) [0, 0] rfl
  revert hfits
  decide

end BcmUtils.IntLists
