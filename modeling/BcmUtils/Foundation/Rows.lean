import BcmUtils.Foundation.Memory

/-! # Texts that outgrow their rows

Texts copied into the rows of a table one after the other, each at most one byte longer than
its row. The next text covers that byte, and a row without a terminator is read on into the
next one. -/

namespace CLib

variable (width : ℕ)

/-- A row with the start of a text and the zeros behind it. -/
def cutRow (x : CStr) : List Byte := x.take width ++ List.replicate (width - x.length) 0

/-- The rows of the texts, the last text in full, and `z` zeros. -/
def flatRows (z : ℕ) : List CStr → List Byte
  | [] => List.replicate z 0
  | [x] => x ++ List.replicate z 0
  | x :: y :: xs => cutRow width x ++ flatRows z (y :: xs)

/-- The bytes from the first row to the end of the last text. -/
def rowSpan : List CStr → ℕ
  | [] => 0
  | [x] => x.length
  | _ :: y :: xs => width + rowSpan (y :: xs)

/-- The string at the start of the first row. -/
def rowText : List CStr → CStr
  | [] => []
  | [x] => x
  | x :: y :: xs => if x.length < width then x else x.take width ++ rowText (y :: xs)

variable {width : ℕ}

theorem length_cutRow (x : CStr) : (cutRow width x).length = width := by
  simp only [cutRow, List.length_append, List.length_take, List.length_replicate]
  omega

theorem length_flatMap_cutRow (xs : List CStr) :
    (xs.flatMap (cutRow width)).length = xs.length * width := by
  rw [length_flatMap_eq length_cutRow, Nat.mul_comm]

theorem take_append_zeros {x : CStr} {k : ℕ} (h : width ≤ x.length + k) :
    (x ++ List.replicate k 0).take width = cutRow width x := by
  rw [List.take_append, List.take_replicate, cutRow]
  congr 2
  omega

/-- A copy to the start of a block whose bytes behind the first one are zero. -/
theorem writeAt_zeros {pre rest x : List Byte} {n : ℕ} (hlen : rest.length = n)
    (hzero : rest.drop 1 = List.replicate (n - 1) 0) (hx : x ≠ []) :
    writeAt pre.length x (pre ++ rest) =
      if x.length ≤ n then some (pre ++ (x ++ List.replicate (n - x.length) 0)) else none := by
  have hpos := List.length_pos_iff.mpr hx
  split
  next hfits =>
    have hdrop : rest.drop x.length = List.replicate (n - x.length) 0 := by
      obtain ⟨k, hk⟩ := Nat.exists_eq_add_of_lt hpos
      rw [hk, Nat.zero_add, Nat.add_comm, ← List.drop_drop, hzero, List.drop_replicate]
      congr 1
      omega
    have hwrite := @writeAt_append pre x (rest.take x.length) (rest.drop x.length)
      (by rw [List.length_take]; omega)
    rwa [List.take_append_drop, hdrop] at hwrite
  next hover =>
    rw [writeAt, if_neg]
    rw [List.length_append]
    omega

theorem rowSpan_pos {xs : List CStr} (hne : xs ≠ []) (hx : ∀ x ∈ xs, x ≠ []) :
    0 < rowSpan width xs := by
  induction xs with
  | nil => exact absurd rfl hne
  | cons x xs ih =>
      cases xs with
      | nil => exact List.length_pos_iff.mpr (hx x (by simp))
      | cons y xs =>
          have hrest := ih (by simp) fun z hz => hx z (List.mem_cons_of_mem _ hz)
          rw [rowSpan]
          omega

/-- All rows but the last one are full. -/
theorem lt_rowSpan {xs : List CStr} (hne : xs ≠ []) (hx : ∀ x ∈ xs, x ≠ []) :
    (xs.length - 1) * width < rowSpan width xs := by
  induction xs with
  | nil => exact absurd rfl hne
  | cons x xs ih =>
      cases xs with
      | nil => simpa [rowSpan] using List.length_pos_iff.mpr (hx x (by simp))
      | cons y ys =>
          have hrest := ih (by simp) fun z hz => hx z (List.mem_cons_of_mem _ hz)
          simp only [List.length_cons, Nat.add_sub_cancel] at hrest ⊢
          rw [rowSpan, Nat.add_mul, Nat.one_mul]
          omega

/-- The copies stand in the table as `flatRows`, or the last one does not fit. -/
theorem writeRows_flatRows {xs : List CStr} (hne : xs ≠ [])
    (hx : ∀ x ∈ xs, x ≠ [] ∧ x.length ≤ width + 1) {i free : ℕ} {pre rest : List Byte}
    (hpre : pre.length = i * width) (hlen : rest.length = free * width)
    (hzero : rest.drop 1 = List.replicate (free * width - 1) 0) :
    writeRows width i xs (pre ++ rest) =
      if rowSpan width xs ≤ free * width then
        some (pre ++ flatRows width (free * width - rowSpan width xs) xs)
      else none := by
  induction xs generalizing i free pre rest with
  | nil => exact absurd rfl hne
  | cons x xs ih =>
      obtain ⟨hxne, hxlen⟩ := hx x (by simp)
      rw [writeRows, ← hpre, writeAt_zeros hlen hzero hxne]
      cases xs with
      | nil =>
          rw [rowSpan, flatRows]
          split <;> rfl
      | cons y xs =>
          have hxs : ∀ z ∈ y :: xs, z ≠ [] ∧ z.length ≤ width + 1 :=
            fun z hz => hx z (List.mem_cons_of_mem _ hz)
          have hspan := @rowSpan_pos width (y :: xs) (by simp) fun z hz => (hxs z hz).1
          have hxpos := List.length_pos_iff.mpr hxne
          rw [rowSpan]
          by_cases hfits : x.length ≤ free * width
          · obtain ⟨f, rfl⟩ : ∃ f, free = f + 1 := by
              cases free with
              | zero => omega
              | succ f => exact ⟨f, rfl⟩
            rw [Nat.add_mul, Nat.one_mul] at hfits ⊢
            have hblock : x ++ List.replicate (f * width + width - x.length) 0 =
                cutRow width x ++
                  (x ++ List.replicate (f * width + width - x.length) 0).drop width := by
              rw [← take_append_zeros (k := f * width + width - x.length) (by omega),
                List.take_append_drop]
            have hrow : (pre ++ cutRow width x).length = (i + 1) * width := by
              rw [List.length_append, length_cutRow, hpre, Nat.add_mul, Nat.one_mul]
            have hleft :
                ((x ++ List.replicate (f * width + width - x.length) 0).drop width).length =
                  f * width := by
              simp only [List.length_drop, List.length_append, List.length_replicate]
              omega
            have hclear :
                ((x ++ List.replicate (f * width + width - x.length) 0).drop width).drop 1 =
                  List.replicate (f * width - 1) 0 := by
              rw [List.drop_drop, List.drop_append, List.drop_eq_nil_of_le hxlen,
                List.nil_append, List.drop_replicate]
              congr 1
              omega
            have hnext := ih (by simp) hxs hrow hleft hclear
            rw [if_pos hfits, Option.bind_some, hblock, ← List.append_assoc, hnext, flatRows]
            have hspare : f * width + width - (width + rowSpan width (y :: xs)) =
                f * width - rowSpan width (y :: xs) := by omega
            have hiff : width + rowSpan width (y :: xs) ≤ f * width + width ↔
                rowSpan width (y :: xs) ≤ f * width := by omega
            simp only [hspare, hiff, List.append_assoc]
          · rw [if_neg hfits, if_neg (by omega)]
            rfl

theorem rowSpan_append_singleton (xs : List CStr) (x : CStr) :
    rowSpan width (xs ++ [x]) = xs.length * width + x.length := by
  induction xs with
  | nil => simp [rowSpan]
  | cons y xs ih =>
      obtain ⟨z, zs, hz⟩ := List.exists_cons_of_ne_nil (List.concat_ne_nil x xs)
      rw [List.cons_append, hz, rowSpan, ← hz, ih, List.length_cons, Nat.add_mul]
      omega

theorem flatRows_append_singleton (xs : List CStr) (x : CStr) (z : ℕ) :
    flatRows width z (xs ++ [x]) = xs.flatMap (cutRow width) ++ (x ++ List.replicate z 0) := by
  induction xs with
  | nil => rfl
  | cons y xs ih =>
      obtain ⟨w, ws, hw⟩ := List.exists_cons_of_ne_nil (List.concat_ne_nil x xs)
      rw [List.cons_append, hw, flatRows, ← hw, ih, List.flatMap_cons, List.append_assoc]

theorem cutRow_of_lt {x : CStr} (h : x.length < width) : cutRow width x = padRow width x := by
  rw [cutRow, padRow, List.take_of_length_le h.le]

/-- The bytes of the rows from the first one on, as one string and what follows it. -/
theorem flatRows_eq_rowText {xs : List CStr} {z : ℕ} (hz : 0 < z) :
    ∃ post, flatRows width z xs = rowText width xs ++ 0 :: post := by
  have hzeros : List.replicate z (0 : Byte) = 0 :: List.replicate (z - 1) 0 := by
    rw [← List.replicate_succ]
    congr 1
    omega
  induction xs with
  | nil => exact ⟨_, hzeros⟩
  | cons x xs ih =>
      cases xs with
      | nil =>
          rw [flatRows, rowText, hzeros]
          exact ⟨_, rfl⟩
      | cons y xs =>
          obtain ⟨post, hpost⟩ := ih
          rw [flatRows, rowText, cutRow]
          split
          next hshort =>
            rw [List.take_of_length_le hshort.le,
              show width - x.length = width - x.length - 1 + 1 by omega, List.replicate_succ,
              List.append_assoc, List.cons_append]
            exact ⟨_, rfl⟩
          next hlong =>
            rw [Nat.sub_eq_zero_of_le (Nat.not_lt.mp hlong), hpost, List.replicate_zero,
              List.append_nil]
            exact ⟨post, (List.append_assoc _ _ _).symm⟩

/-- A string that fills the block up to its end is not read. -/
theorem readStr_full {s : CStr} (hs : (0 : Byte) ∉ s) (pre : List Byte) :
    readStr pre.length (pre ++ s) = none := by
  simp [readStr, hs]

theorem zero_not_mem_rowText {xs : List CStr} (hx : ∀ x ∈ xs, (0 : Byte) ∉ x) :
    (0 : Byte) ∉ rowText width xs := by
  induction xs with
  | nil => exact List.not_mem_nil
  | cons x xs ih =>
      have hfirst := hx x (by simp)
      cases xs with
      | nil => exact hfirst
      | cons y xs =>
          rw [rowText]
          split
          next => exact hfirst
          next =>
            have hrest := ih fun z hz => hx z (List.mem_cons_of_mem _ hz)
            rw [List.mem_append]
            exact fun h => h.elim (fun h => hfirst (List.mem_of_mem_take h)) hrest

theorem readStr_flatRows {xs : List CStr} (hx : ∀ x ∈ xs, (0 : Byte) ∉ x) {z : ℕ} (hz : 0 < z)
    (pre : List Byte) :
    readStr pre.length (pre ++ flatRows width z xs) = some (rowText width xs) := by
  obtain ⟨post, hpost⟩ := @flatRows_eq_rowText width xs z hz
  rw [hpost]
  exact readStr_append (zero_not_mem_rowText hx)

/-- More texts than rows do not fit. -/
theorem splitRows_eq_none {rows : ℕ} {c : Byte} {s : CStr} (hrows : rows < (s.splitOn c).length)
    (hx : ∀ x ∈ s.splitOn c, x ≠ [] ∧ x.length ≤ width + 1) :
    splitRows rows width c s = none := by
  have hne : s.splitOn c ≠ [] := List.ne_nil_of_length_pos (by omega)
  have hspan := @lt_rowSpan width (s.splitOn c) hne fun x h => (hx x h).1
  have hfull : ¬ rowSpan width (s.splitOn c) ≤ rows * width := by
    have hmul := Nat.mul_le_mul_right width (show rows ≤ (s.splitOn c).length - 1 by omega)
    omega
  have hwrite := @writeRows_flatRows width _ hne hx 0 rows [] (List.replicate (rows * width) 0)
    (by simp) List.length_replicate (by rw [List.drop_replicate])
  rw [List.nil_append, if_neg hfull] at hwrite
  simp only [splitRows, hwrite]
  rfl

end CLib
