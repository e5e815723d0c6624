import BcmUtils.Verification.PortList.RoundTrip
import BcmUtils.Verification.VlanLists.Items

/-! # What a port list stores

`str2bit` on lists of numbers and ranges in any order. -/

namespace BcmUtils.PortList

open CLib VlanLists

/-- The row holds the item, or it is empty. -/
def RowHolds (row : CStr) : Option VlanItem → Prop
  | none => row = []
  | some x => x.Denotes row ∧ x.lo ≤ 63 ∧ x.hi ≤ 63

/-- A list of rows, each with the item that it holds. -/
structure PortRows (B : Build) where
  entries : List (CStr × Option VlanItem)
  holds : ∀ e ∈ entries, RowHolds e.1 e.2
  length_le : ∀ e ∈ entries, e.1.length ≤ 7
  count_le : entries.length ≤ B.PNUM

section

variable {row : CStr} {item : Option VlanItem}

theorem not_mem_of_rowHolds (h : RowHolds row item) {c : Byte} (hc : isDigit c = false)
    (hm : c ≠ chr '-') : c ∉ row := by
  cases item with
  | none =>
      obtain rfl : row = [] := h
      simp
  | some x => exact not_mem_denotes h.1 hc hm

/-- The bounds of an item, and those of an empty row, which is read as the number zero. -/
def bounds : Option VlanItem → ℤ × ℤ
  | none => (0, 0)
  | some x => (x.lo, x.hi)

theorem itemRange_of_rowHolds (h : RowHolds row item) : itemRange row = bounds item := by
  cases item with
  | none =>
      obtain rfl : row = [] := h
      rfl
  | some x =>
      obtain ⟨hx, hlo, hhi⟩ := h
      exact itemRange_denotes hx (isInt_of_le (by omega)) (isInt_of_le (by omega))

/-- Behind port 0 the bounds of a row are those of what is listed. -/
theorem inRange_of_rowHolds (h : RowHolds row item) {k : ℕ} (hk : 1 ≤ k) :
    ((itemRange row).1 ≤ k ∧ (k : ℤ) ≤ (itemRange row).2) ↔
      ∃ x, item = some x ∧ x.Lists k := by
  rw [itemRange_of_rowHolds h]
  cases item with
  | none =>
      simp only [bounds, reduceCtorEq, false_and, exists_false, iff_false]
      omega
  | some x => simp [bounds, VlanItem.Lists]

theorem snd_itemRange_lt (h : RowHolds row item) : (itemRange row).2 < 64 := by
  rw [itemRange_of_rowHolds h]
  cases item with
  | none => decide
  | some x =>
      have := h.2.2
      simp only [bounds]
      omega

end

namespace PortRows

variable {B : Build} (l : PortRows B)

/-- The list as a string. -/
def text : CStr := [chr ','].intercalate (l.entries.map Prod.fst)

/-- The port is a number of the list, or lies in one of its ranges. -/
def Listed (k : ℕ) : Prop := ∃ e ∈ l.entries, ∃ x, e.2 = some x ∧ x.Lists k

theorem splitOn_text :
    l.text.splitOn (chr ',') = if l.entries = [] then [[]] else l.entries.map Prod.fst := by
  by_cases h : l.entries = []
  · simp [text, h]
  · rw [if_neg h]
    refine splitOn_intercalate_map h ?_
    intro e he
    exact not_mem_of_rowHolds (l.holds e he) (by decide) (by decide)

/-- Each row of the string holds what an entry says, or is the one row of the empty list. -/
theorem rowHolds_of_mem {row : CStr} (h : row ∈ l.text.splitOn (chr ',')) :
    row.length ≤ 7 ∧ ∃ item, RowHolds row item := by
  rw [splitOn_text] at h
  split at h
  · obtain rfl := List.mem_singleton.mp h
    exact ⟨by simp, none, rfl⟩
  · obtain ⟨e, he, rfl⟩ := List.mem_map.mp h
    exact ⟨l.length_le e he, e.2, l.holds e he⟩

theorem exists_row_iff {k : ℕ} (hk : 1 ≤ k) :
    (∃ row ∈ l.text.splitOn (chr ','), (itemRange row).1 ≤ k ∧ (k : ℤ) ≤ (itemRange row).2) ↔
      l.Listed k := by
  rw [splitOn_text, Listed]
  split
  · rename_i hempty
    simp [hempty, itemRange_nil]
    omega
  · simp only [List.mem_map, exists_exists_and_eq_and]
    constructor
    · intro hrow
      obtain ⟨e, he, hrange⟩ := hrow
      exact ⟨e, he, (inRange_of_rowHolds (l.holds e he) hk).mp hrange⟩
    · intro hlisted
      obtain ⟨e, he, hx⟩ := hlisted
      exact ⟨e, he, (inRange_of_rowHolds (l.holds e he) hk).mpr hx⟩

end PortRows

/-- `str2bit` sets the listed ports and no others. -/
theorem str2bit_sets_listed (B : Build) (l : PortRows B) :
    ∃ w, str2bit B l.text = some w ∧ ∀ k, w.getLsbD k = true ↔ 1 ≤ k ∧ l.Listed k := by
  have hcount : (l.text.splitOn (chr ',')).length ≤ B.PNUM := by
    have hone := B.one_le
    have hle := l.count_le
    rw [l.splitOn_text]
    split
    · exact hone
    · rwa [List.length_map]
  obtain ⟨w, hw, hbits⟩ := str2bit_spec B hcount
    (by
      intro row hrow
      obtain ⟨hlen, item, hitem⟩ := l.rowHolds_of_mem hrow
      exact ⟨by omega, not_mem_of_rowHolds hitem (by decide) (by decide)⟩)
    (by
      intro row hrow
      obtain ⟨-, item, hitem⟩ := l.rowHolds_of_mem hrow
      exact snd_itemRange_lt hitem)
  refine ⟨w, hw, ?_⟩
  intro k
  by_cases hk : k < 64
  · rw [hbits k hk, decide_eq_true_eq]
    constructor
    · intro h
      exact ⟨h.1, (l.exists_row_iff h.1).mp h.2⟩
    · intro h
      exact ⟨h.1, (l.exists_row_iff h.1).mpr h.2⟩
  · rw [BitVec.getLsbD_of_ge _ _ (Nat.le_of_not_lt hk)]
    constructor
    · intro hfalse
      cases hfalse
    · intro h
      obtain ⟨-, e, he, x, hx, hlists⟩ := h
      have hholds := l.holds e he
      rw [hx] at hholds
      have hhi := hholds.2.2
      have hle := hlists.2
      omega

end BcmUtils.PortList
