import BcmUtils.Foundation.Joined
import BcmUtils.Model.VlanLists

/-! # The items of a VLAN list

What one row of `check_vlan_include` answers, and the rounds over rows that hold one item
each. -/

namespace BcmUtils.VlanLists

open CLib

/-- An item of a list: one id, or the ids from `lo` to `hi`. -/
inductive VlanItem
  | number (id : ℕ)
  | range (lo hi : ℕ)
  deriving DecidableEq

namespace VlanItem

def lo : VlanItem → ℕ
  | number id => id
  | range lo _ => lo

def hi : VlanItem → ℕ
  | number id => id
  | range _ hi => hi

/-- The id is one of those that the item lists. -/
def Lists (x : VlanItem) (v : ℤ) : Prop := x.lo ≤ v ∧ v ≤ x.hi

/-- The item is a range that begins behind the id. -/
def Above (v : ℤ) : VlanItem → Prop
  | number _ => False
  | range lo _ => v < lo

instance (x : VlanItem) (v : ℤ) : Decidable (x.Lists v) := inferInstanceAs (Decidable (_ ∧ _))

instance (v : ℤ) : (x : VlanItem) → Decidable (x.Above v)
  | number _ => inferInstanceAs (Decidable False)
  | range lo _ => inferInstanceAs (Decidable (v < lo))

/-- The bounds that a list may name. -/
structure Valid (x : VlanItem) : Prop where
  one_le : 1 ≤ x.lo
  lo_le_hi : x.lo ≤ x.hi
  hi_le : x.hi ≤ 4094

/-- The text is the item, in digits. -/
def Denotes (s : CStr) : VlanItem → Prop
  | number id => Numeral s id
  | range lo hi => ∃ a b, s = a ++ chr '-' :: b ∧ Numeral a lo ∧ Numeral b hi

/-- The item as it is printed. -/
def text : VlanItem → CStr
  | number id => printNat id
  | range lo hi => printNat lo ++ chr '-' :: printNat hi

theorem denotes_text (x : VlanItem) : x.Denotes x.text := by
  cases x with
  | number id => exact numeral_printNat id
  | range lo hi => exact ⟨_, _, rfl, numeral_printNat lo, numeral_printNat hi⟩

/-- What a round answers for a row that holds the item, with the upper bound `max`. -/
def answer (v : ℤ) (max : ℕ) : VlanItem → Option ℤ
  | number id => if v = id then some 1 else none
  | range lo _ => if v < lo then some 0 else if v ≤ max then some 1 else none

/-- The upper bound with which a round answers: that of a number is the number. -/
def Bounded (x : VlanItem) (max : ℕ) : Prop := ∀ id, x = .number id → max = id

theorem bounded_hi (x : VlanItem) : x.Bounded x.hi := by
  rintro id rfl
  rfl

variable {x : VlanItem} {max : ℕ} {v : ℤ}

theorem answer_of_le (hx : x.Bounded max) (hlo : x.lo ≤ v) (hmax : v ≤ max) :
    x.answer v max = some 1 := by
  cases x with
  | number id =>
      obtain rfl := hx id rfl
      exact if_pos (le_antisymm hmax hlo)
  | range lo hi =>
      change (lo : ℤ) ≤ v at hlo
      rw [answer, if_neg (not_lt.mpr hlo), if_pos hmax]

theorem lt_of_above (hx : x.Above v) : v < x.lo := by
  cases x with
  | number id => exact hx.elim
  | range lo hi => exact hx

theorem answer_of_above (hx : x.Above v) : x.answer v max = some 0 := by
  cases x with
  | number id => exact hx.elim
  | range lo hi => exact if_pos hx

theorem answer_of_passed (hx : x.Bounded max) (habove : ¬ x.Above v)
    (hout : ¬ (x.lo ≤ v ∧ v ≤ max)) : x.answer v max = none := by
  cases x with
  | number id =>
      obtain rfl := hx id rfl
      exact if_neg fun h => hout ⟨h.ge, h.le⟩
  | range lo hi =>
      have hlo : (lo : ℤ) ≤ v := not_lt.mp habove
      rw [answer, if_neg (not_lt.mpr hlo), if_neg fun h => hout ⟨hlo, h⟩]

theorem answer_eq_none_iff : x.answer v x.hi = none ↔ ¬ (x.Lists v ∨ x.Above v) := by
  by_cases hlists : x.Lists v
  · simp [answer_of_le x.bounded_hi hlists.1 hlists.2, hlists]
  · by_cases habove : x.Above v
    · simp [answer_of_above habove, habove]
    · simp [answer_of_passed x.bounded_hi habove hlists, hlists, habove]

end VlanItem

/-! ## One row -/

theorem not_mem_numeral {s : CStr} {n : ℕ} (hs : Numeral s n) {c : Byte}
    (hc : isDigit c = false) : c ∉ s := fun h => by
  simp [hs.digits c h] at hc

theorem vlanIncludeRow_number {s : CStr} {id : ℕ} (hs : Numeral s id) (hid : IsInt id) (v : ℤ) :
    vlanIncludeRow v s = if v = id then some 1 else none := by
  have hread := atoi_numeral_append hs hid (t := []) (by simp)
  rw [List.append_nil] at hread
  rw [vlanIncludeRow, strchr_eq_none.mpr (not_mem_numeral hs (by decide)), hread]

/-- The text of an item has no other bytes than digits and the hyphen. -/
theorem not_mem_denotes {s : CStr} {x : VlanItem} (hs : x.Denotes s) {c : Byte}
    (hc : isDigit c = false) (hm : c ≠ chr '-') : c ∉ s := by
  cases x with
  | number id => exact not_mem_numeral hs hc
  | range lo hi =>
      obtain ⟨a, b, rfl, ha, hb⟩ := hs
      simp [not_mem_numeral ha hc, hm, not_mem_numeral hb hc]

/-- The bounds of a range are the numbers on the two sides of its hyphen. -/
theorem vlanIncludeRow_range {a b t : CStr} {lo max : ℕ} (ha : Numeral a lo) (hb : Numeral b max)
    (hlo : IsInt lo) (hmax : IsInt max) (ht : ∀ c ∈ t.head?, isDigit c = false) (v : ℤ) :
    vlanIncludeRow v (a ++ chr '-' :: (b ++ t)) =
      if v < lo then some 0 else if v ≤ max then some 1 else none := by
  have hmin := atoi_numeral_append ha hlo (t := chr '-' :: (b ++ t)) (by simp [isDigit, chr])
  have hstop := atoi_numeral_append hb hmax ht
  rw [vlanIncludeRow, strchr_append_cons (not_mem_numeral ha (by decide)), hmin]
  simp only [List.tail_cons, hstop]

theorem itemRange_number {s : CStr} {id : ℕ} (hs : Numeral s id) (hid : IsInt id) :
    itemRange s = ((id : ℤ), (id : ℤ)) := by
  have hread := atoi_numeral_append hs hid (t := []) (by simp)
  rw [List.append_nil] at hread
  rw [itemRange, strchr_eq_none.mpr (not_mem_numeral hs (by decide)), hread]

theorem itemRange_range {a b : CStr} {lo hi : ℕ} (ha : Numeral a lo) (hb : Numeral b hi)
    (hlo : IsInt lo) (hhi : IsInt hi) : itemRange (a ++ chr '-' :: b) = ((lo : ℤ), (hi : ℤ)) := by
  have hmin := atoi_numeral_append ha hlo (t := chr '-' :: b) (by simp [isDigit, chr])
  have hmax := atoi_numeral_append hb hhi (t := []) (by simp)
  rw [List.append_nil] at hmax
  rw [itemRange, strchr_append_cons (not_mem_numeral ha (by decide)), hmin]
  simp only [List.tail_cons, hmax]

/-- The bounds of a row that holds an item are those of the item. -/
theorem itemRange_denotes {s : CStr} {x : VlanItem} (hs : x.Denotes s) (hlo : IsInt x.lo)
    (hhi : IsInt x.hi) : itemRange s = ((x.lo : ℤ), (x.hi : ℤ)) := by
  cases x with
  | number id => exact itemRange_number hs hlo
  | range lo hi =>
      obtain ⟨a, b, rfl, ha, hb⟩ := hs
      exact itemRange_range ha hb hlo hhi

/-- Both functions read the row as the item. -/
structure ReadsAs (row : CStr) (x : VlanItem) : Prop where
  answer_eq : ∀ v, vlanIncludeRow v row = x.answer v x.hi
  range_eq : itemRange row = ((x.lo : ℤ), (x.hi : ℤ))

theorem isInt_of_le {n : ℕ} (h : n ≤ 2147483647) : IsInt n := by
  simp only [IsInt, intMin, intMax]
  omega

theorem readsAs_of_denotes {s : CStr} {x : VlanItem} (hs : x.Denotes s) (hx : x.Valid) :
    ReadsAs s x := by
  obtain ⟨-, hle, hhi⟩ := hx
  have hmax : IsInt x.hi := isInt_of_le (hhi.trans (by norm_num))
  have hmin : IsInt x.lo := isInt_of_le ((hle.trans hhi).trans (by norm_num))
  refine ⟨?_, itemRange_denotes hs hmin hmax⟩
  intro v
  cases x with
  | number id => exact vlanIncludeRow_number hs hmin v
  | range lo hi =>
      obtain ⟨a, b, rfl, ha, hb⟩ := hs
      have hrow := vlanIncludeRow_range ha hb hmin hmax (t := []) (by simp) v
      rwa [List.append_nil] at hrow

/-- The row of an empty list is read as the number zero. -/
theorem readsAs_nil : ReadsAs [] (.number 0) :=
  ⟨fun _ => rfl, rfl⟩

/-! ## The rows of a list -/

section

variable {entries : List (CStr × VlanItem)}

/-- The items as the functions read them. The empty string is read as zero. -/
def readItems (entries : List (CStr × VlanItem)) : List VlanItem :=
  if entries = [] then [.number 0] else entries.map Prod.snd

theorem splitOn_entries (h : ∀ e ∈ entries, e.2.Denotes e.1) :
    ([chr ','].intercalate (entries.map Prod.fst)).splitOn (chr ',') =
      if entries = [] then [[]] else entries.map Prod.fst := by
  split
  next hempty => simp [hempty]
  next hempty =>
    exact splitOn_intercalate_map hempty fun e he =>
      not_mem_denotes (h e he) (by decide) (by decide)

theorem length_splitOn_entries_le (h : ∀ e ∈ entries, e.2.Denotes e.1) {n : ℕ} (hn : 1 ≤ n)
    (hcount : entries.length ≤ n) :
    (([chr ','].intercalate (entries.map Prod.fst)).splitOn (chr ',')).length ≤ n := by
  rw [splitOn_entries h]
  split
  next => exact hn
  next => simpa using hcount

theorem mem_splitOn_entries (h : ∀ e ∈ entries, e.2.Denotes e.1) {n : ℕ}
    (hlen : ∀ e ∈ entries, e.1.length ≤ n) {row : CStr}
    (hrow : row ∈ ([chr ','].intercalate (entries.map Prod.fst)).splitOn (chr ',')) :
    row.length ≤ n ∧ (0 : Byte) ∉ row := by
  rw [splitOn_entries h] at hrow
  split at hrow
  next =>
    obtain rfl := List.mem_singleton.mp hrow
    exact ⟨Nat.zero_le n, List.not_mem_nil⟩
  next =>
    obtain ⟨e, he, rfl⟩ := List.mem_map.mp hrow
    exact ⟨hlen e he, not_mem_denotes (h e he) (by decide) (by decide)⟩

theorem readsAs_entries (h : ∀ e ∈ entries, e.2.Denotes e.1) (hvalid : ∀ e ∈ entries, e.2.Valid) :
    List.Forall₂ ReadsAs (([chr ','].intercalate (entries.map Prod.fst)).splitOn (chr ','))
      (readItems entries) := by
  rw [splitOn_entries h, readItems]
  split
  next => exact .cons readsAs_nil .nil
  next =>
    rw [List.forall₂_map_left_iff, List.forall₂_map_right_iff, List.forall₂_same]
    exact fun e he => readsAs_of_denotes (h e he) (hvalid e he)

/-- The bounds of an item that is read. -/
theorem readItems_bounds (hvalid : ∀ e ∈ entries, e.2.Valid) {x : VlanItem}
    (h : x ∈ readItems entries) : x.lo ≤ x.hi ∧ x.hi ≤ 4094 := by
  rw [readItems] at h
  split at h
  next =>
    obtain rfl := List.mem_singleton.mp h
    exact ⟨le_refl 0, Nat.zero_le _⟩
  next =>
    obtain ⟨e, he, rfl⟩ := List.mem_map.mp h
    exact ⟨(hvalid e he).lo_le_hi, (hvalid e he).hi_le⟩

end

/-! ## The rounds -/

/-- The rounds over rows that hold one text each, and what the loop goes on with. -/
theorem vlanIncludeLoop_rows {rows : List CStr} {items : List VlanItem}
    (hread : List.Forall₂ ReadsAs rows items)
    (hrow : ∀ row ∈ rows, row.length < 8 ∧ (0 : Byte) ∉ row) (v : ℤ) (n : ℕ)
    (post : List Byte) {j : ℕ} {pre : List Byte} (hpre : pre.length = j * 8) :
    vlanIncludeLoop v (pre ++ (rows.flatMap (padRow 8) ++ post)) j (rows.length + n) =
      match items.findSome? (fun x => x.answer v x.hi) with
      | some ret => some ret
      | none =>
          vlanIncludeLoop v (pre ++ (rows.flatMap (padRow 8) ++ post)) (j + rows.length) n := by
  induction hread generalizing j pre with
  | nil => simp
  | @cons row x rows items hx hread ih =>
      obtain ⟨hlen, hz⟩ := hrow row (by simp)
      have hfirst := readStr_padRow hlen hz pre (rows.flatMap (padRow 8) ++ post)
      have hstart : (pre ++ padRow 8 row).length = (j + 1) * 8 := by
        rw [List.length_append, length_padRow hlen, hpre, Nat.add_mul, Nat.one_mul]
      have hnext := ih (fun y hy => hrow y (List.mem_cons_of_mem _ hy)) hstart
      rw [hpre] at hfirst
      rw [List.append_assoc] at hnext
      rw [List.flatMap_cons, List.append_assoc, List.length_cons, Nat.add_right_comm,
        vlanIncludeLoop, hfirst]
      simp only [Option.bind_eq_bind, Option.bind_some, hx.answer_eq v, List.findSome?_cons]
      cases x.answer v x.hi with
      | some ret => rfl
      | none =>
          simp only
          rw [hnext, Nat.add_right_comm j 1 rows.length, Nat.add_assoc j rows.length 1]

/-- The function answers for short texts what the rounds answer for the items. -/
theorem checkVlanInclude_rows {s : CStr} {items : List VlanItem}
    (hread : List.Forall₂ ReadsAs (s.splitOn (chr ',')) items)
    (hrow : ∀ row ∈ s.splitOn (chr ','), row.length < 8 ∧ (0 : Byte) ∉ row)
    (hcount : (s.splitOn (chr ',')).length ≤ 256) (v : ℤ) :
    checkVlanInclude v s = some ((items.findSome? fun x => x.answer v x.hi).getD 0) := by
  have hstart : ([] : List Byte).length = 0 * 8 := by simp
  have hwrite := writeRows_eq (s.splitOn (chr ',')) (fun x h => (hrow x h).1) hstart hcount
  have hloop := vlanIncludeLoop_rows hread hrow v 0
    (List.replicate ((256 - (s.splitOn (chr ',')).length) * 8) 0) hstart
  rw [List.nil_append] at hwrite hloop
  rw [checkVlanInclude]
  refine (bind_of_eq hwrite _).trans (hloop.trans ?_)
  cases items.findSome? fun x => x.answer v x.hi with
  | none => rfl
  | some ret => rfl

/-- An item lists the id, and no range before it begins behind the id. -/
def Shown (v : ℤ) (items : List VlanItem) : Prop :=
  ∃ pre x post, items = pre ++ x :: post ∧ x.Lists v ∧ ∀ y ∈ pre, ¬ y.Above v

theorem shown_cons {v : ℤ} {x : VlanItem} {items : List VlanItem} :
    Shown v (x :: items) ↔ x.Lists v ∨ ¬ x.Above v ∧ Shown v items := by
  constructor
  · rintro ⟨pre, y, post, heq, hy, hpre⟩
    cases pre with
    | nil =>
        obtain ⟨rfl, -⟩ := List.cons.inj heq
        exact Or.inl hy
    | cons z pre =>
        obtain ⟨rfl, rfl⟩ := List.cons.inj heq
        exact Or.inr ⟨hpre _ (by simp), pre, y, post, rfl, hy,
          fun w hw => hpre w (List.mem_cons_of_mem _ hw)⟩
  · rintro (hx | ⟨hx, pre, y, post, rfl, hy, hpre⟩)
    · exact ⟨[], x, items, rfl, hx, by simp⟩
    · refine ⟨x :: pre, y, post, rfl, hy, ?_⟩
      simpa using ⟨hx, hpre⟩

theorem findSome_answer_eq_one_iff (v : ℤ) (items : List VlanItem) :
    (items.findSome? fun x => x.answer v x.hi).getD 0 = 1 ↔ Shown v items := by
  induction items with
  | nil => simp [Shown]
  | cons x items ih =>
      rw [shown_cons, List.findSome?_cons]
      by_cases hlists : x.Lists v
      · simp [VlanItem.answer_of_le x.bounded_hi hlists.1 hlists.2, hlists]
      · by_cases habove : x.Above v
        · simp [VlanItem.answer_of_above habove, hlists, habove]
        · simp [VlanItem.answer_of_passed x.bounded_hi habove hlists, hlists, habove, ih]

end BcmUtils.VlanLists
