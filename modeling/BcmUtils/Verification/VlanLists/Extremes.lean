import BcmUtils.Verification.VlanLists.Agreement
import BcmUtils.Verification.VlanLists.Overrun

/-! # The ids that a VLAN list marks

`str2vlan_info` and `str2vlan` mark the listed ids, whatever the order of the items. The bounds of
the first are the least and the greatest of them. -/

namespace BcmUtils.VlanLists

open CLib

/-! ## The running bounds -/

/-- The lower bound behind a round. -/
def nextMin (tmin : ℤ) (x : VlanItem) : ℤ :=
  if 0 = tmin then x.lo else if x.lo < tmin then x.lo else tmin

/-- The upper bound behind a round. -/
def nextMax (tmax : ℤ) (x : VlanItem) : ℤ :=
  if 0 = tmax then x.hi else if tmax < x.hi then x.hi else tmax

/-- The listed ids. -/
def listed (items : List VlanItem) : Set ℤ := {v | ∃ x ∈ items, x.Lists v}

theorem listed_append (xs ys : List VlanItem) : listed (xs ++ ys) = listed xs ∪ listed ys := by
  ext v
  simp only [listed, List.mem_append, Set.mem_ofPred_eq, Set.mem_union]
  constructor
  · intro h
    obtain ⟨x, hx, hlists⟩ := h
    cases hx with
    | inl hx => exact Or.inl ⟨x, hx, hlists⟩
    | inr hx => exact Or.inr ⟨x, hx, hlists⟩
  · intro h
    cases h with
    | inl h =>
        obtain ⟨x, hx, hlists⟩ := h
        exact ⟨x, Or.inl hx, hlists⟩
    | inr h =>
        obtain ⟨x, hx, hlists⟩ := h
        exact ⟨x, Or.inr hx, hlists⟩

theorem mem_listed_singleton {x : VlanItem} {v : ℤ} : v ∈ listed [x] ↔ x.Lists v := by
  simp [listed]

theorem isLeast_listed_singleton {x : VlanItem} (hx : x.lo ≤ x.hi) :
    IsLeast (listed [x]) (x.lo : ℤ) := by
  constructor
  · exact mem_listed_singleton.mpr ⟨le_rfl, Int.ofNat_le.mpr hx⟩
  · intro v hv
    exact (mem_listed_singleton.mp hv).1

theorem isGreatest_listed_singleton {x : VlanItem} (hx : x.lo ≤ x.hi) :
    IsGreatest (listed [x]) (x.hi : ℤ) := by
  constructor
  · exact mem_listed_singleton.mpr ⟨Int.ofNat_le.mpr hx, le_rfl⟩
  · intro v hv
    exact (mem_listed_singleton.mp hv).2

theorem one_le_of_mem_listed {items : List VlanItem} (h : ∀ x ∈ items, x.Valid) {v : ℤ}
    (hv : v ∈ listed items) : 1 ≤ v := by
  obtain ⟨x, hx, hlists⟩ := hv
  exact (Int.ofNat_le.mpr (h x hx).one_le).trans hlists.1

/-- No id is 0, so that a bound is 0 only in front of the first item. -/
theorem isLeast_foldl_nextMin {items : List VlanItem} (h : ∀ x ∈ items, x.Valid)
    (hne : items ≠ []) : IsLeast (listed items) (items.foldl nextMin 0) := by
  induction items using List.reverseRecOn with
  | nil => contradiction
  | append_singleton init x ih =>
      have hx := isLeast_listed_singleton (h x (by simp)).lo_le_hi
      rw [List.foldl_append, List.foldl_cons, List.foldl_nil]
      by_cases hinit : init = []
      · subst hinit
        exact hx
      · have hvalid : ∀ y ∈ init, y.Valid := fun y hy => h y (List.mem_append_left _ hy)
        have hleast := ih hvalid hinit
        have hpos := one_le_of_mem_listed hvalid hleast.1
        have hmin : nextMin (init.foldl nextMin 0) x = min (init.foldl nextMin 0) (x.lo : ℤ) := by
          rw [nextMin, if_neg (by omega)]
          omega
        rw [hmin, listed_append]
        exact hleast.union hx

theorem isGreatest_foldl_nextMax {items : List VlanItem} (h : ∀ x ∈ items, x.Valid)
    (hne : items ≠ []) : IsGreatest (listed items) (items.foldl nextMax 0) := by
  induction items using List.reverseRecOn with
  | nil => contradiction
  | append_singleton init x ih =>
      have hx := isGreatest_listed_singleton (h x (by simp)).lo_le_hi
      rw [List.foldl_append, List.foldl_cons, List.foldl_nil]
      by_cases hinit : init = []
      · subst hinit
        exact hx
      · have hvalid : ∀ y ∈ init, y.Valid := fun y hy => h y (List.mem_append_left _ hy)
        have hgreatest := ih hvalid hinit
        have hpos := one_le_of_mem_listed hvalid hgreatest.1
        have hmax : nextMax (init.foldl nextMax 0) x = max (init.foldl nextMax 0) (x.hi : ℤ) := by
          rw [nextMax, if_neg (by omega)]
          omega
        rw [hmax, listed_append]
        exact hgreatest.union hx

/-! ## The rounds of `str2vlan_info` -/

/-- One round marks the ids of its item and moves the bounds to them. -/
theorem vlanInfoRow_spec {row : CStr} {x : VlanItem} (hrow : ReadsAs row x) (hle : x.lo ≤ x.hi)
    {info : VlanInfo} (hhi : x.hi < info.value.length) :
    ∃ value, vlanInfoRow info row = some ⟨value, nextMin info.tmin x, nextMax info.tmax x⟩ ∧
      Marked (fun k => x.Lists k) info.value value := by
  obtain ⟨value, hset, hmarked⟩ := setRange_spec hle hhi
  refine ⟨value, ?_, hmarked.congr fun k => by simp [VlanItem.Lists]⟩
  rw [vlanInfoRow, hrow.range_eq]
  exact bind_of_eq hset _

theorem foldlM_vlanInfoRow_spec {rows : List CStr} {items : List VlanItem}
    (hread : List.Forall₂ ReadsAs rows items) (hle : ∀ x ∈ items, x.lo ≤ x.hi)
    (info : VlanInfo) (hhi : ∀ x ∈ items, x.hi < info.value.length) :
    ∃ value, rows.foldlM vlanInfoRow info =
        some ⟨value, items.foldl nextMin info.tmin, items.foldl nextMax info.tmax⟩ ∧
      Marked (fun k => ∃ x ∈ items, x.Lists k) info.value value := by
  induction hread generalizing info with
  | nil => exact ⟨info.value, rfl, (marked_none info.value).congr fun k => by simp⟩
  | @cons row x rows items hx hread ih =>
      obtain ⟨mid, hmid, hmarked⟩ := vlanInfoRow_spec hx (hle x List.mem_cons_self)
        (hhi x List.mem_cons_self)
      have hlen := hmarked.length_eq
      obtain ⟨value, hvalue, hrest⟩ := ih (fun y hy => hle y (List.mem_cons_of_mem _ hy))
        ⟨mid, nextMin info.tmin x, nextMax info.tmax x⟩
        (fun y hy => hlen.symm ▸ hhi y (List.mem_cons_of_mem _ hy))
      refine ⟨value, ?_, (hmarked.trans hrest).congr fun k => by simp⟩
      rw [List.foldlM_cons, bind_of_eq hmid]
      exact hvalue

/-! ## The list -/

/-- A list of at most 128 items in any order, each with its text. A number may have leading zeros
as long as the item fits its row of `str2vlan`. -/
structure IdList where
  entries : List (CStr × VlanItem)
  denotes : ∀ e ∈ entries, e.2.Denotes e.1
  valid : ∀ e ∈ entries, e.2.Valid
  length_le : ∀ e ∈ entries, e.1.length ≤ 15
  count_le : entries.length ≤ 128

namespace IdList

/-- Items as they are printed have at most nine characters. -/
def printed (items : List VlanItem) (valid : ∀ x ∈ items, x.Valid) (count_le : items.length ≤ 128) :
    IdList where
  entries := items.map fun x => (x.text, x)
  denotes e he := by
    obtain ⟨x, -, rfl⟩ := List.mem_map.mp he
    exact x.denotes_text
  valid e he := by
    obtain ⟨x, hx, rfl⟩ := List.mem_map.mp he
    exact valid x hx
  length_le e he := by
    obtain ⟨x, hx, rfl⟩ := List.mem_map.mp he
    exact (VlanItem.length_text_le (valid x hx)).trans (by norm_num)
  count_le := by simpa using count_le

variable (l : IdList)

/-- The list as a string. -/
def text : CStr := [chr ','].intercalate (l.entries.map Prod.fst)

/-- The list names the id. -/
def Lists (v : ℤ) : Prop := ∃ e ∈ l.entries, e.2.Lists v

/-- The index is a listed id, or 0 when there is no item. -/
def Marks (k : ℕ) : Prop := l.Lists k ∨ l.entries = [] ∧ k = 0

theorem listed_items : listed (l.entries.map Prod.snd) = {v | l.Lists v} := by
  ext v
  simp only [listed, Lists, List.mem_map, exists_exists_and_eq_and, Set.mem_ofPred_eq]

theorem exists_readItems_iff (k : ℕ) : (∃ x ∈ readItems l.entries, x.Lists k) ↔ l.Marks k := by
  rw [readItems, Marks, Lists]
  split
  next h =>
    simp only [List.mem_singleton, exists_eq_left, VlanItem.Lists, VlanItem.lo, VlanItem.hi, h,
      List.not_mem_nil, false_and, exists_false, false_or, true_and]
    omega
  next h => simp only [List.mem_map, exists_exists_and_eq_and, h, false_and, or_false]

theorem splitRows_text {rows width : ℕ} (hrows : 128 ≤ rows) (hwidth : 15 < width) :
    splitRows rows width (chr ',') l.text = some (l.text.splitOn (chr ',')) := by
  have hcount : (l.text.splitOn (chr ',')).length ≤ rows :=
    length_splitOn_entries_le l.denotes (by omega) (l.count_le.trans hrows)
  apply splitRows_eq hcount
  intro row hrow
  obtain ⟨hlen, hzero⟩ := mem_splitOn_entries l.denotes l.length_le hrow
  exact ⟨by omega, hzero⟩

theorem str2vlanInfo_text {value : List ℤ} (hvalue : 4094 < value.length) :
    ∃ value', str2vlanInfo l.text value = some (value',
        (readItems l.entries).foldl nextMin 0, (readItems l.entries).foldl nextMax 0) ∧
      Marked l.Marks value value' := by
  obtain ⟨value', hrounds, hmarked⟩ := foldlM_vlanInfoRow_spec (readsAs_entries l.denotes l.valid)
    (fun x hx => (readItems_bounds l.valid hx).1) { value }
    (fun x hx => (readItems_bounds l.valid hx).2.trans_lt hvalue)
  refine ⟨value', ?_, hmarked.congr l.exists_readItems_iff⟩
  rw [str2vlanInfo, bind_of_eq (l.splitRows_text (by norm_num) (by norm_num))]
  exact bind_of_eq hrounds _

theorem str2vlan_text {value total : List ℤ} (hvalue : 4094 < value.length)
    (htotal : 4094 < total.length) :
    ∃ value' total', str2vlan l.text value total = some (value', total') ∧
      Marked l.Marks value value' ∧ Marked l.Marks total total' := by
  obtain ⟨after, hrounds, hmarked⟩ := foldlM_markRange_spec (readsAs_entries l.denotes l.valid)
    (fun x hx => (readItems_bounds l.valid hx).1) (value, total)
    (fun x hx => (readItems_bounds l.valid hx).2.trans_lt hvalue)
    (fun x hx => (readItems_bounds l.valid hx).2.trans_lt htotal)
  have hboth := hmarked.congr l.exists_readItems_iff
  refine ⟨after.1, after.2, ?_, hboth.value, hboth.total⟩
  rw [str2vlan, bind_of_eq (l.splitRows_text (by norm_num) (by norm_num))]
  exact hrounds

end IdList

/-! ## Successive calls -/

/-- Calls of `str2vlan` one after the other, each with its array `value`, and all with the same
array `total`. -/
def str2vlanCalls : List (CStr × List ℤ) → List ℤ → Option (List (List ℤ) × List ℤ)
  | [], total => some ([], total)
  | (input, value) :: calls, total => do
      let (value, total) ← str2vlan input value total
      let (values, total) ← str2vlanCalls calls total
      return (value :: values, total)

theorem str2vlanCalls_spec {calls : List (IdList × List ℤ)}
    (hvalue : ∀ c ∈ calls, 4094 < c.2.length) {total : List ℤ} (htotal : 4094 < total.length) :
    ∃ values total', str2vlanCalls (calls.map fun c => (c.1.text, c.2)) total =
        some (values, total') ∧
      List.Forall₂ (fun c value' => Marked c.1.Marks c.2 value') calls values ∧
      Marked (fun k => ∃ c ∈ calls, c.1.Marks k) total total' := by
  induction calls generalizing total with
  | nil => exact ⟨[], total, rfl, .nil, (marked_none total).congr fun k => by simp⟩
  | cons c calls ih =>
      obtain ⟨value', mid, hcall, hmarked, hmid⟩ := c.1.str2vlan_text
        (hvalue c List.mem_cons_self) htotal
      obtain ⟨values, total', hcalls, hvalues, hrest⟩ := ih
        (fun d hd => hvalue d (List.mem_cons_of_mem _ hd)) (hmid.length_eq.symm ▸ htotal)
      refine ⟨value' :: values, total', ?_, .cons hmarked hvalues,
        (hmid.trans hrest).congr fun k => by simp⟩
      rw [List.map_cons, str2vlanCalls, bind_of_eq hcall]
      exact bind_of_eq hcalls _

/-! ## Both parsers -/

namespace IdList

variable {l : IdList}

/-- The bounds that `str2vlan_info` finds are those of the listed ids. -/
theorem isLeast_isGreatest (h : l.entries ≠ []) :
    IsLeast {v | l.Lists v} ((readItems l.entries).foldl nextMin 0) ∧
      IsGreatest {v | l.Lists v} ((readItems l.entries).foldl nextMax 0) := by
  have hvalid : ∀ x ∈ l.entries.map Prod.snd, x.Valid := by
    intro x hx
    obtain ⟨e, he, rfl⟩ := List.mem_map.mp hx
    exact l.valid e he
  have hne : l.entries.map Prod.snd ≠ [] := by simpa using h
  rw [readItems, if_neg h, ← l.listed_items]
  exact ⟨isLeast_foldl_nextMin hvalid hne, isGreatest_foldl_nextMax hvalid hne⟩

theorem bounds_of_marks {k : ℕ} (hk : l.Marks k) :
    (readItems l.entries).foldl nextMin 0 ≤ k ∧
      (k : ℤ) ≤ (readItems l.entries).foldl nextMax 0 := by
  by_cases h : l.entries = []
  · cases hk with
    | inl hlists =>
        obtain ⟨e, he, -⟩ := hlists
        rw [h] at he
        cases he
    | inr hzero =>
        obtain ⟨-, rfl⟩ := hzero
        rw [readItems, if_pos h]
        exact ⟨le_rfl, le_rfl⟩
  · have hlists : l.Lists k := by
      cases hk with
      | inl hlists => exact hlists
      | inr hzero => exact (h hzero.1).elim
    obtain ⟨hleast, hgreatest⟩ := isLeast_isGreatest h
    exact ⟨hleast.2 hlists, hgreatest.2 hlists⟩

/-- In a zeroed array only marked entries are one. -/
theorem marks_of_marked {n : ℕ} {value : List ℤ}
    (hmarked : Marked l.Marks (List.replicate n 0) value) {k : ℕ} (hk : value[k]? = some 1) :
    l.Marks k := by
  by_contra hnot
  rw [hmarked.unmarked k hnot] at hk
  have hone := List.eq_of_mem_replicate (List.mem_of_getElem? hk)
  omega

end IdList

/-- Both parsers mark the listed ids, the array `total` gathers those of all calls, and the bounds
are the least and the greatest listed id. The empty list is read as the number 0. -/
theorem vlan_list_parsers_mark_listed :
    (∀ (l : IdList) (n : ℕ), 4094 < n → ∃ value mmin mmax,
      str2vlanInfo l.text (List.replicate n 0) = some (value, mmin, mmax) ∧
      Marked l.Marks (List.replicate n 0) value ∧
      (l.entries ≠ [] → IsLeast {v | l.Lists v} mmin ∧ IsGreatest {v | l.Lists v} mmax) ∧
      ∀ k : ℕ, value[k]? = some 1 → mmin ≤ k ∧ (k : ℤ) ≤ mmax) ∧
    ∀ (calls : List (IdList × List ℤ)) (total : List ℤ), (∀ c ∈ calls, 4094 < c.2.length) →
      4094 < total.length → ∃ values total',
        str2vlanCalls (calls.map fun c => (c.1.text, c.2)) total = some (values, total') ∧
        List.Forall₂ (fun c value' => Marked c.1.Marks c.2 value') calls values ∧
        Marked (fun k => ∃ c ∈ calls, c.1.Marks k) total total' := by
  constructor
  · intro l n hn
    have hlen : 4094 < (List.replicate n (0 : ℤ)).length := by rwa [List.length_replicate]
    obtain ⟨value, hinfo, hmarked⟩ := l.str2vlanInfo_text hlen
    refine ⟨value, _, _, hinfo, hmarked, IdList.isLeast_isGreatest, ?_⟩
    intro k hk
    exact IdList.bounds_of_marks (IdList.marks_of_marked hmarked hk)
  · intro calls total hvalue htotal
    exact str2vlanCalls_spec hvalue htotal

theorem valid_tenAndFive : ∀ x ∈ [VlanItem.range 10 20, VlanItem.number 5], x.Valid := by
  intro x hx
  simp only [List.mem_cons, List.not_mem_nil, or_false] at hx
  cases hx with
  | inl hx => exact hx ▸ ⟨by decide, by decide, by decide⟩
  | inr hx => exact hx ▸ ⟨by decide, by decide, by decide⟩

/-- The list `10-20,5`. -/
theorem vlan_list_parsers_mark_listed_two :
    ∃ value mmin mmax, str2vlanInfo (text "10-20,5") (List.replicate 4096 0) =
        some (value, mmin, mmax) ∧
      Marked (IdList.printed _ valid_tenAndFive (by decide)).Marks (List.replicate 4096 0) value ∧
      ((IdList.printed _ valid_tenAndFive (by decide)).entries ≠ [] →
        IsLeast {v | (IdList.printed _ valid_tenAndFive (by decide)).Lists v} mmin ∧
        IsGreatest {v | (IdList.printed _ valid_tenAndFive (by decide)).Lists v} mmax) ∧
      ∀ k : ℕ, value[k]? = some 1 → mmin ≤ k ∧ (k : ℤ) ≤ mmax :=
  vlan_list_parsers_mark_listed.1 (IdList.printed _ valid_tenAndFive (by decide)) 4096
    (by norm_num)

end BcmUtils.VlanLists
