import BcmUtils.Foundation.Rows
import BcmUtils.Verification.VlanLists.Items

/-! # Long items of a VLAN list

A range such as `1000-2000` does not fit into a row of eight bytes. The digits of the next item
then continue its upper bound, and the last row of the table runs over its end. -/

namespace BcmUtils.VlanLists

open CLib

namespace VlanItem

/-! ## The length of a text -/

theorem length_printNat_four {n : ℕ} (hn : n ≤ 4094) : (printNat n).length ≤ 4 :=
  length_printNat_le (by norm_num) (by omega)

theorem length_text_le {x : VlanItem} (hx : x.Valid) : x.text.length ≤ 9 := by
  obtain ⟨-, hle, hhi⟩ := hx
  cases x with
  | number id =>
      have hid : (printNat id).length ≤ 4 := length_printNat_four hhi
      change (printNat id).length ≤ 9
      omega
  | range lo hi =>
      have hmin : (printNat lo).length ≤ 4 := length_printNat_four (hle.trans hhi)
      have hmax : (printNat hi).length ≤ 4 := length_printNat_four hhi
      simp only [text, List.length_append, List.length_cons]
      omega

theorem text_ne_nil (x : VlanItem) : x.text ≠ [] := by
  cases x with
  | number id => exact printNat_ne_nil id
  | range lo hi => simp [text]

/-- A text that leaves no room for a terminator is that of a range with a bound of four
digits. -/
theorem long_cases {x : VlanItem} (hx : x.Valid) (hlong : 8 ≤ x.text.length) :
    ∃ lo hi, x = .range lo hi ∧ 1000 ≤ hi ∧ hi ≤ 4094 ∧
      (100 ≤ lo ∧ lo < 1000 ∧ x.text.length = 8 ∨ 1000 ≤ lo ∧ lo ≤ 4094 ∧ x.text.length = 9) := by
  obtain ⟨-, hle, hhi⟩ := hx
  cases x with
  | number id =>
      have hid : (printNat id).length ≤ 4 := length_printNat_four hhi
      change 8 ≤ (printNat id).length at hlong
      omega
  | range lo hi =>
      change lo ≤ hi at hle
      change hi ≤ 4094 at hhi
      have hlen : (text (.range lo hi)).length =
          (printNat lo).length + 1 + (printNat hi).length := by
        simp only [text, List.length_append, List.length_cons]
        omega
      have hmin := length_printNat_four (hle.trans hhi)
      have hmax := length_printNat_four hhi
      have hhi' : 1000 ≤ hi := by
        by_contra hlt
        have := @length_printNat_le hi 3 (by norm_num) (by omega)
        have := @length_printNat_le lo 3 (by norm_num) (by omega)
        omega
      have hlo' : 100 ≤ lo := by
        by_contra hlt
        have := @length_printNat_le lo 2 (by norm_num) (by omega)
        omega
      have hfour := @lt_length_printNat hi 3 hhi'
      have hthree := @lt_length_printNat lo 2 hlo'
      refine ⟨lo, hi, rfl, hhi', hhi, ?_⟩
      by_cases hlt : lo < 1000
      · have := @length_printNat_le lo 3 (by norm_num) hlt
        exact Or.inl ⟨hlo', hlt, by omega⟩
      · have := @lt_length_printNat lo 3 (by omega)
        exact Or.inr ⟨by omega, by omega, by omega⟩

/-! ## Reading a row -/

/-- The upper bound that is read for `x` in front of the item `y`. -/
def readHi (x y : VlanItem) : ℕ :=
  if x.text.length < 8 then x.hi
  else if x.text.length = 8 then x.hi * 10000 + y.lo
  else x.hi / 10 * 10000 + y.lo

/-- The upper bound that is read for `x` in front of the items. -/
def upTo (x : VlanItem) : List VlanItem → ℕ
  | [] => x.hi
  | y :: _ => x.readHi y

theorem text_starts (x : VlanItem) :
    ∃ t, x.text = printNat x.lo ++ t ∧ ∀ c ∈ t.head?, isDigit c = false := by
  cases x with
  | number id => exact ⟨[], (List.append_nil _).symm, by simp⟩
  | range lo hi => exact ⟨chr '-' :: printNat hi, rfl, by simp [isDigit, chr]⟩

end VlanItem

/-- Every row but the last is read on into the next one if its text is long. -/
theorem rowText_starts {x : VlanItem} (hx : x.Valid) (rest : List VlanItem) :
    ∃ t, rowText 8 ((x :: rest).map VlanItem.text) = printNat x.lo ++ t ∧
      ∀ c ∈ t.head?, isDigit c = false := by
  cases rest with
  | nil => exact x.text_starts
  | cons y rest =>
      rw [List.map_cons, List.map_cons, rowText, ← List.map_cons]
      split
      next => exact x.text_starts
      next hlong =>
        obtain ⟨lo, hi, rfl, -, hhi, -⟩ := VlanItem.long_cases hx (Nat.not_lt.mp hlong)
        have hmin : (printNat lo).length ≤ 4 :=
          VlanItem.length_printNat_four (hx.lo_le_hi.trans hx.hi_le)
        have htake : (VlanItem.range lo hi).text.take 8 =
            printNat lo ++ chr '-' :: (printNat hi).take (7 - (printNat lo).length) := by
          rw [VlanItem.text, List.take_append, List.take_of_length_le (by omega),
            show 8 - (printNat lo).length = 7 - (printNat lo).length + 1 by omega,
            List.take_succ_cons]
        rw [htake, List.append_assoc]
        exact ⟨_, rfl, by simp [isDigit, chr]⟩

/-- The first eight bytes of a long text. -/
theorem take_text {lo hi : ℕ} (hhi : 1000 ≤ hi) (hhi' : hi ≤ 4094)
    (hlo : 100 ≤ lo ∧ lo < 1000 ∧ (VlanItem.range lo hi).text.length = 8 ∨
      1000 ≤ lo ∧ lo ≤ 4094 ∧ (VlanItem.range lo hi).text.length = 9) :
    (VlanItem.range lo hi).text.take 8 =
      printNat lo ++ chr '-' :: printNat (if lo < 1000 then hi else hi / 10) := by
  obtain ⟨-, hlt, hlen⟩ | ⟨hge, -, hlen⟩ := hlo
  · rw [if_pos hlt, List.take_of_length_le hlen.le, VlanItem.text]
  · have hdigits : printNat hi = printNat (hi / 10) ++ [chr (Nat.digitChar (hi % 10))] := by
      rw [printNat_eq, if_neg (by omega)]
    have htext : (VlanItem.range lo hi).text =
        (printNat lo ++ chr '-' :: printNat (hi / 10)) ++ [chr (Nat.digitChar (hi % 10))] := by
      rw [VlanItem.text, hdigits]
      simp
    rw [htext] at hlen ⊢
    rw [List.length_append, List.length_singleton] at hlen
    rw [if_neg (Nat.not_lt.mpr hge), List.take_left' (by omega)]

/-- What a round answers for the row of `x` in front of the items. -/
theorem vlanIncludeRow_rowText {x : VlanItem} {rest : List VlanItem}
    (hx : x.Valid) (hrest : ∀ y ∈ rest, y.Valid ∧ x.hi < y.lo) (v : ℤ) :
    vlanIncludeRow v (rowText 8 ((x :: rest).map VlanItem.text)) = x.answer v (x.upTo rest) := by
  cases rest with
  | nil => exact (readsAs_of_denotes x.denotes_text hx).answer_eq v
  | cons y rest =>
      obtain ⟨hy, hlt⟩ := hrest y (by simp)
      obtain ⟨t, ht, hstop⟩ := rowText_starts hy rest
      rw [List.map_cons, List.map_cons, rowText, ← List.map_cons, VlanItem.upTo, VlanItem.readHi]
      split
      next => exact (readsAs_of_denotes x.denotes_text hx).answer_eq v
      next hlong =>
        obtain ⟨lo, hi, rfl, hhi, hhi', hlo⟩ := VlanItem.long_cases hx (Nat.not_lt.mp hlong)
        have hle : y.lo ≤ 4094 := hy.lo_le_hi.trans hy.hi_le
        have hfour : (printNat y.lo).length = 4 := by
          have := @lt_length_printNat y.lo 3 (hhi.trans (Nat.le_of_lt hlt))
          have := VlanItem.length_printNat_four hle
          omega
        have hnumeral := (numeral_printNat (if lo < 1000 then hi else hi / 10)).append_printNat y.lo
        rw [hfour] at hnumeral
        have hbound : (if (VlanItem.range lo hi).text.length = 8 then
            (VlanItem.range lo hi).hi * 10000 + y.lo
            else (VlanItem.range lo hi).hi / 10 * 10000 + y.lo) =
            (if lo < 1000 then hi else hi / 10) * 10 ^ 4 + y.lo := by
          obtain ⟨-, hlt, hlen⟩ | ⟨hge, -, hlen⟩ := hlo
          · simp [hlen, hlt, VlanItem.hi]
          · simp [hlen, Nat.not_lt.mpr hge, VlanItem.hi]
        rw [take_text hhi hhi' hlo, ht, List.append_assoc, List.cons_append, ← List.append_assoc,
          hbound]
        refine vlanIncludeRow_range (numeral_printNat lo) hnumeral (isInt_of_le (by omega))
          (isInt_of_le ?_) hstop v
        split <;> omega

/-! ## The rounds -/

/-- A row is read as a range around the id. -/
def Found (v : ℤ) : List VlanItem → Prop
  | [] => False
  | x :: rest => (x.lo ≤ v ∧ v ≤ x.upTo rest) ∨ Found v rest

/-- Valid items in ascending order. -/
def Ascending (items : List VlanItem) : Prop :=
  (∀ x ∈ items, x.Valid) ∧ items.Pairwise fun x y => x.hi < y.lo

theorem Ascending.tail {x : VlanItem} {rest : List VlanItem} (h : Ascending (x :: rest)) :
    Ascending rest :=
  ⟨fun y hy => h.1 y (List.mem_cons_of_mem _ hy), (List.pairwise_cons.mp h.2).2⟩

theorem Ascending.head {x : VlanItem} {rest : List VlanItem} (h : Ascending (x :: rest)) :
    ∀ y ∈ rest, y.Valid ∧ x.hi < y.lo :=
  fun y hy => ⟨h.1 y (List.mem_cons_of_mem _ hy), (List.pairwise_cons.mp h.2).1 y hy⟩

theorem not_found_of_lt {v : ℤ} {items : List VlanItem} (h : ∀ x ∈ items, v < x.lo) :
    ¬ Found v items := by
  induction items with
  | nil => exact id
  | cons x rest ih =>
      rintro (⟨hlo, -⟩ | hrest)
      · exact absurd hlo (not_le.mpr (h x (by simp)))
      · exact ih (fun y hy => h y (List.mem_cons_of_mem _ hy)) hrest

theorem VlanItem.bounded_upTo {x : VlanItem} (hx : x.Valid) (rest : List VlanItem) :
    x.Bounded (x.upTo rest) := by
  cases rest with
  | nil => exact x.bounded_hi
  | cons y rest =>
      rw [upTo, readHi]
      split
      next => exact x.bounded_hi
      next hlong =>
        obtain ⟨lo, hi, rfl, -⟩ := long_cases hx (Nat.not_lt.mp hlong)
        exact fun id h => by simp at h

theorem zero_not_mem_text (items : List VlanItem) :
    ∀ s ∈ items.map VlanItem.text, (0 : Byte) ∉ s := by
  intro s hs
  obtain ⟨x, -, rfl⟩ := List.mem_map.mp hs
  exact not_mem_denotes x.denotes_text (by decide) (by decide)

/-- The rounds over rows with a terminator behind the last one. -/
theorem vlanIncludeLoop_flatRows (v : ℤ) {items : List VlanItem} (hitems : Ascending items)
    {z : ℕ} (hz : 0 < z) {pre : List Byte} {j : ℕ} (hpre : pre.length = j * 8) :
    ∃ ret, vlanIncludeLoop v (pre ++ flatRows 8 z (items.map VlanItem.text)) j items.length =
      some ret ∧ (ret = 1 ↔ Found v items) := by
  induction items generalizing pre j with
  | nil => exact ⟨0, rfl, by simp [Found]⟩
  | cons x rest ih =>
      have hx := hitems.1 x (by simp)
      have hread := @readStr_flatRows 8 _ (zero_not_mem_text (x :: rest)) z hz pre
      rw [hpre] at hread
      have hrow := vlanIncludeRow_rowText hx hitems.head v
      have hbound := VlanItem.bounded_upTo hx rest
      rw [List.length_cons, vlanIncludeLoop, hread]
      simp only [Option.bind_eq_bind, Option.bind_some, hrow, Found]
      by_cases hcovers : x.lo ≤ v ∧ v ≤ x.upTo rest
      · rw [VlanItem.answer_of_le hbound hcovers.1 hcovers.2]
        exact ⟨1, rfl, by simp [hcovers]⟩
      · by_cases habove : x.Above v
        · have hlt := VlanItem.lt_of_above habove
          have hle := hx.lo_le_hi
          have hnone : ¬ Found v rest := not_found_of_lt fun y hy => by
            have hnext := (hitems.head y hy).2
            omega
          rw [VlanItem.answer_of_above habove]
          exact ⟨0, rfl, by simp [hcovers, hnone]⟩
        · rw [VlanItem.answer_of_passed hbound habove hcovers]
          simp only [hcovers, false_or]
          cases rest with
          | nil => exact ⟨0, rfl, by simp [Found]⟩
          | cons y rest =>
              have hstart : (pre ++ cutRow 8 x.text).length = (j + 1) * 8 := by
                rw [List.length_append, length_cutRow, hpre, Nat.add_mul, Nat.one_mul]
              have hnext := ih hitems.tail hstart
              rw [List.append_assoc] at hnext
              exact hnext

/-- A long range in front of another item is read as a range around the id. -/
def Overrun (v : ℤ) (items : List VlanItem) : Prop :=
  ∃ pre x y post, items = pre ++ x :: y :: post ∧ 8 ≤ x.text.length ∧ x.lo ≤ v ∧ v ≤ x.readHi y

theorem overrun_cons {v : ℤ} {x : VlanItem} {rest : List VlanItem} :
    Overrun v (x :: rest) ↔
      (∃ y post, rest = y :: post ∧ 8 ≤ x.text.length ∧ x.lo ≤ v ∧ v ≤ x.readHi y) ∨
        Overrun v rest := by
  constructor
  · rintro ⟨pre, w, y, post, heq, h⟩
    cases pre with
    | nil =>
        obtain ⟨rfl, rfl⟩ := List.cons.inj heq
        exact Or.inl ⟨y, post, rfl, h⟩
    | cons w' pre =>
        obtain ⟨-, rfl⟩ := List.cons.inj heq
        exact Or.inr ⟨pre, w, y, post, rfl, h⟩
  · rintro (⟨y, post, rfl, h⟩ | ⟨pre, w, y, post, rfl, h⟩)
    · exact ⟨[], x, y, post, rfl, h⟩
    · exact ⟨x :: pre, w, y, post, rfl, h⟩

theorem VlanItem.hi_le_readHi {x : VlanItem} (hx : x.Valid) (y : VlanItem) :
    x.hi ≤ x.readHi y := by
  rw [readHi]
  split
  next => exact le_refl _
  next hlong =>
    obtain ⟨lo, hi, rfl, hhi, -⟩ := long_cases hx (Nat.not_lt.mp hlong)
    have hall : ∀ n k : ℕ, n ≤ n * 10000 + k := fun n k => by omega
    have hcut : ∀ n k : ℕ, 1000 ≤ n → n ≤ n / 10 * 10000 + k := fun n k _ => by omega
    split
    next => exact hall hi y.lo
    next => exact hcut hi y.lo hhi

theorem le_upTo_iff {v : ℤ} {x : VlanItem} (hx : x.Valid) (rest : List VlanItem) :
    (x.lo ≤ v ∧ v ≤ x.upTo rest) ↔ x.Lists v ∨
      ∃ y post, rest = y :: post ∧ 8 ≤ x.text.length ∧ x.lo ≤ v ∧ v ≤ x.readHi y := by
  cases rest with
  | nil => simp [VlanItem.upTo, VlanItem.Lists]
  | cons y rest =>
      have hle : (x.hi : ℤ) ≤ x.readHi y := by exact_mod_cast VlanItem.hi_le_readHi hx y
      constructor
      · rintro ⟨hlo, hup⟩
        by_cases hlong : 8 ≤ x.text.length
        · exact Or.inr ⟨y, rest, rfl, hlong, hlo, hup⟩
        · rw [VlanItem.upTo, VlanItem.readHi, if_pos (Nat.not_le.mp hlong)] at hup
          exact Or.inl ⟨hlo, hup⟩
      · rintro (⟨hlo, hhi⟩ | ⟨y', post, heq, -, hlo, hup⟩)
        · exact ⟨hlo, hhi.trans hle⟩
        · obtain ⟨rfl, -⟩ := List.cons.inj heq
          exact ⟨hlo, hup⟩

theorem found_iff {v : ℤ} {items : List VlanItem} (hitems : Ascending items) :
    Found v items ↔ (∃ x ∈ items, x.Lists v) ∨ Overrun v items := by
  induction items with
  | nil => simp [Found, Overrun]
  | cons x rest ih =>
      rw [Found, le_upTo_iff (hitems.1 x (by simp)), ih hitems.tail, overrun_cons]
      simp only [List.mem_cons, exists_eq_or_imp]
      exact or_or_or_comm

/-! ## The list -/

/-- A list of items in ascending order. -/
structure VlanList where
  items : List VlanItem
  ascending : Ascending items
  count_le : items.length ≤ 256

namespace VlanList

variable (l : VlanList)

/-- The list as a string. -/
def text : CStr := [chr ','].intercalate (l.items.map VlanItem.text)

/-- The id is one of those that the list names. -/
def Lists (v : ℤ) : Prop := ∃ x ∈ l.items, x.Lists v

/-- What keeps the long items from being read wrong: the empty list is not asked for zero, the
last row of the table is not reached if it has no end, and no long range is read as one around
an id that is not listed. -/
structure ReadRight (v : ℤ) : Prop where
  nonempty : l.items = [] → v ≠ 0
  fits : ∀ init x, l.items = init ++ [x] → init.length = 255 → x.text.length ≠ 9 ∧
    (x.text.length = 8 → ∃ y ∈ init, y.Lists v ∨ y.Above v)
  apart : Overrun v l.items → l.Lists v

/-- The function returns, and returns 1 exactly for a listed id. -/
def Answers (v : ℤ) : Prop :=
  ∃ ret, checkVlanInclude v l.text = some ret ∧ (ret = 1 ↔ l.Lists v)

theorem splitOn_text (h : l.items ≠ []) :
    l.text.splitOn (chr ',') = l.items.map VlanItem.text :=
  splitOn_intercalate_map h fun x _ => not_mem_denotes x.denotes_text (by decide) (by decide)

/-- The copies fill the table from its start on. -/
theorem checkVlanInclude_text (v : ℤ) (h : l.items ≠ []) :
    checkVlanInclude v l.text =
      if rowSpan 8 (l.items.map VlanItem.text) ≤ 2048 then
        vlanIncludeLoop v (flatRows 8 (2048 - rowSpan 8 (l.items.map VlanItem.text))
          (l.items.map VlanItem.text)) 0 l.items.length
      else none := by
  have hne : l.items.map VlanItem.text ≠ [] := by simpa using h
  have htexts : ∀ s ∈ l.items.map VlanItem.text, s ≠ [] ∧ s.length ≤ 8 + 1 := by
    intro s hs
    obtain ⟨x, hx, rfl⟩ := List.mem_map.mp hs
    exact ⟨x.text_ne_nil, VlanItem.length_text_le (l.ascending.1 x hx)⟩
  have hwrite := @writeRows_flatRows 8 _ hne htexts 0 256 [] (List.replicate (256 * 8) 0) rfl
    List.length_replicate (by rw [List.drop_replicate])
  rw [List.nil_append] at hwrite
  rw [checkVlanInclude, l.splitOn_text h]
  simp only [Option.bind_eq_bind, hwrite, List.length_map, List.nil_append]
  split <;> rfl

theorem answers_nil (v : ℤ) (h : l.items = []) : l.Answers v ↔ v ≠ 0 := by
  have hcheck : checkVlanInclude v l.text = some (if v = 0 then 1 else 0) := by
    have htext : l.text.splitOn (chr ',') = [[]] := by simp [text, h]
    have hrows := @checkVlanInclude_rows l.text [.number 0]
      (by rw [htext]; exact .cons readsAs_nil .nil) (by simp [htext]) (by simp [htext]) v
    rw [hrows, List.findSome?_cons, VlanItem.answer]
    split <;> simp_all
  have hlists : ¬ l.Lists v := by simp [Lists, h]
  rw [Answers, hcheck]
  by_cases hv : v = 0
  · subst hv
    simp [hlists]
  · simp [hv, hlists]

/-- With a terminator behind the last row, the function is right unless a long range is read as
one around an id that is not listed. -/
theorem answers_room {v : ℤ} (h : l.items ≠ [])
    (hroom : rowSpan 8 (l.items.map VlanItem.text) < 2048) :
    l.Answers v ↔ (Overrun v l.items → l.Lists v) := by
  have hstart : ([] : List Byte).length = 0 * 8 := rfl
  obtain ⟨ret, hloop, hret⟩ := vlanIncludeLoop_flatRows v l.ascending
    (Nat.sub_pos_of_lt hroom) hstart
  rw [List.nil_append] at hloop
  have hcheck := l.checkVlanInclude_text v h
  rw [if_pos hroom.le, hloop] at hcheck
  rw [found_iff l.ascending] at hret
  constructor
  · rintro ⟨ret', hret', hiff⟩ hover
    obtain rfl := Option.some.inj (hcheck.symm.trans hret')
    exact hiff.mp (hret.mpr (Or.inr hover))
  · intro hapart
    exact ⟨ret, hcheck, hret.trans ⟨fun h' => h'.elim id hapart, Or.inl⟩⟩

section

variable {l} {v : ℤ} {init : List VlanItem} {x : VlanItem} (hsplit : l.items = init ++ [x])

include hsplit

theorem hi_lt_last {y : VlanItem} (hy : y ∈ init) : y.Valid ∧ y.hi < x.lo := by
  have hpair := l.ascending.2
  rw [hsplit, List.pairwise_append] at hpair
  exact ⟨l.ascending.1 y (by simp [hsplit, hy]), hpair.2.2 y hy x (by simp)⟩

theorem length_init_le : init.length ≤ 255 := by
  have hcount := l.count_le
  rw [hsplit, List.length_append, List.length_singleton] at hcount
  omega

theorem rowSpan_text :
    rowSpan 8 (l.items.map VlanItem.text) = init.length * 8 + x.text.length := by
  rw [hsplit, List.map_append, List.map_singleton, rowSpan_append_singleton, List.length_map]

/-- In front of a range with a lower bound of three digits all texts are short. -/
theorem length_text_lt (hx : x.text.length = 8) {y : VlanItem} (hy : y ∈ init) :
    y.text.length < 8 := by
  obtain ⟨hvalid, hlt⟩ := hi_lt_last hsplit hy
  obtain ⟨lo, hi, rfl, -, -, hlo⟩ :=
    VlanItem.long_cases (l.ascending.1 x (by simp [hsplit])) hx.ge
  change y.hi < lo at hlt
  by_contra hlong
  obtain ⟨lo', hi', rfl, hhi', -⟩ := VlanItem.long_cases hvalid (Nat.not_lt.mp hlong)
  change hi' < lo at hlt
  omega

theorem not_overrun (hx : x.text.length = 8) (v : ℤ) : ¬ Overrun v l.items := by
  rintro ⟨pre, w, y, post, heq, hlong, -⟩
  have hmem : w ∈ init := by
    have hdrop := congrArg List.dropLast (heq.symm.trans hsplit)
    rw [List.dropLast_concat] at hdrop
    rw [← hdrop]
    simp
  have hshort := length_text_lt hsplit hx hmem
  omega

/-- An id at which the rounds end before the last item is listed exactly if they find it. -/
theorem lists_of_stop {y : VlanItem} (hy : y ∈ init) (hstop : y.Lists v ∨ y.Above v) :
    Shown v init ↔ l.Lists v := by
  constructor
  · rintro ⟨pre, w, post, rfl, hw, -⟩
    exact ⟨w, by simp [hsplit], hw⟩
  · rintro ⟨w, hw, hlists⟩
    rw [hsplit, List.mem_append, List.mem_singleton] at hw
    cases hw with
    | inl hw =>
        obtain ⟨pre, post, rfl⟩ := List.append_of_mem hw
        refine ⟨pre, w, post, rfl, hlists, fun u hu habove => ?_⟩
        have hpair := l.ascending.2
        rw [hsplit, List.append_assoc, List.pairwise_append] at hpair
        have hlt : u.hi < w.lo := hpair.2.2 u hu w (by simp)
        have hle := (hi_lt_last hsplit (List.mem_append_left _ hu)).1.lo_le_hi
        have hv := VlanItem.lt_of_above habove
        have hlo := hlists.1
        omega
    | inr hw =>
        subst hw
        obtain ⟨hvalid, hlt⟩ := hi_lt_last hsplit hy
        have hle := hvalid.lo_le_hi
        have hlo := hlists.1
        cases hstop with
        | inl h =>
            have hhi := h.2
            omega
        | inr h =>
            have hv := VlanItem.lt_of_above h
            omega

/-- In a full table the rounds reach the end of the table behind the last row. -/
theorem checkVlanInclude_full (hlen : init.length = 255) (hx : x.text.length = 8) (v : ℤ) :
    checkVlanInclude v l.text = init.findSome? fun y => y.answer v y.hi := by
  have hne : l.items ≠ [] := by simp [hsplit]
  have hcount : l.items.length = (init.map VlanItem.text).length + 1 := by simp [hsplit]
  have hread : List.Forall₂ ReadsAs (init.map VlanItem.text) init := by
    rw [List.forall₂_map_left_iff, List.forall₂_same]
    exact fun y hy => readsAs_of_denotes y.denotes_text (hi_lt_last hsplit hy).1
  have hrow : ∀ row ∈ init.map VlanItem.text, row.length < 8 ∧ (0 : Byte) ∉ row := by
    intro row hrow
    obtain ⟨y, hy, rfl⟩ := List.mem_map.mp hrow
    exact ⟨length_text_lt hsplit hx hy,
      not_mem_denotes y.denotes_text (by decide) (by decide)⟩
  have hcut : (init.map VlanItem.text).flatMap (cutRow 8) =
      (init.map VlanItem.text).flatMap (padRow 8) :=
    List.flatMap_congr fun row hmem => cutRow_of_lt (hrow row hmem).1
  have hpre := @length_flatMap_cutRow 8 (init.map VlanItem.text)
  have hmem : flatRows 8 0 (l.items.map VlanItem.text) =
      [] ++ ((init.map VlanItem.text).flatMap (padRow 8) ++ x.text) := by
    rw [hsplit, List.map_append, List.map_singleton, flatRows_append_singleton, hcut]
    simp
  have hend := readStr_full (not_mem_denotes x.denotes_text (c := 0) (by decide) (by decide))
    ((init.map VlanItem.text).flatMap (padRow 8))
  rw [← hcut, hpre, hcut] at hend
  rw [l.checkVlanInclude_text v hne, rowSpan_text hsplit, hlen, hx, if_pos (by norm_num), hmem,
    hcount, vlanIncludeLoop_rows hread hrow v 1 x.text (by rfl)]
  cases init.findSome? fun y => y.answer v y.hi with
  | some ret => rfl
  | none =>
      simp only [List.nil_append, Nat.zero_add, vlanIncludeLoop, hend]
      rfl

/-- The last row of a full table has no terminator, so the rounds must end before it. -/
theorem answers_full (hlen : init.length = 255) (hx : x.text.length = 8) :
    l.Answers v ↔ ∃ y ∈ init, y.Lists v ∨ y.Above v := by
  have hne : l.items ≠ [] := by simp [hsplit]
  have hloop := checkVlanInclude_full hsplit hlen hx v
  unfold Answers
  rw [hloop]
  cases hfirst : init.findSome? fun y => y.answer v y.hi with
  | none =>
      rw [List.findSome?_eq_none_iff] at hfirst
      have hnone : ¬ ∃ y ∈ init, y.Lists v ∨ y.Above v := by
        rintro ⟨y, hy, h⟩
        exact VlanItem.answer_eq_none_iff.mp (hfirst y hy) h
      simp [hnone]
  | some ret =>
      have hone := findSome_answer_eq_one_iff v init
      rw [hfirst, Option.getD_some] at hone
      obtain ⟨y, hy, hret⟩ := List.exists_of_findSome?_eq_some hfirst
      have hstop : y.Lists v ∨ y.Above v := by
        by_contra h
        simp [VlanItem.answer_eq_none_iff.mpr h] at hret
      refine iff_of_true ⟨ret, rfl, hone.trans (lists_of_stop hsplit hy hstop)⟩ ⟨y, hy, hstop⟩

end

end VlanList

/-- The function answers right for exactly those ids that no long item spoils. -/
theorem check_vlan_include_answers_iff (l : VlanList) (v : ℤ) : l.Answers v ↔ l.ReadRight v := by
  by_cases hnil : l.items = []
  · rw [l.answers_nil v hnil]
    refine ⟨fun hv => ⟨fun _ => hv, ?_, ?_⟩, fun h => h.nonempty hnil⟩
    · rintro init x hsplit -
      simp [hnil] at hsplit
    · rintro ⟨pre, x, y, post, heq, -⟩
      simp [hnil] at heq
  · obtain ⟨init, x, hsplit⟩ := (List.eq_nil_or_concat l.items).resolve_left hnil
    rw [List.concat_eq_append] at hsplit
    have hcount := VlanList.length_init_le hsplit
    have hnine := VlanItem.length_text_le (l.ascending.1 x (by simp [hsplit]))
    have hspan := VlanList.rowSpan_text hsplit
    have hlast : ∀ init' x', l.items = init' ++ [x'] → init' = init ∧ x' = x := by
      intro init' x' h
      simpa using List.append_inj' (h.symm.trans hsplit) rfl
    by_cases hroom : rowSpan 8 (l.items.map VlanItem.text) < 2048
    · rw [l.answers_room hnil hroom]
      refine ⟨fun h => ⟨fun h' => absurd h' hnil, ?_, h⟩, fun h => h.apart⟩
      intro init' x' h hlen
      obtain ⟨rfl, rfl⟩ := hlast init' x' h
      omega
    · have hlen : init.length = 255 := by omega
      by_cases hlong : x.text.length = 8
      · rw [VlanList.answers_full hsplit hlen hlong]
        constructor
        · intro hstop
          refine ⟨fun h => absurd h hnil, ?_,
            fun h => absurd h (VlanList.not_overrun hsplit hlong v)⟩
          intro init' x' h _
          obtain ⟨rfl, rfl⟩ := hlast init' x' h
          exact ⟨by omega, fun _ => hstop⟩
        · exact fun h => (h.fits init x hsplit hlen).2 hlong
      · -- The copy of the last text runs over the end of the table.
        have hcheck := l.checkVlanInclude_text v hnil
        rw [if_neg (by omega)] at hcheck
        refine iff_of_false ?_ fun h => ?_
        · rintro ⟨ret, hret, -⟩
          simp [hcheck] at hret
        · exact (h.fits init x hsplit hlen).1 (by omega)

/-- A range of nine characters in front of a number. -/
def rangeAndNumber : VlanList where
  items := [.range 1000 2000, .number 3000]
  ascending := by
    refine ⟨fun x hx => ?_, by decide⟩
    have hx : x = .range 1000 2000 ∨ x = .number 3000 := by simpa using hx
    obtain rfl | rfl := hx <;> constructor <;> decide
  count_le := by decide

/-- The range is read as `1000-2003000`. -/
theorem check_vlan_include_misread :
    rangeAndNumber.text = text "1000-2000,3000" ∧ ¬ rangeAndNumber.Answers 2500 := by
  have hlists : ¬ rangeAndNumber.Lists 2500 := by
    simp [VlanList.Lists, rangeAndNumber, VlanItem.Lists, VlanItem.lo, VlanItem.hi]
  have hover : Overrun 2500 rangeAndNumber.items :=
    ⟨[], .range 1000 2000, .number 3000, [], rfl, by decide, by decide, by decide⟩
  refine ⟨by decide, ?_⟩
  rw [rangeAndNumber.answers_room (by decide) (by decide)]
  exact fun h => hlists (h hover)

end BcmUtils.VlanLists
