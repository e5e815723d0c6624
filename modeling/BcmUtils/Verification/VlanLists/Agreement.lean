import BcmUtils.Verification.VlanLists.Items

/-! # Two readers of a VLAN list

`check_vlan_include` gives up at the first range that begins behind the id, and `str2vlan`
reads on. They agree on a listed id if one of its items comes before all such ranges. -/

namespace BcmUtils.VlanLists

open CLib

/-! ## What `str2vlan` marks -/

/-- The entries at the indices `p` are set to one, and the others are left as they were. -/
structure Marked (p : ℕ → Prop) (before after : List ℤ) : Prop where
  length_eq : after.length = before.length
  marked : ∀ k, p k → after[k]? = some 1
  unmarked : ∀ k, ¬ p k → after[k]? = before[k]?

theorem Marked.trans {p q : ℕ → Prop} {a b c : List ℤ} (hab : Marked p a b) (hbc : Marked q b c) :
    Marked (fun k => p k ∨ q k) a c where
  length_eq := hbc.length_eq.trans hab.length_eq
  marked k hk := by
    by_cases hq : q k
    · exact hbc.marked k hq
    · rw [hbc.unmarked k hq, hab.marked k (hk.resolve_right hq)]
  unmarked k hk := by
    rw [hbc.unmarked k fun h => hk (Or.inr h), hab.unmarked k fun h => hk (Or.inl h)]

theorem Marked.congr {p q : ℕ → Prop} {a b : List ℤ} (h : Marked p a b) (hpq : ∀ k, p k ↔ q k) :
    Marked q a b where
  length_eq := h.length_eq
  marked k hk := h.marked k ((hpq k).mpr hk)
  unmarked k hk := h.unmarked k fun hp => hk ((hpq k).mp hp)

theorem marked_none (a : List ℤ) : Marked (fun _ => False) a a :=
  ⟨rfl, fun _ h => h.elim, fun _ _ => rfl⟩

theorem setOne_spec {a : List ℤ} {k : ℕ} (h : k < a.length) :
    ∃ b, setOne a k = some b ∧ Marked (· = k) a b := by
  refine ⟨a.set k 1, ?_, by simp, ?_, ?_⟩
  · rw [setOne, if_pos ⟨Int.natCast_nonneg k, by exact_mod_cast h⟩, Int.toNat_natCast]
  · rintro _ rfl
    rw [List.getElem?_set_self h]
  · intro m hm
    rw [List.getElem?_set_ne (Ne.symm hm)]

/-- Both arrays are marked. -/
structure BothMarked (p : ℕ → Prop) (before after : List ℤ × List ℤ) : Prop where
  value : Marked p before.1 after.1
  total : Marked p before.2 after.2

theorem BothMarked.trans {p q : ℕ → Prop} {a b c : List ℤ × List ℤ} (hab : BothMarked p a b)
    (hbc : BothMarked q b c) : BothMarked (fun k => p k ∨ q k) a c :=
  ⟨hab.value.trans hbc.value, hab.total.trans hbc.total⟩

theorem BothMarked.congr {p q : ℕ → Prop} {a b : List ℤ × List ℤ} (h : BothMarked p a b)
    (hpq : ∀ k, p k ↔ q k) : BothMarked q a b :=
  ⟨h.value.congr hpq, h.total.congr hpq⟩

theorem bothMarked_none (a : List ℤ × List ℤ) : BothMarked (fun _ => False) a a :=
  ⟨marked_none a.1, marked_none a.2⟩

/-- The first `n` rounds of the loop over one array. -/
theorem setRange_loop (lo n : ℕ) {a : List ℤ} (h : lo + n ≤ a.length) :
    ∃ b, (List.range n).foldlM (fun a (m : ℕ) => setOne a (lo + m)) a = some b ∧
      Marked (fun k => lo ≤ k ∧ k < lo + n) a b := by
  induction n with
  | zero =>
      refine ⟨a, rfl, (marked_none a).congr fun k => ?_⟩
      simp only [false_iff]
      omega
  | succ n ih =>
      obtain ⟨mid, hmid, hmarked⟩ := ih (by omega)
      have hlen := hmarked.length_eq
      obtain ⟨b, hb, hone⟩ := @setOne_spec mid (lo + n) (by omega)
      refine ⟨b, ?_, (hmarked.trans hone).congr fun k => by omega⟩
      rw [Nat.cast_add] at hb
      rw [List.range_succ, List.foldlM_append, hmid]
      simpa using hb

theorem setRange_spec {lo hi : ℕ} (hle : lo ≤ hi) {a : List ℤ} (h : hi < a.length) :
    ∃ b, setRange lo hi a = some b ∧ Marked (fun k => lo ≤ k ∧ k ≤ hi) a b := by
  obtain ⟨b, hloop, hmarked⟩ := @setRange_loop lo (hi - lo + 1) a (by omega)
  have hcount : ((hi : ℤ) - lo + 1).toNat = hi - lo + 1 := by omega
  refine ⟨b, ?_, hmarked.congr fun k => by omega⟩
  rw [setRange, hcount]
  exact hloop

/-- Marking both arrays is marking each of them. -/
theorem foldlM_markOne {lo : ℤ} {ns : List ℕ} {value value' total total' : List ℤ}
    (hvalue : ns.foldlM (fun a (m : ℕ) => setOne a (lo + m)) value = some value')
    (htotal : ns.foldlM (fun a (m : ℕ) => setOne a (lo + m)) total = some total') :
    ns.foldlM (fun arrays (m : ℕ) => markOne (lo + m) arrays) (value, total) =
      some (value', total') := by
  induction ns generalizing value total with
  | nil =>
      cases hvalue
      cases htotal
      rfl
  | cons n ns ih =>
      rw [List.foldlM_cons, Option.bind_eq_bind, Option.bind_eq_some_iff] at hvalue htotal
      obtain ⟨v, hv, hvalue⟩ := hvalue
      obtain ⟨t, ht, htotal⟩ := htotal
      rw [List.foldlM_cons, markOne, bind_of_eq hv, bind_of_eq ht]
      exact ih hvalue htotal

theorem markRange_spec {lo hi : ℕ} (hle : lo ≤ hi) {arrays : List ℤ × List ℤ}
    (hvalue : hi < arrays.1.length) (htotal : hi < arrays.2.length) :
    ∃ after, markRange lo hi arrays = some after ∧
      BothMarked (fun k => lo ≤ k ∧ k ≤ hi) arrays after := by
  obtain ⟨value, hset, hmarked⟩ := setRange_spec hle hvalue
  obtain ⟨total, hset', hmarked'⟩ := setRange_spec hle htotal
  exact ⟨(value, total), foldlM_markOne hset hset', hmarked, hmarked'⟩

/-- The ids of all items are marked. -/
theorem foldlM_markRange_spec {rows : List CStr} {items : List VlanItem}
    (hread : List.Forall₂ ReadsAs rows items) (hle : ∀ x ∈ items, x.lo ≤ x.hi)
    (arrays : List ℤ × List ℤ) (hvalue : ∀ x ∈ items, x.hi < arrays.1.length)
    (htotal : ∀ x ∈ items, x.hi < arrays.2.length) :
    ∃ after, rows.foldlM
        (fun arrays row => markRange (itemRange row).1 (itemRange row).2 arrays) arrays =
        some after ∧ BothMarked (fun k => ∃ x ∈ items, x.Lists k) arrays after := by
  induction hread generalizing arrays with
  | nil => exact ⟨arrays, rfl, (bothMarked_none arrays).congr fun k => by simp⟩
  | @cons row x rows items hx hread ih =>
      obtain ⟨mid, hmid, hmarked⟩ := markRange_spec (hle x (by simp))
        (hvalue x (by simp)) (htotal x (by simp))
      have hlen := hmarked.value.length_eq
      have hlen' := hmarked.total.length_eq
      obtain ⟨after, hafter, hrest⟩ := ih (fun y hy => hle y (List.mem_cons_of_mem _ hy)) mid
        (fun y hy => hlen ▸ hvalue y (List.mem_cons_of_mem _ hy))
        (fun y hy => hlen' ▸ htotal y (List.mem_cons_of_mem _ hy))
      refine ⟨after, ?_, (hmarked.trans hrest).congr fun k => ?_⟩
      · rw [List.foldlM_cons, hx.range_eq, hmid]
        exact hafter
      · simp [VlanItem.Lists]

/-! ## The list -/

/-- A list of items in any order, each with its text. -/
structure ShortList where
  entries : List (CStr × VlanItem)
  denotes : ∀ e ∈ entries, e.2.Denotes e.1
  valid : ∀ e ∈ entries, e.2.Valid
  length_le : ∀ e ∈ entries, e.1.length ≤ 7
  count_le : entries.length ≤ 256

namespace ShortList

variable (l : ShortList)

/-- The list as a string. -/
def text : CStr := [chr ','].intercalate (l.entries.map Prod.fst)

/-- The items of the list. -/
def items : List VlanItem := l.entries.map Prod.snd

/-- The items as the functions read them. The empty string is read as zero. -/
def read : List VlanItem := if l.entries = [] then [.number 0] else l.items

theorem length_splitOn_text_le : (l.text.splitOn (chr ',')).length ≤ 256 :=
  length_splitOn_entries_le l.denotes (by norm_num) l.count_le

theorem mem_splitOn_text {row : CStr} (h : row ∈ l.text.splitOn (chr ',')) :
    row.length < 8 ∧ (0 : Byte) ∉ row := by
  obtain ⟨hlen, hzero⟩ := mem_splitOn_entries l.denotes l.length_le h
  exact ⟨Nat.lt_succ_of_le hlen, hzero⟩

theorem readsAs_text : List.Forall₂ ReadsAs (l.text.splitOn (chr ',')) l.read :=
  readsAs_entries l.denotes l.valid

theorem read_bounds {x : VlanItem} (h : x ∈ l.read) : x.lo ≤ x.hi ∧ x.hi ≤ 4094 :=
  readItems_bounds l.valid h

/-- The rounds answer for the rows what they answer for the items. -/
theorem checkVlanInclude_text (v : ℤ) :
    checkVlanInclude v l.text =
      some ((l.read.findSome? fun x => x.answer v x.hi).getD 0) :=
  checkVlanInclude_rows l.readsAs_text (fun _ h => l.mem_splitOn_text h)
    l.length_splitOn_text_le v

/-- The rounds mark the ids of the items. -/
theorem str2vlan_text {value total : List ℤ} (hvalue : 4094 < value.length)
    (htotal : 4094 < total.length) :
    ∃ value' total', str2vlan l.text value total = some (value', total') ∧
      Marked (fun k => ∃ x ∈ l.read, x.Lists k) value value' := by
  have hrows : splitRows 1024 16 (chr ',') l.text = some (l.text.splitOn (chr ',')) := by
    refine splitRows_eq (l.length_splitOn_text_le.trans (by norm_num)) fun row hrow => ?_
    have hlen := (l.mem_splitOn_text hrow).1
    exact ⟨by omega, (l.mem_splitOn_text hrow).2⟩
  obtain ⟨after, hmarks, hmarked⟩ := foldlM_markRange_spec l.readsAs_text
    (fun x hx => (l.read_bounds hx).1) (value, total)
    (fun x hx => (l.read_bounds hx).2.trans_lt hvalue)
    (fun x hx => (l.read_bounds hx).2.trans_lt htotal)
  exact ⟨after.1, after.2, (bind_of_eq hrows _).trans hmarks, hmarked.value⟩

theorem shown_read {v : ℤ} (hv : 1 ≤ v) : Shown v l.read ↔ Shown v l.items := by
  rw [read]
  split
  next h =>
    rw [items, h, shown_cons]
    have hzero : ¬ (VlanItem.number 0).Lists v := fun h => by
      have hle : v ≤ ((0 : ℕ) : ℤ) := h.2
      omega
    simp [hzero, VlanItem.Above]
  next => exact Iff.rfl

theorem lists_read {v : ℤ} (hv : 1 ≤ v) :
    (∃ x ∈ l.read, x.Lists v) ↔ ∃ x ∈ l.items, x.Lists v := by
  rw [read]
  split
  next h =>
    have hzero : ¬ (VlanItem.number 0).Lists v := fun h => by
      have hle : v ≤ ((0 : ℕ) : ℤ) := h.2
      omega
    simp [hzero, items, h]
  next => exact Iff.rfl

end ShortList

/-- The two functions agree on the id: both read the list, and one answers 1 exactly if the
other marks it. -/
def Agree (vlanid : ℕ) (s : CStr) (value total : List ℤ) : Prop :=
  ∃ ret value' total', checkVlanInclude vlanid s = some ret ∧
    str2vlan s value total = some (value', total') ∧ (ret = 1 ↔ value'[vlanid]? = some 1)

/-- The functions agree on an id exactly if it is not listed or an item that lists it comes
before every range that begins behind it. -/
theorem check_vlan_include_agrees_iff (l : ShortList) {vlanid : ℕ} (hone : 1 ≤ vlanid)
    {value total : List ℤ} (hvalue : 4094 < value.length) (htotal : 4094 < total.length)
    (hclear : value[vlanid]? ≠ some 1) :
    Agree vlanid l.text value total ↔
      ((∃ x ∈ l.items, x.Lists vlanid) → Shown vlanid l.items) := by
  have hv : (1 : ℤ) ≤ vlanid := by exact_mod_cast hone
  obtain ⟨value', total', hstr, hmarked⟩ := l.str2vlan_text hvalue htotal
  have hcheck := l.checkVlanInclude_text vlanid
  have hshown := (findSome_answer_eq_one_iff vlanid l.read).trans (l.shown_read hv)
  have hmark : value'[vlanid]? = some 1 ↔ ∃ x ∈ l.items, x.Lists vlanid := by
    rw [← l.lists_read hv]
    by_cases hlists : ∃ x ∈ l.read, x.Lists vlanid
    · exact iff_of_true (hmarked.marked vlanid hlists) hlists
    · rw [hmarked.unmarked vlanid hlists]
      exact iff_of_false hclear hlists
  have hlisted : Shown vlanid l.items → ∃ x ∈ l.items, x.Lists vlanid := by
    rintro ⟨pre, x, post, heq, hx, -⟩
    exact ⟨x, by simp [heq], hx⟩
  constructor
  · rintro ⟨ret, value'', total'', hret, hmarks, hiff⟩ hlists
    obtain rfl := Option.some.inj (hcheck.symm.trans hret)
    obtain ⟨rfl, -⟩ := Prod.mk.inj (Option.some.inj (hstr.symm.trans hmarks))
    exact hshown.mp (hiff.mpr (hmark.mpr hlists))
  · intro hcond
    exact ⟨_, value', total', hcheck, hstr,
      hshown.trans ((Iff.intro hlisted hcond).trans hmark.symm)⟩

/-- A list with a range from 10 to 20 and the number 5, in either order. -/
def tenAndFive (rangeFirst : Bool) : ShortList where
  entries := (if rangeFirst then [.range 10 20, .number 5] else [.number 5, .range 10 20]).map
    fun x => (VlanItem.text x, x)
  denotes e he := by
    obtain ⟨x, -, rfl⟩ := List.mem_map.mp he
    exact x.denotes_text
  valid e he := by
    obtain ⟨x, hx, rfl⟩ := List.mem_map.mp he
    have hx : x = .range 10 20 ∨ x = .number 5 := by
      cases rangeFirst with
      | true => simpa using hx
      | false => simpa [or_comm] using hx
    obtain rfl | rfl := hx <;> constructor <;> decide
  length_le := by cases rangeFirst <;> decide
  count_le := by cases rangeFirst <;> decide

theorem length_cleared : 4094 < (List.replicate 4096 (0 : ℤ)).length := by
  rw [List.length_replicate]
  norm_num

theorem check_vlan_include_agrees_iff_sorted :
    Agree 5 (text "5,10-20") (List.replicate 4096 0) (List.replicate 4096 0) := by
  have hclear : (List.replicate 4096 (0 : ℤ))[5]? ≠ some 1 := fun h =>
    absurd (List.eq_of_mem_replicate (List.mem_of_getElem? h)) (by norm_num)
  apply (check_vlan_include_agrees_iff (tenAndFive false) (by norm_num) length_cleared
    length_cleared hclear).mpr
  intro _
  exact ⟨[], .number 5, [.range 10 20], rfl, ⟨le_refl _, le_refl _⟩, by simp⟩

/-- The id 5 is marked, but the range in front of it ends the rounds. -/
theorem check_vlan_include_gives_up :
    ¬ Agree 5 (text "10-20,5") (List.replicate 4096 0) (List.replicate 4096 0) := by
  rintro ⟨ret, value, total, hret, hstr, hiff⟩
  have hcheck : checkVlanInclude 5 (text "10-20,5") = some 0 :=
    (tenAndFive true).checkVlanInclude_text 5
  obtain ⟨value', total', hmarks, hmarked⟩ := (tenAndFive true).str2vlan_text
    length_cleared length_cleared
  obtain rfl : 0 = ret := Option.some.inj (hcheck.symm.trans hret)
  obtain ⟨rfl, -⟩ := Prod.mk.inj (Option.some.inj (hmarks.symm.trans hstr))
  have hfive := hmarked.marked 5
    ⟨.number 5, by simp [ShortList.read, ShortList.items, tenAndFive], le_refl _, le_refl _⟩
  exact absurd (hiff.mpr hfive) (by norm_num)

end BcmUtils.VlanLists
