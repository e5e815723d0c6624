import BcmUtils.Verification.CliPorts.Items

/-! # Lists of typed items

`cli_str2bitmap` stores the union of the maps of the items that it keeps. It keeps an item
that starts with `p` only at the end of the list. -/

namespace BcmUtils.CliPorts

open CLib

variable {B : CliBuild}

/-- The list as a string. -/
def listText (items : List (PortItem B)) : CStr :=
  [chr ','].intercalate (items.map PortItem.text)

/-- The union of the maps of the items. -/
def unionMap (items : List (PortItem B)) : PortMap :=
  items.foldr (fun item map => item.map ||| map) 0

/-- The items that `cli_str2bitmap` keeps. -/
def kept : List (PortItem B) → List (PortItem B)
  | [] => []
  | [item] => [item]
  | item :: next :: items =>
      if item.type = .p then kept (next :: items) else item :: kept (next :: items)

theorem listText_cons_cons (item next : PortItem B) (items : List (PortItem B)) :
    listText (item :: next :: items) = item.text ++ chr ',' :: listText (next :: items) := by
  simp [listText, List.intercalate_cons_cons]

/-- A bit is in the union if one of the items has it. -/
theorem getLsbD_unionMap (items : List (PortItem B)) {k : ℕ} (hk : k < 64) :
    (unionMap items).getLsbD k = decide (∃ item ∈ items, item.Has k) := by
  rw [unionMap, getLsbD_foldr_or, Bool.eq_iff_iff, List.any_eq_true, decide_eq_true_iff]
  simp only [PortItem.getLsbD_map _ hk, decide_eq_true_iff]

theorem unionMap_eq_iff {xs ys : List (PortItem B)} :
    unionMap xs = unionMap ys ↔ ∀ k, (∃ x ∈ xs, x.Has k) ↔ ∃ y ∈ ys, y.Has k := by
  constructor
  · intro h k
    by_cases hk : k < 64
    · have hbit := congrArg (BitVec.getLsbD · k) h
      simp only [getLsbD_unionMap _ hk, decide_eq_decide] at hbit
      exact hbit
    · constructor
      · rintro ⟨x, -, hx⟩
        exact absurd (x.lt_of_has hx) hk
      · rintro ⟨y, -, hy⟩
        exact absurd (y.lt_of_has hy) hk
  · intro h
    apply BitVec.eq_of_getLsbD_eq
    intro k hk
    rw [getLsbD_unionMap _ hk, getLsbD_unionMap _ hk, decide_eq_decide]
    exact h k

theorem unionMap_perm {xs ys : List (PortItem B)} (h : xs.Perm ys) :
    unionMap xs = unionMap ys := by
  rw [unionMap_eq_iff]
  intro k
  simp only [h.mem_iff]

theorem mem_kept {items : List (PortItem B)} {item : PortItem B} :
    item ∈ kept items ↔ item ∈ items ∧ (item.type ≠ .p ∨ items.getLast? = some item) := by
  induction items with
  | nil => simp [kept]
  | cons x items ih =>
      cases items with
      | nil =>
          simp only [kept, List.mem_singleton, List.getLast?_singleton, Option.some.injEq]
          exact ⟨fun h => ⟨h, Or.inr h.symm⟩, fun h => h.1⟩
      | cons next items =>
          rw [List.getLast?_cons_cons, kept]
          split
          next hx =>
            rw [ih, List.mem_cons (a := item) (b := x)]
            constructor
            · rintro ⟨hmem, h⟩
              exact ⟨Or.inr hmem, h⟩
            · rintro ⟨rfl | hmem, h⟩
              · have hlast := h.resolve_left (not_not_intro hx)
                exact ⟨List.mem_of_getLast? hlast, Or.inr hlast⟩
              · exact ⟨hmem, h⟩
          next hx =>
            rw [List.mem_cons, ih, List.mem_cons (a := item) (b := x)]
            constructor
            · rintro (rfl | ⟨hmem, h⟩)
              · exact ⟨Or.inl rfl, Or.inl hx⟩
              · exact ⟨Or.inr hmem, h⟩
            · rintro ⟨rfl | hmem, h⟩
              · exact Or.inl rfl
              · exact Or.inr ⟨hmem, h⟩

/-! ## The whole loop -/

/-- The loop adds the maps of the kept items, one in each round. -/
theorem loop_listText {items : List (PortItem B)} (hne : items ≠ []) {fuel : ℕ}
    (hfuel : (listText items).length < fuel) (bmap : PortMap) :
    cliStr2bitmapLoop B fuel (some (listText items)) bmap =
      some (bmap ||| unionMap (kept items)) := by
  induction items generalizing fuel bmap with
  | nil => exact absurd rfl hne
  | cons item items ih =>
      obtain ⟨fuel, rfl⟩ := Nat.exists_eq_add_of_lt hfuel
      cases items with
      | nil =>
          have htext : listText [item] = item.text := by simp [listText]
          rw [htext, loop_item_last, kept, unionMap]
          simp
      | cons next items =>
          rw [listText_cons_cons] at hfuel ⊢
          have hrest : (listText (next :: items)).length <
              (item.text ++ chr ',' :: listText (next :: items)).length + fuel := by
            simp only [List.length_append, List.length_cons]
            omega
          rw [loop_item_comma, ih (by simp) hrest, kept]
          split
          next hp => simp
          next hp =>
            have hunion : unionMap (item :: kept (next :: items)) =
                item.map ||| unionMap (kept (next :: items)) := rfl
            rw [hunion, BitVec.or_assoc]

theorem cliStr2bitmap_listText (items : List (PortItem B)) (value : PortMap) :
    cliStr2bitmap B (some (listText items)) value = some (0, unionMap (kept items)) := by
  cases items with
  | nil =>
      have hloop := loop_untyped B 0 0 (x := []) (by simp)
      rw [store_of_lt (by simp), Option.bind_some, str2bit_nil] at hloop
      exact bind_of_eq hloop _
  | cons item items =>
      rw [cliStr2bitmap, bind_of_eq (loop_listText (by simp) (Nat.lt_succ_self _) 0)]
      simp

/-! ## The union and the order of the items -/

/-- Every port of an item with `p` is also one of an item of another type or of the last item. -/
def Covered (items : List (PortItem B)) : Prop :=
  ∀ item ∈ items, item.type = .p → ∀ k, item.Has k →
    ∃ other ∈ items, (other.type ≠ .p ∨ items.getLast? = some other) ∧ other.Has k

/-- Every port of an item with `p` is also one of an item of another type, or one of every
item. -/
def CoveredInEveryOrder (items : List (PortItem B)) : Prop :=
  ∀ item ∈ items, item.type = .p → ∀ k, item.Has k →
    (∃ other ∈ items, other.type ≠ .p ∧ other.Has k) ∨ ∀ other ∈ items, other.Has k

theorem unionMap_kept_iff (items : List (PortItem B)) :
    unionMap (kept items) = unionMap items ↔ Covered items := by
  rw [unionMap_eq_iff]
  constructor
  · intro h item hitem _ k hk
    obtain ⟨other, hother, hk⟩ := (h k).mpr ⟨item, hitem, hk⟩
    rw [mem_kept] at hother
    exact ⟨other, hother.1, hother.2, hk⟩
  · intro h k
    constructor
    · rintro ⟨item, hitem, hk⟩
      exact ⟨item, (mem_kept.mp hitem).1, hk⟩
    · rintro ⟨item, hitem, hk⟩
      by_cases hp : item.type = .p
      · obtain ⟨other, hother, hkept, hk⟩ := h item hitem hp k hk
        exact ⟨other, mem_kept.mpr ⟨hother, hkept⟩, hk⟩
      · exact ⟨item, mem_kept.mpr ⟨hitem, Or.inl hp⟩, hk⟩

theorem CoveredInEveryOrder.covered {items items' : List (PortItem B)}
    (h : CoveredInEveryOrder items) (hperm : items.Perm items') : Covered items' := by
  intro item hitem hp k hk
  cases h item (hperm.mem_iff.mpr hitem) hp k hk with
  | inl hother =>
      obtain ⟨other, hmem, htype, hk⟩ := hother
      exact ⟨other, hperm.mem_iff.mp hmem, Or.inl htype, hk⟩
  | inr hall =>
      have hne := List.ne_nil_of_mem hitem
      have hmem := List.getLast_mem hne
      exact ⟨items'.getLast hne, hmem, Or.inr (List.getLast?_eq_some_getLast hne),
        hall _ (hperm.mem_iff.mpr hmem)⟩

theorem exists_perm_concat {α : Type*} {x : α} {xs : List α} (h : x ∈ xs) :
    ∃ init, xs.Perm (init ++ [x]) := by
  obtain ⟨pre, post, rfl⟩ := List.append_of_mem h
  refine ⟨pre ++ post, ?_⟩
  rw [List.append_assoc]
  exact (List.perm_append_singleton x post).symm.append_left pre

theorem unionMap_kept_perm_iff (items : List (PortItem B)) :
    (∀ items', items.Perm items' → unionMap (kept items') = unionMap (kept items)) ↔
      CoveredInEveryOrder items := by
  constructor
  · intro h item hitem _ k hk
    -- with `item` at the end its port is stored, so it is stored with any item at the end
    have hstored : ∃ x ∈ kept items, x.Has k := by
      obtain ⟨init, hperm⟩ := exists_perm_concat hitem
      have hmem : item ∈ kept (init ++ [item]) := mem_kept.mpr ⟨by simp, by simp⟩
      exact (unionMap_eq_iff.mp (h _ hperm) k).mp ⟨item, hmem, hk⟩
    by_cases hother : ∃ other ∈ items, other.type ≠ .p ∧ other.Has k
    · exact Or.inl hother
    · refine Or.inr fun other hmem => ?_
      obtain ⟨init, hperm⟩ := exists_perm_concat hmem
      obtain ⟨x, hx, hk⟩ := (unionMap_eq_iff.mp (h _ hperm) k).mpr hstored
      obtain ⟨hx, htype | hlast⟩ := mem_kept.mp hx
      · exact absurd ⟨x, hperm.mem_iff.mpr hx, htype, hk⟩ hother
      · have heq : other = x := by simpa using hlast
        exact heq ▸ hk
  · intro h items' hperm
    rw [(unionMap_kept_iff items').mpr (h.covered hperm),
      (unionMap_kept_iff items).mpr (h.covered (List.Perm.refl items)), unionMap_perm hperm]

/-- The function stores the union exactly if every port of an item with `p` is covered by an
item that is kept, and it stores the same map for every order of the items exactly if these
ports are covered whatever item is the last one. -/
theorem cliStr2bitmap_union_iff (items : List (PortItem B)) (value : PortMap) :
    (cliStr2bitmap B (some (listText items)) value = some (0, unionMap items) ↔
      Covered items) ∧
    ((∀ items', items.Perm items' →
        cliStr2bitmap B (some (listText items')) value =
          cliStr2bitmap B (some (listText items)) value) ↔
      CoveredInEveryOrder items) := by
  rw [← unionMap_kept_iff, ← unionMap_kept_perm_iff]
  simp only [cliStr2bitmap_listText, Option.some.injEq, Prod.mk.injEq, true_and, and_self]

/-- Ten ports, two of them gigabit ports. -/
def tenPorts : CliBuild where
  PNUM := 10
  one_le := by decide
  le_phy := by decide
  GNUM := 2
  GNUM_le := by decide

/-- `p1,f0/2`. -/
def p1f2 : List (PortItem tenPorts) :=
  [⟨.p, false, 1, 1, by decide, by decide, by decide⟩,
    ⟨.f, false, 2, 2, by decide, by decide, by decide⟩]

theorem cliStr2bitmap_p_first_lost :
    listText p1f2 = text "p1,f0/2" ∧ unionMap p1f2 = 6 ∧
      cliStr2bitmap tenPorts (some (listText p1f2)) 0 = some (0, 4) ∧
      cliStr2bitmap tenPorts (some (listText p1f2.reverse)) 0 = some (0, 6) := by
  decide

end BcmUtils.CliPorts
