import BcmUtils.Verification.LinkList.Refinement

/-! # Deletion while iterating

`ALL_LIST_ELEMENTS` with `listnode_delete` in its body. The nodes behind the current one have not
been released, and those before it do not have its data. -/

namespace BcmUtils.LinkList

open CLib

variable {V : Type} [DecidableEq V] {l : UList V} {kept rest nodes : List (Addr × V)}
  {cmp : Option (V → V → ℤ)} {pred : V → Bool}

/-- The first node with the data of the current one is the current one. -/
theorem listnodeDelete_current {e : Addr × V} (h : Represents cmp l (kept ++ e :: rest))
    (hkept : ∀ x ∈ kept, x.2 ≠ e.2) :
    ∃ l', listnodeDelete e.2 l = some l' ∧ Represents cmp l' (kept ++ rest) := by
  have hlist : Represents cmp l ([] ++ (kept ++ e :: rest)) := h
  obtain ⟨l', hloop, hrep⟩ := deleteLoop_spec e.2 hlist (Nat.le_of_lt h.length_lt)
  have herase : (kept ++ e :: rest).eraseP (fun x => x.2 = e.2) = kept ++ rest := by
    rw [List.eraseP_append_right _ (by simpa using hkept),
      List.eraseP_cons_of_pos (by simp)]
  rw [List.nil_append, herase] at hrep
  refine ⟨l', ?_, hrep⟩
  rw [listnodeDelete, h.head]
  exact hloop

/-- The nodes that are left to visit are visited in order, and those with the property deleted. -/
theorem allListElements_spec (h : Represents cmp l (kept ++ rest))
    (hkept : ∀ x ∈ kept, pred x.2 = false) {fuel : ℕ} (hfuel : rest.length ≤ fuel) :
    ∃ l', allListElements (deleteIf pred) fuel (first rest none) l = some (addresses rest, l') ∧
      Represents cmp l' (kept ++ rest.filter fun x => !pred x.2) := by
  induction rest generalizing kept l fuel with
  | nil => exact ⟨l, by cases fuel <;> rfl, h⟩
  | cons e rest ih =>
      obtain ⟨fuel, rfl⟩ : ∃ k, fuel = k + 1 :=
        Nat.exists_eq_succ_of_ne_zero (by rintro rfl; simp at hfuel)
      have hcell : l.mem e.1 = some ⟨first rest none, last none kept, e.2⟩ :=
        (linked_append.mp h.linked).2.1
      cases hpred : pred e.2 with
      | true =>
          have hother : ∀ x ∈ kept, x.2 ≠ e.2 := by
            intro x hx heq
            have hx' := hkept x hx
            rw [heq, hpred] at hx'
            cases hx'
          obtain ⟨l₁, hdelete, hrep⟩ := listnodeDelete_current h hother
          obtain ⟨l', hloop, hrep'⟩ := ih hrep hkept (Nat.le_of_succ_le_succ hfuel)
          refine ⟨l', ?_, ?_⟩
          · have hbody : deleteIf pred e.2 l = some l₁ := by
              rw [deleteIf, if_pos hpred]
              exact hdelete
            rw [first, allListElements, bind_of_eq hcell]
            simp only []
            rw [bind_of_eq hbody, bind_of_eq hloop]
            rfl
          · rwa [List.filter_cons_of_neg (by simp [hpred])]
      | false =>
          have hnext : Represents cmp l ((kept ++ [e]) ++ rest) := by
            rwa [List.append_assoc, List.singleton_append]
          have hkept' : ∀ x ∈ kept ++ [e], pred x.2 = false := by
            intro x hx
            rw [List.mem_append, List.mem_singleton] at hx
            cases hx with
            | inl hx => exact hkept x hx
            | inr hx => rw [hx, hpred]
          obtain ⟨l', hloop, hrep⟩ := ih hnext hkept' (Nat.le_of_succ_le_succ hfuel)
          refine ⟨l', ?_, ?_⟩
          · have hbody : deleteIf pred e.2 l = some l := by
              rw [deleteIf, hpred]
              exact if_neg Bool.false_ne_true
            rw [first, allListElements, bind_of_eq hcell]
            simp only []
            rw [bind_of_eq hbody, bind_of_eq hloop]
            rfl
          · rwa [List.filter_cons_of_pos (by simp [hpred]), ← List.singleton_append,
              ← List.append_assoc]

/-- Every node of the list is visited once and in order, and the list keeps those without the
property. -/
theorem allListElements_delete (h : Represents cmp l nodes) (pred : V → Bool) :
    ∃ l', allListElements (deleteIf pred) (2 ^ 32) l.head l = some (addresses nodes, l') ∧
      Represents cmp l' (nodes.filter fun x => !pred x.2) := by
  have hlist : Represents cmp l ([] ++ nodes) := h
  rw [h.head]
  exact allListElements_spec hlist (by simp) (Nat.le_of_lt h.length_lt)

/-- Two nodes with the same data are both deleted. -/
theorem allListElements_delete_twice :
    ∃ (l l' : UList ℤ) (nodes : List (Addr × ℤ)),
      [ListOp.add 5 (some ⟨0, by decide⟩), .add 7 (some ⟨1, by decide⟩),
        .add 5 (some ⟨2, by decide⟩)].foldlM UList.step (listNew none false) = some l ∧
      nodes.map Prod.snd = [5, 7, 5] ∧
      allListElements (deleteIf fun data => data = 5) (2 ^ 32) l.head l =
        some (addresses nodes, l') ∧
      Represents none l' (nodes.filter fun x => !decide (x.2 = 5)) := by
  obtain ⟨l, hrun, hrep⟩ := run_spec (represents_listNew none false)
    [ListOp.add (5 : ℤ) (some ⟨0, by decide⟩), .add 7 (some ⟨1, by decide⟩),
      .add 5 (some ⟨2, by decide⟩)]
  obtain ⟨l', hloop, hrep'⟩ := allListElements_delete hrep fun data => data = 5
  exact ⟨l, l', _, hrun, by decide, hloop, hrep'⟩

end BcmUtils.LinkList
