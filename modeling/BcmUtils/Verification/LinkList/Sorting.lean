import BcmUtils.Verification.LinkList.Refinement

/-! # Insertion in order

A list filled with `listnode_add_sort` is sorted, holds what was inserted, and keeps the order of
equal values. -/

namespace BcmUtils.LinkList

open CLib

variable {V : Type}

/-- The comparison is a total preorder: it has the opposite sign for the values exchanged, and
is transitive. -/
structure TotalPreorder (cmp : V → V → ℤ) : Prop where
  flip : ∀ a b, cmp a b < 0 ↔ 0 < cmp b a
  trans : ∀ a b c, cmp a b ≤ 0 → cmp b c ≤ 0 → cmp a c ≤ 0

variable {cmp : V → V → ℤ} {a b val : V} {xs : List V}

theorem TotalPreorder.le_flip (h : TotalPreorder cmp) : 0 ≤ cmp a b ↔ cmp b a ≤ 0 := by
  have hflip := h.flip a b
  omega

theorem insertSorted_eq_orderedInsert (cmp : V → V → ℤ) (val : V) (xs : List V) :
    insertSorted cmp val xs = xs.orderedInsert (fun a b => cmp a b < 0) val := by
  induction xs with
  | nil => rfl
  | cons x xs ih => rw [insertSorted, List.orderedInsert_cons, ih]

theorem perm_insertSorted (cmp : V → V → ℤ) (val : V) (xs : List V) :
    (insertSorted cmp val xs).Perm (val :: xs) := by
  rw [insertSorted_eq_orderedInsert]
  exact List.perm_orderedInsert _ val xs

theorem pairwise_insertSorted (h : TotalPreorder cmp) (hxs : xs.Pairwise fun a b => cmp a b ≤ 0) :
    (insertSorted cmp val xs).Pairwise fun a b => cmp a b ≤ 0 := by
  induction xs with
  | nil => exact List.pairwise_singleton _ _
  | cons x xs ih =>
      rw [List.pairwise_cons] at hxs
      rw [insertSorted]
      by_cases hless : cmp val x < 0
      · rw [if_pos hless, List.pairwise_cons]
        constructor
        · intro y hy
          cases hy with
          | head => exact hless.le
          | tail _ hy => exact h.trans val x y hless.le (hxs.1 y hy)
        · exact List.pairwise_cons.mpr hxs
      · rw [if_neg hless, List.pairwise_cons]
        constructor
        · intro y hy
          have hmem := (perm_insertSorted cmp val xs).mem_iff.mp hy
          cases hmem with
          | head => exact h.le_flip.mp (not_lt.mp hless)
          | tail _ hy => exact hxs.1 y hy
        · exact ih hxs.2

/-- The inserted value comes behind all values that compare equal. -/
theorem filter_insertSorted (h : TotalPreorder cmp) (hxs : xs.Pairwise fun a b => cmp a b ≤ 0)
    (k : V) :
    (insertSorted cmp val xs).filter (fun x => cmp k x = 0) =
      xs.filter (fun x => cmp k x = 0) ++ [val].filter (fun x => cmp k x = 0) := by
  induction xs with
  | nil => rfl
  | cons x xs ih =>
      rw [List.pairwise_cons] at hxs
      rw [insertSorted]
      by_cases hless : cmp val x < 0
      · rw [if_pos hless]
        by_cases hval : cmp k val = 0
        · -- Nothing from the first greater value on is equal to `k`.
          have hnone : (x :: xs).filter (fun x => cmp k x = 0) = [] := by
            rw [List.filter_eq_nil_iff]
            intro y hy
            rw [decide_eq_true_eq]
            intro hky
            have hxy : cmp x y ≤ 0 := by
              cases hy with
              | head =>
                  have hself := h.flip x x
                  omega
              | tail _ hy => exact hxs.1 y hy
            have hyk : cmp y k ≤ 0 := h.le_flip.mp hky.ge
            have hxval := h.trans x y val hxy (h.trans y k val hyk hval.le)
            have hflip := h.flip val x
            omega
          rw [hnone, List.filter_cons_of_pos (by simpa using hval), hnone, List.nil_append,
            List.filter_cons_of_pos (by simpa using hval), List.filter_nil]
        · rw [List.filter_cons_of_neg (by simpa using hval),
            List.filter_cons_of_neg (a := val) (by simpa using hval), List.filter_nil,
            List.append_nil]
      · rw [if_neg hless, List.filter_cons, List.filter_cons, ih hxs.2]
        split <;> rfl

/-- What insertion in order keeps true of the list. -/
theorem foldl_insertSorted_spec {cmp : V → V → ℤ} (h : TotalPreorder cmp) (vals xs : List V)
    (hxs : xs.Pairwise fun a b => cmp a b ≤ 0) :
    (vals.foldl (fun xs val => insertInto (some cmp) val xs) xs).Pairwise
        (fun a b => cmp a b ≤ 0) ∧
      (vals.foldl (fun xs val => insertInto (some cmp) val xs) xs).Perm (xs ++ vals) ∧
      ∀ k, (vals.foldl (fun xs val => insertInto (some cmp) val xs) xs).filter
          (fun x => cmp k x = 0) = (xs ++ vals).filter fun x => cmp k x = 0 := by
  induction vals generalizing xs with
  | nil => simpa using hxs
  | cons val vals ih =>
      obtain ⟨hsorted, hperm, hfilter⟩ := ih (insertSorted cmp val xs) (pairwise_insertSorted h hxs)
      refine ⟨hsorted, ?_, ?_⟩
      · exact hperm.trans (((perm_insertSorted cmp val xs).append_right vals).trans
          List.perm_middle.symm)
      · intro k
        rw [List.foldl_cons]
        refine (hfilter k).trans ?_
        rw [List.filter_append, filter_insertSorted h hxs, ← List.filter_append,
          ← List.filter_append, List.append_assoc]
        rfl

theorem foldl_insertInto_none (vals xs : List V) :
    vals.foldl (fun xs val => insertInto none val xs) xs = xs ++ vals := by
  induction vals generalizing xs with
  | nil => simp
  | cons val vals ih => rw [List.foldl_cons, ih, insertInto, List.append_assoc]; rfl

/-! ## Data with addresses -/

theorem map_insertInto (cmp : Option (V → V → ℤ)) (a : Addr) (val : V) (nodes : List (Addr × V)) :
    (insertInto (byData cmp) (a, val) nodes).map Prod.snd =
      insertInto cmp val (nodes.map Prod.snd) := by
  cases cmp with
  | none => exact List.map_append
  | some cmp =>
      change (insertSorted (fun x y => cmp x.2 y.2) (a, val) nodes).map Prod.snd =
        insertSorted cmp val (nodes.map Prod.snd)
      induction nodes with
      | nil => rfl
      | cons x nodes ih =>
          rw [List.map_cons, insertSorted, insertSorted]
          split
          · rfl
          · rw [List.map_cons, ih]

theorem mem_addresses_insertInto {cmp : Option (V → V → ℤ)} {a a' : Addr} {val : V}
    {nodes : List (Addr × V)} :
    a' ∈ addresses (insertInto (byData cmp) (a, val) nodes) ↔ a' ∈ a :: addresses nodes := by
  have hperm : (insertInto (byData cmp) (a, val) nodes).Perm ((a, val) :: nodes) := by
    cases cmp with
    | none => exact List.perm_append_singleton _ _
    | some cmp => exact perm_insertSorted _ _ _
  exact (hperm.map Prod.fst).mem_iff

/-! ## Runs -/

variable [Zero V] [DecidableEq V]

/-- Calls of `listnode_add_sort` one after the other, with what `malloc` returns. -/
def insertions (vals : List (V × Option Addr)) : List (ListOp V) :=
  vals.map fun va => .addSort va.1 va.2

/-- The values of these calls that are no null pointers and for which `malloc` hands out an
address, none of the addresses `used` before. -/
def insertedVals (used : List Addr) : List (V × Option Addr) → List V
  | [] => []
  | (_, none) :: vals => insertedVals used vals
  | (val, some a) :: vals =>
      if val = 0 ∨ used.elem a then insertedVals used vals
      else val :: insertedVals (a :: used) vals

/-- The list model inserts these values in order. -/
theorem foldl_modelStep_insertions (cmp : Option (V → V → ℤ)) (vals : List (V × Option Addr))
    {used : List Addr} (nodes : List (Addr × V)) (hused : ∀ a, a ∈ used ↔ a ∈ addresses nodes) :
    ((insertions vals).foldl (modelStep cmp) nodes).map Prod.snd =
      (insertedVals used vals).foldl (fun xs val => insertInto cmp val xs)
        (nodes.map Prod.snd) := by
  induction vals generalizing used nodes with
  | nil => rfl
  | cons va vals ih =>
      obtain ⟨val, malloc⟩ := va
      have hcons : (insertions ((val, malloc) :: vals)).foldl (modelStep cmp) nodes =
          (insertions vals).foldl (modelStep cmp) (modelStep cmp nodes (.addSort val malloc)) := rfl
      rw [hcons]
      cases malloc with
      | none => exact ih nodes hused
      | some a =>
          rw [insertedVals]
          by_cases hin : a ∈ used
          · have hgranted : granted nodes (some a) = none := by
              simpa [granted] using (hused a).mp hin
            rw [if_pos (Or.inr (List.elem_iff.mpr hin)), modelStep, hgranted]
            exact ih nodes hused
          · have hgranted : granted nodes (some a) = some a :=
              Option.filter_eq_some_iff.mpr ⟨rfl, by simpa [hused a] using hin⟩
            rw [modelStep, hgranted]
            by_cases hval : val = 0
            · simp only [hval, true_or, if_true]
              exact ih nodes hused
            · simp only [hval, List.elem_iff, hin, or_self, if_false]
              rw [ih _ fun a' => ?_, map_insertInto, List.foldl_cons]
              rw [mem_addresses_insertInto, List.mem_cons, List.mem_cons, hused a']

/-- The run, with the data as the list model computes them. -/
theorem insertions_spec (cmp : Option (V → V → ℤ)) (del : Bool) (vals : List (V × Option Addr)) :
    ∃ l nodes, (insertions vals).foldlM UList.step (listNew cmp del) = some l ∧
      Walk Cell.next l.mem l.head nodes ∧
      nodes.map Prod.snd =
        (insertedVals [] vals).foldl (fun xs val => insertInto cmp val xs) [] := by
  obtain ⟨l, hrun, hrep⟩ := run_spec (represents_listNew cmp del) (insertions vals)
  refine ⟨l, _, hrun, ?_, foldl_modelStep_insertions cmp vals [] fun a => Iff.rfl⟩
  rw [hrep.head]
  exact hrep.linked.walk_next

/-- After any insertions with `listnode_add_sort` the list is sorted, a permutation of what was
inserted, and has equal values in the order of their insertion. Without `cmp` it is what was
inserted. -/
theorem listnodeAddSort_stable {cmp : V → V → ℤ} (h : TotalPreorder cmp) (del : Bool)
    (vals : List (V × Option Addr)) :
    (∃ l nodes, (insertions vals).foldlM UList.step (listNew (some cmp) del) = some l ∧
      Walk Cell.next l.mem l.head nodes ∧
      (nodes.map Prod.snd).Pairwise (fun a b => cmp a b ≤ 0) ∧
      (nodes.map Prod.snd).Perm (insertedVals [] vals) ∧
      ∀ k, (nodes.map Prod.snd).filter (fun x => cmp k x = 0) =
        (insertedVals [] vals).filter fun x => cmp k x = 0) ∧
    ∃ l nodes, (insertions vals).foldlM UList.step (listNew none del) = some l ∧
      Walk Cell.next l.mem l.head nodes ∧
      nodes.map Prod.snd = insertedVals [] vals := by
  constructor
  · obtain ⟨l, nodes, hrun, hwalk, hdata⟩ := insertions_spec (some cmp) del vals
    obtain ⟨hsorted, hperm, hfilter⟩ :=
      foldl_insertSorted_spec h (insertedVals [] vals) [] List.Pairwise.nil
    refine ⟨l, nodes, hrun, hwalk, ?_, ?_, ?_⟩
    · rw [hdata]
      exact hsorted
    · rw [hdata]
      exact hperm
    · intro k
      rw [hdata]
      exact hfilter k
  · obtain ⟨l, nodes, hrun, hwalk, hdata⟩ := insertions_spec (none : Option (V → V → ℤ)) del vals
    rw [foldl_insertInto_none] at hdata
    exact ⟨l, nodes, hrun, hwalk, hdata⟩

/-- Numbers, which are compared by their tens. -/
def tensVals : List (ℤ × Option Addr) :=
  [(21, some ⟨0, by decide⟩), (12, some ⟨1, by decide⟩), (0, none), (11, some ⟨2, by decide⟩)]

/-- The numbers with one ten come first, in the order of their insertion. -/
theorem listnodeAddSort_stable_tens :
    ∃ l nodes, (insertions tensVals).foldlM UList.step
        (listNew (some fun a b => a / 10 - b / 10) false) = some l ∧
      Walk Cell.next l.mem l.head nodes ∧ nodes.map Prod.snd = [12, 11, 21] := by
  have h : TotalPreorder fun a b : ℤ => a / 10 - b / 10 :=
    ⟨fun a b => by omega, fun a b c => by omega⟩
  obtain ⟨⟨l, nodes, hrun, hwalk, hsorted, hperm, hstable⟩, -⟩ :=
    listnodeAddSort_stable h false tensVals
  refine ⟨l, nodes, hrun, hwalk, ?_⟩
  have hvals : insertedVals [] tensVals = [21, 12, 11] := by decide
  rw [hvals] at hperm hstable
  have htens := hstable 12
  obtain ⟨x, y, z, hxyz⟩ := List.length_eq_three.mp hperm.length_eq
  have hmem : ∀ w ∈ [x, y, z], w = 21 ∨ w = 12 ∨ w = 11 := by
    intro w hw
    rw [← hxyz] at hw
    simpa using hperm.mem_iff.mp hw
  rw [hxyz] at hsorted htens ⊢
  clear hxyz hperm hstable
  rcases hmem x (by simp) with rfl | rfl | rfl <;> rcases hmem y (by simp) with rfl | rfl | rfl <;>
    rcases hmem z (by simp) with rfl | rfl | rfl <;> revert hsorted htens <;> decide

end BcmUtils.LinkList
