import BcmUtils.Model.ConfLists

/-! # Filling a list from stored records -/

namespace BcmUtils.ConfLists

open CLib

variable {ρ : Type} {body : CStr → CStr → Option ρ} {mallocOk : ℕ → Bool}

/-- The list of a struct holds these records, and the count is their number. -/
def Holds (c : ListConf ρ) (xs : List ρ) : Prop :=
  (∃ as, Chain c.heap c.head as xs) ∧ c.count = xs.length

/-- The loop appends the records it reads, all of them when it succeeds. -/
theorem fillList_spec (mallocOk : ℕ → Bool) {sp : List (CStr × CStr)} {xs : List ρ}
    (hbody : sp.mapM (fun r => body r.1 r.2) = some xs) {k : ℕ} {cur : Option ℕ}
    {c : ListConf ρ} {as : List ℕ} {ys : List ρ} (hchain : Chain c.heap c.head as ys)
    (hcur : cur = as.getLast?) :
    ∃ ret c' zs, fillList body mallocOk sp k cur c = some (ret, c') ∧
      (∃ bs, Chain c'.heap c'.head bs (ys ++ zs)) ∧ c'.count = c.count + zs.length ∧
      (ret = CLI_SUCCESS → zs = xs) := by
  induction sp generalizing xs k cur c as ys with
  | nil =>
      obtain rfl : xs = [] := by simpa using hbody.symm
      exact ⟨CLI_SUCCESS, c, [], rfl, ⟨as, by simpa using hchain⟩, by simp, fun _ => rfl⟩
  | cons r sp ih =>
      obtain ⟨p, p3⟩ := r
      obtain ⟨x, rest, hx, hrest, rfl⟩ := mapM_cons_eq_some.mp hbody
      by_cases hm : mallocOk k = true
      · have hstep : ∀ (heap : Heap (Node ρ)) (head : Option ℕ) (as' : List ℕ),
            Chain heap head (as' ++ [c.heap.next]) (ys ++ [x]) →
            ∃ ret c' zs, fillList body mallocOk sp (k + 1) (some c.heap.next)
                ⟨heap, c.count + 1, head⟩ = some (ret, c') ∧
              (∃ bs, Chain c'.heap c'.head bs (ys ++ zs)) ∧
              c'.count = c.count + zs.length ∧ (ret = CLI_SUCCESS → zs = x :: rest) := by
          intro heap head as' hc
          obtain ⟨ret, c', zs, hfill, ⟨bs, hbs⟩, hcount, hret⟩ := ih hrest (k := k + 1)
            (c := ⟨heap, c.count + 1, head⟩) hc
            (by simp : some c.heap.next = (as' ++ [c.heap.next]).getLast?)
          refine ⟨ret, c', x :: zs, hfill, ⟨bs, by simpa using hbs⟩, ?_, ?_⟩
          · rw [hcount, List.length_cons]
            push_cast
            ring
          · intro hr
            rw [hret hr]
        cases hlast : as.getLast? with
        | none =>
            obtain ⟨-, rfl⟩ := hchain.eq_nil_of_getLast? hlast
            rw [hcur, hlast]
            simp only [fillList, hm, hx, ite_true, Option.bind_eq_bind, Option.bind_some,
              Heap.alloc_fst]
            exact hstep _ _ [] (Chain.singleton c.heap x)
        | some q =>
            obtain ⟨node, heap', hload, hstore, hc⟩ := hchain.link hlast x
            rw [hcur, hlast]
            simp only [fillList, hm, hx, ite_true, Option.bind_eq_bind, Option.bind_some,
              Heap.alloc_fst, hload, hstore]
            exact hstep _ _ as hc
      · have hfalse : mallocOk k = false := by simpa using hm
        cases hlast : as.getLast? with
        | none =>
            rw [hcur, hlast]
            simp only [fillList, hfalse, Bool.false_eq_true, ite_false]
            exact ⟨CLI_FAILED, c, [], rfl, ⟨as, by simpa using hchain⟩, by simp,
              fun h => absurd h (by decide)⟩
        | some q =>
            obtain ⟨node, heap', hload, hstore, hc⟩ := hchain.unlink hlast
            rw [hcur, hlast]
            simp only [fillList, hfalse, Bool.false_eq_true, ite_false, Option.bind_eq_bind, hload,
              hstore, Option.bind_some]
            exact ⟨CLI_FAILED, _, [], rfl, ⟨as, by simpa using hc⟩, by simp,
              fun h => absurd h (by decide)⟩

/-- The loop succeeds when all of its allocations do. -/
theorem fillList_ret {sp : List (CStr × CStr)} {k : ℕ} {cur : Option ℕ} {c c' : ListConf ρ}
    {ret : ℤ} (h : fillList body mallocOk sp k cur c = some (ret, c')) :
    ret = CLI_SUCCESS ↔ ∀ j < sp.length, mallocOk (k + j) = true := by
  induction sp generalizing k cur c with
  | nil =>
      simp only [fillList, Option.some.injEq, Prod.mk.injEq] at h
      simp [h.1]
  | cons r sp ih =>
      obtain ⟨p, p3⟩ := r
      have hsplit : (∀ j < sp.length + 1, mallocOk (k + j) = true) ↔
          mallocOk k = true ∧ ∀ j < sp.length, mallocOk (k + 1 + j) = true := by
        rw [Nat.forall_lt_succ_left]
        simp [Nat.add_comm, Nat.add_left_comm]
      rw [List.length_cons, hsplit]
      by_cases hm : mallocOk k = true
      · simp only [fillList, hm, ite_true, Option.bind_eq_bind, Option.bind_eq_some_iff] at h
        obtain ⟨x, -, h⟩ := h
        cases cur with
        | none => simpa [hm] using ih h
        | some q =>
            simp only [Option.bind_eq_some_iff] at h
            obtain ⟨node, -, heap, -, h⟩ := h
            simpa [hm] using ih h
      · have hret : ret = CLI_FAILED := by
          have hfalse : mallocOk k = false := by simpa using hm
          cases cur with
          | none =>
              simp only [fillList, hfalse, Bool.false_eq_true, ite_false, Option.some.injEq,
                Prod.mk.injEq] at h
              exact h.1.symm
          | some q =>
              simp only [fillList, hfalse, Bool.false_eq_true, ite_false, Option.bind_eq_bind,
                Option.bind_eq_some_iff, Option.some.injEq, Prod.mk.injEq] at h
              obtain ⟨node, -, heap, -, hr, -⟩ := h
              exact hr.symm
        simp [hret, hm, CLI_FAILED, CLI_SUCCESS]

/-- Filling an empty struct, whatever the allocations do. -/
theorem fillList_empty (mallocOk : ℕ → Bool) {sp : List (CStr × CStr)} {xs : List ρ}
    (hbody : sp.mapM (fun r => body r.1 r.2) = some xs) (heap : Heap (Node ρ)) :
    ∃ ret c' zs, fillList body mallocOk sp 0 none ⟨heap, 0, none⟩ = some (ret, c') ∧
      Holds c' zs ∧ (ret = CLI_SUCCESS → zs = xs) := by
  obtain ⟨ret, c', zs, hfill, hchain, hcount, hret⟩ := fillList_spec mallocOk hbody
    (k := 0) (c := ⟨heap, 0, none⟩) Chain.nil rfl
  exact ⟨ret, c', zs, hfill, ⟨hchain, by simpa using hcount⟩, hret⟩

/-- Filling behind the first node of an old list drops the rest of that list. -/
theorem fillList_stale (mallocOk : ℕ → Bool) {r : CStr × CStr} {sp : List (CStr × CStr)}
    {xs : List ρ} (hbody : (r :: sp).mapM (fun r => body r.1 r.2) = some xs) {c : ListConf ρ}
    {a : ℕ} {node : Node ρ} (hhead : c.head = some a) (hcell : c.heap.cells a = some node) :
    ∃ ret c', fillList body mallocOk (r :: sp) 0 (some a) c = some (ret, c') ∧
      ∃ bs zs, Chain c'.heap c'.head bs zs := by
  obtain ⟨x, rest, hx, hrest, -⟩ := mapM_cons_eq_some.mp hbody
  by_cases hm : mallocOk 0 = true
  · have hne : a ≠ c.heap.next := Nat.ne_of_lt (Heap.lt_next_of_cells hcell)
    have hload : (c.heap.alloc ⟨x, none⟩).2.cells a = some node :=
      (Heap.alloc_cells_of_ne hne).trans hcell
    obtain ⟨heap, hstore, hself, -, hsame⟩ := Heap.store_of_live hload ⟨node.data, some c.heap.next⟩
    have hnew : heap.cells c.heap.next = some ⟨x, none⟩ := by
      rw [hsame _ (Ne.symm hne), Heap.alloc_cells_self]
    have hchain : Chain heap c.head [a, c.heap.next] [node.data, x] := by
      rw [hhead]
      exact .cons hself (by simpa using hne) (.cons hnew (by simp) .nil)
    obtain ⟨ret, c', zs, hfill, ⟨bs, hbs⟩, -, -⟩ := fillList_spec mallocOk hrest
      (k := 0 + 1) (c := ⟨heap, c.count + 1, c.head⟩) hchain
      (rfl : some c.heap.next = [a, c.heap.next].getLast?)
    refine ⟨ret, c', ?_, bs, _, hbs⟩
    simp only [fillList, hm, hx, ite_true, Option.bind_eq_bind, Option.bind_some,
      Heap.alloc_fst, Heap.load, hload, hstore]
    exact hfill
  · obtain ⟨heap, hstore, hself, -, -⟩ := Heap.store_of_live hcell ⟨node.data, none⟩
    have hchain : Chain heap c.head [a] [node.data] := by
      rw [hhead]
      exact .cons hself (by simp) .nil
    refine ⟨CLI_FAILED, { c with heap }, ?_, _, _, hchain⟩
    simp only [fillList, hm, Bool.false_eq_true, ite_false, Option.bind_eq_bind, Heap.load,
      hcell, Option.bind_some, hstore]

end BcmUtils.ConfLists
