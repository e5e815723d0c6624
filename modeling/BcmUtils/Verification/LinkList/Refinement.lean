import BcmUtils.Verification.LinkList.Nodes

/-! # The linked list is a list

The operations on a list from `list_new` do with the nodes what the operations of the same name do
with a list of data and their addresses. -/

namespace BcmUtils.LinkList

open CLib

variable {V : Type}

/-! ## The list model -/

/-- Insert before the first element that is greater. -/
def insertSorted (cmp : V → V → ℤ) (val : V) : List V → List V
  | [] => [val]
  | x :: xs => if cmp val x < 0 then val :: x :: xs else x :: insertSorted cmp val xs

/-- Insert in the order of `cmp`, or at the end if there is none. -/
def insertInto (cmp : Option (V → V → ℤ)) (val : V) (xs : List V) : List V :=
  match cmp with
  | some cmp => insertSorted cmp val xs
  | none => xs ++ [val]

/-- The order of the data, for data with their addresses. -/
def byData (cmp : Option (V → V → ℤ)) : Option (Addr × V → Addr × V → ℤ) :=
  cmp.map fun cmp x y => cmp x.2 y.2

/-- One operation on a list of data with their addresses. A null pointer is not added, and
nothing is without memory for a node. -/
def modelStep [Zero V] [DecidableEq V] (cmp : Option (V → V → ℤ)) (xs : List (Addr × V)) :
    ListOp V → List (Addr × V)
  | .add val malloc =>
      match granted xs malloc with
      | some a => if val = 0 then xs else xs ++ [(a, val)]
      | none => xs
  | .addSort val malloc =>
      match granted xs malloc with
      | some a => if val = 0 then xs else insertInto (byData cmp) (a, val) xs
      | none => xs
  | .delete val => xs.eraseP fun x => x.2 = val
  | .deleteAll => []

theorem insertSorted_of_forall {cmp : V → V → ℤ} {val : V} {xs : List V}
    (h : ∀ x ∈ xs, ¬ cmp val x < 0) : insertSorted cmp val xs = xs ++ [val] := by
  induction xs with
  | nil => rfl
  | cons x xs ih =>
      rw [insertSorted, if_neg (h x List.mem_cons_self),
        ih fun y hy => h y (List.mem_cons_of_mem _ hy)]
      rfl

theorem insertSorted_append_cons {cmp : V → V → ℤ} {val x : V} {xs ys : List V}
    (hxs : ∀ y ∈ xs, ¬ cmp val y < 0) (hx : cmp val x < 0) :
    insertSorted cmp val (xs ++ x :: ys) = xs ++ val :: x :: ys := by
  induction xs with
  | nil => exact if_pos hx
  | cons y xs ih =>
      rw [List.cons_append, insertSorted, if_neg (hxs y List.mem_cons_self),
        ih fun z hz => hxs z (List.mem_cons_of_mem _ hz)]
      rfl

/-! ## Adding -/

variable {l l' : UList V} {L K nodes : List (Addr × V)} {cmp : Option (V → V → ℤ)}

theorem linkTail_eq [Zero V] (h : l.head = none ↔ l.tail = none) (node : Addr) :
    l.linkTail node = l.linkNext l.tail (some node) := by
  obtain ⟨head, tail, count, cmp, del, mem, deleted⟩ := l
  cases head with
  | none =>
      obtain rfl : tail = none := h.mp rfl
      rfl
  | some a =>
      cases tail with
      | none => simp at h
      | some tail => rfl

theorem Shape.head_eq_none_iff (h : Shape l nodes) : l.head = none ↔ nodes = [] := by
  rw [h.head, first_eq_none_iff]

theorem Shape.tail_eq_none_iff (h : Shape l nodes) : l.tail = none ↔ nodes = [] := by
  rw [h.tail, last_eq_none_iff]

/-- A new node is linked before a node of the list. -/
theorem insertBefore_spec {nnode : Addr} {val : V} {e : Addr × V}
    (h : Spare cmp l (L ++ e :: K) nnode none val) :
    ∃ l₁ l₂ l₃,
      l.modify nnode (fun d => { d with next := some e.1, prev := last none L }) = some l₁ ∧
      l₁.linkNext (last none L) (some nnode) = some l₂ ∧
      l₂.modify e.1 (fun d => { d with prev := some nnode }) = some l₃ ∧
      Represents cmp { l₃ with count := l₃.count + 1 } (L ++ (nnode, val) :: e :: K) := by
  obtain ⟨hbefore, hcell, -⟩ := linked_append.mp
    (h.linked.update h.fresh (some ⟨some e.1, last none L, val⟩))
  have hlast : ∀ a, last none L = some a →
      Function.update l.mem nnode (some ⟨some e.1, last none L, val⟩) a ≠ none := by
    intro a ha
    exact hbefore.live (mem_addresses_of_last ha)
  have hfirst : ∀ a, some e.1 = some a → setNext (Function.update l.mem nnode
      (some ⟨some e.1, last none L, val⟩)) (last none L) (some nnode) a ≠ none := by
    intro a ha
    obtain rfl : e.1 = a := Option.some.inj ha
    rw [Ne, setNext_eq_none_iff, hcell]
    simp
  refine ⟨_, _, _, modify_of_live h.cell _, linkNext_eq hlast,
    linkPrev_eq (p := some e.1) hfirst, ?_⟩
  refine h.insert rfl ?_ ?_ rfl rfl
  · change (last none L).elim (some nnode) (fun _ => l.head) = first L (some nnode)
    rw [h.head, elim_last]
  · change l.tail = last (some nnode) (e :: K)
    rw [h.tail, last_append]
    rfl

/-! ## Adding in order -/

/-- The loop of `listnode_add_sort` finds the first greater element. -/
theorem sortLoop_spec {order : V → V → ℤ} {nnode : Addr} {val : V}
    (h : Spare cmp l (L ++ K) nnode none val) {fuel : ℕ} (hfuel : K.length ≤ fuel) :
    ((∀ x ∈ K, ¬ order val x.2 < 0) ∧
      sortLoop order val nnode fuel (first K none) l = some (false, l)) ∨
    ∃ K₁ e K₂ l', K = K₁ ++ e :: K₂ ∧ (∀ x ∈ K₁, ¬ order val x.2 < 0) ∧ order val e.2 < 0 ∧
      sortLoop order val nnode fuel (first K none) l = some (true, l') ∧
      Represents cmp l' (L ++ K₁ ++ (nnode, val) :: e :: K₂) := by
  induction K generalizing L fuel with
  | nil => exact Or.inl ⟨by simp, by cases fuel <;> rfl⟩
  | cons e K ih =>
      obtain ⟨fuel, rfl⟩ : ∃ k, fuel = k + 1 :=
        Nat.exists_eq_succ_of_ne_zero (by rintro rfl; simp at hfuel)
      have hcell : l.mem e.1 = some ⟨first K none, last none L, e.2⟩ :=
        (linked_append.mp h.linked).2.1
      rw [first, sortLoop, bind_of_eq hcell]
      by_cases hless : order val e.2 < 0
      · obtain ⟨l₁, l₂, l₃, h₁, h₂, h₃, hrep⟩ := insertBefore_spec h
        refine Or.inr ⟨[], e, K, _, rfl, by simp, hless, ?_, by simpa using hrep⟩
        rw [if_pos hless, bind_of_eq h₁, bind_of_eq h₂, bind_of_eq h₃]
        rfl
      · rw [if_neg hless]
        have hspare : Spare cmp l ((L ++ [e]) ++ K) nnode none val := by
          rwa [List.append_assoc, List.singleton_append]
        rcases ih hspare (Nat.le_of_succ_le_succ hfuel) with
          ⟨hall, hloop⟩ | ⟨K₁, e', K₂, l', rfl, hall, hgreater, hloop, hrep⟩
        · exact Or.inl ⟨List.forall_mem_cons.mpr ⟨hless, hall⟩, hloop⟩
        · refine Or.inr ⟨e :: K₁, e', K₂, l', rfl, List.forall_mem_cons.mpr ⟨hless, hall⟩, hgreater,
            hloop, ?_⟩
          rwa [List.append_assoc L [e] K₁] at hrep

/-- Without a greater element the list stays as it is. -/
theorem sortInsert_spec {nnode : Addr} {val : V} (h : Spare cmp l nodes nnode none val) :
    (sortInsert val nnode l = some (false, l) ∧
      insertInto (byData cmp) (nnode, val) nodes = nodes ++ [(nnode, val)]) ∨
    ∃ l', sortInsert val nnode l = some (true, l') ∧
      Represents cmp l' (insertInto (byData cmp) (nnode, val) nodes) := by
  have hcmp := h.cmp_eq
  cases cmp with
  | none => exact Or.inl ⟨by rw [sortInsert, hcmp], rfl⟩
  | some order =>
      have hsort : sortInsert val nnode l =
          sortLoop order val nnode (2 ^ 32) (first nodes none) l := by
        rw [sortInsert, hcmp, h.head]
      rw [hsort]
      have hspare : Spare (some order) l ([] ++ nodes) nnode none val := h
      rcases sortLoop_spec hspare (Nat.le_of_lt h.length_lt) with
        ⟨hall, hloop⟩ | ⟨K₁, e, K₂, l', hnodes, hall, hgreater, hloop, hrep⟩
      · exact Or.inl ⟨hloop, insertSorted_of_forall hall⟩
      · refine Or.inr ⟨l', hloop, ?_⟩
        have hinsert : insertInto (byData (some order)) (nnode, val) nodes =
            K₁ ++ (nnode, val) :: e :: K₂ := by
          rw [hnodes]
          exact insertSorted_append_cons hall hgreater
        rw [hinsert]
        exact hrep

theorem appendNode_spec {nnode : Addr} {val : V} (h : Spare cmp l nodes nnode none val) :
    ∃ l', appendNode nnode l = some l' ∧ Represents cmp l' (nodes ++ [(nnode, val)]) := by
  obtain ⟨l₁, hprev, hspare, -, htail⟩ := h.modify (f := fun c => { c with prev := l.tail }) rfl
  rw [← htail] at hspare
  obtain ⟨l₂, hlink, hlast⟩ := linkLast_spec hspare
  refine ⟨_, ?_, hlast⟩
  rw [appendNode, bind_of_eq hprev, bind_of_eq hlink]
  rfl

/-! ## Deleting -/

/-- A node is taken out of the list and released. -/
theorem unlink_spec {e : Addr × V} (h : Represents cmp l (L ++ e :: K)) :
    ∃ l₁ l₂ l₃, l.linkNext (last none L) (first K none) = some l₁ ∧
      l₁.linkPrev (first K none) (last none L) = some l₂ ∧
      UList.free { l₂ with count := l₂.count - 1 } e.1 = some l₃ ∧ Represents cmp l₃ (L ++ K) := by
  obtain ⟨hbefore, hcell, hbehind⟩ := linked_append.mp h.linked
  have hlast : ∀ a, last none L = some a → l.mem a ≠ none := by
    intro a ha
    exact hbefore.live (mem_addresses_of_last ha)
  have hfirst : ∀ a, first K none = some a →
      setNext l.mem (last none L) (first K none) a ≠ none := by
    intro a ha
    rw [Ne, setNext_eq_none_iff]
    exact hbehind.live (mem_addresses_of_first ha)
  have hnode : setPrev (setNext l.mem (last none L) (first K none)) (first K none) (last none L)
      e.1 ≠ none := by
    rw [Ne, setPrev_eq_none_iff, setNext_eq_none_iff, hcell]
    simp
  obtain ⟨c, hc⟩ := Option.ne_none_iff_exists'.mp hnode
  refine ⟨_, _, _, linkNext_eq hlast, linkPrev_eq hfirst, bind_of_eq hc _, ?_⟩
  have hnodup := nodup_addresses_middle.mp h.nodup
  refine ⟨h.toShape.remove rfl ?_ ?_ rfl, h.cmp_eq, fun a => ?_⟩
  · change (last none L).elim (first K none) (fun _ => l.head) = first L (first K none)
    rw [h.head, elim_last]
  · change (first K none).elim (last none L) (fun _ => l.tail) = last (last none L) K
    have htail := elim_first (L ++ [e]) K (last none L)
    rwa [List.append_assoc, List.singleton_append, ← h.tail] at htail
  · change Function.update (setPrev (setNext l.mem (last none L) (first K none)) (first K none)
      (last none L)) e.1 none a = none ↔ a ∉ addresses (L ++ K)
    by_cases ha : a = e.1
    · rw [ha, Function.update_self]
      exact iff_of_true rfl hnodup.1
    · rw [Function.update_of_ne ha, setPrev_eq_none_iff, setNext_eq_none_iff, h.owned a]
      simp [ha]

/-- The first node is handed to the callback and released. -/
theorem release_spec {c : Cell Addr V} {a : Addr} (h : l.mem a = some c) :
    ∃ l',
      UList.free (if l.del then { l with deleted := l.deleted ++ [c.data] } else l) a = some l' ∧
      l'.mem = Function.update l.mem a none ∧ l'.cmp = l.cmp ∧ l'.del = l.del ∧
      l'.deleted = l.deleted ++ if l.del then [c.data] else [] := by
  cases hdel : l.del with
  | true => exact ⟨_, bind_of_eq h _, rfl, rfl, rfl, rfl⟩
  | false => exact ⟨_, bind_of_eq h _, rfl, rfl, hdel, (List.append_nil _).symm⟩

/-- The nodes are released one after the other. -/
theorem deleteAllLoop_spec {before : Option Addr} (hlinked : Linked l.mem before K none)
    (hnodup : (addresses K).Nodup) (howned : ∀ a, l.mem a = none ↔ a ∉ addresses K) {fuel : ℕ}
    (hfuel : K.length ≤ fuel) :
    ∃ l', deleteAllLoop fuel (first K none) l = some l' ∧ (∀ a, l'.mem a = none) ∧
      l'.cmp = l.cmp ∧ l'.deleted = l.deleted ++ if l.del then K.map Prod.snd else [] := by
  induction K generalizing l before fuel with
  | nil =>
      refine ⟨l, by cases fuel <;> rfl, fun a => (howned a).mpr List.not_mem_nil, rfl, by simp⟩
  | cons e K ih =>
      obtain ⟨fuel, rfl⟩ : ∃ k, fuel = k + 1 :=
        Nat.exists_eq_succ_of_ne_zero (by rintro rfl; simp at hfuel)
      rw [addresses_cons, List.nodup_cons] at hnodup
      obtain ⟨l₁, hrelease, hmem, hcmp, hdel, hdeleted⟩ := release_spec hlinked.1
      have hrest : Linked l₁.mem (some e.1) K none := by
        rw [hmem]
        exact hlinked.2.update hnodup.1 none
      have howned₁ : ∀ a, l₁.mem a = none ↔ a ∉ addresses K := by
        intro a
        by_cases hae : a = e.1
        · rw [hae, hmem, Function.update_self]
          exact iff_of_true rfl hnodup.1
        · rw [hmem, Function.update_of_ne hae, howned a]
          simp [hae]
      obtain ⟨l', hloop, hempty, hcmp', hdeleted'⟩ :=
        ih hrest hnodup.2 howned₁ (Nat.le_of_succ_le_succ hfuel)
      refine ⟨l', ?_, hempty, hcmp'.trans hcmp, ?_⟩
      · rw [first, deleteAllLoop, bind_of_eq hlinked.1]
        simp only []
        rw [bind_of_eq hrelease]
        exact hloop
      · rw [hdeleted', hdeleted, hdel]
        cases l.del <;> simp

theorem deleteLoop_spec [DecidableEq V] (val : V) (h : Represents cmp l (L ++ K)) {fuel : ℕ}
    (hfuel : K.length ≤ fuel) :
    ∃ l', deleteLoop val fuel (first K none) l = some l' ∧
      Represents cmp l' (L ++ K.eraseP fun e => e.2 = val) := by
  induction K generalizing L fuel with
  | nil => exact ⟨l, by cases fuel <;> rfl, h⟩
  | cons e K ih =>
      obtain ⟨fuel, rfl⟩ : ∃ k, fuel = k + 1 :=
        Nat.exists_eq_succ_of_ne_zero (by rintro rfl; simp at hfuel)
      have hcell : l.mem e.1 = some ⟨first K none, last none L, e.2⟩ :=
        (linked_append.mp h.linked).2.1
      rw [first, deleteLoop, bind_of_eq hcell]
      by_cases hval : e.2 = val
      · obtain ⟨l₁, l₂, l₃, h₁, h₂, h₃, hrep⟩ := unlink_spec h
        refine ⟨l₃, ?_, by rwa [List.eraseP_cons_of_pos (by simpa using hval)]⟩
        rw [if_pos hval, bind_of_eq h₁, bind_of_eq h₂]
        exact h₃
      · rw [if_neg hval, List.eraseP_cons_of_neg (by simpa using hval)]
        have hnext : Represents cmp l ((L ++ [e]) ++ K) := by
          rwa [List.append_assoc, List.singleton_append]
        obtain ⟨l', hloop, hrep⟩ := ih hnext (Nat.le_of_succ_le_succ hfuel)
        rw [List.append_assoc, List.singleton_append] at hrep
        exact ⟨l', hloop, hrep⟩

/-- `listnode_delete` erases the first occurrence. -/
theorem listnodeDelete_spec [DecidableEq V] (h : Represents cmp l nodes) (val : V) :
    ∃ l', listnodeDelete val l = some l' ∧ Represents cmp l' (nodes.eraseP fun x => x.2 = val) := by
  have hlist : Represents cmp l ([] ++ nodes) := h
  obtain ⟨l', hloop, hrep⟩ := deleteLoop_spec val hlist (Nat.le_of_lt h.length_lt)
  refine ⟨l', ?_, hrep⟩
  rw [listnodeDelete, h.head]
  exact hloop

/-- `list_delete_all_node` clears the list. -/
theorem listDeleteAllNode_spec (h : Represents cmp l nodes) :
    ∃ l', listDeleteAllNode l = some l' ∧ Represents cmp l' [] := by
  obtain ⟨l', hloop, hempty, hcmp, -⟩ :=
    deleteAllLoop_spec h.linked h.nodup h.owned (Nat.le_of_lt h.length_lt)
  refine ⟨{ l' with head := none, tail := none, count := 0 }, ?_, ?_⟩
  · rw [listDeleteAllNode, h.head, bind_of_eq hloop]
    rfl
  · exact ⟨⟨trivial, List.nodup_nil, rfl, rfl, rfl⟩, hcmp.trans h.cmp_eq,
      fun a => iff_of_true (hempty a) List.not_mem_nil⟩

/-! ## The operations -/

variable [Zero V] [DecidableEq V]

/-- `listnode_add` appends. -/
theorem listnodeAdd_spec (h : Represents cmp l nodes) (val : V) (malloc : Option Addr) :
    ∃ l', listnodeAdd val malloc l = some l' ∧
      Represents cmp l' (modelStep cmp nodes (.add val malloc)) := by
  rcases listnodeNew_cases h malloc with ⟨hnone, hnew⟩ | ⟨node, l₁, hgranted, hnew, hspare⟩
  · rw [modelStep, hnone, listnodeAdd, hnew]
    exact ⟨l, ite_self _, h⟩
  · rw [modelStep, hgranted, listnodeAdd, hnew]
    by_cases hval : val = 0
    · simp only [if_pos hval]
      exact ⟨l, rfl, h⟩
    · obtain ⟨l₂, hset, hspare₂, hhead, htail⟩ :=
        hspare.modify (f := fun c => { c with prev := l₁.tail, data := val }) rfl
      rw [← htail] at hspare₂
      obtain ⟨l₃, hlink, hlast⟩ := linkLast_spec hspare₂
      have hempty : l₂.head = none ↔ l₂.tail = none := by
        rw [hspare₂.head_eq_none_iff, hspare₂.tail_eq_none_iff]
      simp only [if_neg hval]
      refine ⟨_, ?_, hlast⟩
      rw [bind_of_eq hset, linkTail_eq hempty, bind_of_eq hlink]
      rfl

/-- `listnode_add_sort` inserts. -/
theorem listnodeAddSort_spec (h : Represents cmp l nodes) (val : V) (malloc : Option Addr) :
    ∃ l', listnodeAddSort val malloc l = some l' ∧
      Represents cmp l' (modelStep cmp nodes (.addSort val malloc)) := by
  rcases listnodeNew_cases h malloc with ⟨hnone, hnew⟩ | ⟨nnode, l₁, hgranted, hnew, hspare⟩
  · rw [modelStep, hnone, listnodeAddSort, hnew]
    exact ⟨l, ite_self _, h⟩
  · rw [modelStep, hgranted, listnodeAddSort, hnew]
    by_cases hval : val = 0
    · simp only [if_pos hval]
      exact ⟨l, rfl, h⟩
    · obtain ⟨l₂, hset, hspare₂, -, -⟩ := hspare.modify (f := fun c => { c with data := val }) rfl
      simp only [if_neg hval]
      rw [bind_of_eq hset]
      rcases sortInsert_spec hspare₂ with ⟨hinsert, hlast⟩ | ⟨l', hinsert, hrep⟩
      · obtain ⟨l', happend, hrep⟩ := appendNode_spec hspare₂
        rw [hlast]
        exact ⟨l', (bind_of_eq hinsert _).trans happend, hrep⟩
      · exact ⟨l', bind_of_eq hinsert _, hrep⟩

/-! ## Runs -/

theorem step_spec (h : Represents cmp l nodes) (op : ListOp V) :
    ∃ l', l.step op = some l' ∧ Represents cmp l' (modelStep cmp nodes op) := by
  cases op with
  | add val malloc => exact listnodeAdd_spec h val malloc
  | addSort val malloc => exact listnodeAddSort_spec h val malloc
  | delete val => exact listnodeDelete_spec h val
  | deleteAll => exact listDeleteAllNode_spec h

theorem run_spec (h : Represents cmp l nodes) (ops : List (ListOp V)) :
    ∃ l', ops.foldlM UList.step l = some l' ∧
      Represents cmp l' (ops.foldl (modelStep cmp) nodes) := by
  induction ops generalizing l nodes with
  | nil => exact ⟨l, rfl, h⟩
  | cons op ops ih =>
      obtain ⟨l₁, hstep, hrep⟩ := step_spec h op
      obtain ⟨l', hrun, hrep'⟩ := ih hrep
      refine ⟨l', ?_, hrep'⟩
      rw [List.foldlM_cons, bind_of_eq hstep]
      exact hrun

/-- After any operations on a list from `list_new` the nodes from the head along `next` are those
of the list model, and those from the tail along `prev` the same in the opposite order; they are
counted, and head and tail are null pointers exactly if there are none. -/
theorem linklist_refines_list (cmp : Option (V → V → ℤ)) (del : Bool) (ops : List (ListOp V)) :
    ∃ l nodes, ops.foldlM UList.step (listNew cmp del) = some l ∧
      Walk Cell.next l.mem l.head nodes ∧ Walk Cell.prev l.mem l.tail nodes.reverse ∧
      l.count.toNat = nodes.length ∧ (l.head = none ↔ nodes = []) ∧ (l.tail = none ↔ nodes = []) ∧
      nodes = ops.foldl (modelStep cmp) [] := by
  obtain ⟨l, hrun, hrep⟩ := run_spec (represents_listNew cmp del) ops
  refine ⟨l, _, hrun, ?_, ?_, hrep.toNat_count, hrep.head_eq_none_iff, hrep.tail_eq_none_iff, rfl⟩
  · rw [hrep.head]
    exact hrep.linked.walk_next
  · rw [hrep.tail]
    exact hrep.linked.walk_prev

/-- Two numbers are inserted in order, an allocation fails, a third number is appended, and the
first one is deleted. -/
theorem linklist_refines_list_three :
    ∃ l, [.addSort 7 (some ⟨0, by decide⟩), .addSort 3 (some ⟨1, by decide⟩), .add 5 none,
        .add 9 (some ⟨2, by decide⟩), .delete (7 : ℤ)].foldlM UList.step
          (listNew (some fun a b => a - b) false) = some l ∧
      Walk Cell.next l.mem l.head [(⟨1, by decide⟩, 3), (⟨2, by decide⟩, 9)] ∧
      Walk Cell.prev l.mem l.tail [(⟨2, by decide⟩, 9), (⟨1, by decide⟩, 3)] ∧
      l.count.toNat = 2 := by
  obtain ⟨l, nodes, hrun, hnext, hprev, hcount, -, -, hnodes⟩ := linklist_refines_list
    (some fun a b : ℤ => a - b) false [.addSort 7 (some ⟨0, by decide⟩),
      .addSort 3 (some ⟨1, by decide⟩), .add 5 none, .add 9 (some ⟨2, by decide⟩), .delete 7]
  have hdata : nodes = [(⟨1, by decide⟩, 3), (⟨2, by decide⟩, 9)] := hnodes.trans (by decide)
  subst hdata
  exact ⟨l, hrun, hnext, hprev, hcount⟩

end BcmUtils.LinkList
