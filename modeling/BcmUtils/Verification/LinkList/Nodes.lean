import BcmUtils.Foundation.CString
import BcmUtils.Model.LinkList

/-! # The nodes of the linked list

The operations keep the nodes linked in both directions, from `head` to `tail`, and counted. -/

namespace BcmUtils.LinkList

open CLib

variable {V : Type}

/-- The nodes are linked in both directions, from `head` to `tail`, and counted. -/
structure Shape (l : UList V) (nodes : List (Addr × V)) : Prop where
  linked : Linked l.mem none nodes none
  nodup : (addresses nodes).Nodup
  head : l.head = first nodes none
  tail : l.tail = last none nodes
  count : l.count = BitVec.ofNat 32 nodes.length

variable {l l' : UList V} {L K nodes : List (Addr × V)} {node : Addr} {val : V}

/-- Every node has an address of its own, so that the count does not wrap around. -/
theorem Shape.length_lt (h : Shape l nodes) : nodes.length < 2 ^ 32 := by
  have hcard := h.nodup.length_le_card
  rw [addresses, List.length_map, Fintype.card_fin] at hcard
  omega

theorem Shape.toNat_count (h : Shape l nodes) : l.count.toNat = nodes.length := by
  rw [h.count, BitVec.toNat_ofNat, Nat.mod_eq_of_lt h.length_lt]

/-- A new node between two parts of the list. -/
theorem Shape.insert (h : Shape l (L ++ K)) (hnode : node ∉ addresses (L ++ K))
    (hmem : l'.mem = setPrev (setNext (Function.update l.mem node
      (some ⟨first K none, last none L, val⟩)) (last none L) (some node)) (first K none)
      (some node))
    (hhead : l'.head = first L (some node)) (htail : l'.tail = last (some node) K)
    (hcount : l'.count = l.count + 1) : Shape l' (L ++ (node, val) :: K) where
  linked := by
    have hnodup : (addresses (L ++ (node, val) :: K)).Nodup :=
      nodup_addresses_middle.mpr ⟨hnode, h.nodup⟩
    obtain ⟨hl, hk⟩ := linked_append.mp
      (h.linked.update hnode (some ⟨first K none, last none L, val⟩))
    rw [hmem]
    exact linked_insert hl hk
      (show _ = some ⟨_, _, (node, val).2⟩ from Function.update_self node _ l.mem) hnodup
  nodup := nodup_addresses_middle.mpr ⟨hnode, h.nodup⟩
  head := by
    rw [hhead, first_append]
    rfl
  tail := by
    rw [htail, last_append]
    rfl
  count := by
    rw [hcount, h.count, List.length_append, List.length_append, List.length_cons, ← Nat.add_assoc,
      BitVec.ofNat_add (L.length + K.length)]
    rfl

/-- The parts of the list before and behind a removed node. -/
theorem Shape.remove (h : Shape l (L ++ (node, val) :: K))
    (hmem : l'.mem = Function.update (setPrev (setNext l.mem (last none L) (first K none))
      (first K none) (last none L)) node none)
    (hhead : l'.head = first L (first K none)) (htail : l'.tail = last (last none L) K)
    (hcount : l'.count = l.count - 1) : Shape l' (L ++ K) where
  linked := by
    obtain ⟨hl, hk⟩ := linked_append.mp h.linked
    obtain ⟨hnode, hnodup⟩ := nodup_addresses_middle.mp h.nodup
    rw [hmem]
    exact (linked_join hl hk.2 hnodup).update hnode none
  nodup := (nodup_addresses_middle.mp h.nodup).2
  head := by rw [hhead, first_append]
  tail := by rw [htail, last_append]
  count := by
    rw [hcount, h.count, List.length_append, List.length_append, List.length_cons, ← Nat.add_assoc,
      BitVec.ofNat_add (L.length + K.length)]
    exact BitVec.add_sub_cancel _ _

/-! ## Changing links -/

theorem modify_of_live {c : Cell Addr V} (h : l.mem node = some c) (f : Cell Addr V → Cell Addr V) :
    l.modify node f = some { l with mem := Function.update l.mem node (some (f c)) } := by
  rw [UList.modify, h]
  rfl

theorem linkNext_eq {p q : Option Addr} (hp : ∀ a, p = some a → l.mem a ≠ none) :
    l.linkNext p q =
      some { l with mem := setNext l.mem p q, head := p.elim q fun _ => l.head } := by
  cases p with
  | none => rfl
  | some a =>
      obtain ⟨c, hc⟩ := Option.ne_none_iff_exists'.mp (hp a rfl)
      rw [UList.linkNext, modify_of_live hc, setNext, hc]
      rfl

theorem linkPrev_eq {p q : Option Addr} (hp : ∀ a, p = some a → l.mem a ≠ none) :
    l.linkPrev p q =
      some { l with mem := setPrev l.mem p q, tail := p.elim q fun _ => l.tail } := by
  cases p with
  | none => rfl
  | some a =>
      obtain ⟨c, hc⟩ := Option.ne_none_iff_exists'.mp (hp a rfl)
      rw [UList.linkPrev, modify_of_live hc, setPrev, hc]
      rfl

/-- The head changes only if the changed link is before the first node. -/
theorem elim_last (L K : List (Addr × V)) (q : Option Addr) :
    ((last none L).elim q fun _ => first (L ++ K) none) = first L q := by
  cases L with
  | nil => rfl
  | cons e L =>
      cases hlast : last none (e :: L) with
      | none => exact absurd (last_eq_none_iff.mp hlast) (by simp)
      | some a => rfl

/-- The tail changes only if the changed link is behind the last node. -/
theorem elim_first (L K : List (Addr × V)) (q : Option Addr) :
    ((first K none).elim q fun _ => last none (L ++ K)) = last q K := by
  cases K with
  | nil => rfl
  | cons e K =>
      rw [last_append]
      rfl

/-! ## Whole memories -/

/-- These are the nodes in memory. -/
structure Represents (cmp : Option (V → V → ℤ)) (l : UList V) (nodes : List (Addr × V)) : Prop
    extends Shape l nodes where
  cmp_eq : l.cmp = cmp
  owned : ∀ a, l.mem a = none ↔ a ∉ addresses nodes

/-- Apart from these nodes there is a new one. -/
structure Spare (cmp : Option (V → V → ℤ)) (l : UList V) (nodes : List (Addr × V)) (node : Addr)
    (prev : Option Addr) (val : V) : Prop extends Shape l nodes where
  cmp_eq : l.cmp = cmp
  fresh : node ∉ addresses nodes
  cell : l.mem node = some ⟨none, prev, val⟩
  owned : ∀ a, l.mem a = none ↔ a ≠ node ∧ a ∉ addresses nodes

variable {cmp : Option (V → V → ℤ)} {prev : Option Addr}

theorem represents_listNew (cmp : Option (V → V → ℤ)) (del : Bool) :
    Represents cmp (listNew cmp del) [] where
  linked := trivial
  nodup := List.nodup_nil
  head := rfl
  tail := rfl
  count := rfl
  cmp_eq := rfl
  owned := fun _ => iff_of_true rfl List.not_mem_nil

/-- The address that `malloc` hands out for a new node. It never is one that is in use. -/
def granted (nodes : List (Addr × V)) (malloc : Option Addr) : Option Addr :=
  malloc.filter fun a => a ∉ addresses nodes

/-- There is no new node, or one at the address that is granted. -/
theorem listnodeNew_cases [Zero V] (h : Represents cmp l nodes) (malloc : Option Addr) :
    (granted nodes malloc = none ∧ listnodeNew malloc l = none) ∨
      ∃ node l₁, granted nodes malloc = some node ∧ listnodeNew malloc l = some (node, l₁) ∧
        Spare cmp l₁ nodes node none 0 := by
  cases malloc with
  | none => exact Or.inl ⟨rfl, rfl⟩
  | some node =>
      by_cases hfresh : node ∉ addresses nodes
      · have hfree := (h.owned node).mpr hfresh
        refine Or.inr ⟨node, _, Option.filter_eq_some_iff.mpr ⟨rfl, by simpa using hfresh⟩,
          if_pos hfree, ?_⟩
        have hlinked := h.linked.update hfresh (some ⟨none, none, 0⟩)
        refine ⟨⟨hlinked, h.nodup, h.head, h.tail, h.count⟩, h.cmp_eq, hfresh,
          Function.update_self _ _ _, fun a => ?_⟩
        by_cases ha : a = node
        · simp [ha]
        · change Function.update l.mem node (some ⟨none, none, 0⟩) a = none ↔ _
          rw [Function.update_of_ne ha, h.owned a]
          exact ⟨fun hn => ⟨ha, hn⟩, fun hn => hn.2⟩
      · have hused : l.mem node ≠ none := fun hfree => hfresh ((h.owned node).mp hfree)
        exact Or.inl ⟨by simpa [granted] using hfresh, if_neg hused⟩

/-- The fields of the new node are set. -/
theorem Spare.modify (h : Spare cmp l nodes node prev val) {f : Cell Addr V → Cell Addr V}
    {prev' : Option Addr} {val' : V} (hf : f ⟨none, prev, val⟩ = ⟨none, prev', val'⟩) :
    ∃ l₁, l.modify node f = some l₁ ∧ Spare cmp l₁ nodes node prev' val' ∧ l₁.head = l.head ∧
      l₁.tail = l.tail := by
  refine ⟨_, modify_of_live h.cell f, ?_, rfl, rfl⟩
  have hlinked := h.linked.update h.fresh (some (f ⟨none, prev, val⟩))
  refine ⟨⟨hlinked, h.nodup, h.head, h.tail, h.count⟩, h.cmp_eq, h.fresh, ?_, fun a => ?_⟩
  · rw [← hf]
    exact Function.update_self _ _ _
  · by_cases ha : a = node
    · simp [ha]
    · change Function.update l.mem node (some (f ⟨none, prev, val⟩)) a = none ↔ _
      rw [Function.update_of_ne ha, h.owned a]

/-- The new node becomes one of the list. -/
theorem Spare.insert (h : Spare cmp l (L ++ K) node prev val)
    (hmem : l'.mem = setPrev (setNext (Function.update l.mem node
      (some ⟨first K none, last none L, val⟩)) (last none L) (some node)) (first K none)
      (some node))
    (hhead : l'.head = first L (some node)) (htail : l'.tail = last (some node) K)
    (hcount : l'.count = l.count + 1) (hcmp : l'.cmp = l.cmp) :
    Represents cmp l' (L ++ (node, val) :: K) where
  toShape := h.toShape.insert h.fresh hmem hhead htail hcount
  cmp_eq := hcmp.trans h.cmp_eq
  owned := by
    intro a
    have hperm : a ∈ addresses (L ++ (node, val) :: K) ↔ a = node ∨ a ∈ addresses (L ++ K) := by
      simp only [addresses_append, addresses_cons, List.mem_append, List.mem_cons]
      tauto
    rw [hmem, setPrev_eq_none_iff, setNext_eq_none_iff, hperm, not_or]
    by_cases ha : a = node
    · simp [ha]
    · rw [Function.update_of_ne ha, h.owned a]

/-- A new node that points at the last one is linked behind it. -/
theorem linkLast_spec (h : Spare cmp l nodes node l.tail val) :
    ∃ l₁, l.linkNext l.tail (some node) = some l₁ ∧
      Represents cmp { l₁ with tail := some node, count := l₁.count + 1 }
        (nodes ++ [(node, val)]) := by
  have hlive : ∀ a, l.tail = some a → l.mem a ≠ none := by
    intro a ha
    rw [h.tail] at ha
    exact h.linked.live (mem_addresses_of_last ha)
  refine ⟨_, linkNext_eq hlive, ?_⟩
  have hspare : Spare cmp l (nodes ++ []) node l.tail val := by rwa [List.append_nil]
  refine hspare.insert ?_ ?_ rfl rfl rfl
  · have hcell : Function.update l.mem node (some ⟨none, last none nodes, val⟩) = l.mem := by
      rw [Function.update_eq_self_iff, h.cell, h.tail]
    change setNext l.mem l.tail (some node) = setNext (Function.update l.mem node
      (some ⟨none, last none nodes, val⟩)) (last none nodes) (some node)
    rw [hcell, h.tail]
  · change l.tail.elim (some node) (fun _ => l.head) = first nodes (some node)
    have helim := elim_last nodes [] (some node)
    rwa [List.append_nil, ← h.head, ← h.tail] at helim

end BcmUtils.LinkList
