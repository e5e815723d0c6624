import Mathlib.Tactic

/-! # Blocks of a heap and linked lists in it

Blocks are numbered in the order of their allocation and no number is given out
twice, so a block that was freed stays recognisable. Every access to a block that
is not live is a fault, written `none`. -/

namespace CLib

/-- The live blocks with their contents. -/
structure Heap (α : Type*) where
  cells : ℕ → Option α
  next : ℕ
  fresh : ∀ p, next ≤ p → cells p = none

namespace Heap

variable {α : Type*}

/-- The heap before the first allocation. -/
def empty : Heap α := ⟨fun _ => none, 0, fun _ _ => rfl⟩

/-- A new block: its number and the heap that holds it. -/
def alloc (h : Heap α) (a : α) : ℕ × Heap α :=
  (h.next, ⟨Function.update h.cells h.next (some a), h.next + 1, by
    intro p hp
    rw [Function.update_of_ne (by omega)]
    exact h.fresh p (by omega)⟩)

def load (h : Heap α) (p : ℕ) : Option α := h.cells p

/-- Change the contents of a live block. -/
def store (h : Heap α) (p : ℕ) (a : α) : Option (Heap α) :=
  if hp : (h.cells p).isSome then
    some ⟨Function.update h.cells p (some a), h.next, by
      intro q hq
      rw [Function.update_of_ne, h.fresh q hq]
      rintro rfl
      rw [h.fresh q hq] at hp
      exact absurd hp (by simp)⟩
  else none

/-- Release a live block. -/
def free (h : Heap α) (p : ℕ) : Option (Heap α) :=
  if (h.cells p).isSome then
    some ⟨Function.update h.cells p none, h.next, by
      intro q hq
      by_cases he : q = p
      · rw [he, Function.update_self]
      · rw [Function.update_of_ne he]
        exact h.fresh q hq⟩
  else none

theorem lt_next_of_cells {h : Heap α} {p : ℕ} {a : α} (hp : h.cells p = some a) : p < h.next := by
  by_contra hn
  rw [h.fresh p (by omega)] at hp
  exact absurd hp (by simp)

@[simp] theorem alloc_fst (h : Heap α) (a : α) : (h.alloc a).1 = h.next := rfl

@[simp] theorem alloc_cells_self (h : Heap α) (a : α) :
    (h.alloc a).2.cells h.next = some a := by
  simp [alloc]

theorem alloc_cells_of_ne {h : Heap α} {a : α} {p : ℕ} (hp : p ≠ h.next) :
    (h.alloc a).2.cells p = h.cells p := by
  simp [alloc, Function.update_of_ne hp]

theorem store_of_live {h : Heap α} {p : ℕ} {b : α} (hp : h.cells p = some b) (a : α) :
    ∃ h', h.store p a = some h' ∧ h'.cells p = some a ∧ h'.next = h.next ∧
      ∀ q, q ≠ p → h'.cells q = h.cells q := by
  have hs : (h.cells p).isSome := by simp [hp]
  refine ⟨_, dif_pos hs, by simp, rfl, ?_⟩
  intro q hq
  simp [Function.update_of_ne hq]

theorem free_of_live {h : Heap α} {p : ℕ} {b : α} (hp : h.cells p = some b) :
    ∃ h', h.free p = some h' ∧ h'.cells p = none ∧ ∀ q, q ≠ p → h'.cells q = h.cells q := by
  have hs : (h.cells p).isSome := by simp [hp]
  refine ⟨_, if_pos hs, by simp, ?_⟩
  intro q hq
  simp [Function.update_of_ne hq]

end Heap

/-! ## Singly linked lists -/

/-- A list node: its data and the pointer to the next node. -/
structure Node (α : Type*) where
  data : α
  next : Option ℕ

variable {α : Type*}

/-- The list that starts at a pointer, with the blocks it occupies and its data. -/
inductive Chain (h : Heap (Node α)) : Option ℕ → List ℕ → List α → Prop
  | nil : Chain h none [] []
  | cons {a : ℕ} {x : α} {next : Option ℕ} {as : List ℕ} {xs : List α}
      (hcell : h.cells a = some ⟨x, next⟩) (hfresh : a ∉ as) (htail : Chain h next as xs) :
      Chain h (some a) (a :: as) (x :: xs)

/-- Walk a list from its head and release every node. A walk that meets more nodes
than were ever allocated has come back to a released one. -/
def freeNodes : ℕ → Option ℕ → Heap (Node α) → Option (Heap (Node α))
  | _, none, h => some h
  | 0, some _, _ => none
  | fuel + 1, some a, h => do
      let node ← h.load a
      let h ← h.free a
      freeNodes fuel node.next h

def freeList (p : Option ℕ) (h : Heap (Node α)) : Option (Heap (Node α)) :=
  freeNodes h.next p h

theorem Chain.live {h : Heap (Node α)} {p : Option ℕ} {as : List ℕ} {xs : List α}
    (hc : Chain h p as xs) : ∀ a ∈ as, ∃ n, h.cells a = some n := by
  induction hc with
  | nil => simp
  | cons hcell _ _ ih =>
      intro b hb
      rcases List.mem_cons.mp hb with rfl | hb
      · exact ⟨_, hcell⟩
      · exact ih b hb

/-- The pointer determines the data. -/
theorem Chain.unique {h : Heap (Node α)} {p : Option ℕ} {as bs : List ℕ} {xs ys : List α}
    (hc : Chain h p as xs) (hd : Chain h p bs ys) : xs = ys := by
  induction hc generalizing bs ys with
  | nil =>
      cases hd
      rfl
  | cons hcell _ _ ih =>
      cases hd with
      | cons hcell' _ htail' =>
          rw [hcell, Option.some.injEq, Node.mk.injEq] at hcell'
          obtain ⟨rfl, rfl⟩ := hcell'
          rw [ih htail']

theorem Chain.nodup {h : Heap (Node α)} {p : Option ℕ} {as : List ℕ} {xs : List α}
    (hc : Chain h p as xs) : as.Nodup := by
  induction hc with
  | nil => exact List.nodup_nil
  | cons _ hfresh _ ih => exact List.nodup_cons.mpr ⟨hfresh, ih⟩

/-- A list depends on its own blocks only. -/
theorem Chain.frame {h h' : Heap (Node α)} {p : Option ℕ} {as : List ℕ} {xs : List α}
    (hc : Chain h p as xs) (he : ∀ a ∈ as, h'.cells a = h.cells a) : Chain h' p as xs := by
  induction hc with
  | nil => exact .nil
  | cons hcell hfresh _ ih =>
      exact .cons ((he _ (by simp)).trans hcell) hfresh (ih fun a ha => he a (by simp [ha]))

/-- Linking a new node behind the last one appends its data. -/
theorem Chain.snoc {h : Heap (Node α)} {p : Option ℕ} {as : List ℕ} {xs : List α}
    (hc : Chain h p as xs) {c : ℕ} (hlast : as.getLast? = some c) {a : ℕ} {x : α}
    {h' : Heap (Node α)} (ha : a ∉ as) (hnew : h'.cells a = some ⟨x, none⟩)
    (hlink : ∀ n, h.cells c = some n → h'.cells c = some ⟨n.data, some a⟩)
    (hrest : ∀ b ∈ as, b ≠ c → h'.cells b = h.cells b) :
    Chain h' p (as ++ [a]) (xs ++ [x]) := by
  induction hc with
  | nil => simp at hlast
  | @cons b y next as xs hcell hfresh htail ih =>
      simp only [List.mem_cons, not_or] at ha
      cases htail with
      | nil =>
          obtain rfl : b = c := by simpa using hlast
          exact .cons (hlink _ hcell) (by simpa using Ne.symm ha.1)
            (.cons hnew (by simp) .nil)
      | @cons d z next' as' xs' hcell' hfresh' htail' =>
          have hlast' : (d :: as').getLast? = some c := by
            rwa [List.getLast?_cons_cons] at hlast
          have hcb : b ≠ c := by
            rintro rfl
            exact hfresh (List.mem_of_getLast? hlast')
          refine .cons ((hrest b (by simp) hcb).trans hcell) ?_
            (ih hlast' ha.2 fun e he => hrest e (by simp only [List.mem_cons] at he ⊢; tauto))
          intro hm
          rcases List.mem_append.mp hm with hm | hm
          · exact hfresh hm
          · exact ha.1 (List.mem_singleton.mp hm).symm

theorem Chain.singleton (h : Heap (Node α)) (x : α) :
    Chain (h.alloc ⟨x, none⟩).2 (some h.next) [h.next] [x] :=
  .cons (Heap.alloc_cells_self h _) (by simp) .nil

theorem Chain.eq_nil_of_getLast? {h : Heap (Node α)} {p : Option ℕ} {as : List ℕ} {xs : List α}
    (hc : Chain h p as xs) (hlast : as.getLast? = none) : p = none ∧ xs = [] := by
  cases hc with
  | nil => exact ⟨rfl, rfl⟩
  | cons => simp at hlast

/-- The last node of a list holds the null pointer. -/
theorem Chain.last_cell {h : Heap (Node α)} {p : Option ℕ} {as : List ℕ} {xs : List α}
    (hc : Chain h p as xs) {q : ℕ} (hlast : as.getLast? = some q) :
    ∃ x, h.cells q = some ⟨x, none⟩ := by
  induction hc with
  | nil => simp at hlast
  | @cons b y next as xs hcell hfresh htail ih =>
      cases htail with
      | nil =>
          obtain rfl : b = q := by simpa using hlast
          exact ⟨y, hcell⟩
      | cons => exact ih (by rwa [List.getLast?_cons_cons] at hlast)

/-- Allocate a node and store its number in the last node of a list. -/
theorem Chain.link {h : Heap (Node α)} {p : Option ℕ} {as : List ℕ} {xs : List α}
    (hc : Chain h p as xs) {q : ℕ} (hlast : as.getLast? = some q) (x : α) :
    ∃ node h', (h.alloc ⟨x, none⟩).2.load q = some node ∧
      (h.alloc ⟨x, none⟩).2.store q ⟨node.data, some h.next⟩ = some h' ∧
      Chain h' p (as ++ [h.next]) (xs ++ [x]) := by
  obtain ⟨y, hq⟩ := hc.last_cell hlast
  have hnew : ∀ a ∈ as, a ≠ h.next := by
    intro a ha
    obtain ⟨n, hn⟩ := hc.live a ha
    exact Nat.ne_of_lt (Heap.lt_next_of_cells hn)
  have hqn : q ≠ h.next := hnew q (List.mem_of_getLast? hlast)
  have hload : (h.alloc ⟨x, none⟩).2.cells q = some ⟨y, none⟩ :=
    (Heap.alloc_cells_of_ne hqn).trans hq
  obtain ⟨h', hstore, hself, -, hsame⟩ := Heap.store_of_live hload ⟨y, some h.next⟩
  refine ⟨⟨y, none⟩, h', hload, hstore, hc.snoc hlast (fun hm => hnew _ hm rfl) ?_ ?_ ?_⟩
  · rw [hsame _ (Ne.symm hqn), Heap.alloc_cells_self]
  · intro n hn
    rw [hq, Option.some.injEq] at hn
    rw [hself, ← hn]
  · intro b hb hbq
    rw [hsame b hbq, Heap.alloc_cells_of_ne (hnew b hb)]

/-- Storing the null pointer in the last node again changes nothing. -/
theorem Chain.unlink {h : Heap (Node α)} {p : Option ℕ} {as : List ℕ} {xs : List α}
    (hc : Chain h p as xs) {q : ℕ} (hlast : as.getLast? = some q) :
    ∃ node h', h.load q = some node ∧ h.store q ⟨node.data, none⟩ = some h' ∧
      Chain h' p as xs := by
  obtain ⟨y, hq⟩ := hc.last_cell hlast
  obtain ⟨h', hstore, hself, -, hsame⟩ := Heap.store_of_live hq ⟨y, none⟩
  refine ⟨⟨y, none⟩, h', hq, hstore, hc.frame fun a _ => ?_⟩
  by_cases ha : a = q
  · rw [ha, hself, hq]
  · exact hsame a ha

/-- Releasing a list succeeds and touches its own blocks only. -/
theorem freeNodes_of_chain {as : List ℕ} {xs : List α} {p : Option ℕ} {h : Heap (Node α)}
    (hc : Chain h p as xs) {fuel : ℕ} (hfuel : as.length ≤ fuel) :
    ∃ h', freeNodes fuel p h = some h' ∧ ∀ q, q ∉ as → h'.cells q = h.cells q := by
  induction as generalizing xs p h fuel with
  | nil =>
      cases hc
      exact ⟨h, by cases fuel <;> rfl, fun _ _ => rfl⟩
  | cons a as ih =>
      cases hc with
      | @cons _ x next _ xs hcell hfresh htail =>
          obtain ⟨fuel, rfl⟩ : ∃ f, fuel = f + 1 := ⟨fuel - 1, by simp at hfuel; omega⟩
          obtain ⟨h₁, hfree, -, hsame⟩ := Heap.free_of_live hcell
          have htail₁ : Chain h₁ next as xs := by
            refine htail.frame fun b hb => hsame b ?_
            rintro rfl
            exact hfresh hb
          obtain ⟨h₂, hrest, hsame₂⟩ := ih htail₁ (Nat.le_of_succ_le_succ hfuel)
          refine ⟨h₂, ?_, fun q hq => ?_⟩
          · rw [freeNodes, Heap.load, hcell]
            simp only [Option.bind_eq_bind, Option.bind_some, hfree, hrest]
          · simp only [List.mem_cons, not_or] at hq
            rw [hsame₂ q hq.2, hsame q hq.1]

/-- A list occupies no more blocks than were allocated. -/
theorem Chain.length_le_next {h : Heap (Node α)} {p : Option ℕ} {as : List ℕ} {xs : List α}
    (hc : Chain h p as xs) : as.length ≤ h.next := by
  have hsub : as ⊆ List.range h.next := by
    intro a ha
    obtain ⟨n, hn⟩ := hc.live a ha
    exact List.mem_range.mpr (Heap.lt_next_of_cells hn)
  have := (List.subperm_of_subset hc.nodup hsub).length_le
  simpa using this

theorem freeList_of_chain {h : Heap (Node α)} {p : Option ℕ} {as : List ℕ} {xs : List α}
    (hc : Chain h p as xs) : ∃ h', freeList p h = some h' :=
  let ⟨h', he, _⟩ := freeNodes_of_chain hc hc.length_le_next
  ⟨h', he⟩

end CLib
