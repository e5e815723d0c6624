import Mathlib.Tactic

/-! # Doubly linked lists in memory

A memory holds cells with a forward and a backward link. A list of entries, each an address with
its data, is linked in a memory when every cell points at its neighbours. -/

namespace CLib

/-- A cell of a doubly linked list. Null pointers are `none`. -/
structure Cell (A δ : Type*) where
  next : Option A
  prev : Option A
  data : δ

variable {A δ : Type*}

/-- The address that follows on a null pointer or behind a list: that of the first entry, if there
is one. -/
def first (l : List (A × δ)) (after : Option A) : Option A :=
  match l with
  | [] => after
  | e :: _ => some e.1

/-- The address before the end of a list: that of the last entry, if there is one. -/
def last (before : Option A) : List (A × δ) → Option A
  | [] => before
  | e :: l => last (some e.1) l

/-- The addresses of the entries. -/
def addresses (l : List (A × δ)) : List A := l.map Prod.fst

/-- The entries are linked in both directions, between the cells at `before` and at `after`. -/
def Linked (m : A → Option (Cell A δ)) : Option A → List (A × δ) → Option A → Prop
  | _, [], _ => True
  | before, e :: l, after =>
      m e.1 = some ⟨first l after, before, e.2⟩ ∧ Linked m (some e.1) l after

/-! ## Ends of a list -/

theorem first_append (l k : List (A × δ)) (after : Option A) :
    first (l ++ k) after = first l (first k after) := by
  cases l <;> rfl

theorem last_append (before : Option A) (l k : List (A × δ)) :
    last before (l ++ k) = last (last before l) k := by
  induction l generalizing before with
  | nil => rfl
  | cons e l ih => exact ih (some e.1)

theorem last_concat (before : Option A) (l : List (A × δ)) (e : A × δ) :
    last before (l ++ [e]) = some e.1 := by
  rw [last_append]
  rfl

@[simp] theorem addresses_append (l k : List (A × δ)) :
    addresses (l ++ k) = addresses l ++ addresses k := List.map_append

@[simp] theorem addresses_cons (e : A × δ) (l : List (A × δ)) :
    addresses (e :: l) = e.1 :: addresses l := rfl

theorem mem_addresses_of_first {l : List (A × δ)} {a : A} (h : first l none = some a) :
    a ∈ addresses l := by
  cases l with
  | nil => simp [first] at h
  | cons e l =>
      obtain rfl : e.1 = a := Option.some.inj h
      exact List.mem_cons_self

theorem mem_addresses_of_last {l : List (A × δ)} {a : A} (h : last none l = some a) :
    a ∈ addresses l := by
  rcases List.eq_nil_or_concat l with rfl | ⟨l, e, rfl⟩
  · simp [last] at h
  · rw [List.concat_eq_append, last_concat] at h
    obtain rfl : e.1 = a := Option.some.inj h
    simp

theorem nodup_addresses_middle {l k : List (A × δ)} {e : A × δ} :
    (addresses (l ++ e :: k)).Nodup ↔ e.1 ∉ addresses (l ++ k) ∧ (addresses (l ++ k)).Nodup := by
  have hperm : (addresses (l ++ e :: k)).Perm (addresses (e :: (l ++ k))) :=
    List.perm_middle.map Prod.fst
  rw [hperm.nodup_iff, addresses_cons, List.nodup_cons]

theorem first_eq_none_iff {l : List (A × δ)} : first l none = none ↔ l = [] := by
  cases l <;> simp [first]

theorem last_eq_none_iff {l : List (A × δ)} : last none l = none ↔ l = [] := by
  rcases List.eq_nil_or_concat l with rfl | ⟨l, e, rfl⟩
  · simp [last]
  · rw [List.concat_eq_append, last_concat]
    simp

/-! ## Segments -/

variable {m m' : A → Option (Cell A δ)} {before after : Option A} {l k : List (A × δ)}

theorem linked_append : Linked m before (l ++ k) after ↔
    Linked m before l (first k after) ∧ Linked m (last before l) k after := by
  induction l generalizing before with
  | nil => simp [Linked, last]
  | cons e l ih =>
      rw [List.cons_append, Linked, Linked, ih, last, first_append, and_assoc]

theorem Linked.congr (h : Linked m before l after) (hsame : ∀ a ∈ addresses l, m' a = m a) :
    Linked m' before l after := by
  induction l generalizing before with
  | nil => trivial
  | cons e l ih =>
      refine ⟨?_, ih h.2 fun a ha => hsame a (List.mem_cons_of_mem _ ha)⟩
      rw [hsame e.1 List.mem_cons_self]
      exact h.1

/-- A change of another cell leaves the entries linked. -/
theorem Linked.update [DecidableEq A] (h : Linked m before l after) {a : A} (ha : a ∉ addresses l)
    (c : Option (Cell A δ)) : Linked (Function.update m a c) before l after := by
  refine h.congr fun b hb => ?_
  have hne : b ≠ a := fun hba => ha (hba ▸ hb)
  exact Function.update_of_ne hne c m

/-- Every entry has a cell. -/
theorem Linked.live (h : Linked m before l after) {a : A} (ha : a ∈ addresses l) : m a ≠ none := by
  induction l generalizing before with
  | nil => simp [addresses] at ha
  | cons e l ih =>
      rcases List.mem_cons.mp ha with rfl | ha
      · rw [h.1]
        simp
      · exact ih h.2 ha

/-! ## Walks -/

/-- Following one of the links from a pointer up to a null pointer visits the entries. -/
inductive Walk (link : Cell A δ → Option A) (m : A → Option (Cell A δ)) :
    Option A → List (A × δ) → Prop
  | nil : Walk link m none []
  | cons {a : A} {c : Cell A δ} {l : List (A × δ)} : m a = some c → Walk link m (link c) l →
      Walk link m (some a) ((a, c.data) :: l)

theorem Linked.walk_next (h : Linked m before l none) : Walk Cell.next m (first l none) l := by
  induction l generalizing before with
  | nil => exact .nil
  | cons e l ih => exact .cons h.1 (ih h.2)

theorem Linked.walk_prev (h : Linked m none l after) :
    Walk Cell.prev m (last none l) l.reverse := by
  induction l using List.reverseRecOn generalizing after with
  | nil => exact .nil
  | append_singleton l e ih =>
      obtain ⟨hl, he, -⟩ := linked_append.mp h
      rw [last_concat, List.reverse_append]
      exact .cons he (ih hl)

/-! ## Changing a link -/

variable [DecidableEq A]

/-- `if ( p ) p->next = q;` -/
def setNext (m : A → Option (Cell A δ)) (p q : Option A) : A → Option (Cell A δ) :=
  match p with
  | none => m
  | some a => Function.update m a ((m a).map fun c => { c with next := q })

/-- `if ( p ) p->prev = q;` -/
def setPrev (m : A → Option (Cell A δ)) (p q : Option A) : A → Option (Cell A δ) :=
  match p with
  | none => m
  | some a => Function.update m a ((m a).map fun c => { c with prev := q })

theorem setNext_of_ne {p q : Option A} {a : A} (h : p ≠ some a) : setNext m p q a = m a := by
  cases p with
  | none => rfl
  | some b => exact Function.update_of_ne (fun hab => h (by rw [hab])) _ _

theorem setPrev_of_ne {p q : Option A} {a : A} (h : p ≠ some a) : setPrev m p q a = m a := by
  cases p with
  | none => rfl
  | some b => exact Function.update_of_ne (fun hab => h (by rw [hab])) _ _

/-- No cell appears or vanishes. -/
theorem setNext_eq_none_iff {p q : Option A} {a : A} : setNext m p q a = none ↔ m a = none := by
  cases p with
  | none => rfl
  | some b =>
      by_cases hab : a = b
      · rw [hab, setNext, Function.update_self, Option.map_eq_none_iff]
      · rw [setNext_of_ne (fun h => hab (Option.some.inj h).symm)]

theorem setPrev_eq_none_iff {p q : Option A} {a : A} : setPrev m p q a = none ↔ m a = none := by
  cases p with
  | none => rfl
  | some b =>
      by_cases hab : a = b
      · rw [hab, setPrev, Function.update_self, Option.map_eq_none_iff]
      · rw [setPrev_of_ne (fun h => hab (Option.some.inj h).symm)]

/-- The last entry may be linked to anything. -/
theorem Linked.setNext (h : Linked m none l after) (hnodup : (addresses l).Nodup) (q : Option A) :
    Linked (setNext m (last none l) q) none l q := by
  rcases List.eq_nil_or_concat l with rfl | ⟨l, e, rfl⟩
  · trivial
  · rw [List.concat_eq_append] at h hnodup ⊢
    obtain ⟨hl, he, -⟩ := linked_append.mp h
    rw [addresses_append, List.nodup_append] at hnodup
    rw [last_concat]
    refine linked_append.mpr ⟨hl.congr fun a ha => setNext_of_ne ?_, ?_, trivial⟩
    · intro hea
      exact hnodup.2.2 a ha e.1 List.mem_cons_self (Option.some.inj hea).symm
    · rw [CLib.setNext, Function.update_self, he]
      rfl

/-- The first entry may be linked to anything. -/
theorem Linked.setPrev (h : Linked m before l none) (hnodup : (addresses l).Nodup) (q : Option A) :
    Linked (setPrev m (first l none) q) q l none := by
  cases l with
  | nil => trivial
  | cons e l =>
      rw [addresses_cons, List.nodup_cons] at hnodup
      refine ⟨?_, h.2.congr fun a ha => setPrev_of_ne ?_⟩
      · rw [first, CLib.setPrev, Function.update_self, h.1]
        rfl
      · intro hea
        obtain rfl : e.1 = a := Option.some.inj hea
        exact hnodup.1 ha

/-! ## Insertion and removal -/

/-- The links at a seam are changed independently of each other. -/
theorem linked_relink {p q : Option A} (hl : Linked m none l p) (hk : Linked m q k none)
    (hnodup : (addresses (l ++ k)).Nodup) (x y : Option A) :
    Linked (setPrev (setNext m (last none l) x) (first k none) y) none l x ∧
      Linked (setPrev (setNext m (last none l) x) (first k none) y) y k none := by
  rw [addresses_append, List.nodup_append] at hnodup
  obtain ⟨hndl, hndk, hdisj⟩ := hnodup
  constructor
  · refine (hl.setNext hndl x).congr fun a ha => setPrev_of_ne fun hfirst => ?_
    exact hdisj a ha a (mem_addresses_of_first hfirst) rfl
  · have hframe : Linked (setNext m (last none l) x) q k none :=
      hk.congr fun a ha => setNext_of_ne fun hlast =>
        hdisj a (mem_addresses_of_last hlast) a ha rfl
    exact hframe.setPrev hndk y

/-- Two segments become one list. -/
theorem linked_join {p q : Option A} (hl : Linked m none l p) (hk : Linked m q k none)
    (hnodup : (addresses (l ++ k)).Nodup) :
    Linked (setPrev (setNext m (last none l) (first k none)) (first k none) (last none l))
      none (l ++ k) none := by
  obtain ⟨hl', hk'⟩ := linked_relink hl hk hnodup (first k none) (last none l)
  exact linked_append.mpr ⟨hl', hk'⟩

/-- A cell that points at its neighbours becomes an entry between two segments. -/
theorem linked_insert {p q : Option A} (hl : Linked m none l p) (hk : Linked m q k none) {e : A × δ}
    (he : m e.1 = some ⟨first k none, last none l, e.2⟩)
    (hnodup : (addresses (l ++ e :: k)).Nodup) :
    Linked (setPrev (setNext m (last none l) (some e.1)) (first k none) (some e.1))
      none (l ++ e :: k) none := by
  obtain ⟨hmem, hnodup'⟩ := nodup_addresses_middle.mp hnodup
  rw [addresses_append, List.mem_append, not_or] at hmem
  obtain ⟨hl', hk'⟩ := linked_relink hl hk hnodup' (some e.1) (some e.1)
  refine linked_append.mpr ⟨hl', ?_, hk'⟩
  rw [setPrev_of_ne fun h => hmem.2 (mem_addresses_of_first h),
    setNext_of_ne fun h => hmem.1 (mem_addresses_of_last h), he]

end CLib
