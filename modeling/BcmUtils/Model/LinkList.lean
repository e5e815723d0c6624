import BcmUtils.Foundation.Links

/-! # The linked list

`linklist.c`. Addresses and `unsigned int` have 32 bits. The data pointers are of any type whose
zero is the null pointer. -/

namespace BcmUtils.LinkList

open CLib

/-- The addresses other than the null pointer. -/
abbrev Addr := Fin (2 ^ 32 - 1)

/-- `struct list`, with the list nodes in memory and what the callback `del` has been called
with so far. -/
structure UList (V : Type) where
  head : Option Addr
  tail : Option Addr
  count : BitVec 32
  cmp : Option (V → V → ℤ)
  del : Bool
  mem : Addr → Option (Cell Addr V)
  deleted : List V

variable {V : Type} [Zero V]

/-- `list_new`, to which the caller adds the callbacks. -/
def listNew (cmp : Option (V → V → ℤ)) (del : Bool) : UList V where
  head := none
  tail := none
  count := 0
  cmp := cmp
  del := del
  mem := fun _ => none
  deleted := []

/-- `listnode_new`. `malloc` fails (`none`) or hands out an address that is not in use. -/
def listnodeNew (malloc : Option Addr) (l : UList V) : Option (Addr × UList V) :=
  match malloc with
  | none => none
  | some node =>
      if l.mem node = none then
        some (node, { l with mem := Function.update l.mem node (some ⟨none, none, 0⟩) })
      else none

/-- Change a node, which must be one. -/
def UList.modify (l : UList V) (a : Addr) (f : Cell Addr V → Cell Addr V) :
    Option (UList V) := do
  let c ← l.mem a
  return { l with mem := Function.update l.mem a (some (f c)) }

/-- `if ( p ) p->next = q; else list->head = q;` -/
def UList.linkNext (l : UList V) (p q : Option Addr) : Option (UList V) :=
  match p with
  | some p => l.modify p fun c => { c with next := q }
  | none => some { l with head := q }

/-- `if ( p ) p->prev = q; else list->tail = q;` -/
def UList.linkPrev (l : UList V) (p q : Option Addr) : Option (UList V) :=
  match p with
  | some p => l.modify p fun c => { c with prev := q }
  | none => some { l with tail := q }

/-- `if ( list->head == NULL ) list->head = node; else list->tail->next = node;` -/
def UList.linkTail (l : UList V) (node : Addr) : Option (UList V) :=
  match l.head with
  | none => some { l with head := some node }
  | some _ => do
      let tail ← l.tail
      l.modify tail fun c => { c with next := some node }

/-- `listnode_add`. -/
def listnodeAdd [DecidableEq V] (val : V) (malloc : Option Addr) (l : UList V) :
    Option (UList V) :=
  if val = 0 then some l
  else match listnodeNew malloc l with
  | none => some l
  | some (node, l) => do
      let l ← l.modify node fun c => { c with prev := l.tail, data := val }
      let l ← l.linkTail node
      return { l with tail := some node, count := l.count + 1 }

/-- The loop of `listnode_add_sort`: whether the new node has been inserted. A loop that meets
more nodes than there are addresses does not end. -/
def sortLoop (cmp : V → V → ℤ) (val : V) (nnode : Addr) :
    ℕ → Option Addr → UList V → Option (Bool × UList V)
  | _, none, l => some (false, l)
  | 0, some _, _ => none
  | fuel + 1, some n, l => do
      let c ← l.mem n
      if cmp val c.data < 0 then do
        let l ← l.modify nnode fun d => { d with next := some n, prev := c.prev }
        let l ← l.linkNext c.prev (some nnode)
        let l ← l.modify n fun d => { d with prev := some nnode }
        return (true, { l with count := l.count + 1 })
      else sortLoop cmp val nnode fuel c.next l

/-- `if ( list->cmp ) for ( ... )` -/
def sortInsert (val : V) (nnode : Addr) (l : UList V) : Option (Bool × UList V) :=
  match l.cmp with
  | some cmp => sortLoop cmp val nnode (2 ^ 32) l.head l
  | none => some (false, l)

/-- The end of `listnode_add_sort`: the new node becomes the last one. -/
def appendNode (nnode : Addr) (l : UList V) : Option (UList V) := do
  let l ← l.modify nnode fun c => { c with prev := l.tail }
  let l ← l.linkNext l.tail (some nnode)
  return { l with tail := some nnode, count := l.count + 1 }

/-- `listnode_add_sort`. -/
def listnodeAddSort [DecidableEq V] (val : V) (malloc : Option Addr) (l : UList V) :
    Option (UList V) :=
  if val = 0 then some l
  else match listnodeNew malloc l with
  | none => some l
  | some (nnode, l) => do
      let l ← l.modify nnode fun c => { c with data := val }
      let (inserted, l) ← sortInsert val nnode l
      if inserted then return l else appendNode nnode l

/-- `listnode_free`. -/
def UList.free (l : UList V) (a : Addr) : Option (UList V) := do
  let _ ← l.mem a
  return { l with mem := Function.update l.mem a none }

/-- The loop of `listnode_delete`. -/
def deleteLoop [DecidableEq V] (val : V) : ℕ → Option Addr → UList V → Option (UList V)
  | _, none, l => some l
  | 0, some _, _ => none
  | fuel + 1, some node, l => do
      let c ← l.mem node
      if c.data = val then do
        let l ← l.linkNext c.prev c.next
        let l ← l.linkPrev c.next c.prev
        { l with count := l.count - 1 }.free node
      else deleteLoop val fuel c.next l

/-- `listnode_delete`. -/
def listnodeDelete [DecidableEq V] (val : V) (l : UList V) : Option (UList V) :=
  deleteLoop val (2 ^ 32) l.head l

/-- The loop of `list_delete_all_node`. -/
def deleteAllLoop : ℕ → Option Addr → UList V → Option (UList V)
  | _, none, l => some l
  | 0, some _, _ => none
  | fuel + 1, some node, l => do
      let c ← l.mem node
      let l := if l.del then { l with deleted := l.deleted ++ [c.data] } else l
      let l ← l.free node
      deleteAllLoop fuel c.next l

/-- `list_delete_all_node`. -/
def listDeleteAllNode (l : UList V) : Option (UList V) := do
  let l ← deleteAllLoop (2 ^ 32) l.head l
  return { l with head := none, tail := none, count := 0 }

/-- `for (ALL_LIST_ELEMENTS(list, node, nextnode, data)) body`, with the nodes that are visited.
The next node is saved before the body. -/
def allListElements (body : V → UList V → Option (UList V)) :
    ℕ → Option Addr → UList V → Option (List Addr × UList V)
  | _, none, l => some ([], l)
  | 0, some _, _ => none
  | fuel + 1, some node, l => do
      let c ← l.mem node
      let nextnode := c.next
      let l ← body c.data l
      let (visited, l) ← allListElements body fuel nextnode l
      return (node :: visited, l)

/-- A body that deletes the data with a property. -/
def deleteIf [DecidableEq V] (pred : V → Bool) (data : V) (l : UList V) : Option (UList V) :=
  if pred data then listnodeDelete data l else some l

/-! ## Runs -/

/-- An operation on the list, with what `malloc` returns. -/
inductive ListOp (V : Type)
  | add (val : V) (malloc : Option Addr)
  | addSort (val : V) (malloc : Option Addr)
  | delete (val : V)
  | deleteAll

/-- One operation. -/
def UList.step [DecidableEq V] (l : UList V) : ListOp V → Option (UList V)
  | .add val malloc => listnodeAdd val malloc l
  | .addSort val malloc => listnodeAddSort val malloc l
  | .delete val => listnodeDelete val l
  | .deleteAll => listDeleteAllNode l

end BcmUtils.LinkList
