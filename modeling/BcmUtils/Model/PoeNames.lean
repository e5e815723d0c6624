import BcmUtils.Foundation.Heap
import BcmUtils.Model.Nvram

/-! # Names of the PoE ports

`cli_poe_desp_nvram_prase` fills a table of pointers to allocated names, and
`cli_nvram_conf_free(CLI_POE_NAMES)` releases them. -/

namespace BcmUtils

open CLib

/-- What a pointer holds: null, the address of an allocated block, or some other bytes. -/
inductive Ptr
  | null
  | block (a : ℕ)
  | wild
  deriving DecidableEq

/-- `struct poe_desp_s` and the heap that its names live in. -/
structure PoeNames (B : Build) where
  heap : Heap CStr
  poeNames : List Ptr
  length_eq : poeNames.length = B.PoE_NUM

/-- `sizeof(struct poe_desp)`, which is one pointer. -/
def sizeofPoeDesp : ℕ := 4

/-- A struct of zero bytes. -/
def PoeNames.zeroed {B : Build} (heap : Heap CStr) : PoeNames B :=
  ⟨heap, List.replicate B.PoE_NUM .null, List.length_replicate⟩

/-- The `i`-th pointer after `memset` has cleared the first `n` bytes of the table. A
pointer that is cleared in part has lost its block. -/
def clearPtr (n i : ℕ) (p : Ptr) : Ptr :=
  if sizeofPoeDesp * (i + 1) ≤ n then .null
  else if sizeofPoeDesp * i < n ∧ p ≠ .null then .wild
  else p

/-- The loop of `cli_poe_desp_nvram_prase` over the pointers that remain. The last name
ends it and leaves the pointers behind it as they are; a failed `malloc` is cleared like
any other block, through the null pointer. -/
def fillNames (mallocOk : ℕ → Bool) : ℕ → CStr → (cPoe : List Ptr) → Heap CStr →
    Option ({ l : List Ptr // l.length = cPoe.length } × Heap CStr)
  | _, _, [], heap => some (⟨[], rfl⟩, heap)
  | k, pStart, _ :: cPoe, heap =>
      if mallocOk k then
        match strchr (chr ',') pStart with
        | none =>
            let (a, heap) := heap.alloc pStart
            some (⟨.block a :: cPoe, rfl⟩, heap)
        | some pEnd => do
            let (a, heap) := heap.alloc (pStart.take (pStart.length - pEnd.length))
            let (rest, heap) ← fillNames mallocOk (k + 1) pEnd.tail cPoe heap
            return (⟨.block a :: rest.1, by simp [rest.2]⟩, heap)
      else none

/-- `cli_poe_desp_nvram_prase`, whose `memset` is given the number of pointers for a
number of bytes. -/
def cliPoeDespNvramPrase (B : Build) (mallocOk : ℕ → Bool) (nv : Nvram) (c : PoeNames B) :
    Option (PoeNames B × Nvram) := do
  let cPoe := c.poeNames.mapIdx (clearPtr B.PoE_NUM)
  let (poePortNames, nv) ← cliNvramSafeGet B .poeDesp (text "port_desps") nv
  let (names, heap) ← fillNames mallocOk 0 poePortNames cPoe c.heap
  return (⟨heap, names.1, by rw [names.2, List.length_mapIdx, c.length_eq]⟩, nv)

/-- `free` of every pointer of the table that is not null. -/
def freeNames : List Ptr → Heap CStr → Option (Heap CStr)
  | [], heap => some heap
  | .null :: ps, heap => freeNames ps heap
  | .block a :: ps, heap => (heap.free a).bind (freeNames ps)
  | .wild :: _, _ => none

/-- `cli_nvram_conf_free(CLI_POE_NAMES)`. The pointers keep their values. -/
def cliNvramConfFreePoeNames {B : Build} (c : PoeNames B) : Option (PoeNames B) := do
  let heap ← freeNames c.poeNames c.heap
  return { c with heap }

end BcmUtils
