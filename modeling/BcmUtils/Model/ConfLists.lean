import BcmUtils.Foundation.Heap
import BcmUtils.Foundation.Machine
import BcmUtils.Model.Bindings

/-! # Configuration structs with a list

`cli_nvram_conf_get` and `cli_nvram_conf_free` for the types whose struct holds a
record count and the head of a list of allocated records. -/

namespace BcmUtils

open CLib

/-- The struct and the heap that its list lives in. -/
structure ListConf (ρ : Type) where
  heap : Heap (Node ρ)
  count : ℤ
  head : Option ℕ

/-- A struct of zero bytes. -/
def ListConf.zeroed {ρ : Type} (heap : Heap (Node ρ)) : ListConf ρ := ⟨heap, 0, none⟩

/-- The loop over the stored records: `cur` is the node after which the next one is
linked, or null when the next one becomes the head. `mallocOk k` tells whether the
`k`-th allocation of the call succeeds. -/
def fillList {ρ : Type} (body : CStr → CStr → Option ρ) (mallocOk : ℕ → Bool) :
    List (CStr × CStr) → ℕ → Option ℕ → ListConf ρ → Option (ℤ × ListConf ρ)
  | [], _, _, c => some (CLI_SUCCESS, c)
  | (p, p3) :: rest, k, cur, c =>
      if mallocOk k then do
        let data ← body p p3
        let (a, heap) := c.heap.alloc ⟨data, none⟩
        match cur with
        | none => fillList body mallocOk rest (k + 1) (some a) ⟨heap, c.count + 1, some a⟩
        | some q => do
            let node ← heap.load q
            let heap ← heap.store q ⟨node.data, some a⟩
            fillList body mallocOk rest (k + 1) (some a) ⟨heap, c.count + 1, c.head⟩
      else
        match cur with
        | none => some (CLI_FAILED, c)
        | some q => do
            -- the failed `malloc` has stored the null pointer in the last node
            let node ← c.heap.load q
            let heap ← c.heap.store q ⟨node.data, none⟩
            some (CLI_FAILED, { c with heap })

/-- `cli_nvram_conf_get(CLI_VLAN_FOWD)`. -/
def cliNvramConfGetVlanFowd (B : Build) (mallocOk : ℕ → Bool) (nv : Nvram)
    (c : ListConf CliVlanInfoConf) : Option (ℤ × ListConf CliVlanInfoConf × Nvram) := do
  let c := { c with count := 0 }
  let (forwardVlan, nv) ← cliNvramSafeGet B .vlanForward (text "vlan_fwd_config") nv
  let (ret, c) ← fillList (vlanRecord B) mallocOk (spans (chr ';') forwardVlan) 0 c.head c
  return (ret, c, nv)

/-- `cli_nvram_conf_get(CLI_SOURCE_BINDING)`. -/
def cliNvramConfGetSourceBinding (mallocOk : ℕ → Bool) (nv : Nvram)
    (c : ListConf CliSourceInfoConf) : Option (ℤ × ListConf CliSourceInfoConf × Nvram) := do
  let c := { c with count := 0 }
  let source := nv (text "source_binding")
  let (ret, c) ← fillList sourceRecord mallocOk (spans (chr ';') source) 0 c.head c
  return (ret, c, nv)

/-- `cli_nvram_conf_get(CLI_STATIC_ARP)`, which alone forgets the old list first. -/
def cliNvramConfGetStaticArp (mallocOk : ℕ → Bool) (nv : Nvram)
    (c : ListConf CliStaticArpList) : Option (ℤ × ListConf CliStaticArpList × Nvram) := do
  let c := { c with count := 0, head := none }
  let staticArpInfoList := nv (text "static_arp_list")
  let (ret, c) ← fillList staticArpRecord mallocOk (spans (chr ';') staticArpInfoList) 0 c.head c
  return (ret, c, nv)

/-- `cli_nvram_conf_free` for the three list types. The head and the count keep their values. -/
def cliNvramConfFreeList {ρ : Type} (c : ListConf ρ) : Option (ListConf ρ) := do
  let heap ← freeList c.head c.heap
  return { c with heap }

end BcmUtils
