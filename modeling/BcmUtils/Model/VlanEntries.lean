import BcmUtils.Model.VlanForward

/-! # VLAN entries of the driver

The readers `bcm_get_entry_number` and `bcm_vlanfwd_entry` of `vlan.c` for the string that
`cli_nvram_conf_set(CLI_VLAN_FOWD)` stores. -/

namespace BcmUtils

open CLib

/-- `VLAN_ENTRY`. -/
structure VlanEntry where
  vlanid : ℤ
  name : Block 32
  forward : PortMap
  untag : PortMap

/-- An entry of zero bytes. -/
def VlanEntry.zeroed : VlanEntry := ⟨0, Block.zeroed 32, 0, 0⟩

/-- `bcm_get_entry_number`. -/
def bcmGetEntryNumber (fwdEntry : CStr) : ℕ := (spans (chr ';') fwdEntry).length

/-- The id and the texts of the record at `p`, whose terminator is at `p3`, as the pointers of
`bcm_vlanfwd_entry` find them. -/
def vlanFields (p p3 : CStr) : Option (ℤ × CStr × CStr × CStr) := do
  let p1 ← strchr (chr ':') p
  let p1 ← incr p1
  let vlanid := atoi p1
  let p ← incr p1
  let p1 ← strchr (chr ':') p
  let p1 ← incr p1
  let p2 ← strchr (chr ':') p1
  let name ← between p1 p2
  let p1 ← strchr (chr ':') p2
  let p1 ← incr p1
  let p2 ← strchr (chr ':') p1
  let forward ← between p1 p2
  let p1 ← strchr (chr ':') p2
  let p1 ← incr p1
  let untag ← between p1 p3
  return (vlanid, name, forward, untag)

/-- The body of the loop of `bcm_vlanfwd_entry`, with its array `char tmp[64]`. -/
def vlanfwdEntry (B : Build) (p p3 : CStr) (e : VlanEntry) : Option VlanEntry := do
  let (vlanid, name, forward, untag) ← vlanFields p p3
  let name ← e.name.copy 0 name
  let tmp ← store 64 forward
  let forward ← str2bit B tmp
  let tmp ← store 64 untag
  let untag ← str2bit B tmp
  return { vlanid, name, forward, untag }

/-- The loop of `bcm_vlanfwd_entry`, which must not run past the entries of the caller. -/
def vlanfwdEntryLoop (B : Build) : List (CStr × CStr) → List VlanEntry → Option (List VlanEntry)
  | [], es => some es
  | _ :: _, [] => none
  | (p, p3) :: rest, e :: es => do
      let e ← vlanfwdEntry B p p3 e
      let es ← vlanfwdEntryLoop B rest es
      return e :: es

/-- `bcm_vlanfwd_entry`. -/
def bcmVlanfwdEntry (B : Build) (fwdEntry : CStr) (fwd : List VlanEntry) :
    Option (ℤ × List VlanEntry) := do
  let fwd ← vlanfwdEntryLoop B (spans (chr ';') fwdEntry) fwd
  return (0, fwd)

end BcmUtils
