import BcmUtils.Model.Bindings

/-! # Port VLAN settings

The branches `CLI_VLAN_PORT` of `cli_nvram_conf_set` and `cli_nvram_conf_get`, and the
readers `vlan_port_get` and `bcm_get_pvid_from_entry` of `vlan.c`. -/

namespace BcmUtils

open CLib

/-- `cli_port_conf`, with the null pointer as `none`. -/
structure CliPortConf where
  portid : ℤ
  pvid : ℤ
  mode : Byte
  allow : Option CStr
  untag : Option CStr
  deriving DecidableEq

def VLAN_ALLOW_UNTAG_LEN (B : Build) : ℕ := (128 + 12) * B.PNUM

/-- The arrays that the loop of `cli_nvram_conf_set(CLI_VLAN_PORT)` fills. -/
structure VlanPortTexts where
  linkType : List Byte := []
  pvid : CStr := []
  allow : CStr := []
  untag : CStr := []

/-- `sprintf(tmp, "%d:%s;", portid, list); strcat(dst, tmp);` -/
def appendTrunkItem (B : Build) (portid : ℤ) (list : Option CStr) (dst : CStr) : Option CStr := do
  let list ← list
  let tmp ← store 140 (printInt portid ++ chr ':' :: (list ++ [chr ';']))
  strcat (VLAN_ALLOW_UNTAG_LEN B) dst tmp

/-- The loop of `cli_nvram_conf_set(CLI_VLAN_PORT)`, from `portid` on. -/
def setVlanPortLoop (B : Build) : ℕ → List CliPortConf → VlanPortTexts → Option VlanPortTexts
  | _, [], t => some t
  | portid, c :: cs, t => do
      let tmp ← store 140 (if portid = 1 then printInt c.pvid else chr ',' :: printInt c.pvid)
      let pvid ← strcat (4 * B.PNUM + B.PNUM) t.pvid tmp
      let allow ← appendTrunkItem B c.portid c.allow t.allow
      let untag ← appendTrunkItem B c.portid c.untag t.untag
      setVlanPortLoop B (portid + 1) cs ⟨t.linkType ++ [c.mode], pvid, allow, untag⟩

/-- `cli_nvram_conf_set(CLI_VLAN_PORT)`. The string in `link_type` ends at the first mode
that is zero. -/
def cliNvramConfSetVlanPort (B : Build) (cPort : PortArray B CliPortConf) (nv : Nvram) :
    Option (ℤ × Nvram) := do
  let t ← setVlanPortLoop B 1 cPort.1 {}
  let nv ← scfgmgrSet (text "vlan_link_type") (t.linkType.takeWhile (· ≠ 0)) nv
  let nv ← scfgmgrSet (text "pvid_config") t.pvid nv
  let nv ← scfgmgrSet (text "trunk_vlan_allowed") t.allow nv
  let nv ← scfgmgrSet (text "trunk_vlan_untagged") t.untag nv
  return (CLI_SUCCESS, nv)

/-- `atoi(p); p = strchr(p, ','); p++;` After the last number `p` points nowhere. -/
def pvidItem (p : CStr) : ℤ × Option CStr := (atoi p, (strchr (chr ',') p).map List.tail)

/-- The text between the next `:` and the next `;`, and the string behind it. -/
def trunkItem (p : CStr) : Option (CStr × CStr) := do
  let q ← strchr (chr ':') p
  let q ← incr q
  let p ← strchr (chr ';') p
  let list ← between q p
  let p ← incr p
  return (list, p)

/-- The loop of `cli_nvram_conf_get(CLI_VLAN_PORT)` over the records from `portid` on;
`mallocOk k` tells whether the `k`-th allocation succeeds. -/
def getVlanPortLoop (mallocOk : ℕ → Bool) (linkType : CStr) :
    ℕ → List CliPortConf → Option CStr → CStr → CStr → Option (ℤ × List CliPortConf)
  | _, [], _, _, _ => some (CLI_SUCCESS, [])
  | portid, c :: cs, p, p1, p2 => do
      let mode ← charAt linkType (portid - 1)
      let p ← p
      let (pvid, p) := pvidItem p
      let (allow, p1) ← trunkItem p1
      if mallocOk (2 * portid - 2) then
        let (untag, p2) ← trunkItem p2
        if mallocOk (2 * portid - 1) then
          let (ret, cs) ← getVlanPortLoop mallocOk linkType (portid + 1) cs p p1 p2
          return (ret, ⟨portid, pvid, mode, some allow, some untag⟩ :: cs)
        else
          return (CLI_FAILED, ⟨portid, pvid, mode, some allow, none⟩ :: cs)
      else
        return (CLI_FAILED, ⟨portid, pvid, mode, none, c.untag⟩ :: cs)

/-- `cli_nvram_conf_get(CLI_VLAN_PORT)`. -/
def cliNvramConfGetVlanPort (B : Build) (mallocOk : ℕ → Bool) (nv : Nvram)
    (cPort : PortArray B CliPortConf) : Option (ℤ × List CliPortConf × Nvram) := do
  let (linkType, nv) ← cliNvramSafeGet B .allOne (text "vlan_link_type") nv
  let (pvid, nv) ← cliNvramSafeGet B .commaOne (text "pvid_config") nv
  let (allow, nv) ← cliNvramSafeGet B .trunkVlan (text "trunk_vlan_allowed") nv
  let (untag, nv) ← cliNvramSafeGet B .trunkVlan (text "trunk_vlan_untagged") nv
  let (ret, cPort) ← getVlanPortLoop mallocOk linkType 1 cPort.1 (some pvid) allow untag
  return (ret, cPort, nv)

/-- `PORT_CONF_ENTRY`. -/
structure PortConfEntry where
  pvid : ℤ
  mode : ℤ
  allow : Block 256
  untag : Block 256

/-- The loop of `vlan_port_get` over the entries from `portid` on. -/
def vlanPortGetLoop (linkType : CStr) :
    ℕ → List PortConfEntry → Option CStr → CStr → CStr → Option (List PortConfEntry)
  | _, [], _, _, _ => some []
  | portid, c :: cs, p, p1, p2 => do
      let mode ← charAt linkType (portid - 1)
      let p ← p
      let (pvid, p) := pvidItem p
      let (list, p1) ← trunkItem p1
      let allow ← c.allow.copy 0 list
      let (list, p2) ← trunkItem p2
      let untag ← c.untag.copy 0 list
      let cs ← vlanPortGetLoop linkType (portid + 1) cs p p1 p2
      return ⟨pvid, mode.toInt8.toInt - 48, allow, untag⟩ :: cs

/-- `vlan_port_get`. It takes the strings as they are, without defaults. -/
def vlanPortGet (B : Build) (nv : Nvram) (cPort : PortArray B PortConfEntry) :
    Option (ℤ × List PortConfEntry) := do
  let cPort ← vlanPortGetLoop (nv (text "vlan_link_type")) 1 cPort.1
    (some (nv (text "pvid_config"))) (nv (text "trunk_vlan_allowed"))
    (nv (text "trunk_vlan_untagged"))
  return (0, cPort)

/-- The loop of `bcm_get_pvid_from_entry` over the remaining ports. It stores 1 for a null
pointer and then searches it. -/
def pvidEntryLoop : ℕ → Option CStr → Option (List ℤ)
  | 0, _ => some []
  | _ + 1, none => none
  | n + 1, some p0 => do
      let vid := if atoi p0 = 0 then 1 else atoi p0
      let p ← pvidEntryLoop n ((strchr (chr ',') p0).map List.tail)
      return vid :: p

/-- `bcm_get_pvid_from_entry`: the return value and the array `p`. -/
def bcmGetPvidFromEntry (PNUM : ℕ) (pvidEntry : CStr) : Option (ℤ × List ℤ) :=
  if pvidEntry.length < 2 * PNUM then some (-1, List.replicate PNUM 1)
  else do
    let p ← pvidEntryLoop PNUM (some pvidEntry)
    return (0, p)

end BcmUtils
