import BcmUtils.Foundation.Records
import BcmUtils.Model.Nvram

/-! # VLAN forwarding records

The branch `CLI_VLAN_FOWD` of `cli_nvram_conf_set`, and the body of the loop that
`cli_nvram_conf_get` runs over the stored records `0:1:Default:1-8:1-8;`. -/

namespace BcmUtils

open CLib

/-- `cli_vlan_info_conf`, without its list pointer. -/
structure CliVlanInfoConf where
  vlanid : ℤ
  name : CStr
  forward : PortMap
  untag : PortMap
  deriving DecidableEq

/-- `cli_vlan_conf`, with its list as the sequence of its records. -/
structure CliVlanConf where
  vlanCount : ℤ
  curVlanInfo : List CliVlanInfoConf

def VLAN_MAX_CNT : ℕ := 4096

/-- The room allocated for each VLAN. -/
def VLAN_STRUCT_LEN (B : Build) : ℕ := 46 + B.PNUM * 6

/-- The loop that appends the records to `result`, a block of `cap` bytes, through the
array `char tmp[128+12]`. -/
def vlanFowdLoop (B : Build) (cap : ℕ) : ℕ → List CliVlanInfoConf → CStr → Option CStr
  | _, [], result => some result
  | index, v :: vs, result => do
      let tmp ← store 140
        (printNat index ++ chr ':' :: (printInt v.vlanid ++ chr ':' :: (v.name ++ [chr ':'])))
      let result ← strcat cap result tmp
      let tmp ← store 140 (bit2str B v.forward ++ [chr ':'])
      let result ← strcat cap result tmp
      let tmp ← store 140 (bit2str B v.untag ++ [chr ';'])
      let result ← strcat cap result tmp
      vlanFowdLoop B cap (index + 1) vs result

/-- The string that `cli_nvram_conf_set(CLI_VLAN_FOWD)` builds in the block it allocates. -/
def vlanFowdResult (B : Build) (c : CliVlanConf) : Option CStr := do
  let cap := (VLAN_STRUCT_LEN B * c.vlanCount).toNat
  let result ← store cap []
  vlanFowdLoop B cap 0 c.curVlanInfo result

/-- `cli_nvram_conf_set(CLI_VLAN_FOWD)`, when `malloc` succeeds. -/
def cliNvramConfSetVlanFowd (B : Build) (c : CliVlanConf) (nv : Nvram) : Option (ℤ × Nvram) := do
  let result ← vlanFowdResult B c
  let nv ← scfgmgrSet (text "vlan_fwd_config") result nv
  return (CLI_SUCCESS, nv)

/-- `memcpy` into a zeroed array field of `cap` bytes. -/
def copyField (cap : ℕ) (src : CStr) : Option CStr :=
  if src.length ≤ cap then some src else none

/-- The body of the loop of `cli_nvram_conf_get(CLI_VLAN_FOWD)` for the record at `p`, whose
terminator is at `p3`. A `tmp` filled to the last of its 128 bytes has no terminator. -/
def vlanRecord (B : Build) (p p3 : CStr) : Option CliVlanInfoConf := do
  let p1 ← strchr (chr ':') p
  let p1 ← incr p1
  let vlanid := atoi p1
  let p ← incr p1
  let p1 ← strchr (chr ':') p
  let p1 ← incr p1
  let p2 ← strchr (chr ':') p1
  let name ← (between p1 p2).bind (copyField 36)
  let p1 ← strchr (chr ':') p2
  let p1 ← incr p1
  let p2 ← strchr (chr ':') p1
  let tmp ← (between p1 p2).bind (store 128)
  let forward ← str2bit B tmp
  let p1 ← strchr (chr ':') p2
  let p1 ← incr p1
  let tmp ← (between p1 p3).bind (store 128)
  let untag ← str2bit B tmp
  return { vlanid, name, forward, untag }

end BcmUtils
