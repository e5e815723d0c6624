import BcmUtils.Model.ConfLists
import BcmUtils.Model.PortTables
import BcmUtils.Model.Rstp
import BcmUtils.Model.UserTables
import BcmUtils.Model.VlanPort

/-! # The configuration types together

`cli_nvram_conf_set` and `cli_nvram_conf_get` with all their types, as built with `POE_SI3482`, and
`cli_rate_storm_get`. -/

namespace BcmUtils.Configuration

open CLib

variable (B : Build) (e : Endian)

/-! ## Rates -/

/-- `cli_rate_storm`. -/
structure CliRateStorm where
  rateIgr : ℤ
  rateEgr : ℤ
  stormBro : ℤ
  stormMul : ℤ
  stormUni : ℤ
  deriving DecidableEq

/-- The loop of `cli_rate_storm_get` over the ports that remain. After the last number of a text
its pointer points nowhere. -/
def rateStormLoop : ℕ → (p p1 p2 p3 p4 : Option CStr) → Option (List CliRateStorm)
  | 0, _, _, _, _, _ => some []
  | ports + 1, p, p1, p2, p3, p4 => do
      let (rateIgr, p) := pvidItem (← p)
      let (rateEgr, p1) := pvidItem (← p1)
      let (stormBro, p2) := pvidItem (← p2)
      let (stormMul, p3) := pvidItem (← p3)
      let (stormUni, p4) := pvidItem (← p4)
      let cRate ← rateStormLoop ports p p1 p2 p3 p4
      return { rateIgr, rateEgr, stormBro, stormMul, stormUni } :: cRate

/-- `cli_rate_storm_get`: the records of the ports. -/
def cliRateStormGet (nv : Nvram) : Option (List CliRateStorm × Nvram) := do
  let (rateIngress, nv) ← cliNvramSafeGet B .commaZero (text "rate_ingress") nv
  let (rateEgress, nv) ← cliNvramSafeGet B .commaZero (text "rate_egress") nv
  let (stormBro, nv) ← cliNvramSafeGet B .commaZero (text "storm_bro") nv
  let (stormMul, nv) ← cliNvramSafeGet B .commaZero (text "storm_mul") nv
  let (stormUni, nv) ← cliNvramSafeGet B .commaZero (text "storm_uni") nv
  let cRate ← rateStormLoop B.PNUM (some rateIngress) (some rateEgress) (some stormBro)
    (some stormMul) (some stormUni)
  return (cRate, nv)

/-! ## All types -/

/-- The values of `enum CLI_CONF` that the two functions have a case for. -/
inductive ConfType
  | vlanFowd | vlanPort | sourceBinding | rstpPort | snmpUser | accessUser | dot1xConf | trunkList
  | staticArp | rateStorm | poeConf | poeNames
  deriving DecidableEq, Repr

/-- The structs that are stored. `mallocOk` tells whether the block for the text could be
allocated; the blocks for trunk groups have `extra` bytes more than were asked for. -/
inductive SetConf
  | vlanFowd (mallocOk : Bool) (cVlan : CliVlanConf)
  | vlanPort (cPort : PortArray B CliPortConf)
  | sourceBinding (mallocOk : Bool) (cSource : CliSourceConf)
  | rstpPort (rRstp : PortArray B CliRstpConf)
  | snmpUser (sSnmp : UserTable MAX_SNMP_USER sizeofCliSnmpUserInfo)
  | accessUser (sUser : UserTable MAX_ACCESS_USER sizeofCliAccessUserInfo)
  | dot1xConf (cDot1x : PortArray B CliDot1xConf)
  | trunkList (mallocOk : Bool) (extra : ℕ) (cTrunk : UserTable CLI_TRUNK_GROUP sizeofCliTrunkList)
  | staticArp (mallocOk : Bool) (staticArp : CliStaticArpConf)
  | poeConf (cPoe : PoeArray B PoeConf)
  | poeNames (cPoe : PoeNames B)

/-- `cli_nvram_conf_set`. -/
def cliNvramConfSet (nv : Nvram) : SetConf B → Option (ℤ × Nvram)
  | .vlanFowd mallocOk cVlan =>
      if mallocOk then cliNvramConfSetVlanFowd B cVlan nv else some (CLI_FAILED, nv)
  | .vlanPort cPort => cliNvramConfSetVlanPort B cPort nv
  | .sourceBinding mallocOk cSource =>
      if mallocOk then cliNvramConfSetSourceBinding cSource nv else some (CLI_FAILED, nv)
  | .rstpPort rRstp => cliNvramConfSetRstp B rRstp nv
  | .snmpUser sSnmp => cliNvramConfSetSnmpUser e sSnmp nv
  | .accessUser sUser => cliNvramConfSetAccessUser e sUser nv
  | .dot1xConf cDot1x => cliNvramConfSetDot1x B cDot1x nv
  | .trunkList mallocOk extra cTrunk =>
      if mallocOk then cliNvramConfSetTrunkList B e extra cTrunk nv else some (CLI_FAILED, nv)
  | .staticArp mallocOk staticArp =>
      if mallocOk then cliNvramConfSetStaticArp staticArp nv else some (CLI_FAILED, nv)
  | .poeConf cPoe => do
      let nv ← cliPoeConfStoreToNvram B cPoe nv
      return (CLI_SUCCESS, nv)
  | .poeNames cPoe => do
      let nv ← cliPoeDespStoreToNvram B cPoe nv
      return (CLI_SUCCESS, nv)

/-- The structs that are filled, as they are before. `mallocOk` tells which allocations of the call
succeed. -/
inductive GetConf
  | vlanFowd (mallocOk : ℕ → Bool) (cVlan : ListConf CliVlanInfoConf)
  | vlanPort (mallocOk : ℕ → Bool) (cPort : PortArray B CliPortConf)
  | sourceBinding (mallocOk : ℕ → Bool) (cSource : ListConf CliSourceInfoConf)
  | rstpPort (rRstp : PortArray B CliRstpConf)
  | snmpUser (sSnmp : UserTable MAX_SNMP_USER sizeofCliSnmpUserInfo)
  | accessUser (sUser : UserTable MAX_ACCESS_USER sizeofCliAccessUserInfo)
  | dot1xConf (cDot1x : PortArray B CliDot1xConf)
  | trunkList (cTrunk : UserTable CLI_TRUNK_GROUP sizeofCliTrunkList)
  | staticArp (mallocOk : ℕ → Bool) (staticArp : ListConf CliStaticArpList)
  | rateStorm
  | poeConf (cPoe : PoeArray B PoeConf)
  | poeNames (mallocOk : ℕ → Bool) (cPoe : PoeNames B)

/-- The structs after `cli_nvram_conf_get`. -/
inductive Conf
  | vlanFowd (cVlan : ListConf CliVlanInfoConf)
  | vlanPort (cPort : List CliPortConf)
  | sourceBinding (cSource : ListConf CliSourceInfoConf)
  | rstpPort (rRstp : List CliRstpConf)
  | snmpUser (sSnmp : UserTable MAX_SNMP_USER sizeofCliSnmpUserInfo)
  | accessUser (sUser : UserTable MAX_ACCESS_USER sizeofCliAccessUserInfo)
  | dot1xConf (cDot1x : List CliDot1xConf)
  | trunkList (cTrunk : UserTable CLI_TRUNK_GROUP sizeofCliTrunkList)
  | staticArp (staticArp : ListConf CliStaticArpList)
  | rateStorm (cRate : List CliRateStorm)
  | poeConf (cPoe : List PoeConf)
  | poeNames (cPoe : PoeNames B)

/-- `cli_nvram_conf_get`: the return value, and the struct. -/
def cliNvramConfGet (nv : Nvram) : GetConf B → Option ((ℤ × Conf B) × Nvram)
  | .vlanFowd mallocOk cVlan => do
      let (ret, cVlan, nv) ← cliNvramConfGetVlanFowd B mallocOk nv cVlan
      return ((ret, .vlanFowd cVlan), nv)
  | .vlanPort mallocOk cPort => do
      let (ret, cPort, nv) ← cliNvramConfGetVlanPort B mallocOk nv cPort
      return ((ret, .vlanPort cPort), nv)
  | .sourceBinding mallocOk cSource => do
      let (ret, cSource, nv) ← cliNvramConfGetSourceBinding mallocOk nv cSource
      return ((ret, .sourceBinding cSource), nv)
  | .rstpPort rRstp => do
      let (ret, rRstp, nv) ← cliNvramConfGetRstp B nv rRstp
      return ((ret, .rstpPort rRstp), nv)
  | .snmpUser sSnmp => do
      let sSnmp ← cliNvramConfGetSnmpUser e (nv (text "snmp_user")) sSnmp
      return ((CLI_SUCCESS, .snmpUser sSnmp), nv)
  | .accessUser sUser => do
      let sUser ← cliNvramConfGetAccessUser e (nv (text "user")) sUser
      return ((CLI_SUCCESS, .accessUser sUser), nv)
  | .dot1xConf cDot1x => do
      let (ret, cDot1x, nv) ← cliNvramConfGetDot1x B nv cDot1x
      return ((ret, .dot1xConf cDot1x), nv)
  | .trunkList cTrunk => do
      let cTrunk ← cliNvramConfGetTrunkList B e (nv (text "trunk_list")) cTrunk
      return ((CLI_SUCCESS, .trunkList cTrunk), nv)
  | .staticArp mallocOk staticArp => do
      let (ret, staticArp, nv) ← cliNvramConfGetStaticArp mallocOk nv staticArp
      return ((ret, .staticArp staticArp), nv)
  | .rateStorm => do
      let (cRate, nv) ← cliRateStormGet B nv
      return ((CLI_SUCCESS, .rateStorm cRate), nv)
  | .poeConf cPoe => do
      let (cPoe, nv) ← cliPoeNvramPrase B nv cPoe
      return ((CLI_SUCCESS, .poeConf cPoe), nv)
  | .poeNames mallocOk cPoe => do
      let (cPoe, nv) ← cliPoeDespNvramPrase B mallocOk nv cPoe
      return ((CLI_SUCCESS, .poeNames cPoe), nv)

/-- A call of one of the two functions. -/
inductive ConfCall
  | set (conf : SetConf B)
  | get (conf : GetConf B)

/-- The type that a call is about. -/
def ConfCall.type {B : Build} : ConfCall B → ConfType
  | .set (.vlanFowd _ _) | .get (.vlanFowd _ _) => .vlanFowd
  | .set (.vlanPort _) | .get (.vlanPort _ _) => .vlanPort
  | .set (.sourceBinding _ _) | .get (.sourceBinding _ _) => .sourceBinding
  | .set (.rstpPort _) | .get (.rstpPort _) => .rstpPort
  | .set (.snmpUser _) | .get (.snmpUser _) => .snmpUser
  | .set (.accessUser _) | .get (.accessUser _) => .accessUser
  | .set (.dot1xConf _) | .get (.dot1xConf _) => .dot1xConf
  | .set (.trunkList _ _ _) | .get (.trunkList _) => .trunkList
  | .set (.staticArp _ _) | .get (.staticArp _ _) => .staticArp
  | .get .rateStorm => .rateStorm
  | .set (.poeConf _) | .get (.poeConf _) => .poeConf
  | .set (.poeNames _) | .get (.poeNames _ _) => .poeNames

/-- A call: the return value with the struct that it fills, and the store after it. -/
def confCall (call : ConfCall B) (nv : Nvram) : Option ((ℤ × Option (Conf B)) × Nvram) :=
  match call with
  | .set conf => (cliNvramConfSet B e nv conf).map fun r => ((r.1, none), r.2)
  | .get conf => (cliNvramConfGet B e nv conf).map fun r => ((r.1.1, some r.1.2), r.2)

end BcmUtils.Configuration
