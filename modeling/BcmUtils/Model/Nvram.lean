import BcmUtils.Model.PortList

/-! # The configuration store

`scfgmgr_set` and `nvram_safe_get` as a map from names to strings: a set is
followed by a get of the stored string. `cli_nvram_safe_get` stores a default
first when the string is empty. -/

namespace BcmUtils

open CLib

/-- The stored strings by parameter name; a name that was never set has the empty string. -/
abbrev Nvram := CStr → CStr

def CLI_SUCCESS : ℤ := 0
def CLI_FAILED : ℤ := 1

/-- The text that `scfgmgr_set` formats into its array `char tmp[4500]`. -/
def setMessage (name data : CStr) : Option CStr := store 4500 (name ++ chr '=' :: data)

/-- `scfgmgr_set`, when the server stores what it is sent. -/
def scfgmgrSet (name data : CStr) (nv : Nvram) : Option Nvram :=
  (setMessage name data).map fun _ => Function.update nv name data

/-- `TNUM` of `bcmutils.h`. -/
def TNUM : ℕ := 6

/-- `enum CLI_NVRAM_TYPE`. -/
inductive CliNvramType
  | allOne | allZero | comma | commaOne | commaZero | portName | vlanForward | rateAll | rcNum
  | rate | rstpConfig | mstpPortCpConfig | mstpPortConfig | macAdvanced | dot1xConfig
  | protectConfig | cosConfig | dscpConfig | trunkVlan | allDes | portAcl | portPolicy | cpuAcl
  | speedAllAuto | duplexAllAuto | errDisable | errRecover | aggRstpConfig | aggProtectConfig
  | poePort | poeDesp | aggAllOne | aggAllZero | aggComma
  deriving DecidableEq, Repr

/-- `for(portid = 1; portid <= n; portid++) strcat(buff, piece(portid));` -/
def eachPort (n : ℕ) (piece : ℕ → CStr) : CStr := (List.range n).flatMap fun i => piece (i + 1)

/-- The default that `cli_nvram_safe_get` builds for each type. -/
def defaultText (B : Build) : CliNvramType → CStr
  | .allOne => eachPort B.PNUM fun _ => text "1"
  | .aggAllOne => eachPort TNUM fun _ => text "1"
  | .allZero => eachPort B.PNUM fun _ => text "0"
  | .aggAllZero => eachPort TNUM fun _ => text "0"
  | .duplexAllAuto => eachPort B.PNUM fun _ => printNat 4
  | .speedAllAuto => eachPort B.PNUM fun _ => printNat 0
  | .allDes => eachPort B.PNUM fun _ => text ";"
  | .comma => eachPort B.PNUM fun _ => text ","
  | .aggComma => eachPort TNUM fun _ => text ","
  | .commaOne => eachPort B.PNUM fun portid => if portid = 1 then text "1" else text ",1"
  | .commaZero => eachPort B.PNUM fun portid => if portid = 1 then text "0" else text ",0"
  | .portName => eachPort B.PNUM fun portid => text "port" ++ (printNat portid ++ text ",")
  | .vlanForward =>
      text "0:1:Default:1-" ++ (printNat B.PNUM ++ (text ":1-" ++ (printNat B.PNUM ++ text ";")))
  | .rateAll => eachPort B.PNUM fun portid => printNat portid ++ text ",,;"
  | .rcNum =>
      let zeros := eachPort B.PNUM fun portid => if portid = 1 then text "00" else text ",00"
      zeros ++ (text ";" ++ zeros)
  | .rate => eachPort B.PNUM fun _ => text ","
  | .rstpConfig => eachPort B.PNUM fun _ => text "0,128,2,0,0,0,0,0;"
  | .aggRstpConfig => eachPort TNUM fun _ => text "0,128,2,0,0,0,0,0;"
  | .mstpPortCpConfig => eachPort B.PNUM fun _ => text "0,128;"
  | .mstpPortConfig => eachPort B.PNUM fun _ => text "2,0,1,0,0,0,0,0;"
  | .macAdvanced => eachPort B.PNUM fun _ => text "8191,"
  | .dot1xConfig => eachPort B.PNUM fun _ => text "1,0,4096;"
  | .protectConfig => eachPort B.PNUM fun portid => printNat portid ++ text ",0;"
  | .aggProtectConfig => eachPort TNUM fun portid => printNat portid ++ text ",0;"
  | .dscpConfig => (List.range 64).flatMap fun i => printNat (i / 8)
  | .cosConfig => (List.range 8).flatMap printNat
  | .trunkVlan => eachPort B.PNUM fun portid => printNat portid ++ text ":;"
  | .portAcl | .portPolicy => eachPort B.PNUM fun _ => text ","
  | .cpuAcl => text ","
  | .poePort => eachPort B.PoE_NUM fun _ =>
      printNat 1 ++ (text "," ++ (printNat B.PORTPOWER_MAX ++ (text "," ++ (printNat 0 ++ text ";"))))
  | .poeDesp => eachPort B.PoE_NUM fun portid =>
      text "port" ++ (printNat portid ++ if portid < B.PNUM then text "," else [])
  | .errDisable | .errRecover => []

/-- `cli_nvram_safe_get`, with its array `char buff[512]`: the string and the store after it. -/
def cliNvramSafeGet (B : Build) (type : CliNvramType) (param : CStr) (nv : Nvram) :
    Option (CStr × Nvram) :=
  if (nv param).length = 0 then do
    let buff ← store 512 (defaultText B type)
    let nv ← scfgmgrSet param buff nv
    return (nv param, nv)
  else some (nv param, nv)

theorem scfgmgrSet_of_lt {name data : CStr} (nv : Nvram)
    (h : (name ++ chr '=' :: data).length < 4500) :
    scfgmgrSet name data nv = some (Function.update nv name data) := by
  rw [scfgmgrSet, setMessage, store_of_lt h, Option.map_some]

/-- A stored string is returned as it is unless it is empty. -/
theorem cliNvramSafeGet_of_ne_nil (B : Build) (type : CliNvramType) {param : CStr} {nv : Nvram}
    (h : nv param ≠ []) : cliNvramSafeGet B type param nv = some (nv param, nv) := by
  rw [cliNvramSafeGet, if_neg (by simpa using h)]

/-- A string that was just stored is returned, unless it is empty. -/
theorem cliNvramSafeGet_update (B : Build) (type : CliNvramType) {s : CStr} (h : s ≠ [])
    (param : CStr) (nv : Nvram) :
    cliNvramSafeGet B type param (Function.update nv param s) =
      some (s, Function.update nv param s) := by
  rw [cliNvramSafeGet_of_ne_nil B type (by rwa [Function.update_self]), Function.update_self]

end BcmUtils
