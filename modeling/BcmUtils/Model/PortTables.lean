import BcmUtils.Model.PoeNames

/-! # Tables with a record for each port

The branches `CLI_DOT1X_CONF` of `cli_nvram_conf_set` and `cli_nvram_conf_get`, and the PoE
settings behind `CLI_POE_CONF` and `CLI_POE_NAMES`, as built with `POE_SI3482`. -/

namespace BcmUtils

open CLib

/-- `sprintf(tmp, "%d,%d,%d;", ...)`. -/
def tripleText (a b c : ℤ) : CStr :=
  printInt a ++ chr ',' :: (printInt b ++ chr ',' :: (printInt c ++ [chr ';']))

/-- The three numbers at `p`, and where the last one starts. -/
def readTriple (p : CStr) : Option (ℤ × ℤ × ℤ × CStr) := do
  let a := atoi p
  let p1 ← strchr (chr ',') p
  let p ← incr p1
  let b := atoi p
  let p1 ← strchr (chr ',') p
  let p ← incr p1
  return (a, b, atoi p, p)

/-! ## 802.1X -/

/-- `cli_dot1x_conf`. -/
structure CliDot1xConf where
  authMode : ℤ
  ctrlType : ℤ
  guestId : ℤ
  maxUser : ℤ
  deriving DecidableEq

/-- `cli_nvram_conf_set(CLI_DOT1X_CONF)`. The guest VLAN is not stored. -/
def cliNvramConfSetDot1x (B : Build) (cDot1x : PortArray B CliDot1xConf) (nv : Nvram) :
    Option (ℤ × Nvram) := do
  let dot1xConfig ← appendTexts 140 (16 * B.PNUM)
    (cDot1x.1.map fun c => tripleText c.authMode c.ctrlType c.maxUser) []
  let nv ← scfgmgrSet (text "dot1x_config") dot1xConfig nv
  return (CLI_SUCCESS, nv)

/-- The loop of `cli_nvram_conf_get(CLI_DOT1X_CONF)` over the records of the struct, which ends
early with the stored string. -/
def getDot1xLoop : List CliDot1xConf → CStr → Option (List CliDot1xConf)
  | [], _ => some []
  | c :: cs, p =>
      match strchr (chr ';') p with
      | none => some (c :: cs)
      | some p3 => do
          let (authMode, ctrlType, maxUser, _) ← readTriple p
          let p ← incr p3
          let cs ← getDot1xLoop cs p
          return { c with authMode, ctrlType, maxUser } :: cs

/-- `cli_nvram_conf_get(CLI_DOT1X_CONF)`. -/
def cliNvramConfGetDot1x (B : Build) (nv : Nvram) (cDot1x : PortArray B CliDot1xConf) :
    Option (ℤ × List CliDot1xConf × Nvram) := do
  let cDot1x ← getDot1xLoop cDot1x.1 (nv (text "dot1x_config"))
  return (CLI_SUCCESS, cDot1x, nv)

/-! ## Power over Ethernet -/

/-- `struct poe_conf`. -/
structure PoeConf where
  enable : ℤ
  maxPower : ℤ
  priority : ℤ
  deriving DecidableEq

/-- An array with one entry for each PoE port. -/
abbrev PoeArray (B : Build) (α : Type) := { l : List α // l.length = B.PoE_NUM }

/-- `cli_poe_conf_store_to_nvram`. -/
def cliPoeConfStoreToNvram (B : Build) (cPoe : PoeArray B PoeConf) (nv : Nvram) : Option Nvram := do
  let poeNvramConf ← appendTexts 32 512
    (cPoe.1.map fun c => tripleText c.enable c.maxPower c.priority) []
  scfgmgrSet (text "poe_port_conf") poeNvramConf nv

/-- The loop of `cli_poe_nvram_prase` over the records of the struct. -/
def poeNvramPraseLoop : List PoeConf → CStr → Option (List PoeConf)
  | [], _ => some []
  | _ :: cs, p => do
      let (enable, maxPower, priority, p) ← readTriple p
      let p ← strchr (chr ';') p
      let p ← incr p
      let cs ← poeNvramPraseLoop cs p
      return { enable, maxPower, priority } :: cs

/-- `cli_poe_nvram_prase`. -/
def cliPoeNvramPrase (B : Build) (nv : Nvram) (cPoe : PoeArray B PoeConf) :
    Option (List PoeConf × Nvram) := do
  let (poePortConf, nv) ← cliNvramSafeGet B .poePort (text "poe_port_conf") nv
  let cPoe ← poeNvramPraseLoop cPoe.1 poePortConf
  return (cPoe, nv)

/-- The string at a pointer. -/
def loadName (heap : Heap CStr) : Ptr → Option CStr
  | .block a => heap.load a
  | _ => none

/-- The texts of the ports from `portid` on: every name but the last is followed by a comma. -/
def poeDespTexts (B : Build) (portid : ℕ) (names : List CStr) : List CStr :=
  (names.zipIdx portid).map fun q => if q.2 < B.PoE_NUM then q.1 ++ [chr ','] else q.1

/-- `cli_poe_desp_store_to_nvram`. -/
def cliPoeDespStoreToNvram (B : Build) (c : PoeNames B) (nv : Nvram) : Option Nvram := do
  let names ← c.poeNames.mapM (loadName c.heap)
  let poeNvramDesp ← appendTexts 64 1024 (poeDespTexts B 1 names) []
  scfgmgrSet (text "port_desps") poeNvramDesp nv

end BcmUtils
