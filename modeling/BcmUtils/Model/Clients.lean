import BcmUtils.Foundation.Processes
import BcmUtils.Foundation.Tokens
import BcmUtils.Model.Nvram

/-! # Clients of the configuration server

`cli_nvram_safe_get`, `scfgmgr_set` and `bcm_config_set_wrr_weight` request by request, so that
another client can come in between. -/

namespace BcmUtils.Clients

open CLib

/-- A request to the configuration server. -/
inductive Request
  | get (name : CStr)
  | set (name data : CStr)
  deriving DecidableEq, Repr

/-- What the server answers and stores. -/
def serve (nv : Nvram) : Request → CStr × Nvram
  | .get name => (nv name, nv)
  | .set name data => ([], Function.update nv name data)

abbrev Client (β : Type) := Proc Request CStr β

/-- `nvram_safe_get`. -/
def nvramSafeGet (name : CStr) : Client CStr := .ask (.get name) .done

/-- `scfgmgr_set`. -/
def scfgmgrSet (name data : CStr) : Client ℤ := do
  let _ ← Proc.ofOption (setMessage name data)
  .ask (.set name data) fun _ => .done 0

/-- `cli_nvram_safe_get`. -/
def cliNvramSafeGet (B : Build) (type : CliNvramType) (param : CStr) : Client CStr := do
  let valueStr ← nvramSafeGet param
  if valueStr.length = 0 then do
    let buff ← Proc.ofOption (store 512 (defaultText B type))
    let _ ← scfgmgrSet param buff
    nvramSafeGet param
  else return valueStr

/-! ## Queue weights -/

/-- `int wrrnum[8]`. -/
abbrev Wrrnum := { wrrnum : List ℤ // wrrnum.length = 8 }

/-- `sscanf(wrr, "%d,%d,%d,%d,%d,%d,%d,%d,", ...)`. Numbers that are not read stay what they
were. -/
def scanWrr (wrr : CStr) (wrrnum : Wrrnum) : List ℤ :=
  let ws := scanInts (chr ',') 8 wrr
  ws ++ wrrnum.1.drop ws.length

/-- `wrrnum[queue_id-1] = weight;` -/
def setWeight (queueId weight : ℤ) (wrrnum : List ℤ) : Option (List ℤ) :=
  if 1 ≤ queueId ∧ queueId ≤ 8 then some (wrrnum.set (queueId - 1).toNat weight) else none

/-- `sprintf(line, "%d,%d,%d,%d,%d,%d,%d,%d,", ...)`. -/
def wrrText (wrrnum : List ℤ) : CStr := wrrnum.flatMap fun w => printInt w ++ [chr ',']

/-- `bcm_config_set_wrr_weight`, with what the stack holds at `wrrnum`. -/
def bcmConfigSetWrrWeight (wrrnum : Wrrnum) (queueId weight : ℤ) : Client ℤ := do
  let wrr ← nvramSafeGet (text "qos_wrr_config")
  let wrrnum ← Proc.ofOption (setWeight queueId weight (scanWrr wrr wrrnum))
  let line ← Proc.ofOption (store 128 (wrrText wrrnum))
  let _ ← scfgmgrSet (text "qos_wrr_config") line
  return 0

end BcmUtils.Clients
