import BcmUtils.Model.Nvram

/-! # RSTP port settings

The branches `CLI_RSTP_PORT` of `cli_nvram_conf_set` and `cli_nvram_conf_get`. -/

namespace BcmUtils

open CLib

/-- `cli_rstp_conf`. -/
structure CliRstpConf where
  pathcost : ℤ
  priority : ℤ
  p2p : ℤ
  edge : ℤ
  status : ℤ
  bpduGuard : ℤ
  bpduFilter : ℤ
  guard : ℤ
  deriving DecidableEq

/-- `sprintf(tmp, "%d,%d,%d,%d,%d,%d,%d,%d;", ...)`. -/
def rstpText (r : CliRstpConf) : CStr :=
  printInt r.pathcost ++ chr ',' :: (printInt r.priority ++ chr ',' :: (printInt r.p2p ++ chr ',' ::
    (printInt r.edge ++ chr ',' :: (printInt r.status ++ chr ',' :: (printInt r.bpduGuard ++
      chr ',' :: (printInt r.bpduFilter ++ chr ',' :: (printInt r.guard ++ [chr ';'])))))))

/-- The loop of `cli_nvram_conf_set(CLI_RSTP_PORT)`, with the text that `rstp_config` holds. -/
def setRstpLoop (B : Build) : List CliRstpConf → CStr → Option CStr
  | [], rstpConfig => some rstpConfig
  | r :: rs, rstpConfig => do
      let tmp ← store 140 (rstpText r)
      let rstpConfig ← strcat (32 * B.PNUM) rstpConfig tmp
      setRstpLoop B rs rstpConfig

/-- `cli_nvram_conf_set(CLI_RSTP_PORT)`. -/
def cliNvramConfSetRstp (B : Build) (rRstp : PortArray B CliRstpConf) (nv : Nvram) :
    Option (ℤ × Nvram) := do
  let rstpConfig ← setRstpLoop B rRstp.1 []
  let nv ← scfgmgrSet (text "rstp_config") rstpConfig nv
  return (CLI_SUCCESS, nv)

/-- The fields that `cli_nvram_conf_get(CLI_RSTP_PORT)` reads at `p`. The reads of the last
four are commented out in the source. -/
def rstpRecord (p : CStr) : Option CliRstpConf := do
  let pathcost := atoi p
  let p1 ← strchr (chr ',') p
  let p ← incr p1
  let priority := atoi p
  let p1 ← strchr (chr ',') p
  let p ← incr p1
  let p2p := atoi p
  let p1 ← strchr (chr ',') p
  let p ← incr p1
  let edge := atoi p
  return { pathcost, priority, p2p, edge, status := 0, bpduGuard := 0, bpduFilter := 0, guard := 0 }

/-- The loop of `cli_nvram_conf_get(CLI_RSTP_PORT)` over the records of the struct. -/
def getRstpLoop : List CliRstpConf → CStr → Option (ℤ × List CliRstpConf)
  | [], _ => some (CLI_SUCCESS, [])
  | r :: rs, p =>
      match strchr (chr ';') p with
      | none => some (CLI_FAILED, r :: rs)
      | some p3 => do
          let r ← rstpRecord p
          let p ← incr p3
          let (ret, rs) ← getRstpLoop rs p
          return (ret, r :: rs)

/-- `cli_nvram_conf_get(CLI_RSTP_PORT)`. -/
def cliNvramConfGetRstp (B : Build) (nv : Nvram) (rRstp : PortArray B CliRstpConf) :
    Option (ℤ × List CliRstpConf × Nvram) := do
  let (rstpConfig, nv) ← cliNvramSafeGet B .rstpConfig (text "rstp_config") nv
  let (ret, rRstp) ← getRstpLoop rRstp.1 rstpConfig
  return (ret, rRstp, nv)

end BcmUtils
