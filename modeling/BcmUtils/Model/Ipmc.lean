import BcmUtils.Model.VlanEntries

/-! # IP multicast records

The readers of `ipmc.c` for records such as `1,2,60,300;`, and the counter of `vlan.c` that is
written like theirs. -/

namespace BcmUtils

open CLib

/-- The loop `while(1) { p0 = strchr(++p0, ';'); if(NULL == p0) break; else num++; }`. The search
begins behind `p0` and must not begin behind the terminator. -/
def countBehindLoop : ℕ → CStr → ℕ → Option ℕ
  | 0, _, _ => none
  | fuel + 1, p0, num => do
      let p0 ← incr p0
      match strchr (chr ';') p0 with
      | none => return num
      | some p0 => countBehindLoop fuel p0 (num + 1)

/-- `bcm_get_ipmc_number`. -/
def bcmGetIpmcNumber (igmpConfig : CStr) : Option ℕ :=
  countBehindLoop (igmpConfig.length + 1) igmpConfig 0

/-- `bcm_get_no_PNUM_entry_number`. -/
def bcmGetNoPNUMEntryNumber (fwdEntry : CStr) : Option ℕ :=
  countBehindLoop (fwdEntry.length + 1) fwdEntry 0

/-- `IPMC_ENTRY`. -/
structure IpmcEntry where
  vlanid : ℤ
  version : ℤ
  query : ℤ
  timeout : ℤ
  deriving DecidableEq

/-- The body of the loop of `bcm_get_ipmc_entry` for the record at `p`. -/
def ipmcEntry (p : CStr) : Option IpmcEntry := do
  let vlanid := atoi p
  let p1 ← strchr (chr ',') p
  let p1 ← incr p1
  let version := atoi p1
  let p2 ← strchr (chr ',') p1
  let p2 ← incr p2
  let query := atoi p2
  let p3 ← strchr (chr ',') p2
  let p3 ← incr p3
  let timeout := atoi p3
  return { vlanid, version, query, timeout }

/-- The loop of `bcm_get_ipmc_entry`, which must not run past the entries of the caller. -/
def ipmcEntryLoop : List (CStr × CStr) → List IpmcEntry → Option (List IpmcEntry)
  | [], es => some es
  | _ :: _, [] => none
  | (p, _) :: rest, _ :: es => do
      let e ← ipmcEntry p
      let es ← ipmcEntryLoop rest es
      return e :: es

/-- `bcm_get_ipmc_entry`: the returned value and the array at `ipmc` then. -/
def bcmGetIpmcEntry (ipmcConfig : CStr) (ipmc : List IpmcEntry) : Option (ℤ × List IpmcEntry) := do
  let ipmc ← ipmcEntryLoop (spans (chr ';') ipmcConfig) ipmc
  return (0, ipmc)

end BcmUtils
