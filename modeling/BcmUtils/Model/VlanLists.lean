import BcmUtils.Model.PortList

/-! # Lists of VLAN ids

`check_vlan_include` of `nvram_conf.c`, `str2vlan` of `bcmutils.c` and `str2vlan_info` of
`vlan.c`, which read lists such as `1,3-4`. -/

namespace BcmUtils

open CLib

/-- One round of the second loop of `check_vlan_include`: the value that it returns, if it
does. -/
def vlanIncludeRow (vlanid : ℤ) (row : CStr) : Option ℤ :=
  let min := atoi row
  match strchr (chr '-') row with
  | some p1 =>
      let max := atoi p1.tail
      if vlanid < min then some 0
      else if vlanid ≤ max then some 1
      else none
  | none => if vlanid = min then some 1 else none

/-- The second loop of `check_vlan_include` over `n` rows from row `j` on. -/
def vlanIncludeLoop (vlanid : ℤ) (port : List Byte) : ℕ → ℕ → Option ℤ
  | _, 0 => some 0
  | j, n + 1 => do
      let row ← readStr (j * 8) port
      match vlanIncludeRow vlanid row with
      | some ret => return ret
      | none => vlanIncludeLoop vlanid port (j + 1) n

/-- `check_vlan_include`, over its array `char port[256][8]`. -/
def checkVlanInclude (vlanid : ℤ) (vlanStr : CStr) : Option ℤ := do
  let items := vlanStr.splitOn (chr ',')
  let port ← writeRows 8 0 items (List.replicate (256 * 8) 0)
  vlanIncludeLoop vlanid port 0 items.length

/-- `*(a+k) = 1;` -/
def setOne (a : List ℤ) (k : ℤ) : Option (List ℤ) :=
  if 0 ≤ k ∧ k < a.length then some (a.set k.toNat 1) else none

/-- `*(value+k) = 1; *(total+k) = 1;` -/
def markOne (k : ℤ) (arrays : List ℤ × List ℤ) : Option (List ℤ × List ℤ) := do
  let value ← setOne arrays.1 k
  let total ← setOne arrays.2 k
  return (value, total)

/-- `for(k = min; k <= max; k++) { *(value+k) = 1; *(total+k) = 1; }` -/
def markRange (min max : ℤ) (arrays : List ℤ × List ℤ) : Option (List ℤ × List ℤ) :=
  (List.range (max - min + 1).toNat).foldlM
    (fun (arrays : List ℤ × List ℤ) (n : ℕ) => markOne (min + n) arrays) arrays

/-- `str2vlan`, over its array `char port[1024][16]`: the arrays `value` and `total`. -/
def str2vlan (input : CStr) (value total : List ℤ) : Option (List ℤ × List ℤ) := do
  let port ← splitRows 1024 16 (chr ',') input
  port.foldlM (fun arrays row => markRange (itemRange row).1 (itemRange row).2 arrays)
    (value, total)

/-- `for(k = min; k <= max; k++) *(value+k) = 1;` -/
def setRange (min max : ℤ) (value : List ℤ) : Option (List ℤ) :=
  (List.range (max - min + 1).toNat).foldlM
    (fun (value : List ℤ) (n : ℕ) => setOne value (min + n)) value

/-- What the second loop of `str2vlan_info` changes: the array `value`, and the bounds, for which
0 says that there is none yet. -/
structure VlanInfo where
  value : List ℤ
  tmin : ℤ := 0
  tmax : ℤ := 0

/-- One round of the second loop of `str2vlan_info`. -/
def vlanInfoRow (info : VlanInfo) (row : CStr) : Option VlanInfo := do
  let (min, max) := itemRange row
  let tmin := if 0 = info.tmin then min else if min < info.tmin then min else info.tmin
  let tmax := if 0 = info.tmax then max else if info.tmax < max then max else info.tmax
  let value ← setRange min max info.value
  return { value, tmin, tmax }

/-- `str2vlan_info`, over its array `char port[128][256]`: the array `value`, and the bounds in
`mmin` and `mmax`. -/
def str2vlanInfo (input : CStr) (value : List ℤ) : Option (List ℤ × ℤ × ℤ) := do
  let port ← splitRows 128 256 (chr ',') input
  let info ← port.foldlM vlanInfoRow { value }
  return (info.value, info.tmin, info.tmax)

end BcmUtils
