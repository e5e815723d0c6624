import BcmUtils.Model.VlanForward

/-! # Source bindings and static ARP entries

The branches `CLI_SOURCE_BINDING` and `CLI_STATIC_ARP` of `cli_nvram_conf_set`, and the bodies
of the loops that `cli_nvram_conf_get` runs over the stored records
`000000000001|192.168.1.100|1|4094|1;` and `1.1.1.1|00:00:00:00:00:00;`. -/

namespace BcmUtils

open CLib

/-- `cli_source_info_conf`, without its list pointer. -/
structure CliSourceInfoConf where
  index : ℤ := 0
  macAddr : List Byte
  ipAddr : List Byte
  port : ℤ
  vlan : ℤ
  type : ℤ
  deriving DecidableEq

/-- `cli_static_arp_list`, without its list pointer. -/
structure CliStaticArpList where
  staticIp : CStr
  staticMac : CStr
  vlan : ℤ := 0
  port : ℤ := 0
  deriving DecidableEq

/-- The value of a hexadecimal digit in either case. -/
def hexDigit (b : Byte) : Option Byte :=
  if chr '0' ≤ b ∧ b ≤ chr '9' then some (b - chr '0')
  else if chr 'a' ≤ b ∧ b ≤ chr 'f' then some (b - chr 'a' + 10)
  else if chr 'A' ≤ b ∧ b ≤ chr 'F' then some (b - chr 'A' + 10)
  else none

/-- `*(s + i)`, which may be the terminator but nothing behind it. -/
def charAt (s : CStr) (i : ℕ) : Option Byte :=
  if i < s.length then s[i]? else if i = s.length then some 0 else none

theorem charAt_append (pre : CStr) (b : Byte) (post : CStr) :
    charAt (pre ++ b :: post) pre.length = some b := by
  simp [charAt]

/-- One round of `cli_str2mac`: the two switches leave the byte as it is for other
characters. -/
def str2macByte (hi lo val : Byte) : Byte :=
  let val := match hexDigit hi with
    | some d => d * 16
    | none => val
  match hexDigit lo with
  | some d => val + d
  | none => val

/-- `cli_str2mac` over the bytes `val`, from offset `i` of `name` on. -/
def cliStr2mac (name : CStr) (i : ℕ) : List Byte → Option (List Byte)
  | [] => some []
  | v :: val => do
      let hi ← charAt name i
      let lo ← charAt name (i + 1)
      let rest ← cliStr2mac name (i + 2) val
      return str2macByte hi lo v :: rest

/-- The value of one part of a dotted address: up to three digits, no leading zero, at
most 255. -/
def inetPart (s : CStr) : Option Byte :=
  if s ≠ [] ∧ s.length ≤ 3 ∧ s.all isDigit ∧ (s.head? = some (chr '0') → s.length = 1) ∧
      readDigits 0 s ≤ 255 then
    some (UInt8.ofNat (readDigits 0 s))
  else none

/-- `inet_pton(AF_INET, ...)`: the four bytes in network order. -/
def inetPton (s : CStr) : Option (List Byte) :=
  if (s.splitOn (chr '.')).length = 4 then (s.splitOn (chr '.')).mapM inetPart else none

/-- The body of the loop of `cli_nvram_conf_get(CLI_SOURCE_BINDING)`. An address that
`inet_pton` rejects leaves the zeroed field as it is. -/
def sourceRecord (p _p3 : CStr) : Option CliSourceInfoConf := do
  let macAddr ← cliStr2mac p 0 [0, 0, 0, 0, 0, 0]
  let p1 ← strchr (chr '|') p
  let p1 ← incr p1
  let p ← strchr (chr '|') p1
  let tmp ← (between p1 p).bind (store 128)
  let p ← incr p
  let ipAddr := (inetPton tmp).getD [0, 0, 0, 0]
  let port := atoi p
  let p ← strchr (chr '|') p
  let p ← incr p
  let vlan := atoi p
  let p ← strchr (chr '|') p
  let p ← incr p
  let type := atoi p
  return { macAddr, ipAddr, port, vlan, type }

/-- The body of the loop of `cli_nvram_conf_get(CLI_STATIC_ARP)`. -/
def staticArpRecord (p _p3 : CStr) : Option CliStaticArpList := do
  let p1 ← strchr (chr '|') p
  let staticIp ← (between p p1).bind (copyField 20)
  let p2 ← strchr (chr ';') p1
  let q ← incr p1
  let staticMac ← (between q p2).bind (copyField 20)
  return { staticIp, staticMac }

/-! ## Storing -/

/-- `cli_source_conf`, with its list as the sequence of its records. -/
structure CliSourceConf where
  sourceCount : ℤ
  curSourceInfo : List CliSourceInfoConf

/-- `cli_static_arp_conf`, with its list as the sequence of its records. -/
structure CliStaticArpConf where
  arpInfoCount : ℤ
  staticArpList : List CliStaticArpList

/-- The room allocated for each binding. -/
def SOURCE_STRUCT_LEN : ℕ := 46

/-- The room allocated for each entry. -/
def STATIC_ARP_LEN : ℕ := 37

def hexChar (d : Byte) : Byte := if d < 10 then chr '0' + d else chr 'a' + (d - 10)

/-- `%02x`. -/
def printHex (b : Byte) : CStr := [hexChar (b / 16), hexChar (b % 16)]

/-- `inet_ntoa`. -/
def inetNtoa (addr : List Byte) : CStr :=
  [chr '.'].intercalate (addr.map fun b => printNat b.toNat)

/-- Store under `name` the texts appended in a block of `len` bytes a record, when `malloc`
succeeds. -/
def setTexts (name : CStr) (len : ℕ) (count : ℤ) (texts : List CStr) (nv : Nvram) :
    Option (ℤ × Nvram) := do
  let cap := (len * count).toNat
  let result ← store cap []
  let result ← appendTexts 140 cap texts result
  let nv ← scfgmgrSet name result nv
  return (CLI_SUCCESS, nv)

/-- The two texts of a binding. -/
def sourceTexts (s : CliSourceInfoConf) : List CStr :=
  [s.macAddr.flatMap printHex,
    chr '|' :: (inetNtoa s.ipAddr ++ chr '|' :: (printInt s.port ++ chr '|' ::
      (printInt s.vlan ++ chr '|' :: (printInt s.type ++ [chr ';']))))]

/-- `cli_nvram_conf_set(CLI_SOURCE_BINDING)`. -/
def cliNvramConfSetSourceBinding (c : CliSourceConf) (nv : Nvram) : Option (ℤ × Nvram) :=
  setTexts (text "source_binding") SOURCE_STRUCT_LEN c.sourceCount
    (c.curSourceInfo.flatMap sourceTexts) nv

/-- The text of an entry. -/
def staticArpTexts (a : CliStaticArpList) : List CStr :=
  [a.staticIp ++ chr '|' :: (a.staticMac ++ [chr ';'])]

/-- `cli_nvram_conf_set(CLI_STATIC_ARP)`. -/
def cliNvramConfSetStaticArp (c : CliStaticArpConf) (nv : Nvram) : Option (ℤ × Nvram) :=
  setTexts (text "static_arp_list") STATIC_ARP_LEN c.arpInfoCount
    (c.staticArpList.flatMap staticArpTexts) nv

end BcmUtils
