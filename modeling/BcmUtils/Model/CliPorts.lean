import BcmUtils.Foundation.Tokens
import BcmUtils.Model.PortList

/-! # Typed port lists

`cli_str2bitmap` of `bcmutils.c`, built without `XPORT`, which reads lists such as
`f0/1,g0/1-2,p3`. -/

namespace BcmUtils

open CLib

/-- The parameters of a build with `GNUM` of its ports gigabit ports. -/
structure CliBuild extends Build where
  GNUM : ℕ
  GNUM_le : GNUM ≤ PNUM

def CliBuild.FNUM (B : CliBuild) : ℕ := B.PNUM - B.GNUM

/-- The letters for which `cli_str2bitmap` searches. -/
def portLetters : CStr := text "fgptFGPT"

/-- `map <<= n`, which is undefined for a negative `n` and from 64 on. -/
def shiftMap (map : PortMap) (n : ℤ) : Option PortMap :=
  if 0 ≤ n ∧ n < 64 then some (map <<< n.toNat) else none

/-- The cases `f0/`, `g0/` and `t0/` of `cli_str2bitmap`, and the value of the other ones. -/
def typedPorts (B : CliBuild) (portNum : CStr) (other : Option PortMap) : Option PortMap :=
  if strncasecmp portNum (text "f0/") 3 then
    str2bit B.toBuild (portNum.drop 3)
  else if strncasecmp portNum (text "g0/") 3 then do
    let map ← str2bit B.toBuild (portNum.drop 3)
    shiftMap map (phy (B.FNUM + 1) - phy 1)
  else if strncasecmp portNum (text "t0/") 3 then do
    let map ← str2bit B.toBuild (portNum.drop 3)
    shiftMap map (phy B.GNUM)
  else other

/-- The map of an item in front of a comma. Any other item is reported as unknown. -/
def itemBeforeComma (B : CliBuild) (portNum : CStr) : Option PortMap :=
  typedPorts B portNum (some 0)

/-- The map of the last item, which may also start with `p`. -/
def lastItem (B : CliBuild) (portNum : CStr) : Option PortMap :=
  typedPorts B portNum
    (if strncasecmp portNum (text "p") 1 then str2bit B.toBuild (portNum.drop 1) else some 0)

/-- One round of the loop of `cli_str2bitmap`, with the array `char port_num[256]`: the map
`t_bmap` and the next value of `prompt`. -/
def cliStr2bitmapRound (B : CliBuild) (prompt : CStr) : Option (PortMap × Option CStr) :=
  match strpbrk portLetters prompt with
  | some _ =>
      match strchr (chr ',') prompt with
      | some comma => do
          let item ← between prompt comma
          let portNum ← store 256 item
          let map ← itemBeforeComma B portNum
          return (map, some comma.tail)
      | none => do
          let portNum ← store 256 prompt
          let map ← lastItem B portNum
          return (map, none)
  | none => do
      let portNum ← store 256 prompt
      let map ← str2bit B.toBuild portNum
      match strpbrk (text ",-") portNum with
      | some comman =>
          if (strpbrk portLetters portNum).isSome then return (map, some comman.tail)
          else return (map, none)
      | none => return (map, none)

/-- The loop of `cli_str2bitmap`, until `prompt` is the null pointer. -/
def cliStr2bitmapLoop (B : CliBuild) : ℕ → Option CStr → PortMap → Option PortMap
  | _, none, bmap => some bmap
  | 0, some _, _ => none
  | fuel + 1, some prompt, bmap => do
      let (map, prompt) ← cliStr2bitmapRound B prompt
      cliStr2bitmapLoop B fuel prompt (bmap ||| map)

/-- `cli_str2bitmap`: the returned value and what is stored at `value` then. Every round that
is not the last one moves `prompt` behind another byte. -/
def cliStr2bitmap (B : CliBuild) (str : Option CStr) (value : PortMap) : Option (ℤ × PortMap) :=
  match str with
  | none => some (-1, value)
  | some prompt => do
      let bmap ← cliStr2bitmapLoop B (prompt.length + 1) (some prompt) 0
      return (0, bmap)

end BcmUtils
