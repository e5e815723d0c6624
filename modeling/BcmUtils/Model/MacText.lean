import BcmUtils.Foundation.Words
import BcmUtils.Model.Bindings

/-! # Texts of MAC addresses

`str2mac` and `str2mac_blackhole` of `mac.c` and `hex2mac` of `gmrp.c`. -/

namespace BcmUtils

open CLib

/-- The loop of `str2mac`, which returns at any other character. -/
def str2macLoop : ℕ → CStr → BitVec 64 → BitVec 64
  | 0, _, val => val
  | _ + 1, [], val => val
  | len + 1, b :: name, val =>
      match hexDigit b with
      | some d => str2macLoop len name (val * 16 + BitVec.ofNat 64 d.toNat)
      | none => val

/-- `str2mac`. -/
def str2mac (name : CStr) : BitVec 64 := str2macLoop 12 name 0

/-- The loop of `str2mac_blackhole`, which skips `:` and `-`. -/
def str2macBlackholeLoop : ℕ → CStr → BitVec 64 → BitVec 64
  | 0, _, val => val
  | _ + 1, [], val => val
  | len + 1, b :: name, val =>
      match hexDigit b with
      | some d => str2macBlackholeLoop len name (val * 16 + BitVec.ofNat 64 d.toNat)
      | none => if b = chr ':' ∨ b = chr '-' then str2macBlackholeLoop len name val else val

/-- `str2mac_blackhole`. -/
def str2macBlackhole (name : CStr) : BitVec 64 := str2macBlackholeLoop 18 name 0

/-- The loop of `hex2mac`. -/
def hex2macLoop (c : CharSign) : ℕ → List Byte → BitVec 64 → Option (BitVec 64)
  | 0, _, val => some val
  | _ + 1, [], _ => none
  | len + 1, b :: name, val => hex2macLoop c len name ((val <<< 8) + BitVec.ofInt 64 (c.value b))

/-- `hex2mac`: the value of `*macaddr` then. -/
def hex2mac (c : CharSign) (name : List Byte) : Option (BitVec 64) := hex2macLoop c 6 name 0

end BcmUtils
