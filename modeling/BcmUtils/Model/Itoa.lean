import BcmUtils.Foundation.Memory

/-! # Numbers as text

`my_itoa` of `sk_define.c`. -/

namespace BcmUtils

open CLib

/-- The loop of `my_itoa` that writes the digits, the last one first: `p` and the buffer behind
it. The fuel outlasts the quotients. -/
def itoaDigits : ℕ → ℕ → ℕ → List Byte → Option (ℕ × List Byte)
  | 0, _, _, _ => none
  | fuel + 1, u, p, buf => do
      let a := u % 10
      let u := u / 10
      let buf ← writeAt p [UInt8.ofNat (a + 48)] buf
      if u > 0 then itoaDigits fuel u (p + 1) buf else some (p + 1, buf)

/-- The loop of `my_itoa` that swaps the digits from `b` to `p`; the first argument is `p + 1`. -/
def itoaSwap : ℕ → ℕ → List Byte → Option (List Byte)
  | 0, _, _ => none
  | p + 1, b, buf => do
      let temp ← buf[p]?
      let c ← buf[b]?
      let buf ← writeAt p [c] buf
      let buf ← writeAt b [temp] buf
      -- `b < p` after both have moved
      if b + 1 + 1 < p then itoaSwap p (b + 1) buf else some buf

/-- `my_itoa`: the returned length and the buffer then, if no access leaves it. -/
def myItoa (val : BitVec 32) (buf : List Byte) : Option (ℕ × List Byte) := do
  let (p, buf) ← if val.toInt < 0 then (writeAt 0 [chr '-'] buf).map (1, ·) else some (0, buf)
  let u := if val.toInt < 0 then 0 - val else val
  let b := p
  let (p, buf) ← itoaDigits (u.toNat + 1) u.toNat p buf
  let buf ← writeAt p [0] buf
  let buf ← itoaSwap p b buf
  return (p, buf)

end BcmUtils
