import BcmUtils.Foundation.Words
import BcmUtils.Model.Bindings

/-! # Numbers from the command line

`input_num` of `bcmutils.c`. -/

namespace BcmUtils

open CLib

/-- The loop of `input_num`. -/
def inputNumLoop (num : ℕ) : CStr → Bool → BitVec 64 → BitVec 64
  | [], _, val => val
  | b :: name, out, val =>
      if out then val
      else if chr '0' ≤ b ∧ b ≤ chr '9' then
        inputNumLoop num name out (val * BitVec.ofNat 64 num + BitVec.ofNat 64 (b - chr '0').toNat)
      else if chr 'a' ≤ b ∧ b ≤ chr 'f' then
        if num = 10 then inputNumLoop num name true val
        else inputNumLoop num name out
          (val * BitVec.ofNat 64 num + BitVec.ofNat 64 (b - chr 'a').toNat + 10)
      else if chr 'A' ≤ b ∧ b ≤ chr 'F' then
        if num = 10 then inputNumLoop num name true val
        else inputNumLoop num name out
          (val * BitVec.ofNat 64 num + BitVec.ofNat 64 (b - chr 'A').toNat + 10)
      else if b = chr '-' then inputNumLoop num name out val
      else inputNumLoop num name true val

/-- `input_num`: the returned number and the bytes at `value` then. It reads the second character
first, so it needs one. -/
def inputNum (e : Endian) (input : CStr) (forceHex size : ℤ) (value : List Byte) :
    Option (ℤ × List Byte) := do
  let second ← charAt input 1
  let (num, name) :=
    if second = chr 'x' then (16, input.drop 2)
    else if forceHex = 1 then (16, input)
    else (10, input)
  let val := inputNumLoop num name false 0
  let store := fun (n : ℕ) => (writeAt 0 (numBytes e n val.toNat) value).map fun value =>
    ((0 : ℤ), value)
  if size = 1 then store 1
  else if size = 2 then store 2
  else if size = 4 then store 4
  else if size = 8 then store 8
  else some (-1, value)

end BcmUtils
