import BcmUtils.Foundation.Memory
import BcmUtils.Foundation.Tokens

/-! # Integer arrays as text

`str_to_arr_i`, `arr_to_str_i` and `str_to_arr_cfg` of `str.c`. The result is none where an
access leaves the array. -/

namespace BcmUtils

open CLib

/-- `arr[i] = v`. -/
def setCell (i : ℕ) (v : ℤ) (arr : List ℤ) : Option (List ℤ) :=
  if i < arr.length then some (arr.set i v) else none

/-- `for (i = 0; i < num; i++) arr_des[i] = 0;` -/
def clearCells (num : ℕ) (arr : List ℤ) : Option (List ℤ) :=
  (List.range num).foldlM (fun arr i => setCell i 0 arr) arr

/-- The loop over the numbers between commas: at most `left` of them go to the cells from `i`
on. -/
def commaLoop : ℕ → Option CStr → ℕ → List ℤ → Option (ℕ × List ℤ)
  | _, none, i, arr => some (i, arr)
  | 0, some _, i, arr => some (i, arr)
  | left + 1, some s, i, arr => do
      let (tok, s) ← strsep (chr ',') (some s)
      let arr ← setCell i (atoi tok) arr
      commaLoop left s (i + 1) arr

/-- `str_to_arr_i`: the returned number and the array then. -/
def strToArrI (strSrc : Option CStr) (arrDes : Option (List ℤ)) (num : ℤ) :
    Option (ℤ × Option (List ℤ)) :=
  match strSrc, arrDes with
  | none, _ => some (-1, arrDes)
  | _, none => some (-1, arrDes)
  | some _, some arr => do
      let arr ← clearCells num.toNat arr
      let (i, arr) ← commaLoop num.toNat strSrc 0 arr
      return (i, some arr)

/-- `arr_to_str_i`: the text at `str_des` then. `sprintf` appends to its own target. -/
def arrToStrI (arrSrc : List ℤ) (strDes : CStr) (delimiter : Byte) (num : ℤ) : Option CStr :=
  (List.range num.toNat).foldlM (fun (strDes : CStr) (i : ℕ) => do
    let v ← arrSrc[i]?
    -- `%c` of zero ends the text
    return strDes ++ printInt v ++ (if delimiter = 0 then [] else [delimiter])) strDes

/-- The outer loop of `str_to_arr_cfg` over the rows between semicolons. -/
def cfgLoop (innerLayerNum : ℕ) : ℕ → Option CStr → ℕ → List ℤ → Option (List ℤ)
  | _, none, _, arr => some arr
  | 0, some _, _, arr => some arr
  | outer + 1, some s, ctr, arr => do
      let (strTmp, s) ← strsep (chr ';') (some s)
      let (ctr, arr) ← commaLoop innerLayerNum (some strTmp) ctr arr
      cfgLoop innerLayerNum outer s ctr arr

/-- `str_to_arr_cfg`: the returned number and the array then. -/
def strToArrCfg (strSrc : Option CStr) (arrDes : List ℤ) (innerLayerNum outerLayerNum : ℤ) :
    Option (ℤ × List ℤ) := do
  let arr ← cfgLoop innerLayerNum.toNat outerLayerNum.toNat strSrc 0 arrDes
  return (0, arr)

end BcmUtils
