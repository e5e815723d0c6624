import BcmUtils.Foundation.Prefixes
import BcmUtils.Model.Bindings

/-! # Internet addresses in text form

`inet_addr` and `inet_pton(AF_INET6, ...)` of the C library. -/

namespace BcmUtils

open CLib

/-- Digits in the given base. -/
def inetDigits (base : ℕ) (s : CStr) : Option ℕ :=
  s.foldlM (fun n b => do
    let d ← hexDigit b
    if d.toNat < base then some (base * n + d.toNat) else none) 0

/-- A part of an address as C writes numbers: decimal, octal behind `0`, hexadecimal behind
`0x`. -/
def inetNumber (s : CStr) : Option ℕ :=
  match s with
  | [] => none
  | [b] => inetDigits 10 [b]
  | b :: c :: t =>
      if b = chr '0' then
        if c = chr 'x' ∨ c = chr 'X' then if t = [] then none else inetDigits 16 t
        else inetDigits 8 (c :: t)
      else inetDigits 10 (b :: c :: t)

/-- The number of an address of one to four parts, the last of which fills the bytes that are
left. -/
def inetAton (s : CStr) : Option (BitVec 32) := do
  let parts ← (s.splitOn (chr '.')).mapM inetNumber
  match parts with
  | [a] => if a < 2 ^ 32 then some (BitVec.ofNat 32 a) else none
  | [a, b] =>
      if a < 2 ^ 8 ∧ b < 2 ^ 24 then some (BitVec.ofNat 32 (a * 2 ^ 24 + b)) else none
  | [a, b, c] =>
      if a < 2 ^ 8 ∧ b < 2 ^ 8 ∧ c < 2 ^ 16 then
        some (BitVec.ofNat 32 (a * 2 ^ 24 + b * 2 ^ 16 + c))
      else none
  | [a, b, c, d] =>
      if a < 2 ^ 8 ∧ b < 2 ^ 8 ∧ c < 2 ^ 8 ∧ d < 2 ^ 8 then
        some (BitVec.ofNat 32 (a * 2 ^ 24 + b * 2 ^ 16 + c * 2 ^ 8 + d))
      else none
  | _ => none

/-- `INADDR_NONE`. -/
def INADDR_NONE : BitVec 32 := 0xffffffff

/-- `inet_addr`: the word whose bytes in memory are the address in network order. -/
def inetAddr (e : Endian) (s : CStr) : BitVec 32 :=
  match inetAton s with
  | some n => networkWord e n
  | none => INADDR_NONE

/-! ## IPv6 -/

/-- One to four hexadecimal digits. -/
def hexGroup (s : CStr) : Option (BitVec 16) :=
  if s ≠ [] ∧ s.length ≤ 4 then (inetDigits 16 s).map (BitVec.ofNat 16) else none

/-- The groups between colons, the last two of which may be written as a dotted address. -/
def hexGroups : List CStr → Option (List (BitVec 16))
  | [] => some []
  | [part] =>
      match inetPton part with
      | some addr =>
          some [BitVec.ofNat 16 (bigNat (addr.take 2)), BitVec.ofNat 16 (bigNat (addr.drop 2))]
      | none => (hexGroup part).map fun g => [g]
  | part :: parts => do
      let g ← hexGroup part
      let gs ← hexGroups parts
      return g :: gs

/-- The texts before and behind the first `::`. -/
def splitColons : CStr → Option (CStr × CStr)
  | b :: c :: s =>
      if b = chr ':' ∧ c = chr ':' then some ([], s)
      else (splitColons (c :: s)).map fun lr => (b :: lr.1, lr.2)
  | _ => none

/-- The texts between colons; the empty text has none. -/
def colonParts (s : CStr) : List CStr := if s = [] then [] else s.splitOn (chr ':')

/-- The number of eight groups. -/
def groupsNumber (gs : List (BitVec 16)) : BitVec 128 :=
  gs.foldl (fun n g => n <<< 16 ||| g.setWidth 128) 0

/-- `inet_pton(AF_INET6, ...)`: eight groups, or fewer around `::`, which stands for the zero
groups that are missing. -/
def inetPton6 (s : CStr) : Option (BitVec 128) :=
  match splitColons s with
  | some (l, r) => do
      let left ← (colonParts l).mapM hexGroup
      let right ← hexGroups (colonParts r)
      if left.length + right.length ≤ 7 then
        some (groupsNumber
          (left ++ List.replicate (8 - left.length - right.length) 0 ++ right))
      else none
  | none => do
      let gs ← hexGroups (colonParts s)
      if gs.length = 8 then some (groupsNumber gs) else none

end BcmUtils
