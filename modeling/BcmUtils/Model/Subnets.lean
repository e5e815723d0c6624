import BcmUtils.Model.Addresses

/-! # Subnets

The functions of `if_info.c` on addresses with a prefix length such as `192.168.1.1/24`. -/

namespace BcmUtils

open CLib

/-- What the code depends on of the machine: the byte order and the bits of a `long`. -/
structure Host where
  endian : Endian
  long : ℕ
  le_long : 32 ≤ long

/-- `for(i = 0; i < mask; i++) netmask |= 1<<(31-i);` from `i` on with `n` rounds left. The
shifted `int` is extended by its sign to the width of `netmask`, and a negative shift is
undefined. -/
def netmaskLoop (w i : ℕ) : ℕ → BitVec w → Option (BitVec w)
  | 0, netmask => some netmask
  | n + 1, netmask =>
      if i ≤ 31 then
        netmaskLoop w (i + 1) n (netmask ||| (1#32 <<< (31 - i)).signExtend w)
      else none

/-- The loop from the zero mask on. -/
def netmaskOf (w : ℕ) (mask : ℤ) : Option (BitVec w) := netmaskLoop w 0 mask.toNat 0

/-- The text before `/` in the array `lanip`, and the text behind it. Without `/` all of the
text is copied, which takes an array of `cap` bytes; before one `memcpy` may copy `room`. -/
def copyLanip (cap room : ℕ) (s : CStr) : Option (CStr × Option CStr) :=
  match strchr (chr '/') s with
  | none => do
      let lanip ← store cap s
      return (lanip, none)
  | some p => do
      let lanip ← (between s p).bind (copyField room)
      let p ← incr p
      return (lanip, some p)

/-- The mask of the number behind `/`, or the constant for a text without one. -/
def netmaskBehind (w : ℕ) : Option CStr → Option (BitVec w)
  | none => some 0xffffff
  | some p => netmaskOf w (atoi p)

/-- `is_in_same_subnet`. -/
def isInSameSubnet (e : Endian) (ipaddr subnet : CStr) : Option ℤ := do
  let (lanip, p) ← copyLanip 18 17 subnet
  let netmask ← netmaskBehind 32 p
  let ip := inetAddr e ipaddr
  let sub := inetAddr e lanip
  return if ip &&& ntohl e netmask = sub &&& ntohl e netmask then 1 else 0

/-- `isin_same_subnet`. -/
def isinSameSubnet (H : Host) (ipaddr subnet : CStr) : Option ℤ := do
  let (lanip, p) ← copyLanip 18 17 subnet
  let netmask ← netmaskBehind H.long p
  let (lanip1, p1) ← copyLanip 18 17 ipaddr
  let netmask1 ← netmaskBehind H.long p1
  if netmask ≠ netmask1 then
    return 0
  else
    let ip := (inetAddr H.endian lanip).setWidth H.long
    let sub := (inetAddr H.endian lanip1).setWidth H.long
    let m := (ntohl H.endian (netmask.setWidth 32)).setWidth H.long
    return if ip &&& m = sub &&& m then 1 else 0

/-- `get_broadcast_addr`. -/
def getBroadcastAddr (H : Host) (lanIpaddr : CStr) : Option CStr := do
  let (lanip, p) ← copyLanip 18 17 lanIpaddr
  let mask := (p.map atoi).getD 24
  let netmask ← netmaskOf H.long mask
  let ipaddr := (inetAddr H.endian lanip).setWidth H.long
  let bipaddr := ipaddr &&& (ntohl H.endian (netmask.setWidth 32)).setWidth H.long |||
    (ntohl H.endian ((~~~ netmask).setWidth 32)).setWidth H.long
  return inetNtoa (bytesOf H.endian (bipaddr.setWidth 32))

/-- `get_netmask_str`, which does not read the address that it copies. -/
def getNetmaskStr (H : Host) (lanIpaddr : CStr) : Option CStr := do
  let (_, p) ← copyLanip 18 18 lanIpaddr
  let netmask ← netmaskBehind H.long p
  return inetNtoa (bytesOf H.endian (ntohl H.endian (netmask.setWidth 32)))

/-- `get_submask_addr`, whose `lanip` has 24 bytes, of which 18 are zeroed. -/
def getSubmaskAddr (H : Host) (lanIpaddr : CStr) : Option CStr := do
  let (lanip, p) ← copyLanip 24 17 lanIpaddr
  let netmask ← netmaskBehind H.long p
  let ipaddr := (inetAddr H.endian lanip).setWidth H.long
  let subnet := ipaddr &&& (ntohl H.endian (netmask.setWidth 32)).setWidth H.long
  return inetNtoa (bytesOf H.endian (subnet.setWidth 32))

/-- `get_mask_addr`. -/
def getMaskAddr (lanIpaddr : CStr) : Option ℤ :=
  match strchr (chr '/') lanIpaddr with
  | none => some 24
  | some p => do
      let p ← incr p
      return atoi p

/-- `get_netmask_addr`. -/
def getNetmaskAddr (lanIpaddr : CStr) : Option (BitVec 32) :=
  match strchr (chr '/') lanIpaddr with
  | none => some 0xffffff
  | some p => do
      let p ← incr p
      netmaskOf 32 (atoi p)

/-! ## IPv6 -/

/-- `s6_addr32[k]`. -/
def s6Addr32 (e : Endian) (addr : BitVec 128) (k : ℕ) : BitVec 32 :=
  networkWord e (addr.extractLsb' (32 * (3 - k)) 32)

/-- The comparison of the first `k` words and of the word behind them shifted by `n`, which is
undefined unless `n` is a number of bits in the word. -/
def compareWords (ip gw : ℕ → BitVec 32) (k : ℕ) (n : ℤ) : Option ℤ :=
  if ∀ j < k, ip j = gw j then
    if 0 ≤ n ∧ n < 32 then
      some (if ip k >>> n.toNat = gw k >>> n.toNat then 0 else -1)
    else none
  else some (-1)

/-- `check_ipv6_same_subnet`. -/
def checkIpv6SameSubnet (e : Endian) (lanIpv6addr lanIpv6gateway : CStr) : Option ℤ :=
  if lanIpv6gateway = [] then some (-1)
  else if lanIpv6addr = [] then some (-1)
  else
    match strchr (chr '/') lanIpv6addr, strchr (chr '/') lanIpv6gateway with
    | some str, some str1 => do
        let value := atoi (← incr str)
        -- The prefix of the gateway is read from the address, too.
        let value1 := atoi (← incr str)
        if value ≠ value1 then
          return -1
        else
          let tmp ← (between lanIpv6addr str).bind (store 64)
          match inetPton6 tmp with
          | none => return -1
          | some s6Ip =>
              let tmp ← (between lanIpv6gateway str1).bind (store 64)
              match inetPton6 tmp with
              | none => return -1
              | some s6Gw =>
                  let ip := s6Addr32 e s6Ip
                  let gw := s6Addr32 e s6Gw
                  if 96 ≤ value then compareWords ip gw 0 (value - 96)
                  else if 64 ≤ value then compareWords ip gw 1 (value - 64)
                  else if 32 ≤ value then compareWords ip gw 2 (value - 32)
                  else compareWords ip gw 3 value
    | _, _ => some (-1)

end BcmUtils
