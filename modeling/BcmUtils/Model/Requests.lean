import Mathlib.Tactic

/-! # Requests to the driver

`bcm_set_erps_bpdu` and `bcm_set_stg_stp` of `stp.c`, `pvlan_port_type_set` and
`bcm_register_write` of `bcmutils.c` and `bcm_port_doubletag_set` of `vlan.c`. All of them fill an
array `uint32 data[8]` of zeros and pass it to `ioctl`. -/

namespace BcmUtils

/-- `VLAN_DTAG_SET`. -/
def VLAN_DTAG_SET : ℕ := 231

/-- `ERPS_BPDU_LEVEL_SET`. -/
def ERPS_BPDU_LEVEL_SET : ℕ := 350

/-- `ERPS_STG_STATE_SET`. -/
def ERPS_STG_STATE_SET : ℕ := 353

/-- `PVLAN_PORT_SET`. -/
def PVLAN_PORT_SET : ℕ := 370

/-- `BCM_REGISTER_WRITE`. -/
def BCM_REGISTER_WRITE : ℕ := 381

/-- What the driver is asked: the code and the words of `data`. -/
structure Request where
  code : ℕ
  data : Fin 8 → BitVec 32
  deriving DecidableEq

/-- The array `data` with its first words set and zeros behind them. -/
def dataOf (ws : List (BitVec 32)) : Fin 8 → BitVec 32 := fun i => ws.getD i 0

/-- The end of every wrapper: the returned number, which is negative if the driver refuses, and
the request. -/
def ioctlRequest (driver : BitVec 32 → Request → ℤ) (skfd : BitVec 32) (code : ℕ)
    (ws : List (BitVec 32)) : ℤ × Request :=
  let request := { code, data := dataOf ws }
  (if driver skfd request < 0 then -1 else 0, request)

variable (driver : BitVec 32 → Request → ℤ) (skfd : BitVec 32)

/-- `bcm_set_erps_bpdu`. -/
def bcmSetErpsBpdu (mdLevel controlVlan block1 _block2 primaryPort secondPort : BitVec 32) :
    ℤ × Request :=
  ioctlRequest driver skfd ERPS_BPDU_LEVEL_SET
    [mdLevel, block1, block1, controlVlan, primaryPort, secondPort]

/-- `bcm_set_stg_stp`. -/
def bcmSetStgStp (unit stg port status : BitVec 32) : ℤ × Request :=
  ioctlRequest driver skfd ERPS_STG_STATE_SET [unit, port, status, stg]

/-- `pvlan_port_type_set`. -/
def pvlanPortTypeSet (mode portType vlan : BitVec 32) (bmaps : BitVec 64) : ℤ × Request :=
  ioctlRequest driver skfd PVLAN_PORT_SET [vlan, mode, bmaps.setWidth 32, portType]

/-- `bcm_register_write`. -/
def bcmRegisterWrite (reg : BitVec 32) (value : BitVec 64) : ℤ × Request :=
  ioctlRequest driver skfd BCM_REGISTER_WRITE
    [reg, (value >>> 32).setWidth 32, (value &&& 0xffffffff).setWidth 32]

/-- `bcm_port_doubletag_set`. -/
def bcmPortDoubletagSet (port oldvid oldvidHigh newid mode : BitVec 32) : ℤ × Request :=
  ioctlRequest driver skfd VLAN_DTAG_SET [port, oldvid, oldvidHigh, newid, mode]

end BcmUtils
