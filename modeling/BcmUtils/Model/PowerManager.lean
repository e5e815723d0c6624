import BcmUtils.Foundation.Words
import BcmUtils.Model.Serial

/-! # Calls to the power manager

`CallRoutine` of `poe_tools.c`, the getters built on it, `get_poe_port_info` and
`get_poe_system_info`. A packet is given with the `room` bytes that follow it in memory. -/

namespace BcmUtils.Serial

open CLib

/-! ## Byte order -/

/-- `Swap16`, compiled for a little-endian machine. -/
def swap16 (word : BitVec 16) : BitVec 16 :=
  if word = 0 then 0 else word.extractLsb' 0 8 ++ word.extractLsb' 8 8

/-- `Swap32`, compiled for a little-endian machine. -/
def swap32 (long : BitVec 32) : BitVec 32 :=
  if long = 0 then 0 else swap16 (long.extractLsb' 0 16) ++ swap16 (long.extractLsb' 16 16)

/-- `Swap16`, which is the identity on a big-endian machine. -/
def Swap16 (e : Endian) (word : BitVec 16) : BitVec 16 :=
  match e with
  | .little => swap16 word
  | .big => word

/-- `Swap32`, which is the identity on a big-endian machine. -/
def Swap32 (e : Endian) (long : BitVec 32) : BitVec 32 :=
  match e with
  | .little => swap32 long
  | .big => long

/-! ## Requests and responses -/

/-- The bytes that still arrive, and the events so far, the last one first. -/
structure Line where
  stream : List Byte
  trace : List SerialEvent

variable {n : ℕ} (e : Endian)

/-- `if ( pParm ) ParmsPacket.Data.Parm = *pParm;` -/
def storeParm (off : ℕ) (parm : Option (List Byte)) (packet : Block n) : Option (Block n) :=
  match parm with
  | some bytes => packet.copy off bytes
  | none => some packet

/-- Build a request packet, of which the data that are not given stay what they were, and send
it. -/
def sendRequest (routine : Byte) (pParm8 : Option Byte) (pParm32 : Option (BitVec 32))
    (packet : Block n) (x : Exchange) (line : Line) : Option (ℤ × Block n × Line) := do
  let packet ← packet.copy 0 [SOP, routine, UInt8.ofNat sizeofDataParms]
  let packet ← storeParm 3 (pParm8.map fun parm8 => [parm8]) packet
  let packet ← storeParm 4 (pParm32.map fun parm32 => bytesOf e (Swap32 e parm32)) packet
  let (result, _, p) ← sendPacket x ⟨packet, line.stream, line.trace⟩
  return (result, p.packet, ⟨p.stream, p.trace⟩)

/-- `ReceivePacket` into a packet. -/
def receiveResponse (calls : List SerialCall) (packet : Block n) (line : Line) :
    Option (ℤ × Block n × Line) := do
  let (result, p) ← receivePacket calls ⟨packet, line.stream, line.trace⟩
  return (result, p.packet, ⟨p.stream, p.trace⟩)

/-- What `CallRoutine` returns, and the values that its pointers then point at. -/
structure RoutineResult where
  ret : ℤ
  parm8 : Option Byte
  parm32 : Option (BitVec 32)
  deriving DecidableEq, Repr

variable {room : ℕ}

/-- `CallRoutine`, with what the stack holds at its packet. Null pointers are `none`. -/
def callRoutine (routine : Byte) (pParm8 : Option Byte) (pParm32 : Option (BitVec 32))
    (packet : Block (PacketType.parms.size + room)) (x : Exchange) (line : Line) :
    Option (RoutineResult × Line) := do
  let (result, packet, line) ← sendRequest e routine pParm8 pParm32 packet x line
  if result ≠ SUCCESS then return (⟨result, pParm8, pParm32⟩, line)
  let (result, packet, line) ← receiveResponse x.calls packet line
  if result ≠ SUCCESS then return (⟨ERROR_RESOURCE_NOT_FND, pParm8, pParm32⟩, line)
  if packet.1.getD 1 0 ≠ routine then return (⟨ERROR_RESOURCE_INVALID, pParm8, pParm32⟩, line)
  let parm32 := Swap32 e (wordOf e ((packet.1.drop 4).take 4))
  return (⟨SUCCESS, pParm8.map fun _ => packet.1.getD 3 0, pParm32.map fun _ => parm32⟩, line)

/-! ## Getters -/

def RTN_GETSYSTEMSTATUS : Byte := 1
def RTN_GETTOTALPOWERCONSUMED : Byte := 3
def RTN_GETTOTALPOWERGRANTED : Byte := 4
def RTN_GETTOTALPOWERPROVIDED : Byte := 5
def RTN_GETPORTCOUNT : Byte := 6
def RTN_GETPORTSTATUS : Byte := 7
def RTN_GETPORTPRIORITYSTATUS : Byte := 9
def RTN_GETPORTPOWERCONSUMED : Byte := 10
def RTN_GETPORTPOWERGRANTED : Byte := 11
def RTN_GETPORTPOWERREQUESTED : Byte := 12
def RTN_GETPORTPOWERAVAILABLE : Byte := 13
def RTN_GETPOWERPROVIDED : Byte := 19
def RTN_GETRESERVEDPOWER : Byte := 21
def RTN_GETOVERLOADLIMIT : Byte := 23
def RTN_GETGRANTINGPOLICY : Byte := 25
def RTN_GETRETRYPOLICY : Byte := 27
def RTN_GETPOWERLOCATION : Byte := 29
def RTN_GETPORTENABLE : Byte := 31
def RTN_GETPORTCAPABILITY : Byte := 33
def RTN_GETPORTPRIORITY : Byte := 35
def RTN_GETPORTPOWERLIMIT : Byte := 37
def RTN_GETPOWERSUPPLYSTATUS : Byte := 39

def STATUS_SYSTEM_COMM_LOST : ℤ := -4

/-- What the stack holds when a getter is called: the packet of `CallRoutine`, and the local
variables that the getter does not set. -/
structure Stack (room : ℕ) where
  packet : Block (PacketType.parms.size + room)
  parm8 : Byte
  parm32 : BitVec 32

/-- A getter that passes the address of a byte, which it stores if the call succeeds. On a
failure it returns `onError` of the result. -/
def getter8 (routine parm8 : Byte) (onError : ℤ → ℤ) (stack : Stack room) (x : Exchange)
    (out : BitVec 8) (line : Line) : Option (ℤ × BitVec 8 × Line) := do
  let (r, line) ← callRoutine e routine (some parm8) none stack.packet x line
  if r.ret ≠ SUCCESS then return (onError r.ret, out, line)
  return (r.ret, (r.parm8.getD parm8).toBitVec, line)

/-- A getter that passes the address of a local word, which it stores if the call succeeds. -/
def getter32 (routine : Byte) (pParm8 : Option Byte) (stack : Stack room) (x : Exchange)
    (out : BitVec 32) (line : Line) : Option (ℤ × BitVec 32 × Line) := do
  let (r, line) ← callRoutine e routine pParm8 (some stack.parm32) stack.packet x line
  if r.ret ≠ SUCCESS then return (r.ret, out, line)
  return (r.ret, r.parm32.getD stack.parm32, line)

variable (stack : Stack room)

/-- `get_poe_system_status`. -/
def getPoeSystemStatus :=
  getter8 e RTN_GETSYSTEMSTATUS 0xFC (fun _ => STATUS_SYSTEM_COMM_LOST) stack

/-- `get_poe_total_power_consumed`. -/
def getPoeTotalPowerConsumed := getter32 e RTN_GETTOTALPOWERCONSUMED none stack

/-- `get_poe_total_power_granted`. -/
def getPoeTotalPowerGranted := getter32 e RTN_GETTOTALPOWERGRANTED none stack

/-- `get_poe_total_power_provided`. -/
def getPoeTotalPowerProvided := getter32 e RTN_GETTOTALPOWERPROVIDED none stack

/-- `get_poe_port_count`. -/
def getPoePortCount := getter8 e RTN_GETPORTCOUNT stack.parm8 (fun _ => 0) stack

/-- `get_poe_port_status`. -/
def getPoePortStatus (port : Byte) := getter8 e RTN_GETPORTSTATUS port id stack

/-- `get_poe_port_priority_status`. -/
def getPoePortPriorityStatus (port : Byte) := getter8 e RTN_GETPORTPRIORITYSTATUS port id stack

/-- `get_poe_port_power_consumed`. -/
def getPoePortPowerConsumed (port : Byte) := getter32 e RTN_GETPORTPOWERCONSUMED (some port) stack

/-- `get_poe_port_power_granted`. -/
def getPoePortPowerGranted (port : Byte) := getter32 e RTN_GETPORTPOWERGRANTED (some port) stack

/-- `get_poe_port_power_requested`. -/
def getPoePortPowerRequested (port : Byte) :=
  getter32 e RTN_GETPORTPOWERREQUESTED (some port) stack

/-- `get_poe_port_power_available`. -/
def getPoePortPowerAvailable (port : Byte) :=
  getter32 e RTN_GETPORTPOWERAVAILABLE (some port) stack

/-- `get_poe_power_provided`. -/
def getPoePowerProvided (powerSupply : Byte) :=
  getter32 e RTN_GETPOWERPROVIDED (some powerSupply) stack

/-- `get_poe_reserved_power`. -/
def getPoeReservedPower := getter8 e RTN_GETRESERVEDPOWER stack.parm8 id stack

/-- `get_poe_overload_limit`. -/
def getPoeOverloadLimit := getter8 e RTN_GETOVERLOADLIMIT stack.parm8 id stack

/-- `get_poe_granting_policy`. -/
def getPoeGrantingPolicy := getter8 e RTN_GETGRANTINGPOLICY stack.parm8 id stack

/-- `get_poe_retry_policy`. -/
def getPoeRetryPolicy := getter8 e RTN_GETRETRYPOLICY stack.parm8 id stack

/-- `get_poe_power_location`. -/
def getPoePowerLocation := getter8 e RTN_GETPOWERLOCATION stack.parm8 id stack

/-- `get_poe_port_enable`. -/
def getPoePortEnable (port : Byte) := getter8 e RTN_GETPORTENABLE port id stack

/-- `get_poe_port_capability`. -/
def getPoePortCapability (port : Byte) := getter8 e RTN_GETPORTCAPABILITY port id stack

/-- `get_poe_port_priority`. -/
def getPoePortPriority (port : Byte) := getter8 e RTN_GETPORTPRIORITY port id stack

/-- `get_poe_port_power_limit`, which stores a word through the address of a byte variable. -/
def getPoePortPowerLimit (port : Byte) (x : Exchange) (portPL : BitVec 8) (line : Line) :
    Option (ℤ × BitVec 8 × Line) := do
  let (r, line) ← callRoutine e RTN_GETPORTPOWERLIMIT (some port) (some stack.parm32) stack.packet x
    line
  if r.ret ≠ SUCCESS then return (r.ret, portPL, line)
  return (r.ret, (r.parm32.getD stack.parm32).setWidth 8, line)

/-- `get_poe_power_supply_status`. -/
def getPoePowerSupplyStatus (powerSupply : Byte) :=
  getter8 e RTN_GETPOWERSUPPLYSTATUS powerSupply id stack

/-- The getters, with the port or the power supply that they ask about. -/
inductive Getter
  | systemStatus | totalPowerConsumed | totalPowerGranted | totalPowerProvided | portCount
  | portStatus (port : Byte) | portPriorityStatus (port : Byte) | portPowerConsumed (port : Byte)
  | portPowerGranted (port : Byte) | portPowerRequested (port : Byte)
  | portPowerAvailable (port : Byte) | powerProvided (powerSupply : Byte) | reservedPower
  | overloadLimit | grantingPolicy | retryPolicy | powerLocation | portEnable (port : Byte)
  | portCapability (port : Byte) | portPriority (port : Byte) | portPowerLimit (port : Byte)
  | powerSupplyStatus (powerSupply : Byte)
  deriving DecidableEq, Repr

/-- The width of the variable that a getter stores. -/
def Getter.width : Getter → ℕ
  | .totalPowerConsumed | .totalPowerGranted | .totalPowerProvided | .portPowerConsumed _
  | .portPowerGranted _ | .portPowerRequested _ | .portPowerAvailable _ | .powerProvided _ => 32
  | _ => 8

/-- The getters as they are called. -/
def Getter.run (g : Getter) :
    Exchange → BitVec g.width → Line → Option (ℤ × BitVec g.width × Line) :=
  match g with
  | .systemStatus => getPoeSystemStatus e stack
  | .totalPowerConsumed => getPoeTotalPowerConsumed e stack
  | .totalPowerGranted => getPoeTotalPowerGranted e stack
  | .totalPowerProvided => getPoeTotalPowerProvided e stack
  | .portCount => getPoePortCount e stack
  | .portStatus port => getPoePortStatus e stack port
  | .portPriorityStatus port => getPoePortPriorityStatus e stack port
  | .portPowerConsumed port => getPoePortPowerConsumed e stack port
  | .portPowerGranted port => getPoePortPowerGranted e stack port
  | .portPowerRequested port => getPoePortPowerRequested e stack port
  | .portPowerAvailable port => getPoePortPowerAvailable e stack port
  | .powerProvided powerSupply => getPoePowerProvided e stack powerSupply
  | .reservedPower => getPoeReservedPower e stack
  | .overloadLimit => getPoeOverloadLimit e stack
  | .grantingPolicy => getPoeGrantingPolicy e stack
  | .retryPolicy => getPoeRetryPolicy e stack
  | .powerLocation => getPoePowerLocation e stack
  | .portEnable port => getPoePortEnable e stack port
  | .portCapability port => getPoePortCapability e stack port
  | .portPriority port => getPoePortPriority e stack port
  | .portPowerLimit port => getPoePortPowerLimit e stack port
  | .powerSupplyStatus powerSupply => getPoePowerSupplyStatus e stack powerSupply

/-! ## Information on the system and the ports -/

def RTN_GETSYSTEMINFO : Byte := 2
def RTN_GETPORTINFO : Byte := 8

/-- The error statistics. -/
structure Statistics where
  readFailed : BitVec 32
  badChecksum : BitVec 32
  noResponse : BitVec 32
  retryFail : BitVec 32
  retrySuccess : BitVec 32

/-- `switch ( Result ) { case ERROR_RESOURCE_READ: ReadFailed++; break; ... }` -/
def Statistics.keep (result : ℤ) (s : Statistics) : Statistics :=
  if result = ERROR_RESOURCE_READ then { s with readFailed := s.readFailed + 1 }
  else if result = ERROR_RESOURCE_INVALID then { s with badChecksum := s.badChecksum + 1 }
  else if result = ERROR_RESOURCE_NOT_FND then { s with noResponse := s.noResponse + 1 }
  else s

/-- The exchange of `get_poe_system_info` and `get_poe_port_info`, which is repeated once if
nothing is received: an error code of a send, or the result of the last receive. -/
def exchangeTwice {m : ℕ} (routine : Byte) (pParm8 : Option Byte) (packet : Block n)
    (response : Block m) (x y : Exchange) (s : Statistics) (line : Line) :
    Option (Except ℤ ℤ × Block m × Statistics × Line) := do
  let (result, packet, line) ← sendRequest e routine pParm8 none packet x line
  if result ≠ SUCCESS then return (.error result, response, s, line)
  let (result, response, line) ← receiveResponse x.calls response line
  if result = SUCCESS then return (.ok result, response, s, line)
  let s := s.keep result
  let (result, _, line) ← sendRequest e routine pParm8 none packet y line
  if result ≠ SUCCESS then return (.error result, response, s, line)
  let (result, response, line) ← receiveResponse y.calls response line
  if result = SUCCESS then
    return (.ok result, response, { s with retrySuccess := s.retrySuccess + 1 }, line)
  return (.ok result, response, { s with retryFail := s.retryFail + 1 }.keep result, line)

/-- The packets and counters of `poe_tools.c`, and the serial line. -/
structure Device (room : ℕ) where
  sysInfoPacket : Block (PacketType.sysinfo.size + room)
  portInfoPacket : Block (PacketType.portinfo.size + room)
  statistics : Statistics
  line : Line

/-- The half-word that two bytes hold. -/
def halfOf (bs : List Byte) : BitVec 16 :=
  match e with
  | .little => BitVec.ofNat 16 (bigNat bs.reverse)
  | .big => BitVec.ofNat 16 (bigNat bs)

/-- `PORTINFO`. The version strings are offsets into `PortInfoPacket`. -/
structure PortInfo where
  detection : Byte
  classification : Byte
  current : BitVec 16
  powerSupplyVoltage : BitVec 16
  siliconVersion : ℕ
  firmwareVersion : ℕ

/-- `get_poe_port_info`. -/
def getPoePortInfo (port : Byte) (packet : Block (PacketType.parms.size + room)) (x y : Exchange)
    (portInfo : PortInfo) (d : Device room) : Option (ℤ × PortInfo × Device room) := do
  let (outcome, portInfoPacket, statistics, line) ←
    exchangeTwice e RTN_GETPORTINFO (some port) packet d.portInfoPacket x y d.statistics d.line
  let d := { d with portInfoPacket, statistics, line }
  match outcome with
  | .error result => return (result, portInfo, d)
  | .ok result =>
      if result ≠ SUCCESS then return (result, portInfo, d)
      let data := portInfoPacket.1
      if data.getD 1 0 ≠ RTN_GETPORTINFO then return (ERROR_RESOURCE_INVALID, portInfo, d)
      let portInfo : PortInfo :=
        { detection := data.getD 4 0
          classification := data.getD 5 0
          current := Swap16 e (halfOf e ((data.drop 6).take 2))
          powerSupplyVoltage := Swap16 e (halfOf e ((data.drop 8).take 2))
          siliconVersion := 10
          firmwareVersion := 12 }
      return ((data.getD 3 0).toBitVec.toInt, portInfo, d)

/-- `SYSINFO`. The version strings are offsets into `SysInfoPacket`. -/
structure SysInfo where
  powerManagerVersion : ℕ
  platformSupportVersion : ℕ

/-- `get_poe_system_info`, which returns nothing if a request cannot be sent. -/
def getPoeSystemInfo (packet : Block (PacketType.parms.size + room)) (x y : Exchange)
    (d : Device room) : Option (Option ℤ × SysInfo × Device room) := do
  let sysInfoPacket ← d.sysInfoPacket.copy 3 [63, 0]
  let sysInfoPacket ← sysInfoPacket.copy 11 [63, 0]
  let systemInfo : SysInfo := { powerManagerVersion := 3, platformSupportVersion := 11 }
  let (outcome, sysInfoPacket, statistics, line) ←
    exchangeTwice e RTN_GETSYSTEMINFO none packet sysInfoPacket x y d.statistics d.line
  let d := { d with sysInfoPacket, statistics, line }
  match outcome with
  | .error _ => return (none, systemInfo, d)
  | .ok result => return (some result, systemInfo, d)

/-! ## Runs -/

/-- A call of the interface to the power manager, with what the stack holds at its packet and
what the line does. -/
inductive ApiCall (room : ℕ)
  | callRoutine (routine : Byte) (pParm8 : Option Byte) (pParm32 : Option (BitVec 32))
      (packet : Block (PacketType.parms.size + room)) (x : Exchange)
  | portInfo (port : Byte) (packet : Block (PacketType.parms.size + room)) (x y : Exchange)
      (portInfo : PortInfo)
  | systemInfo (packet : Block (PacketType.parms.size + room)) (x y : Exchange)

/-- One call, from start to return. -/
def Device.step (d : Device room) : ApiCall room → Option (Device room)
  | .callRoutine routine pParm8 pParm32 packet x => do
      let (_, line) ← callRoutine e routine pParm8 pParm32 packet x d.line
      return { d with line }
  | .portInfo port packet x y portInfo => do
      let (_, _, d) ← getPoePortInfo e port packet x y portInfo d
      return d
  | .systemInfo packet x y => do
      let (_, _, d) ← getPoeSystemInfo e packet x y d
      return d

end BcmUtils.Serial
