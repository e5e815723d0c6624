import BcmUtils.Foundation.Memory

/-! # Packets on the serial line

`SendPacket` and `ReceivePacket` of `poe_tools.c`. The packet is an object of fixed size; the
source declares the packet structs without padding, so that the three header bytes are followed
by the data and the checksum. -/

namespace BcmUtils.Serial

open CLib

/-- The start-of-packet character. -/
def SOP : Byte := 0xAC

def SUCCESS : ℤ := 0
def ERROR_RESOURCE_INVALID : ℤ := -5
def ERROR_RESOURCE_READ : ℤ := -7
def ERROR_RESOURCE_WRITE : ℤ := -8
def ERROR_RESOURCE_NOT_FND : ℤ := -9

/-- `sizeof(DATA_PARMS)`: a byte and a word. -/
def sizeofDataParms : ℕ := 1 + 4

/-- `sizeof(DATA_SYSINFO)`: two version strings. -/
def sizeofDataSysinfo : ℕ := 8 + 8

/-- `sizeof(DATA_PORTINFO)`: three bytes, two half-words and two version strings. -/
def sizeofDataPortinfo : ℕ := 3 + 2 * 2 + 2 + 8

/-- The packet objects that the callers of `ReceivePacket` pass. -/
inductive PacketType
  | parms | sysinfo | portinfo
  deriving DecidableEq, Repr

/-- The packet of a caller: `CallRoutine` receives into a `PKT_PARMS`, `get_poe_system_info`
into a `PKT_SYSINFO` and `get_poe_port_info` into a `PKT_PORTINFO`. -/
def PacketType.size : PacketType → ℕ
  | .parms => 3 + sizeofDataParms + 1
  | .sysinfo => 3 + sizeofDataSysinfo + 1
  | .portinfo => 3 + sizeofDataPortinfo + 1

/-- What a task does with the serial port and the semaphore that guards it. -/
inductive SerialEvent
  | lock | unlock | send | receive
  deriving DecidableEq, Repr

/-- The outcome of one call of `SerialReceive`, which fails (`none`) or hands over at most
`k` bytes (`some k`), and the milliseconds that `ElapsedTime` reports after it. -/
structure SerialCall where
  result : Option ℕ
  elapsed : ℕ

/-- The packet being received, the bytes still to arrive, and the events so far, the last
one first. -/
structure Port (n : ℕ) where
  packet : Block n
  stream : List Byte
  trace : List SerialEvent

variable {n : ℕ}

/-- `SerialUnlock`. -/
def Port.unlock (p : Port n) : Port n := { p with trace := .unlock :: p.trace }

/-- A call of `SerialReceive` that brings nothing. -/
def Port.idle (p : Port n) : Port n := { p with trace := .receive :: p.trace }

/-- `SerialReceive( pByte, pLimit-pByte )` and the two tests after it, with the pointers as
offsets into the packet: an error code, or the number of bytes stored. The size is passed on
in a byte. -/
def serialReceive (call : SerialCall) (pByte pLimit : ℕ) (p : Port n) :
    Option (Except ℤ ℕ × Port n) :=
  match call.result with
  | none => some (.error ERROR_RESOURCE_READ, p.idle.unlock)
  | some k => do
      let bytes := p.stream.take (min k ((pLimit - pByte) % 256))
      let packet ← p.packet.copy pByte bytes
      let p := ⟨packet, p.stream.drop bytes.length, .receive :: p.trace⟩
      if call.elapsed > 1000 then return (.error ERROR_RESOURCE_NOT_FND, p.unlock)
      else return (.ok bytes.length, p)

/-- The loops that receive the bytes from `pByte` up to `pLimit`: an error code, or the calls
that remain. Behind the last of the calls nothing arrives until the time is up. -/
def receiveLoop (pLimit : ℕ) :
    List SerialCall → ℕ → Port n → Option (Except ℤ (List SerialCall) × Port n)
  | [], pByte, p =>
      if pByte < pLimit then some (.error ERROR_RESOURCE_NOT_FND, p.idle.unlock)
      else some (.ok [], p)
  | call :: calls, pByte, p =>
      if pByte < pLimit then do
        match ← serialReceive call pByte pLimit p with
        | (.error code, p) => return (.error code, p)
        | (.ok result, p) => receiveLoop pLimit calls (pByte + result) p
      else some (.ok (call :: calls), p)

/-- The loop that receives single bytes into `Start` until one is the start of a packet. -/
def startLoop : List SerialCall → Port n → Option (Except ℤ (List SerialCall) × Port n)
  | [], p =>
      if p.packet.1.head? = some SOP then some (.ok [], p)
      else some (.error ERROR_RESOURCE_NOT_FND, p.idle.unlock)
  | call :: calls, p =>
      if p.packet.1.head? = some SOP then some (.ok (call :: calls), p)
      else do
        match ← serialReceive call 0 1 p with
        | (.error code, p) => return (.error code, p)
        | (.ok _, p) => startLoop calls p

/-- The sum of the bytes from `pByte` up to `pLimit`, both included. -/
def checksum (pByte pLimit : ℕ) (packet : Block n) : Option Byte :=
  if pLimit < n then some (((packet.1.take (pLimit + 1)).drop pByte).foldl (· + ·) 0) else none

/-- `ReceivePacket`: the return value and the packet, or `none` for an access outside the
packet object. -/
def receivePacket (calls : List SerialCall) (p : Port n) : Option (ℤ × Port n) := do
  let packet ← p.packet.copy 0 [0]
  match ← startLoop calls { p with packet } with
  | (.error code, p) => return (code, p)
  | (.ok calls, p) =>
      match ← receiveLoop 3 calls 1 p with
      | (.error code, p) => return (code, p)
      | (.ok calls, p) =>
          let dataLength := (p.packet.1.getD 2 0).toNat
          match ← receiveLoop (3 + dataLength + 1) calls 3 p with
          | (.error code, p) => return (code, p)
          | (.ok _, p) =>
              let p := p.unlock
              let sum ← checksum 1 (3 + dataLength) p.packet
              if sum ≠ 0 then return (ERROR_RESOURCE_INVALID, p) else return (SUCCESS, p)

/-! ## Sending -/

/-- What the line does in one exchange: what `write` returns for the request, the bytes that
arrive from then on, and the outcomes of the calls of `SerialReceive`. -/
structure Exchange where
  written : ℤ
  answer : List Byte
  calls : List SerialCall

/-- `SerialSend`. The size is passed on in a byte. -/
def serialSend (written : ℤ) (dataSize : ℕ) : ℤ :=
  if written ≠ (dataSize % 256 : ℕ) then ERROR_RESOURCE_WRITE else written

/-- `SendPacket`: the return value, the bytes that `SerialSend` is given, and the packet, or
`none` for an access outside the packet object. -/
def sendPacket (x : Exchange) (p : Port n) : Option (ℤ × List Byte × Port n) := do
  let dataLength := (p.packet.1.getD 2 0).toNat
  let sum := ((p.packet.1.take (3 + dataLength)).drop 1).foldl (· + ·) 0
  let packet ← p.packet.copy (3 + dataLength) [~~~sum + 1]
  let p : Port n := ⟨packet, p.stream ++ x.answer, .send :: .lock :: p.trace⟩
  let sent := packet.1.take ((dataLength + 4) % 256)
  let result := serialSend x.written (dataLength + 4)
  if result ≠ (dataLength + 4 : ℕ) then return (ERROR_RESOURCE_WRITE, sent, p.unlock)
  return (SUCCESS, sent, p)

end BcmUtils.Serial
