import BcmUtils.Foundation.Semaphores
import BcmUtils.Model.PowerManager

/-! # The serial port and its threads

`SPP_Serial.c`, the clock of `SPP_Util.c` and `CallRoutine` of `poe_tools.c`, system call by
system call, so that other threads can come in between. -/

namespace BcmUtils.SerialThreads

open CLib Serial

/-- The system calls at the serial port and at the clock. -/
inductive LineCall
  | write (data : List Byte)
  | read (size : ℕ)
  | clockGettime
  deriving DecidableEq, Repr

/-- What they return, a failed `read` or `clock_gettime` `none`. -/
inductive LineAnswer
  | written (dataSent : ℤ)
  | received (data : Option (List Byte))
  | time (t : Option (ℕ × ℕ))

/-- What the line and the clock do: how much of a request is sent and what arrives from then on,
how many bytes a `read` brings at most, and the seconds and nanoseconds that the clock shows. -/
inductive LineOutcome
  | sends (dataSent : ℤ) (answer : List Byte)
  | brings (k : Option ℕ)
  | shows (t : Option (ℕ × ℕ))

/-- The line, with the bytes that still arrive. -/
def line (stream : List Byte) : LineCall → LineOutcome → Option (LineAnswer × List Byte)
  | .write _, .sends dataSent answer => some (.written dataSent, stream ++ answer)
  | .read _, .brings none => some (.received none, stream)
  | .read size, .brings (some k) =>
      let data := stream.take (min k size)
      some (.received (some data), stream.drop data.length)
  | .clockGettime, .shows t => some (.time t, stream)
  | _, _ => none

abbrev Thread (β : Type) := Proc (Sem LineCall) (Option LineAnswer) β

/-- `SerialLock`. -/
def serialLock : Thread Unit := .ask .wait fun _ => .done ()

/-- `SerialUnlock`. -/
def serialUnlock : Thread Unit := .ask .post fun _ => .done ()

/-- The milliseconds of `CurrentTime`, rounded to the nearest. -/
def milliseconds (tvSec tvNsec : ℕ) : BitVec 32 :=
  let milliseconds := BitVec.ofNat 32 (tvSec * 1000 + tvNsec / 1000000)
  if tvNsec % 1000000 ≥ 500000 then milliseconds + 1 else milliseconds

/-- `CurrentTime`. -/
def currentTime : Thread (BitVec 32) :=
  .ask (.use .clockGettime) fun
    | some (.time none) => .done 0
    | some (.time (some (tvSec, tvNsec))) => .done (milliseconds tvSec tvNsec)
    | _ => .fault

/-- The difference that `ElapsedTime` returns. -/
def timeSince (startTime time : BitVec 32) : BitVec 32 :=
  if startTime ≤ time then time - startTime else (0xFFFFFFFF - startTime) + time + 1

/-- `ElapsedTime`. -/
def elapsedTime (startTime : BitVec 32) : Thread (BitVec 32) := do
  let time ← currentTime
  return timeSince startTime time

/-- `SerialSend`. The size is passed on in a byte. -/
def serialSend (data : List Byte) (dataSize : ℕ) : Thread ℤ :=
  .ask (.use (.write (data.take (dataSize % 256)))) fun
    | some (.written dataSent) => .done (Serial.serialSend dataSent dataSize)
    | _ => .fault

variable {n room : ℕ}

/-- `SendPacket`: the return value and the packet. -/
def sendPacket (packet : Block n) : Thread (ℤ × Block n) := do
  let dataLength := (packet.1.getD 2 0).toNat
  let sum := ((packet.1.take (3 + dataLength)).drop 1).foldl (· + ·) 0
  let packet ← .ofOption (packet.copy (3 + dataLength) [~~~sum + 1])
  serialLock
  let result ← serialSend packet.1 (dataLength + 4)
  if result ≠ (dataLength + 4 : ℕ) then
    serialUnlock
    return (ERROR_RESOURCE_WRITE, packet)
  return (SUCCESS, packet)

/-- `SerialReceive( pByte, pLimit-pByte )` and the two tests after it: an error code, or the
number of bytes stored. The size is passed on in a byte. -/
def serialReceive (startTime : BitVec 32) (pByte pLimit : ℕ) (packet : Block n) :
    Thread (Except ℤ ℕ × Block n) :=
  .ask (.use (.read ((pLimit - pByte) % 256))) fun
    | some (.received none) => do
        serialUnlock
        return (.error ERROR_RESOURCE_READ, packet)
    | some (.received (some data)) => do
        let packet ← .ofOption (packet.copy pByte data)
        let elapsed ← elapsedTime startTime
        if elapsed > 1000 then
          serialUnlock
          return (.error ERROR_RESOURCE_NOT_FND, packet)
        return (.ok data.length, packet)
    | _ => .fault

/-- The loops that receive the bytes from `pByte` up to `pLimit`, for a number of rounds. -/
def receiveLoop (startTime : BitVec 32) (pLimit : ℕ) :
    ℕ → ℕ → Block n → Thread (Except ℤ Unit × Block n)
  | 0, _, _ => .fault
  | rounds + 1, pByte, packet =>
      if pByte < pLimit then do
        match ← serialReceive startTime pByte pLimit packet with
        | (.error code, packet) => return (.error code, packet)
        | (.ok result, packet) => receiveLoop startTime pLimit rounds (pByte + result) packet
      else return (.ok (), packet)

/-- The loop that receives single bytes into `Start` until one is the start of a packet, for a
number of rounds. -/
def startLoop (startTime : BitVec 32) : ℕ → Block n → Thread (Except ℤ Unit × Block n)
  | 0, _ => .fault
  | rounds + 1, packet =>
      if packet.1.head? = some SOP then return (.ok (), packet)
      else do
        match ← serialReceive startTime 0 1 packet with
        | (.error code, packet) => return (.error code, packet)
        | (.ok _, packet) => startLoop startTime rounds packet

/-- `ReceivePacket`: the return value and the packet. -/
def receivePacket (rounds : ℕ) (packet : Block n) : Thread (ℤ × Block n) := do
  let packet ← .ofOption (packet.copy 0 [0])
  let startTime ← currentTime
  match ← startLoop startTime rounds packet with
  | (.error code, packet) => return (code, packet)
  | (.ok _, packet) =>
      match ← receiveLoop startTime 3 rounds 1 packet with
      | (.error code, packet) => return (code, packet)
      | (.ok _, packet) =>
          let dataLength := (packet.1.getD 2 0).toNat
          match ← receiveLoop startTime (3 + dataLength + 1) rounds 3 packet with
          | (.error code, packet) => return (code, packet)
          | (.ok _, packet) =>
              serialUnlock
              let sum ← .ofOption (checksum 1 (3 + dataLength) packet)
              if sum ≠ 0 then return (ERROR_RESOURCE_INVALID, packet)
              return (SUCCESS, packet)

/-- A call of `CallRoutine`, with what the stack holds at its packet. -/
structure RoutineCall (room : ℕ) where
  routine : Byte
  pParm8 : Option Byte
  pParm32 : Option (BitVec 32)
  packet : Block (PacketType.parms.size + room)

/-- `CallRoutine`. A loop that does not end in a number of rounds keeps its thread for ever. -/
def callRoutine (e : Endian) (rounds : ℕ) (c : RoutineCall room) : Thread RoutineResult := do
  let packet ← .ofOption (c.packet.copy 0 [SOP, c.routine, UInt8.ofNat sizeofDataParms])
  let packet ← .ofOption (storeParm 3 (c.pParm8.map fun parm8 => [parm8]) packet)
  let packet ← .ofOption
    (storeParm 4 (c.pParm32.map fun parm32 => bytesOf e (Swap32 e parm32)) packet)
  let (result, packet) ← sendPacket packet
  if result ≠ SUCCESS then return ⟨result, c.pParm8, c.pParm32⟩
  let (result, packet) ← receivePacket rounds packet
  if result ≠ SUCCESS then return ⟨ERROR_RESOURCE_NOT_FND, c.pParm8, c.pParm32⟩
  if packet.1.getD 1 0 ≠ c.routine then return ⟨ERROR_RESOURCE_INVALID, c.pParm8, c.pParm32⟩
  let parm32 := Swap32 e (wordOf e ((packet.1.drop 4).take 4))
  return ⟨SUCCESS, c.pParm8.map fun _ => packet.1.getD 3 0, c.pParm32.map fun _ => parm32⟩

end BcmUtils.SerialThreads
