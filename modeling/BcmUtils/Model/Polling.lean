import Mathlib.Data.Fin.VecNotation
import BcmUtils.Model.PowerManager

/-! # The task that polls the power manager

`get_poe_power_consume_and_line_status` and `saveResult` of `poe_tools.c`, the port maps of
`PowerManager.h`, and the loop and the signal handlers of `PoE.c`. -/

namespace BcmUtils.Polling

open CLib Serial

/-! ## Boards -/

/-- The products, one of which is defined. -/
inductive Board
  | SZG12M | HGM28 | HGM24GE4GF | HGM24GE4GF_P | HGM20 | HGM16GE4GF
  deriving DecidableEq, Repr

def Board.MAX_PORT_NUM : Board → ℕ
  | SZG12M | HGM28 | HGM24GE4GF | HGM24GE4GF_P => 24
  | HGM20 | HGM16GE4GF => 16

/-- `G_u8_PortMap`: `PORT_NUM1`, `PORT_NUM2` and so on. With 16 ports, the other initializers
are dropped. -/
def Board.G_u8_PortMap : (b : Board) → Fin b.MAX_PORT_NUM → Byte
  | SZG12M =>
      ![1, 3, 5, 7, 9, 11, 13, 15, 17, 19, 21, 23, 2, 4, 6, 8, 10, 12, 14, 16, 18, 20, 22, 24]
  | HGM28 | HGM24GE4GF | HGM24GE4GF_P =>
      ![2, 1, 4, 3, 6, 5, 8, 7, 10, 9, 12, 11, 14, 13, 16, 15, 18, 17, 20, 19, 22, 21, 24, 23]
  | HGM20 | HGM16GE4GF => ![2, 1, 4, 3, 6, 5, 8, 7, 10, 9, 12, 11, 14, 13, 16, 15]

/-- `st_PC_LS`. -/
structure StPcLs where
  type : Byte
  linkStatus : Byte
  powerConsumed : BitVec 32
  deriving DecidableEq, Repr

/-- `G_PowerLinkStatus`, with one more entry than there are ports. -/
abbrev Table (b : Board) := Fin (b.MAX_PORT_NUM + 1) → StPcLs

/-! ## One round -/

/-- A request, with what the stack holds when the getter is called and what the line does. -/
structure Request (room : ℕ) where
  stack : Stack room
  exchange : Exchange

/-- The two requests about a port, and what the variable `status` holds before them. -/
structure PortRequests (room : ℕ) where
  powerConsumed : Request room
  portStatus : Request room
  status : BitVec 8

/-- What the line and the file system do in a round: the bytes that get into the file, or `none`
if it cannot be opened. -/
structure Round (room : ℕ) where
  total : Request room
  powerConsumed : BitVec 32
  ports : ℕ → PortRequests room
  saved : Option ℕ

/-- The variables of a round. -/
structure Poll (b : Board) where
  table : Table b
  cnt : Byte
  powerConsumed : BitVec 32
  line : Line

variable {b : Board} {room w : ℕ} (e : Endian)

/-- `(value==-1?0:value)` -/
def orZero (value : BitVec w) : BitVec w := if value = -1 then 0 else value

/-- `if(getter(...)==SUCCESS){ ... cnt++; }` on the variable that the getter stores into. -/
def Poll.ask (getter : BitVec w → Line → Option (ℤ × BitVec w × Line)) (out : BitVec w)
    (store : BitVec w → Table b → Table b) (s : Poll b) : Option (BitVec w × Poll b) := do
  let (result, out, line) ← getter out s.line
  if result = SUCCESS then
    return (out, { s with table := store out s.table, cnt := s.cnt + 1, line })
  return (out, { s with line })

/-- The request for the power that all ports consume. -/
def Poll.askTotal (q : Request room) (s : Poll b) : Option (Poll b) := do
  let last := Fin.last b.MAX_PORT_NUM
  let (powerConsumed, s) ← s.ask (getPoeTotalPowerConsumed e q.stack q.exchange) s.powerConsumed
    fun powerConsumed table => Function.update table last { table last with
      type := UInt8.ofNat b.MAX_PORT_NUM
      powerConsumed := orZero powerConsumed }
  return { s with powerConsumed }

/-- One pass of the loop over the ports. -/
def Poll.askPort (ports : ℕ → PortRequests room) (s : Poll b) (index : Fin b.MAX_PORT_NUM) :
    Option (Poll b) := do
  let q := ports index
  let port := b.G_u8_PortMap index
  let i := index.castSucc
  let (powerConsumed, s) ←
    s.ask (getPoePortPowerConsumed e q.powerConsumed.stack port q.powerConsumed.exchange)
      s.powerConsumed
      fun powerConsumed table => Function.update table i { table i with
        type := UInt8.ofNat index
        powerConsumed := orZero powerConsumed }
  let (_, s) ← s.ask (getPoePortStatus e q.portStatus.stack port q.portStatus.exchange) q.status
    fun status table => Function.update table i { table i with
      linkStatus := UInt8.ofBitVec (orZero status) }
  return { s with powerConsumed }

/-- The bytes of the table, in which a record has two bytes of padding. -/
def image (table : Table b) : List Byte :=
  (List.ofFn table).flatMap fun r => [r.type, r.linkStatus, 0, 0] ++ bytesOf e r.powerConsumed

/-- The task: `G_PowerLinkStatus`, `G_CheckPoe`, the file `PowerLinkStatus`, if there is one, and
the serial line. -/
structure Task (b : Board) where
  table : Table b
  checkPoe : Bool
  file : Option (List Byte)
  line : Line

/-- `saveResult`. -/
def saveResult (saved : Option ℕ) (t : Task b) : Task b :=
  match saved with
  | none => t
  | some k => { t with file := some ((image e t.table).take k) }

/-- `get_poe_power_consume_and_line_status`. -/
def getPoePowerConsumeAndLineStatus (r : Round room) (t : Task b) : Option (Task b) := do
  let s : Poll b := ⟨t.table, 0, r.powerConsumed, t.line⟩
  let s ← s.askTotal e r.total
  let s ← (List.finRange b.MAX_PORT_NUM).foldlM (Poll.askPort e r.ports) { s with powerConsumed := 0 }
  let t := { t with table := s.table, line := s.line }
  if s.cnt.toNat = 2 * b.MAX_PORT_NUM + 1 then return saveResult e r.saved t
  return t

/-! ## The task -/

/-- What happens to the task: one of its signals, or the end of the delay, with the round that may
follow. A signal in a round sets the flag for the next one. -/
inductive Event (room : ℕ)
  | pauseSig | continueSig
  | awake (r : Round room)

/-- The handlers `HandlePauseSig` and `HandleContinueSig`, and the loop of `main`. -/
def Task.step (t : Task b) : Event room → Option (Task b)
  | .pauseSig => some { t with checkPoe := false }
  | .continueSig => some { t with checkPoe := true }
  | .awake r => if t.checkPoe then getPoePowerConsumeAndLineStatus e r t else some t

/-- The task before its loop. -/
def Task.start (b : Board) (file : Option (List Byte)) (line : Line) : Task b :=
  ⟨fun _ => ⟨0, 0, 0⟩, false, file, line⟩

end BcmUtils.Polling
