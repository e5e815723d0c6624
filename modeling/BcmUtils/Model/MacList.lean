import BcmUtils.Foundation.Scan
import BcmUtils.Foundation.Stores

/-! # The table of MAC addresses

`cli_get_l2_mac_list_new` of `mac.c`, which reads the dump that the driver leaves in a file. -/

namespace BcmUtils

open CLib

/-- The table `phy2port` of `bcmutils.h`. -/
def phy2port : List ℤ :=
  (List.range 29).map (fun (n : ℕ) => (n : ℤ)) ++ List.replicate 35 0

/-- `arl_table`, without its list pointer. -/
structure ArlTable where
  macAddress : Block 6
  port : BitVec 32
  vlan : BitVec 32
  type : BitVec 32
  deriving DecidableEq

/-- The local variables that the conversions set. `slack` bytes of the frame behind `mac` are free;
what else the frame holds there must not be written. -/
structure MacFrame (slack : ℕ) where
  mac : Block (6 + slack)
  vid : BitVec 32
  port : BitVec 32
  tgid : BitVec 32
  mtype : BitVec 32

/-- The string at an offset of `line`, which is zero behind what `fgets` stored. -/
def lineAt (off : ℕ) (line : List Byte) : CStr := (line.drop off).takeWhile (· ≠ 0)

/-- `"%02x-%02x"`. -/
def macFormat : List Directive := [.hex 2, .char (chr '-'), .hex 2]

/-- `"%d %d %d %d"`. -/
def vidFormat : List Directive :=
  [.int, .blank, .int, .blank, .int, .blank, .int]

/-- The number that a conversion stored, or the old one. -/
def scannedWord (vs : List Scanned) (k : ℕ) (old : BitVec 32) : BitVec 32 :=
  match vs[k]? with
  | some (.word w) => w
  | _ => old

/-- The conversions of one line. `%x` stores an `unsigned int` through each pointer into `mac`. -/
def scanMacLine {slack : ℕ} (e : Endian) (line : List Byte) (f : MacFrame slack) :
    Option (MacFrame slack) := do
  let mac ← f.mac.copyAll (scanStores e [0, 1] (sscanf macFormat (lineAt 0 line)))
  let mac ← mac.copyAll (scanStores e [2, 3] (sscanf macFormat (lineAt 6 line)))
  let mac ← mac.copyAll (scanStores e [4, 5] (sscanf macFormat (lineAt 12 line)))
  let vs := sscanf vidFormat (lineAt 18 line)
  return { mac
           vid := scannedWord vs 0 f.vid
           port := scannedWord vs 1 f.port
           tgid := scannedWord vs 2 f.tgid
           mtype := scannedWord vs 3 f.mtype }

/-- The stores into the entry. -/
def ArlTable.fill {slack : ℕ} (f : MacFrame slack) (port : ℤ) (t : ArlTable) : ArlTable :=
  { t with
    macAddress := ⟨f.mac.1.take 6, by rw [List.length_take, f.mac.2]; omega⟩
    port := BitVec.ofInt 32 port
    type := f.mtype }

/-- `phy2port[port]`. -/
def mappedPort (port : BitVec 32) : Option ℤ :=
  if 0 ≤ port.toInt then phy2port[port.toInt.toNat]? else none

/-- The loop of `cli_get_l2_mac_list_new`: the count and the table then. -/
def macListLoop {slack : ℕ} (e : Endian) : List (List Byte) → MacFrame slack → ℕ →
    List ArlTable → Option (ℕ × List ArlTable)
  | [], _, count, table => some (count, table)
  | line :: lines, f, count, table => do
      let f ← scanMacLine e line f
      let port ← mappedPort f.port
      if port ≠ 0 ∧ port ≠ -1 then
        let entry ← table[count]?
        let table := table.set count (entry.fill f port)
        -- the entry is filled before the limit is checked
        if count > 8190 then some (count, table)
        else macListLoop e lines f (count + 1) table
      else macListLoop e lines f count table

/-- `cli_get_l2_mac_list_new`: the returned number and the table then. `opened` tells whether the
device could be opened, and `dump` is what the file holds that the driver writes. -/
def cliGetL2MacListNew {slack : ℕ} (e : Endian) (opened : Bool) (dump : Option (List Byte))
    (f : MacFrame slack) (table : List ArlTable) : Option (ℤ × List ArlTable) :=
  if opened then
    match dump with
    | none => some (0, table)
    | some file => do
        let (count, table) ← macListLoop e (fileLines 127 file) f 0 table
        return (count, table)
  else some (-1, table)

end BcmUtils
