import BcmUtils.Foundation.Sockets
import BcmUtils.Foundation.Words
import BcmUtils.Model.Nvram

/-! # Requests to the configuration server

`socket_read`, `scfgmgr_connect` and the six requests of `socket_tools.c`, over the outcomes
of the system calls they make and the stream that the server answers with. The words of a
header are little-endian on the wire. -/

namespace BcmUtils.Socket

open CLib

def SCM_MAGIC : BitVec 32 := 0x53634d4d

def SCFG_ERR : BitVec 32 := -1
def SCFG_GETALL : BitVec 32 := 1
def SCFG_GET : BitVec 32 := 2
def SCFG_SET : BitVec 32 := 3
def SCFG_CONSOLE : BitVec 32 := 7
def SCFG_RECEIVE : BitVec 32 := 8

/-- `scfgmgr_header`. -/
structure ScfgmgrHeader where
  magic : BitVec 32
  cmd : BitVec 32
  len : BitVec 32
  deriving DecidableEq, Repr

/-- The header in a block of memory. -/
def ScfgmgrHeader.ofBytes (mem : Block 12) : ScfgmgrHeader where
  magic := wordOf .little (mem.1.take 4)
  cmd := wordOf .little ((mem.1.drop 4).take 4)
  len := wordOf .little ((mem.1.drop 8).take 4)

/-- The header on the wire. -/
def ScfgmgrHeader.toBytes (h : ScfgmgrHeader) : List Byte :=
  bytesOf .little h.magic ++ (bytesOf .little h.cmd ++ bytesOf .little h.len)

/-- The outcomes of the system calls of one request, but for the reads. -/
structure ScfgmgrCalls where
  socket : Option ℕ
  connectOk : Bool
  writeHeaderOk : Bool
  writeDataOk : Bool
  headerMallocOk : Bool
  dataMallocOk : Bool
  /-- What the block allocated for the header contains. -/
  junk : Block 12

/-- Why a call does not return: it stores through a null pointer or behind the end of an
array, or reads the end of a stream for ever. -/
inductive Fault
  | nullStore | overrun | blocked
  deriving DecidableEq, Repr

/-- The loop of `socket_read`, with the bytes stored so far in a block of `len` bytes. Each
round asks for `len` bytes again; `none` stands for a failed read. -/
def readPayload (len : ℕ) (stored : List Byte) (c : Conn) : Except Fault (Option (List Byte)) :=
  if _ : stored.length < len then
    if _hend : c.stream = [] ∧ c.chunks = [] then .error .blocked
    else
      match _hread : c.read len with
      | (none, _) => .ok none
      | (some bs, next) =>
          if len < stored.length + bs.length then .error .overrun
          else readPayload len (stored ++ bs) next
  else .ok (some stored)
termination_by c.remaining
decreasing_by
  have hlt := Conn.remaining_read_lt (n := len) (by omega) _hend
  rwa [_hread] at hlt

/-- `socket_read`: the header and the payload, or `none` for `-1`. `dataNull` tells whether
`data` is the null pointer. -/
def socketRead (calls : ScfgmgrCalls) (dataNull : Bool) (c : Conn) :
    Except Fault (Option (ScfgmgrHeader × Option (List Byte))) :=
  if calls.headerMallocOk then
    match c.read 12 with
    | (none, _) => .ok none
    | (some bs, c) =>
        let header := ScfgmgrHeader.ofBytes (calls.junk.overlay bs)
        if header.magic ≠ SCM_MAGIC then .ok none
        else if 0 < header.len.toNat then
          if dataNull then .error .nullStore
          else if calls.dataMallocOk then do
            let data ← readPayload header.len.toNat [] c
            return data.map fun data => (header, some data)
          else .ok none
        else .ok (some (header, none))
  else .ok none

/-- `socket_write`: the data follow the header if there are any. -/
def socketWrite (calls : ScfgmgrCalls) (header : ScfgmgrHeader) : Bool :=
  calls.writeHeaderOk && (header.len.toNat = 0 || calls.writeDataOk)

/-- `scfgmgr_connect`, with what happens to the descriptors. The server answers the header
and the data it receives with a stream. -/
def scfgmgrConnect (calls : ScfgmgrCalls) (server : ScfgmgrHeader → CStr → Conn)
    (shd : ScfgmgrHeader) (sdata : CStr) (dataNull : Bool) :
    Except Fault (Option (ScfgmgrHeader × Option (List Byte)) × List FdEvent) :=
  match calls.socket with
  | none => .ok (none, [])
  | some sockfd =>
      if calls.connectOk && socketWrite calls shd then do
        match ← socketRead calls dataNull (server shd sdata) with
        | none => return (none, [.opened sockfd])
        | some reply => return (some reply, [.opened sockfd, .closed sockfd])
      else .ok (none, [.opened sockfd])

/-- What the six requests do: the return value and the payload stored in `*rdata`. They
differ in the header, the data, and the value of `i`. -/
def scfgmgrRequest (calls : ScfgmgrCalls) (server : ScfgmgrHeader → CStr → Conn)
    (shd : ScfgmgrHeader) (sdata : CStr) (dataNull : Bool) (i : ScfgmgrHeader → BitVec 32) :
    Except Fault (ℤ × Option (List Byte)) := do
  let (reply, _) ← scfgmgrConnect calls server shd sdata dataNull
  match reply with
  | none => return (-1, none)
  | some (rhd, rdata) => return (if i rhd = SCFG_ERR then -1 else 0, rdata)

section

variable (calls : ScfgmgrCalls) (server : ScfgmgrHeader → CStr → Conn)

/-- `scfgmgr_cmd`. -/
def scfgmgrCmd (cmd : BitVec 32) (rdataNull : Bool) : Except Fault (ℤ × Option (List Byte)) :=
  scfgmgrRequest calls server ⟨SCM_MAGIC, cmd, 0⟩ [] rdataNull (·.cmd)

/-- `scfgmgr_set`. -/
def scfgmgrSet (name data : CStr) : Except Fault (ℤ × Option (List Byte)) :=
  match setMessage name data with
  | none => .error .overrun
  | some tmp =>
      scfgmgrRequest calls server ⟨SCM_MAGIC, SCFG_SET, BitVec.ofNat 32 (tmp.length + 1)⟩ tmp true
        (·.cmd)

/-- `scfgmgr_sendfile`. -/
def scfgmgrSendfile (data : CStr) (len : BitVec 32) : Except Fault (ℤ × Option (List Byte)) :=
  scfgmgrRequest calls server ⟨SCM_MAGIC, SCFG_RECEIVE, len⟩ data true (·.cmd)

/-- `scfgmgr_getall`, where `i` stays zero. -/
def scfgmgrGetall (rdataNull : Bool) : Except Fault (ℤ × Option (List Byte)) :=
  scfgmgrRequest calls server ⟨SCM_MAGIC, SCFG_GETALL, 0⟩ [] rdataNull fun _ => 0

/-- `scfgmgr_get`, where `i` stays zero. -/
def scfgmgrGet (data : CStr) (rdataNull : Bool) : Except Fault (ℤ × Option (List Byte)) :=
  scfgmgrRequest calls server ⟨SCM_MAGIC, SCFG_GET, BitVec.ofNat 32 (data.length + 1)⟩ data
    rdataNull fun _ => 0

/-- `scfgmgr_console`, where `i` stays zero. -/
def scfgmgrConsole (data : CStr) (rdataNull : Bool) : Except Fault (ℤ × Option (List Byte)) :=
  scfgmgrRequest calls server ⟨SCM_MAGIC, SCFG_CONSOLE, BitVec.ofNat 32 (data.length + 1)⟩ data
    rdataNull fun _ => 0

end

end BcmUtils.Socket
