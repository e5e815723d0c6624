import BcmUtils.Foundation.CString
import BcmUtils.Foundation.Sockets

/-! # Files and devices

`get_poe_status_from_file` of `poe/poe_tools.c` and `get_port_stp_status` of `stp.c`, over
the outcomes of the system calls they make. -/

namespace BcmUtils

open CLib

/-- The errors that the code tells apart. -/
inductive Errno
  | EACCES | EAGAIN | other
  deriving DecidableEq, Repr

/-- The outcomes of the system calls of `get_poe_status_from_file`. -/
structure PoeStatusCalls where
  fd : Option ℕ
  /-- Why `lockfileRD` returns `-1`, if it does. -/
  lockError : Option Errno
  /-- What the first call of `lseek` returns. -/
  lseek : ℤ
  mallocOk : Bool
  /-- What `read` stores, or `none` when it fails. -/
  read : Option (List Byte)

/-- `get_poe_status_from_file`: the return value, what `*data` points to, and what happens to
the descriptors. -/
def getPoeStatusFromFile (calls : PoeStatusCalls) : ℤ × Option (List Byte) × List FdEvent :=
  match calls.fd with
  | none => (-1, none, [])
  | some fd =>
      match calls.lockError with
      | some errno =>
          if errno = .EACCES ∨ errno = .EAGAIN then (-1, none, [.opened fd, .closed fd])
          else (-1, none, [.opened fd])
      | none =>
          let total := calls.lseek
          if calls.mallocOk then
            match calls.read with
            | none => (-1, none, [.opened fd])
            | some data => (total, some data, [.opened fd, .closed fd])
          else (-1, none, [.opened fd])

def BCM_PORT_STP_BLOCK : BitVec 32 := 1
def BCM_PORT_STP_FORWARD : BitVec 32 := 4

/-- The outcomes of the system calls of `get_port_stp_status`. -/
structure PortStpCalls where
  fd : Option ℕ
  /-- What `stp` contains after the call of `ioctl`. -/
  stp : BitVec 32

/-- `get_port_stp_status`: the return value and what happens to the descriptors. -/
def getPortStpStatus (calls : PortStpCalls) (ring : CStr) : ℤ × List FdEvent :=
  if ring.head? ≠ some (chr '1') then (0, [])
  else
    match calls.fd with
    | none => (-1, [])
    | some skfd =>
        let res :=
          if BCM_PORT_STP_FORWARD = calls.stp then 3
          else if BCM_PORT_STP_BLOCK = calls.stp then 2
          else 1
        -- The function closes the device before it looks at `stp`, and once more behind.
        (res, [.opened skfd, .closed skfd, .closed skfd])

end BcmUtils
