import BcmUtils.Foundation.Files

/-! # Status files and pid files

`set_poe_status`, `get_poe_status_from_file`, `get_alarm_status_from_file` and `already_running`
of `poe/poe_tools.c`, system call by system call, so that other processes can come in between. -/

namespace BcmUtils.StatusFiles

open CLib

/-- `POESTATUSFILE`. -/
def POESTATUSFILE : CStr := text "/tmp/poe_status"

/-- `ALARMSTATUSFILE`. -/
def ALARMSTATUSFILE : CStr := text "/tmp/alarm_status"

abbrev SystemCalls (β : Type) := Proc (FileCall CStr) Answer β

def call (q : FileCall CStr) : SystemCalls Answer := .ask q .done

/-- `lockfileWR`. -/
def lockfileWR (fd : ℕ) : SystemCalls Answer := call (.setlk fd (some .write))

/-- `lockfileRD`. -/
def lockfileRD (fd : ℕ) : SystemCalls Answer := call (.setlk fd (some .read))

/-- `unlockfile`. -/
def unlockfile (fd : ℕ) : SystemCalls Answer := call (.setlk fd none)

/-- `set_poe_status`. -/
def setPoeStatus (poeStatus : CStr) : SystemCalls ℤ := do
  let opened ← call (.openFile POESTATUSFILE .writeOnly true)
  if opened.ret < 0 then return -1
  let fd := opened.ret.toNat
  let locked ← lockfileWR fd
  if locked.ret = -1 then
    if locked.errno = EACCES ∨ locked.errno = EAGAIN then
      let _ ← call (.close fd)
      return -1
    return -1
  let _ ← call (.ftruncate fd 0)
  let _ ← call (.write fd (poeStatus ++ [0]))
  let _ ← unlockfile fd
  let _ ← call (.close fd)
  return 0

/-- The body of the two functions that read a status file: what they return, and what `*data`
points at when it has been set. `off_t` is as wide as `int`. -/
def getStatusFromFile (file : CStr) : SystemCalls (ℤ × Option (List Byte)) := do
  let opened ← call (.openFile file .readOnly false)
  if opened.ret < 0 then return (-1, none)
  let fd := opened.ret.toNat
  let locked ← lockfileRD fd
  if locked.ret = -1 then
    if locked.errno = EACCES ∨ locked.errno = EAGAIN then
      let _ ← call (.close fd)
      return (-1, none)
    return (-1, none)
  let total ← call (.lseekEnd fd)
  let _ ← call (.lseekSet fd 0)
  let data ← call (.malloc total.ret.toNat)
  if data.ret = 0 then
    let _ ← unlockfile fd
    return (-1, none)
  let result ← call (.read fd total.ret.toNat)
  if result.ret < 0 then
    let _ ← unlockfile fd
    return (-1, none)
  let _ ← unlockfile fd
  let _ ← call (.close fd)
  return (total.ret, some result.data)

/-- `get_poe_status_from_file`. -/
def getPoeStatusFromFile := getStatusFromFile POESTATUSFILE

/-- `get_alarm_status_from_file`. -/
def getAlarmStatusFromFile := getStatusFromFile ALARMSTATUSFILE

/-- `already_running` in the process with a number. A process that calls `exit` does nothing
more. -/
def alreadyRunning (pid : ℕ) (filename : CStr) : SystemCalls ℤ := do
  let opened ← call (.openFile filename .readWrite true)
  if opened.ret < 0 then
    .ask (.exit 1) fun _ => .fault
  else
    let fd := opened.ret.toNat
    let locked ← lockfileWR fd
    if locked.ret = -1 then
      if locked.errno = EACCES ∨ locked.errno = EAGAIN then
        let _ ← call (.close fd)
        return 1
      else .ask (.exit 1) fun _ => .fault
    else
      let _ ← call (.ftruncate fd 0)
      let buf ← Proc.ofOption (store 16 (printNat pid))
      let _ ← call (.write fd (buf ++ [0]))
      return 0

/-! ## Calls of many processes -/

/-- The calls that processes make on the status files. -/
inductive StatusCall
  | setPoeStatus (poeStatus : CStr)
  | getPoeStatusFromFile
  | getAlarmStatusFromFile
  deriving DecidableEq, Repr

/-- What a call does, and what it returns and stores. -/
def StatusCall.body : StatusCall → SystemCalls (ℤ × Option (List Byte))
  | .setPoeStatus poeStatus => do
      let result ← StatusFiles.setPoeStatus poeStatus
      return (result, none)
  | .getPoeStatusFromFile => StatusFiles.getPoeStatusFromFile
  | .getAlarmStatusFromFile => StatusFiles.getAlarmStatusFromFile

end BcmUtils.StatusFiles
