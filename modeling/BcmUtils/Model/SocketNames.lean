import BcmUtils.Model.Itoa

/-! # The names of socket files

`get_sk_file_name` of `sk_define.c`. The path is given with the bytes that follow it in memory. -/

namespace BcmUtils.IpcNetwork

open CLib

/-- The result of `getpid` in an `INT16`, promoted to `int`. -/
def pidArg (pid : BitVec 32) : BitVec 32 := (pid.setWidth 16).signExtend 32

/-- `my_itoa(pid, pidstr); memcpy(&sk_path[strlen(sk_path)], pidstr, 6);` -/
def appendPid (pid : BitVec 32) (pidstr : Block 10) (skPath : Block 100) : Option (Block 100) := do
  let (_, pidstr) ← myItoa (pidArg pid) pidstr.1
  let s ← readStr 0 skPath.1
  skPath.copy s.length (pidstr.take 6)

/-- `get_sk_file_name`, with what the stack holds at `pidstr`: the array that it returns, if no
access leaves one. -/
def getSkFileName (path : List Byte) (flgPid : Bool) (pid : BitVec 32) (pidstr : Block 10) :
    Option (Block 100) := do
  if path.length < 100 - 11 then none
  else
    let skPath ← (Block.zeroed 100).copy 0 (path.take (100 - 11))
    let skPath ← if flgPid then appendPid pid pidstr skPath else some skPath
    let s ← readStr 0 skPath.1
    skPath.copy s.length (text ".sock" ++ [0])

/-- The name of the file. -/
def skFileName (path : List Byte) (flgPid : Bool) (pid : BitVec 32) (pidstr : Block 10) :
    Option CStr := do
  let skPath ← getSkFileName path flgPid pid pidstr
  readStr 0 skPath.1

end BcmUtils.IpcNetwork
