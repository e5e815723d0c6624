import BcmUtils.Foundation.CString

/-! # Finding a process by its name

`find_pid_by_name` of `poe_tools.c` over the entries of `/proc`, and the signal handlers of
`PoE.c` that use it. -/

namespace BcmUtils

open CLib

/-- An entry of `/proc`, and the path that `readlink` finds behind its `exe`, if there is one. -/
structure ProcEntry where
  dName : CStr
  path : Option CStr

/-- `strrchr`: the suffix at the last occurrence of `c`, or the null pointer. -/
def strrchr (c : Byte) : CStr → Option CStr
  | [] => none
  | b :: s =>
      match strrchr c s with
      | some q => some q
      | none => if b = c then some (b :: s) else none

/-- `!strncmp(ProcName, s, pnlen) && (s[pnlen] == ' ' || s[pnlen] == '\0')`, for a text `s` that is
not shorter than the name. Its terminator stands behind its last byte. -/
def nameMatches (procName s : CStr) : Bool :=
  s.take procName.length = procName &&
    (s[procName.length]? = some (chr ' ') || s.length = procName.length)

/-- The body of the loop over the entries: the pid that it stores, if it does. -/
def procEntryPid (procName : CStr) (d : ProcEntry) : Option ℤ :=
  let pid := atoi d.dName
  if pid = 0 then none
  else do
    let path ← d.path
    let s ← strrchr (chr '/') path
    let s ← incr s
    if s.length < procName.length then none
    else if nameMatches procName s then some pid
    else none

/-- The loop over the entries, which stores the pids in `int foundpid[128]`. -/
def walkProc (procName : CStr) : List ProcEntry → List ℤ → Option (List ℤ)
  | [], foundpid => some foundpid
  | d :: ds, foundpid =>
      match procEntryPid procName d with
      | none => walkProc procName ds foundpid
      | some pid => if foundpid.length < 128 then walkProc procName ds (foundpid ++ [pid]) else none

/-- `for(j=0; j<i; j++) *pidFound += foundpid[j]*((int)pow(10,(i-1)));` from `pidFound` on. A number
that is no `int` makes the behaviour undefined. -/
def addPids (power : ℤ) : List ℤ → ℤ → Option ℤ
  | [], pidFound => some pidFound
  | pid :: pids, pidFound =>
      if IsInt power ∧ IsInt (pid * power) ∧ IsInt (pidFound + pid * power) then
        addPids power pids (pidFound + pid * power)
      else none

/-- `find_pid_by_name`: the returned value, and what `pidFound` points at then. Without entries
`opendir` has failed. -/
def findPidByName (procName : CStr) (proc : Option (List ProcEntry)) (pidFound : ℤ) :
    Option (ℤ × ℤ) :=
  match proc with
  | none => some (-1, pidFound)
  | some entries => do
      let foundpid ← walkProc procName entries []
      -- `foundpid[i] = 0;`
      if foundpid.length < 128 then
        let foundpid := foundpid.takeWhile (· ≠ 0)
        let pidFound ← addPids (10 ^ (foundpid.length - 1)) foundpid 0
        return (0, pidFound)
      else none

/-- The signals that the handlers send. -/
inductive PoeSignal
  | pausePoeEcho
  | continuePoeEcho
  deriving DecidableEq

/-- The body of a signal handler of `PoE.c`: the new `G_CheckPoe`, and the arguments of `kill`, if
it is called. The local `pid` begins with any value. -/
def poeSignalHandler (checkPoe : Bool) (signo : PoeSignal) (proc : Option (List ProcEntry))
    (pid : ℤ) : Option (Bool × Option (ℤ × PoeSignal)) := do
  let (ret, pid) ← findPidByName (text "sendSig") proc pid
  return (checkPoe, if ret = 0 then some (pid, signo) else none)

/-- `HandlePauseSig`. -/
def handlePauseSig : Option (List ProcEntry) → ℤ → Option (Bool × Option (ℤ × PoeSignal)) :=
  poeSignalHandler false .pausePoeEcho

/-- `HandleContinueSig`. -/
def handleContinueSig : Option (List ProcEntry) → ℤ → Option (Bool × Option (ℤ × PoeSignal)) :=
  poeSignalHandler true .continuePoeEcho

end BcmUtils
