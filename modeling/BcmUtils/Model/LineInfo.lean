import BcmUtils.Foundation.Tokens
import BcmUtils.Model.Nvram

/-! # Settings of the console and the vty lines

`set_aaa_line_info` and `get_aaa_line_info` of `aaa.c`. -/

namespace BcmUtils

open CLib

def MAX_VTY : ℕ := 16
def MAX_ARGV_LEN : ℕ := 64

/-- The names of the fifteen command levels. -/
abbrev Commands := { command : List CStr // command.length = 15 }

/-- `struct aaa_author`. -/
structure AaaAuthor where
  exec : CStr
  command : Commands
  deriving DecidableEq

/-- `struct aaa_acct`. -/
structure AaaAcct where
  exec : CStr
  connect : CStr
  command : Commands
  deriving DecidableEq

/-- `struct line_parameter`. -/
structure LineParameter where
  absoluteTimeout : BitVec 32
  executeTimeout : BitVec 32
  deriving DecidableEq

/-- `struct aaa_line_entry`. -/
structure AaaLineEntry where
  id : BitVec 32
  login : CStr
  author : AaaAuthor
  acct : AaaAcct
  param : LineParameter
  deriving DecidableEq

/-- `struct aaa_line_info`. -/
structure AaaLineInfo where
  console : AaaLineEntry
  vty : { vty : List AaaLineEntry // vty.length = MAX_VTY }
  deriving DecidableEq

/-! ## Storing the settings -/

/-- `"%s,"`. -/
def nameText (name : CStr) : CStr := name ++ [chr ',']

/-- `"%d|%s,%s,...,%s,%d,%d;"` with 34 names. -/
def lineText (l : AaaLineEntry) : CStr :=
  printInt l.id.toInt ++ chr '|' :: (nameText l.login ++ (nameText l.author.exec ++
    (l.author.command.1.flatMap nameText ++ (nameText l.acct.exec ++ (nameText l.acct.connect ++
      (l.acct.command.1.flatMap nameText ++ (printInt l.param.absoluteTimeout.toInt ++ chr ',' ::
        (printInt l.param.executeTimeout.toInt ++ [chr ';']))))))))

/-- `set_aaa_line_info`, when `nvram_set` stores the string and `snprintf` of `buf` into itself
appends. -/
def setAaaLineInfo (info : AaaLineInfo) (nv : Nvram) : Option (ℤ × Nvram) := do
  let buf := snprintf 4096 (text "con@" ++ lineText info.console)
  let buf ← strcat 4096 buf (text "vty@")
  let buf := info.vty.1.foldl (fun buf l => snprintf 4096 (buf ++ lineText l)) buf
  if buf.length > 3072 then some (-1, nv)
  else some (0, Function.update nv (text "aaa_line_info") buf)

/-! ## Reading the settings -/

/-- A line of a struct of zero bytes. -/
def zeroLine : AaaLineEntry :=
  { id := 0
    login := []
    author := { exec := [], command := ⟨List.replicate 15 [], List.length_replicate⟩ }
    acct := { exec := [], connect := [], command := ⟨List.replicate 15 [], List.length_replicate⟩ }
    param := { absoluteTimeout := 0, executeTimeout := 0 } }

/-- A line with its default timeouts. -/
def defaultLine (id : ℕ) : AaaLineEntry :=
  { zeroLine with
    id := BitVec.ofNat 32 id
    param := { absoluteTimeout := 30, executeTimeout := 300 } }

/-- The struct for an empty string. -/
def defaultLineInfo : AaaLineInfo :=
  { console := defaultLine 0
    vty := ⟨(List.range MAX_VTY).map defaultLine, by simp⟩ }

/-- `strcpy(name, strsep(&p, ","));` -/
def copyName (p : Option CStr) : Option (CStr × Option CStr) := do
  let (name, p) ← strsep (chr ',') p
  let name ← store MAX_ARGV_LEN name
  return (name, p)

/-- `atoi(strsep(&p, c))`. -/
def readNumber (c : Byte) (p : Option CStr) : Option (BitVec 32 × Option CStr) := do
  let (s, p) ← strsep c p
  return (BitVec.ofInt 32 (atoi s), p)

/-- The reads of one line. -/
def readLine (p : Option CStr) : Option (AaaLineEntry × Option CStr) := do
  let (id, p) ← readNumber (chr '|') p
  let (login, p) ← copyName p
  let (authorExec, p) ← copyName p
  let (authorCommand, p) ← readArray copyName 15 p
  let (acctExec, p) ← copyName p
  let (acctConnect, p) ← copyName p
  let (acctCommand, p) ← readArray copyName 15 p
  let (absoluteTimeout, p) ← readNumber (chr ',') p
  let (executeTimeout, p) ← readNumber (chr ';') p
  let line : AaaLineEntry :=
    { id, login
      author := { exec := authorExec, command := authorCommand }
      acct := { exec := acctExec, connect := acctConnect, command := acctCommand }
      param := { absoluteTimeout, executeTimeout } }
  return (line, p)

/-- `get_aaa_line_info`, where `allocated` tells whether `malloc` succeeds. A null pointer is
returned as `none`. -/
def getAaaLineInfo (allocated : Bool) (nv : Nvram) : Option (Option AaaLineInfo) :=
  if allocated then
    match nv (text "aaa_line_info") with
    | [] => some (some defaultLineInfo)
    | b :: s =>
        match strstr (text "con@") (b :: s) with
        | none => some none
        | some console => do
            let (_, console) ← strsep (chr '@') (some console)
            let (console, p) ← readLine console
            let p ← p
            match strstr (text "vty@") p with
            | none => some none
            | some vty => do
                let (_, vty) ← strsep (chr '@') (some vty)
                let (vty, _) ← readArray readLine MAX_VTY vty
                return some { console, vty }
  else some none

end BcmUtils
