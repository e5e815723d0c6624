import BcmUtils.Foundation.Stores
import BcmUtils.Foundation.Words
import BcmUtils.Model.VlanForward

/-! # Tables of users and trunk groups

The branches `CLI_SNMP_USER`, `CLI_ACCESS_USER` and `CLI_TRUNK_LIST` of
`cli_nvram_conf_get` and `cli_nvram_conf_set`. The structs of a table lie one behind the other
in memory, and a text is copied to the start of its field without its terminator. -/

namespace BcmUtils

open CLib

/-- The struct of a table: its count, and the memory of its `slots` records of `size` bytes. -/
structure UserTable (slots size : ℕ) where
  count : BitVec 32
  memory : Block (slots * size)

/-- The loop over the stored records from slot `i` on. The body gives the stores into the slot;
`counted` tells from the memory after them whether the record counts. -/
def fillTable {slots size : ℕ} (body : CStr → CStr → ℕ → Option (List (ℕ × List Byte)))
    (counted : ℕ → List Byte → Bool) :
    List (CStr × CStr) → ℕ → UserTable slots size → Option (UserTable slots size)
  | [], _, t => some t
  | (p, p3) :: rest, i, t => do
      let stores ← body p p3 (i * size)
      let memory ← t.memory.copyAll stores
      let count := if counted (i * size) memory.1 then t.count + 1 else t.count
      fillTable body counted rest (i + 1) ⟨count, memory⟩

/-- `p1 = strchr(p, c); ...; p1++; p = p1;`: the text before the next `c`, and the string
behind it. -/
def nextField (c : Byte) (p : CStr) : Option (CStr × CStr) := do
  let p1 ← strchr c p
  let field ← between p p1
  let p1 ← incr p1
  return (field, p1)

theorem nextField_append {c : Byte} {s : CStr} (h : c ∉ s) (t : CStr) :
    nextField c (s ++ c :: t) = some (s, t) := by
  simp [nextField, strchr_append_cons h]

/-! ## SNMP users -/

def MAX_SNMP_USER : ℕ := 5

/-- `sizeof(cli_snmp_user_info)`. -/
def sizeofCliSnmpUserInfo : ℕ := 4 + 36 + 8 + 36 + 8 + 36 + 4

def CLI_SNMP_RONLY : ℤ := 0
def CLI_SNMP_RWRITE : ℤ := 1

/-- The stores of one round of `cli_nvram_conf_get(CLI_SNMP_USER)` into the slot at `user`. -/
def snmpUserStores (e : Endian) (p _p3 : CStr) (user : ℕ) : Option (List (ℕ × List Byte)) := do
  let (name, p) ← nextField (chr ':') p
  let (auth, p) ← nextField (chr ':') p
  let (authPasswd, p) ← nextField (chr ':') p
  let (priv, p) ← nextField (chr ':') p
  let (privPasswd, p) ← nextField (chr ':') p
  let mode := if CLI_SNMP_RONLY = atoi p then CLI_SNMP_RONLY else CLI_SNMP_RWRITE
  return [(user + 4, name), (user + 40, auth), (user + 48, authPasswd), (user + 84, priv),
    (user + 92, privPasswd), (user + 128, bytesOf e (BitVec.ofInt 32 mode))]

/-- `cli_nvram_conf_get(CLI_SNMP_USER)` for the stored string. The count is not reset. -/
def cliNvramConfGetSnmpUser (e : Endian) (snmpUser : CStr)
    (t : UserTable MAX_SNMP_USER sizeofCliSnmpUserInfo) :
    Option (UserTable MAX_SNMP_USER sizeofCliSnmpUserInfo) :=
  fillTable (snmpUserStores e) (fun _ _ => true) ((spans (chr ';') snmpUser).take MAX_SNMP_USER) 0 t

/-- The fields of a slot that are stored. -/
structure CliSnmpUserInfo where
  name : CStr
  auth : CStr
  authPasswd : CStr
  priv : CStr
  privPasswd : CStr
  mode : ℤ
  deriving DecidableEq, Repr

/-- The slot at `user`. -/
def readSnmpUser (e : Endian) (memory : List Byte) (user : ℕ) : Option CliSnmpUserInfo := do
  let name ← readStr (user + 4) memory
  let auth ← readStr (user + 40) memory
  let authPasswd ← readStr (user + 48) memory
  let priv ← readStr (user + 84) memory
  let privPasswd ← readStr (user + 92) memory
  return { name, auth, authPasswd, priv, privPasswd
           mode := (wordOf e ((memory.drop (user + 128)).take 4)).toInt }

/-- `sprintf(tmp, "%s:%s:%s:%s:%s:%d;", ...)`. -/
def snmpUserText (u : CliSnmpUserInfo) : CStr :=
  u.name ++ chr ':' :: (u.auth ++ chr ':' :: (u.authPasswd ++ chr ':' :: (u.priv ++ chr ':' ::
    (u.privPasswd ++ chr ':' :: (printInt u.mode ++ [chr ';'])))))

/-- The loop of `cli_nvram_conf_set(CLI_SNMP_USER)` over the slots, with the text that
`snmp_user` holds. -/
def setSnmpUserLoop (e : Endian) (memory : List Byte) : List ℕ → CStr → Option CStr
  | [], snmpUser => some snmpUser
  | i :: rest, snmpUser => do
      let u ← readSnmpUser e memory (i * sizeofCliSnmpUserInfo)
      let tmp ← store 140 (snmpUserText u)
      let snmpUser ← strcat (130 * MAX_SNMP_USER) snmpUser tmp
      setSnmpUserLoop e memory rest snmpUser

/-- `cli_nvram_conf_set(CLI_SNMP_USER)`. -/
def cliNvramConfSetSnmpUser (e : Endian) (t : UserTable MAX_SNMP_USER sizeofCliSnmpUserInfo)
    (nv : Nvram) : Option (ℤ × Nvram) := do
  let snmpUser ← setSnmpUserLoop e t.memory.1 (List.range t.count.toInt.toNat) []
  let nv ← scfgmgrSet (text "snmp_user") snmpUser nv
  return (CLI_SUCCESS, nv)

/-! ## Access users -/

def MAX_ACCESS_USER : ℕ := 3

/-- `sizeof(cli_access_user_info)`. -/
def sizeofCliAccessUserInfo : ℕ := 4 + 36 + 36 + 4

/-- The stores of one round of `cli_nvram_conf_get(CLI_ACCESS_USER)` into the slot at `user`. -/
def accessUserStores (e : Endian) (p _p3 : CStr) (user : ℕ) : Option (List (ℕ × List Byte)) := do
  let (name, p) ← nextField (chr ':') p
  let (passwd, p) ← nextField (chr ':') p
  return [(user + 4, name), (user + 40, passwd), (user + 76, bytesOf e (BitVec.ofInt 32 (atoi p)))]

/-- `(strlen(p_user->passwd)>0)&&(strlen(p_user->name)>0)`: both texts start with a byte other
than the terminator. -/
def accessUserCounted (user : ℕ) (memory : List Byte) : Bool :=
  memory[user + 40]? ≠ some 0 && memory[user + 4]? ≠ some 0

/-- `cli_nvram_conf_get(CLI_ACCESS_USER)` for the stored string. The count is not reset. -/
def cliNvramConfGetAccessUser (e : Endian) (accessUser : CStr)
    (t : UserTable MAX_ACCESS_USER sizeofCliAccessUserInfo) :
    Option (UserTable MAX_ACCESS_USER sizeofCliAccessUserInfo) :=
  fillTable (accessUserStores e) accessUserCounted
    ((spans (chr ';') accessUser).take MAX_ACCESS_USER) 0 t

/-- The fields of a slot that are stored. -/
structure CliAccessUserInfo where
  name : CStr
  passwd : CStr
  mode : ℤ
  deriving DecidableEq, Repr

/-- The slot at `user`. -/
def readAccessUser (e : Endian) (memory : List Byte) (user : ℕ) : Option CliAccessUserInfo := do
  let name ← readStr (user + 4) memory
  let passwd ← readStr (user + 40) memory
  return { name, passwd, mode := (wordOf e ((memory.drop (user + 76)).take 4)).toInt }

/-- `sprintf(tmp, "%s:%s:%d;", ...)`. -/
def accessUserText (u : CliAccessUserInfo) : CStr :=
  u.name ++ chr ':' :: (u.passwd ++ chr ':' :: (printInt u.mode ++ [chr ';']))

/-- The loop of `cli_nvram_conf_set(CLI_ACCESS_USER)` over the slots, with the text that `buff`
holds. -/
def setAccessUserLoop (e : Endian) (memory : List Byte) : List ℕ → CStr → Option CStr
  | [], buff => some buff
  | i :: rest, buff => do
      let u ← readAccessUser e memory (i * sizeofCliAccessUserInfo)
      let tmp ← store 140 (accessUserText u)
      let buff ← strcat 256 buff tmp
      setAccessUserLoop e memory rest buff

/-- `cli_nvram_conf_set(CLI_ACCESS_USER)`. -/
def cliNvramConfSetAccessUser (e : Endian) (t : UserTable MAX_ACCESS_USER sizeofCliAccessUserInfo)
    (nv : Nvram) : Option (ℤ × Nvram) := do
  let buff ← setAccessUserLoop e t.memory.1 (List.range MAX_ACCESS_USER) []
  let nv ← scfgmgrSet (text "user") buff nv
  return (CLI_SUCCESS, nv)

/-! ## Trunk groups -/

def CLI_TRUNK_GROUP : ℕ := 8

/-- `sizeof(cli_trunk_list)`. -/
def sizeofCliTrunkList : ℕ := 4 + 36 + 4 + 4 + 8

/-- `p + n`, which must not leave the string. -/
def skip (n : ℕ) (p : CStr) : Option CStr := if n ≤ p.length then some (p.drop n) else none

/-- The stores of one round of `cli_nvram_conf_get(CLI_TRUNK_LIST)` into the slot at `trunk`,
for a record such as `Trunk-1|1|1000|1,3-4` that ends at `p3`. -/
def trunkListStores (B : Build) (e : Endian) (p p3 : CStr) (trunk : ℕ) :
    Option (List (ℕ × List Byte)) := do
  let p6 ← skip 6 p
  let groupNo := atoi p6
  let (name, p) ← nextField (chr '|') p
  let mode := atoi p
  let p1 ← strchr (chr '|') p
  let p ← incr p1
  let key := atoi p
  let p1 ← strchr (chr '|') p
  let p ← incr p1
  let tmp ← (between p p3).bind (store 128)
  let portInt ← str2bit B tmp
  return [(trunk, bytesOf e (BitVec.ofInt 32 groupNo)), (trunk + 4, name),
    (trunk + 40, bytesOf e (BitVec.ofInt 32 mode)), (trunk + 44, bytesOf e (BitVec.ofInt 32 key)),
    (trunk + 48, bytesOf64 e portInt)]

/-- `cli_nvram_conf_get(CLI_TRUNK_LIST)` for the stored string. -/
def cliNvramConfGetTrunkList (B : Build) (e : Endian) (trunkList : CStr)
    (t : UserTable CLI_TRUNK_GROUP sizeofCliTrunkList) :
    Option (UserTable CLI_TRUNK_GROUP sizeofCliTrunkList) :=
  fillTable (trunkListStores B e) (fun _ _ => true)
    ((spans (chr ';') trunkList).take CLI_TRUNK_GROUP) 0 { t with count := 0 }

/-- A slot with all its fields. -/
structure CliTrunkList where
  groupNo : ℤ
  name : CStr
  mode : ℤ
  key : ℤ
  portInt : PortMap
  deriving DecidableEq, Repr

/-- The slot at `trunk`. -/
def readTrunkList (e : Endian) (memory : List Byte) (trunk : ℕ) : Option CliTrunkList := do
  let name ← readStr (trunk + 4) memory
  return { groupNo := (wordOf e ((memory.drop trunk).take 4)).toInt
           name
           mode := (wordOf e ((memory.drop (trunk + 40)).take 4)).toInt
           key := (wordOf e ((memory.drop (trunk + 44)).take 4)).toInt
           portInt := wordOf64 e ((memory.drop (trunk + 48)).take 8) }

/-- The room allocated for each group. -/
def PORT_STR_LEN (B : Build) : ℕ := B.PNUM * 3

/-- The loop of `cli_nvram_conf_set(CLI_TRUNK_LIST)` over the slots, with the text in the block
of `cap` bytes at `result`. -/
def setTrunkListLoop (B : Build) (e : Endian) (memory : List Byte) (cap : ℕ) :
    List ℕ → CStr → Option CStr
  | [], result => some result
  | i :: rest, result => do
      let g ← readTrunkList e memory (i * sizeofCliTrunkList)
      let tmp ← store 140
        (g.name ++ chr '|' :: (printInt g.mode ++ chr '|' :: (printInt g.key ++ [chr '|'])))
      let result ← strcat cap result tmp
      let tmp ← store 140 (bit2str B g.portInt ++ [chr ';'])
      let result ← strcat cap result tmp
      setTrunkListLoop B e memory cap rest result

/-- The string that `cli_nvram_conf_set(CLI_TRUNK_LIST)` builds in a block of the size that it asks
for. -/
def trunkListResult (B : Build) (e : Endian) (t : UserTable CLI_TRUNK_GROUP sizeofCliTrunkList) :
    Option CStr := do
  let cap := (PORT_STR_LEN B * t.count.toInt).toNat
  let result ← store cap []
  setTrunkListLoop B e t.memory.1 cap (List.range t.count.toInt.toNat) result

/-- `cli_nvram_conf_set(CLI_TRUNK_LIST)`, when `malloc` gives a block of `extra` bytes more than
were asked for. -/
def cliNvramConfSetTrunkList (B : Build) (e : Endian) (extra : ℕ)
    (t : UserTable CLI_TRUNK_GROUP sizeofCliTrunkList) (nv : Nvram) : Option (ℤ × Nvram) := do
  let cap := (PORT_STR_LEN B * t.count.toInt).toNat + extra
  let result ← store cap []
  let result ← setTrunkListLoop B e t.memory.1 cap (List.range t.count.toInt.toNat) result
  let nv ← scfgmgrSet (text "trunk_list") result nv
  return (CLI_SUCCESS, nv)

end BcmUtils
