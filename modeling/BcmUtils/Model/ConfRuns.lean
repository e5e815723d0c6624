import BcmUtils.Foundation.Machine
import BcmUtils.Model.ConfLists
import BcmUtils.Model.PoeNames

/-! # Runs of `cli_nvram_conf_get` and `cli_nvram_conf_free`

The two functions on the configuration structs that hold a list or a table of
allocated records, and the machine whose steps are their calls on one struct. -/

namespace BcmUtils

open CLib

/-- The values of `enum CLI_CONF` whose struct holds allocated records. -/
inductive CliConf
  | vlanFowd
  | sourceBinding
  | staticArp
  | poeNames
  deriving DecidableEq

/-- The struct of each type. -/
def ConfStruct (B : Build) : CliConf → Type
  | .vlanFowd => ListConf CliVlanInfoConf
  | .sourceBinding => ListConf CliSourceInfoConf
  | .staticArp => ListConf CliStaticArpList
  | .poeNames => PoeNames B

def cliNvramConfGet (B : Build) (mallocOk : ℕ → Bool) (nv : Nvram) :
    (type : CliConf) → ConfStruct B type → Option (ℤ × ConfStruct B type × Nvram)
  | .vlanFowd, c => cliNvramConfGetVlanFowd B mallocOk nv c
  | .sourceBinding, c => cliNvramConfGetSourceBinding mallocOk nv c
  | .staticArp, c => cliNvramConfGetStaticArp mallocOk nv c
  | .poeNames, c => do
      let (c, nv) ← cliPoeDespNvramPrase B mallocOk nv c
      return (CLI_SUCCESS, c, nv)

def cliNvramConfFree (B : Build) : (type : CliConf) → ConfStruct B type → Option (ConfStruct B type)
  | .vlanFowd, c => cliNvramConfFreeList (ρ := CliVlanInfoConf) c
  | .sourceBinding, c => cliNvramConfFreeList (ρ := CliSourceInfoConf) c
  | .staticArp, c => cliNvramConfFreeList (ρ := CliStaticArpList) c
  | .poeNames, c => cliNvramConfFreePoeNames c

/-- One call, with what the store holds and which allocations succeed at that time. -/
inductive ConfCall
  | get (mallocOk : ℕ → Bool) (nv : Nvram)
  | free

/-- One call on the struct: the value it returns and the struct after it. -/
def confStep (B : Build) (type : CliConf) (s : ℤ × ConfStruct B type) :
    ConfCall → Option (ℤ × ConfStruct B type)
  | .get mallocOk nv => (cliNvramConfGet B mallocOk nv type s.2).map fun r => (r.1, r.2.1)
  | .free => (cliNvramConfFree B type s.2).map fun c => (CLI_SUCCESS, c)

end BcmUtils
