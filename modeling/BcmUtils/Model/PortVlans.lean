import BcmUtils.Model.PortList

/-! # Port-based VLANs

`bcm_port_based_vlan_get` of `vlan.c`, which reads records such as `1,3:desc;`. -/

namespace BcmUtils

open CLib

/-- `PORT_BASED_V`. -/
structure PortBasedV where
  pbmap : BitVec 32
  desc : Block 32

/-- An entry in which all bytes are zero. -/
def PortBasedV.zeroed : PortBasedV := ⟨0, Block.zeroed 32⟩

/-- `if((atoi(s) != 0) && (atoi(s) < limit)) p->pbmap |= (0x1U << atoi(s));` A shift by a
negative number or by 32 and more is undefined. -/
def setPort (limit : ℕ) (s : CStr) (pbmap : BitVec 32) : Option (BitVec 32) :=
  if atoi s ≠ 0 ∧ atoi s < limit then
    if 0 ≤ atoi s ∧ atoi s < 32 then some (pbmap ||| 1#32 <<< (atoi s).toNat) else none
  else some pbmap

/-- `p += n`, which must not leave the string. -/
def advance (n : ℕ) (p : CStr) : Option CStr :=
  if n ≤ p.length then some (p.drop n) else none

/-- The inner loop of `bcm_port_based_vlan_get`, which looks for the ports behind the commas in
front of `pc`. -/
def laterPortsLoop (pc : CStr) : ℕ → CStr → BitVec 32 → Option (BitVec 32)
  | 0, _, _ => none
  | fuel + 1, pk, pbmap =>
      match strchr (chr ',') pk with
      | none => some pbmap
      | some comma =>
          let pe := comma.tail
          -- `if(++pe > pc) break;`
          if pe.length < pc.length then some pbmap
          else do
            let pbmap ← setPort 28 pe pbmap
            match strchr (chr ',') pe with
            | some pd => do
                let pk ← advance (pe.length - pd.length + 1) pk
                laterPortsLoop pc fuel pk pbmap
            | none => do
                let pk ← advance 1 pk
                laterPortsLoop pc fuel pk pbmap

/-- The outer loop of `bcm_port_based_vlan_get` from the record at `ps` on, with the entries
from `p` on: the returned value and these entries then. -/
def portBasedVlanLoop (B : Build) (voiceConfig : CStr) :
    ℕ → CStr → List PortBasedV → Option (ℤ × List PortBasedV)
  | 0, _, _ => none
  | fuel + 1, ps, entries =>
      -- what follows the loop
      let done := some (if ps.length = voiceConfig.length then -1 else 0, entries)
      match strchr (chr ';') ps, strchr (chr ':') ps with
      | some pt, some pc =>
          if pc.length < pt.length then done
          else do
            let entry ← entries.head?
            let pbmap ← setPort B.PNUM ps entry.pbmap
            let pbmap ← laterPortsLoop pc (ps.length + 1) ps pbmap
            match strchr (chr ':') ps with
            | some pc => do
                let text ← between pc.tail pt
                let desc ← entry.desc.copy 0 (text.take 31)
                let desc ← desc.copy 31 [0]
                let (ret, entries) ← portBasedVlanLoop B voiceConfig fuel pt.tail entries.tail
                return (ret, ⟨pbmap, desc⟩ :: entries)
            | none => return (-1, ⟨pbmap, entry.desc⟩ :: entries.tail)
      | _, _ => done

/-- `bcm_port_based_vlan_get`: the returned value and the array at `p` then. -/
def bcmPortBasedVlanGet (B : Build) (voiceConfig : CStr) (p : List PortBasedV) :
    Option (ℤ × List PortBasedV) :=
  portBasedVlanLoop B voiceConfig (voiceConfig.length + 1) voiceConfig p

end BcmUtils
