import BcmUtils.Model.Bindings

/-! # Conversions of port maps

The converters of `bcmutils.c` between strings of flags, bitmaps that start at bit 0, maps of
the table `phy`, and port maps. -/

namespace BcmUtils

open CLib

/-- The loop `if(set) value |= (0x01ULL << bit);` over these indices. The bits of the callers are
ports or entries of `phy`, so that no shift leaves the word. -/
def collectBits (indices : List ℕ) (set : ℕ → Bool) (bit : ℕ → ℕ) : PortMap :=
  indices.foldl (fun value i => if set i then value ||| 1#64 <<< bit i else value) 0

/-- `port2phy_64`. -/
def port2phy64 (B : Build) (bmaps : PortMap) : PortMap :=
  collectBits (List.range B.PNUM) bmaps.getLsbD fun i => phy (i + 1)

/-- `str2phy_64`, which must not read behind the terminator. -/
def str2phy64 (B : Build) (bmaps : CStr) : Option PortMap :=
  (List.range B.PNUM).foldlM
    (fun (value : PortMap) (i : ℕ) => do
      let c ← charAt bmaps i
      return if c = chr '1' then value ||| 1#64 <<< phy (i + 1) else value) 0

/-- `phy2port_64`. -/
def phy2port64 (B : Build) (bmaps : PortMap) : PortMap :=
  collectBits (List.range' 1 B.PNUM) (fun i => bmaps.getLsbD (phy i)) fun i => i

/-- `pmap2port`: the returned value, and what `nmaps` points at then. -/
def pmap2port (B : Build) (bmaps : PortMap) (nmaps : ℤ) : ℤ × ℤ :=
  match (List.range' 1 B.PNUM).find? fun i => bmaps.getLsbD i with
  | some i => (i, i)
  | none => (-1, nmaps)

end BcmUtils
