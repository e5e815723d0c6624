import BcmUtils.Foundation.Memory

/-! # Port maps and port lists

The table `phy` of `bcmutils.h` and the conversions `bit2str` and `str2bit` of
`bcmutils.c` between a 64-bit port map and a list such as `1,3-4`. -/

namespace BcmUtils

open CLib

/-- The parameters that the makefile passes to the compiler, with `PNUM` within the range
that the table `phy` covers. -/
structure Build where
  PNUM : ℕ
  PoE_NUM : ℕ := 0
  PORTPOWER_MAX : ℕ := 0
  one_le : 1 ≤ PNUM
  le_phy : PNUM ≤ 28

/-- An array with one entry for each port. -/
abbrev PortArray (B : Build) (α : Type) := { l : List α // l.length = B.PNUM }

/-- A `uint64_t` with one bit for each port. -/
abbrev PortMap := BitVec 64

/-- `static int phy[64]`: the ports 1 to 28 are numbered as they are, the rest is zero. -/
def phy (i : ℕ) : ℕ := if i ≤ 28 then i else 0

/-- The locals of `bit2str`. -/
structure Bit2strState where
  portstr : CStr := []
  count : ℕ := 0
  tcount : ℕ := 0
  lastis : Bool := false

/-- The loop of `bit2str` from index `i` on. Printing the buffer into itself is read as
appending to it. -/
def bit2strLoop (B : Build) (maps : PortMap) : ℕ → ℕ → Bit2strState → Bit2strState
  | 0, _, st => st
  | fuel + 1, i, st =>
      if maps.getLsbD (phy (i + 1)) then
        if st.lastis = false then
          bit2strLoop B maps fuel (i + 1)
            { portstr := st.portstr ++ ((if st.count = 0 then [] else [chr ',']) ++ printNat (i + 1))
              lastis := true, tcount := st.tcount + 1, count := st.count + 1 }
        else if i = B.PNUM - 1 then
          -- `break` in the last round
          { st with portstr := st.portstr ++ chr '-' :: printNat (i + 1) }
        else
          bit2strLoop B maps fuel (i + 1)
            { st with lastis := true, tcount := st.tcount + 1, count := st.count + 1 }
      else
        bit2strLoop B maps fuel (i + 1)
          { portstr := if st.lastis = true ∧ st.tcount > 1 then st.portstr ++ chr '-' :: printNat i
              else st.portstr
            lastis := false, tcount := 0, count := st.count }

/-- `bit2str`, when `malloc(256)` succeeds. -/
def bit2str (B : Build) (pmaps : PortMap) : CStr := (bit2strLoop B pmaps B.PNUM 0 {}).portstr

/-- The bounds of one item: a number, or the numbers around its first `-`. -/
def itemRange (row : CStr) : ℤ × ℤ :=
  match strchr (chr '-') row with
  | some p => (atoi row, atoi p.tail)
  | none => (atoi row, atoi row)

/-- `for(k = min; k <= max; k++) if(k > 0) val |= 0x01ULL<<k;` A shift by 64 or more is
undefined. -/
def setBits (val : PortMap) (min max : ℤ) : Option PortMap :=
  (List.range (max - min + 1).toNat).foldlM
    (fun (v : PortMap) (n : ℕ) =>
      if 0 < min + n then
        if min + n < 64 then some (v ||| 1#64 <<< (min + n).toNat) else none
      else some v) val

/-- `str2bit`, over its array `char port[PNUM][8]`. -/
def str2bit (B : Build) (input : CStr) : Option PortMap := do
  let port ← splitRows B.PNUM 8 (chr ',') input
  port.foldlM (fun val row => setBits val (itemRange row).1 (itemRange row).2) 0

/-- The map `m` without the bits outside `1..PNUM`. -/
def restrictPorts (B : Build) (m : PortMap) : PortMap := m &&& BitVec.ofNat 64 (2 ^ (B.PNUM + 1) - 2)

end BcmUtils
