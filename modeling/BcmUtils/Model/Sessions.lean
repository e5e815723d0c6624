import BcmUtils.Foundation.Scan
import BcmUtils.Foundation.Stores
import BcmUtils.Model.LineInfo

/-! # Sessions of the vty lines

`get_aaa_line_vty_info` of `aaa.c`, which reads the sessions that the telnet and the ssh server
list in their files. -/

namespace BcmUtils

open CLib

/-- `sizeof(struct aaa_line_vty_info)`: `remote_ip` at 0, `remote_port` at 64, `local_ip` at 68,
`local_port` at 132, `line_id` at 136 and `pid` at 140. -/
def vtyInfoSize : ℕ := 144

/-- `"%[^,],%d,%[^,],%d,%d;"`. -/
def telnetFormat : List Directive :=
  [.upTo (chr ','), .char (chr ','), .int, .char (chr ','), .upTo (chr ','), .char (chr ','),
    .int, .char (chr ','), .int, .char (chr ';')]

/-- `"%[^,],%d,%d,%d;"`. -/
def sshFormat : List Directive :=
  [.upTo (chr ','), .char (chr ','), .int, .char (chr ','), .int, .char (chr ','), .int,
    .char (chr ';')]

/-- The stores into `info[lineCnt]` for a line of telnet. -/
def telnetStores (e : Endian) (lineCnt : ℕ) (buf : CStr) : List (ℕ × List Byte) :=
  scanStores e ([0, 64, 68, 132, 136].map fun off => lineCnt * vtyInfoSize + off)
    (sscanf telnetFormat buf)

/-- The stores into `info[lineCnt]` for a line of ssh, with the port 22 behind them. -/
def sshStores (e : Endian) (lineCnt : ℕ) (buf : CStr) : List (ℕ × List Byte) :=
  scanStores e ([0, 64, 140, 136].map fun off => lineCnt * vtyInfoSize + off)
    (sscanf sshFormat buf) ++ [(lineCnt * vtyInfoSize + 132, bytesOf e 22)]

/-- The block of `MAX_VTY` entries. -/
abbrev VtyBlock := Block (MAX_VTY * vtyInfoSize)

/-- A loop of `get_aaa_line_vty_info` over the lines of a file: `line_cnt` and the block then. -/
def vtyLoop (stores : ℕ → CStr → List (ℕ × List Byte)) :
    List CStr → ℕ → VtyBlock → Option (ℕ × VtyBlock)
  | [], lineCnt, info => some (lineCnt, info)
  | buf :: bufs, lineCnt, info => do
      let info ← info.copyAll (stores lineCnt buf)
      vtyLoop stores bufs (lineCnt + 1) info

/-- The strings that `fgets` leaves in `buf`, for a file that can be opened. -/
def sessionLines (file : Option (List Byte)) : List CStr :=
  (file.elim [] (fileLines 127)).map fun line => line.takeWhile (· ≠ 0)

/-- `get_aaa_line_vty_info`: the block then. Where `malloc` fails, `memset` writes through the null
pointer before it is checked. -/
def getAaaLineVtyInfo (e : Endian) (allocated : Bool) (telnet ssh : Option (List Byte)) :
    Option VtyBlock :=
  if allocated then do
    let info := Block.zeroed (MAX_VTY * vtyInfoSize)
    let (lineCnt, info) ← vtyLoop (telnetStores e) (sessionLines telnet) 0 info
    let (_, info) ← vtyLoop (sshStores e) (sessionLines ssh) lineCnt info
    return info
  else none

end BcmUtils
