import BcmUtils.Foundation.Sockets
import BcmUtils.Foundation.Tokens
import BcmUtils.Foundation.Words

/-! # Requests to the aaa server

`aaa_send_msg_bcm` and `aaa_send_msg_struct_bcm` of `aaa.c`, over the outcomes of the
system calls they make. -/

namespace BcmUtils

open CLib

def AAA_REPLY_INT : BitVec 32 := 0

def AAA_REPLY_SUCCESS : BitVec 32 := 0
def AAA_REPLY_FAIL : BitVec 32 := 1

/-- `struct reply`: the word `identify`, and the union of the word `code` and the 64 bytes
of `buf`. -/
abbrev Reply := Block 68

namespace Reply

variable (e : Endian) (reply : Reply)

def identify : BitVec 32 := wordOf e (reply.1.take 4)

def code : BitVec 32 := wordOf e ((reply.1.drop 4).take 4)

/-- `reply.identify = identify; reply.code = code;` -/
def setFields (identify code : BitVec 32) : Reply :=
  ⟨bytesOf e identify ++ (bytesOf e code ++ reply.1.drop 8), by
    simp only [List.length_append, length_bytesOf, List.length_drop, reply.2]⟩

end Reply

/-- The outcomes of the system calls of one request. -/
structure AaaCalls where
  socket : Option ℕ
  bindOk : Bool
  sendtoOk : Bool
  /-- The datagram that arrives, or `none` when the call fails or times out. -/
  recvfrom : Option (List Byte)

/-- `ret = recvfrom(...); if (ret <= 0) { reply.identify = ...; reply.code = ...; }` -/
def receiveReply (e : Endian) (datagram : Option (List Byte)) (reply : Reply) : Reply :=
  let (ret, reply) := recvfrom datagram reply
  if ret ≤ 0 then Reply.setFields e reply AAA_REPLY_INT AAA_REPLY_FAIL else reply

/-- `aaa_send_msg_bcm`: the return value and what happens to the descriptors. -/
def aaaSendMsgBcm (e : Endian) (calls : AaaCalls) : BitVec 32 × List FdEvent :=
  match calls.socket with
  | none => (AAA_REPLY_FAIL, [])
  | some fd =>
      if calls.bindOk then
        if calls.sendtoOk then
          let reply := receiveReply e calls.recvfrom (Block.zeroed 68)
          let ret :=
            if Reply.identify e reply = AAA_REPLY_INT then Reply.code e reply else AAA_REPLY_FAIL
          (ret, [.opened fd, .closed fd])
        else (AAA_REPLY_FAIL, [.opened fd])
      else (AAA_REPLY_FAIL, [.opened fd])

def AAA_SOCK : CStr := text "/var/run/aaa/aaa.sock"

/-- `aaa_is_exist`: the return value and what happens to the descriptors. `fopen` is the
descriptor of `/proc/net/unix`, and `reads` are the texts that the calls of `fgets` store. -/
def aaaIsExist (fopen : Option ℕ) (reads : List CStr) : ℤ × List FdEvent :=
  match fopen with
  | none => (-1, [])
  | some fp =>
      let ret := if reads.any fun buf => (strstr AAA_SOCK buf).isSome then 0 else -1
      (ret, [.opened fp, .closed fp])

/-- What happens to the descriptors in `aaa_send_msg_bcm`, from its call of `aaa_is_exist`
on. -/
def aaaSendMsgBcmFds (e : Endian) (fopen : Option ℕ) (reads : List CStr) (calls : AaaCalls) :
    List FdEvent :=
  (aaaIsExist fopen reads).2 ++ (aaaSendMsgBcm e calls).2

/-- `aaa_send_msg_struct_bcm`: the struct it returns and what happens to the descriptors. -/
def aaaSendMsgStructBcm (e : Endian) (calls : AaaCalls) : Reply × List FdEvent :=
  let reply := Reply.setFields e (Block.zeroed 68) AAA_REPLY_INT AAA_REPLY_FAIL
  match calls.socket with
  | none => (reply, [])
  | some fd =>
      if calls.bindOk then
        if calls.sendtoOk then
          (receiveReply e calls.recvfrom reply, [.opened fd, .closed fd])
        else (reply, [.opened fd])
      else (reply, [.opened fd])

end BcmUtils
