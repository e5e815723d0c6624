import BcmUtils.Foundation.Datagrams
import BcmUtils.Foundation.Objects
import BcmUtils.Model.Ipc

/-! # A server and its clients

`creat_sk_server`, `creat_sk_client`, `ipc_recv_send` and `ipc_send_recv` of `sk_define.c`, system
call by system call, so that other processes can come in between. Every process has one socket,
which is known by the name of its file. -/

namespace BcmUtils.IpcNetwork

open CLib Ipc

/-- `IPC_SK`. -/
abbrev IpcSk := Block sizeofIpcSk

/-- The bytes of `stHead.enCmd`. -/
def enCmd (m : IpcSk) : List Byte := m.1.take 4

abbrev SysCall := NetCall CStr IpcSk

abbrev SysAnswer := NetAnswer CStr IpcSk

abbrev IpcProc (β : Type) := Proc SysCall SysAnswer β

def call (q : SysCall) : IpcProc SysAnswer := .ask q .done

/-- `init_sock_addr`, with the memory for the name from `malloc`. -/
def initSockAddr : IpcProc ℤ := do
  let pcPath ← call .malloc
  if pcPath.ret = -1 then return -1
  return 0

/-- `apps_creat_socket`. -/
def appsCreatSocket (path : CStr) : IpcProc ℤ := do
  let pcPath ← call .malloc
  if pcPath.ret = -1 then return -1
  let skfd ← call .socket
  if skfd.ret = -1 then return -1
  let _ ← call (.unlink path)
  if (← initSockAddr) = -1 then return -1
  let ret ← call (.bind path)
  if ret.ret = -1 then return -1
  return 0

/-- `creat_sk_server`. -/
def creatSkServer (path : CStr) : IpcProc ℤ := do
  if (← appsCreatSocket path) = -1 then return -1
  return 0

/-- `creat_sk_client`, which does not look whether the address of the server is set. -/
def creatSkClient (path : CStr) : IpcProc ℤ := do
  if (← appsCreatSocket path) = -1 then return -1
  let ret ← call .setsockopt
  if ret.ret = -1 then return -1
  let _ ← initSockAddr
  return 0

/-- `ipc_send`. -/
def ipcSend (self : CStr) (pstTx : IpcSk) (desSockAddr : CStr) : IpcProc ℤ := do
  let sendSize ← call (.sendto self pstTx desSockAddr)
  if sendSize.ret = -1 then return -1
  return sendSize.ret

/-- `ipc_recv`: the return value, `*pstRx` and `*src_sock_addr`. -/
def ipcRecv (self srcSockAddr : CStr) : IpcProc (ℤ × IpcSk × CStr) := do
  let received ← call (.recvfrom self)
  let (recvSize, pstRx) :=
    recvfrom (received.datagram.map fun d => d.data.1) (Block.zeroed sizeofIpcSk)
  let srcSockAddr := (received.datagram.map Datagram.source).getD srcSockAddr
  if recvSize = -1 then return (-1, pstRx, srcSockAddr)
  return (recvSize, pstRx, srcSockAddr)

/-- What a call returns. An exchange also leaves a message in `*pstRx` and an address in
`*pstSockAddr`. -/
inductive SkResult
  | created (ret : ℤ)
  | exchanged (ret : ℤ) (pstRx : IpcSk) (pstSockAddr : CStr)
  deriving DecidableEq

/-- `ipc_send_recv`. -/
def ipcSendRecv (self : CStr) (pstTx pstRx : IpcSk) (pstSockAddr : CStr) : IpcProc SkResult := do
  if (← ipcSend self pstTx pstSockAddr) > 0 then
    let (received, pstRx, pstSockAddr) ← ipcRecv self pstSockAddr
    if received > 0 then return .exchanged 0 pstRx pstSockAddr
    return .exchanged (-1) pstRx pstSockAddr
  return .exchanged (-1) pstRx pstSockAddr

/-- `ipc_recv_send`. -/
def ipcRecvSend (self : CStr) (pstTx : IpcSk) (pstSockAddr : CStr) : IpcProc SkResult := do
  let (received, pstRx, pstSockAddr) ← ipcRecv self pstSockAddr
  if received > 0 then
    if enCmd pstRx = enCmd pstTx then
      if (← ipcSend self pstTx pstSockAddr) > 0 then return .exchanged 0 pstRx pstSockAddr
  return .exchanged (-1) pstRx pstSockAddr

/-! ## The processes -/

/-- The process of the server and those of the clients. -/
inductive Party (C : Type)
  | server
  | client (k : C)
  deriving DecidableEq

/-- The calls. A client sends to the server, whose address `creat_sk_client` has set. -/
inductive SkCall
  | creatSkServer
  | creatSkClient
  | ipcRecvSend (pstTx : IpcSk) (pstSockAddr : CStr)
  | ipcSendRecv (pstTx pstRx : IpcSk)
  deriving DecidableEq

variable {C : Type} (N : Endpoints C CStr)

/-- The name of the socket of a process. -/
def socketName : Party C → CStr
  | .server => N.server
  | .client k => N.client k

/-- What a call does. A client makes no calls of a server, and a server none of a client. -/
def body : Party C → SkCall → IpcProc SkResult
  | .server, .creatSkServer => do return .created (← creatSkServer N.server)
  | .client k, .creatSkClient => do return .created (← creatSkClient (N.client k))
  | .server, .ipcRecvSend pstTx pstSockAddr => ipcRecvSend N.server pstTx pstSockAddr
  | .client k, .ipcSendRecv pstTx pstRx => ipcSendRecv (N.client k) pstTx pstRx N.server
  | _, _ => .fault

/-- The processes and their sockets. The end of a process closes its socket. -/
def network : Server (Party C) SkCall SysCall SysAnswer SkResult (Net CStr IpcSk) Bool where
  body := body N
  serve _ s q ok := s.serve (fun m => m.1.length) q ok
  stop p s := Function.update s (socketName N p) none

end BcmUtils.IpcNetwork
