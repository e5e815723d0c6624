import BcmUtils.Foundation.Sockets

/-! # Requests over a datagram socket

`ipc_send`, `ipc_recv` and `ipc_send_recv` of `sk_define.c` on a client socket, at a server
that answers every request once and in order. -/

namespace BcmUtils.Ipc

open CLib

/-- `sizeof(IPC_SK)`. -/
def sizeofIpcSk : ℕ := 8 + 1024

/-- A reply of the server: the number of the call that it answers, the request of that call,
and its own bytes. -/
structure Reply where
  call : ℕ
  request : Block sizeofIpcSk
  data : List Byte
  deriving DecidableEq

/-- A client socket: the replies that wait in it, the replies that have not arrived yet, and
the number of calls so far. -/
structure Client where
  queue : List Reply
  pending : List Reply
  calls : ℕ
  deriving DecidableEq

/-- The socket that `creat_sk_client` makes. -/
def creatSkClient : Client := ⟨[], [], 0⟩

/-- The next `n` replies arrive. -/
def Client.arrive (n : ℕ) (s : Client) : Client :=
  { s with queue := s.queue ++ s.pending.take n, pending := s.pending.drop n }

/-- The message of a call, and what the system does in the call. -/
structure Call where
  pstTx : Block sizeofIpcSk
  sendOk : Bool
  /-- What the server answers to the request of the call, sooner or later. -/
  answer : List Byte
  /-- How many replies arrive before `recvfrom` returns or times out. -/
  arrivals : ℕ
  recvOk : Bool

/-- `ipc_send`: a request that is sent is a reply to come. -/
def ipcSend (c : Call) (s : Client) : ℤ × Client :=
  if c.sendOk then
    (sizeofIpcSk, { s with pending := s.pending ++ [⟨s.calls, c.pstTx, c.answer⟩] })
  else (-1, s)

/-- `ipc_recv`: the return value, `*pstRx`, and the reply that was taken from the socket. -/
def ipcRecv (c : Call) (s : Client) : ℤ × Block sizeofIpcSk × Option Reply × Client :=
  let s := s.arrive c.arrivals
  match c.recvOk, s.queue with
  | true, r :: queue =>
      let (recvSize, pstRx) := recvfrom (some r.data) (Block.zeroed sizeofIpcSk)
      (recvSize, pstRx, some r, { s with queue })
  | _, _ =>
      let (recvSize, pstRx) := recvfrom none (Block.zeroed sizeofIpcSk)
      (recvSize, pstRx, none, s)

/-- The result of `ipc_send_recv`: what it returns and leaves in `*pstRx`, and the reply that
was taken from the socket. -/
structure Result where
  ret : ℤ
  pstRx : Block sizeofIpcSk
  taken : Option Reply

/-- `ipc_send_recv`. -/
def ipcSendRecv (c : Call) (pstRx : Block sizeofIpcSk) (s : Client) : Result × Client :=
  let (sent, s₁) := ipcSend c s
  if 0 < sent then
    let (received, pstRx, taken, s₂) := ipcRecv c s₁
    (⟨if 0 < received then 0 else -1, pstRx, taken⟩, { s₂ with calls := s₂.calls + 1 })
  else (⟨-1, pstRx, none⟩, { s₁ with calls := s₁.calls + 1 })

/-- What happens to a client socket: a call into a message, or replies that arrive between the
calls. -/
inductive Op
  | call (c : Call) (pstRx : Block sizeofIpcSk)
  | arrive (n : ℕ)

def step (s : Client) : Op → Option Client
  | .call c pstRx => some (ipcSendRecv c pstRx s).2
  | .arrive n => some (s.arrive n)

end BcmUtils.Ipc
