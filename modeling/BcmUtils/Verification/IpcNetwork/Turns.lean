import BcmUtils.Model.IpcNetwork

/-! # Turns of a server and its clients

Which system calls a call makes in which phase, and how the answer to one of them changes what has
been sent, received and answered. -/

namespace BcmUtils.IpcNetwork

open CLib Ipc

variable {C : Type} {N : Endpoints C CStr} {k : C} {c : SkCall} {pstTx : IpcSk}

/-! ## Phases of a call -/

/-- How far a call has come: nothing has been sent or received yet, a request has been sent, a
datagram has been received, a reply to it has been sent. -/
inductive Phase
  | start
  | sent
  | got (d : Datagram CStr IpcSk)
  | replied (d : Datagram CStr IpcSk)

/-- The request that a call sends. -/
def SkCall.request : SkCall → List IpcSk
  | .ipcSendRecv pstTx _ => [pstTx]
  | _ => []

/-- The reply that a call sends. -/
def SkCall.offer : SkCall → List IpcSk
  | .ipcRecvSend pstTx _ => [pstTx]
  | _ => []

/-- A client sends its request to the server, and receives after that. -/
def clientProtocol (N : Endpoints C CStr) (k : C) (c : SkCall) :
    Protocol Phase SysCall SysAnswer where
  allowed
    | .start, .sendto self data dest => self = N.client k ∧ dest = N.server ∧ c.request = [data]
    | .start, .recvfrom _ => False
    | .start, _ => True
    | .sent, .recvfrom self => self = N.client k
    | _, _ => False
  answers _ _ a := ∀ d, a.datagram = some d → d.source = N.server
  next
    | .start, .sendto _ _ _, a => if a.ret = -1 then .start else .sent
    | .sent, .recvfrom _, a => (a.datagram.map Phase.got).getD .sent
    | m, _, _ => m

/-- The server receives, and replies to the sender with a message of the same command. -/
def serverProtocol (N : Endpoints C CStr) (c : SkCall) : Protocol Phase SysCall SysAnswer where
  allowed
    | .start, .recvfrom self => self = N.server
    | .start, .sendto _ _ _ => False
    | .start, _ => True
    | .got d, .sendto self data dest =>
        self = N.server ∧ dest = d.source ∧ enCmd data = enCmd d.data ∧ c.offer = [data]
    | _, _ => False
  answers _ _ _ := True
  next
    | .start, .recvfrom _, a => (a.datagram.map Phase.got).getD .start
    | .got d, .sendto _ _ _, a => if a.ret = -1 then .got d else .replied d
    | m, _, _ => m

/-- A client that has succeeded has got a reply. -/
def ClientReturns (N : Endpoints C CStr) : SkResult → Phase → Prop
  | .created _, _ => True
  | .exchanged ret pstRx pstSockAddr, m =>
      pstSockAddr = N.server ∧ (ret = 0 → ∃ d, m = .got d ∧ pstRx = d.data)

/-- A server that has succeeded has replied. -/
def ServerReturns : SkResult → Phase → Prop
  | .created _, _ => True
  | .exchanged ret pstRx pstSockAddr, m =>
      ret = 0 → ∃ d, m = .replied d ∧ pstRx = d.data ∧ pstSockAddr = d.source

/-! ## The calls -/

/-- What `ipc_recv` makes of an answer. -/
def received (srcSockAddr : CStr) (a : SysAnswer) : ℤ × IpcSk × CStr :=
  match a.datagram with
  | none => (-1, Block.zeroed sizeofIpcSk, srcSockAddr)
  | some d => (sizeofIpcSk, d.data, d.source)

theorem recvfrom_message (d buf : IpcSk) : recvfrom (some d.1) buf = ((sizeofIpcSk : ℤ), d) := by
  have htake : d.1.take sizeofIpcSk = d.1 := List.take_of_length_le d.2.le
  have hdrop : buf.1.drop d.1.length = [] := List.drop_of_length_le (by rw [buf.2, d.2])
  have hoverlay : buf.overlay d.1 = d := Subtype.ext (by simp only [Block.overlay, htake, hdrop,
    List.append_nil])
  simp only [recvfrom, hoverlay, htake, d.2]

theorem ipcRecv_eq (self srcSockAddr : CStr) :
    ipcRecv self srcSockAddr = .ask (.recvfrom self) fun a => .done (received srcSockAddr a) := by
  simp only [ipcRecv, call, Proc.bind_eq, Proc.ask_bind, Proc.done_bind, Proc.pure_eq]
  congr 1
  funext a
  obtain ⟨ret, _ | d⟩ := a
  · rfl
  · simp only [Option.map_some, recvfrom_message]
    rfl

/-- Calls that neither send nor receive. -/
def quiet : Protocol Unit SysCall SysAnswer where
  allowed
    | _, .sendto _ _ _ => False
    | _, .recvfrom _ => False
    | _, _ => True
  answers _ _ _ := True
  next _ _ _ := ()

/-- Nothing has been sent or received. -/
abbrev Quiet {β : Type} (x : IpcProc β) : Prop := quiet.Follows (fun _ _ => True) x ()

section Quiet

variable {β γ : Type}

theorem Quiet.bind {x : IpcProc β} {f : β → IpcProc γ} (hx : Quiet x) (hf : ∀ b, Quiet (f b)) :
    Quiet (x.bind f) :=
  Protocol.Follows.bind hx fun b _ _ => hf b

theorem Quiet.ite {p : Prop} [Decidable p] {x y : IpcProc β} (hx : Quiet x) (hy : Quiet y) :
    Quiet (if p then x else y) := by
  split
  · exact hx
  · exact hy

theorem quiet_call {q : SysCall} (h : quiet.allowed () q) : Quiet (call q) :=
  ⟨h, fun _ _ => trivial⟩

theorem initSockAddr_quiet : Quiet initSockAddr :=
  (quiet_call (q := .malloc) trivial).bind fun _ => .ite trivial trivial

theorem appsCreatSocket_quiet (path : CStr) : Quiet (appsCreatSocket path) := by
  refine (quiet_call (q := .malloc) trivial).bind fun pcPath => .ite trivial ?_
  refine (quiet_call (q := .socket) trivial).bind fun skfd => .ite trivial ?_
  refine (quiet_call (q := .unlink path) trivial).bind fun _ => ?_
  refine initSockAddr_quiet.bind fun _ => .ite trivial ?_
  exact (quiet_call (q := .bind path) trivial).bind fun ret => .ite trivial trivial

theorem creatSkServer_quiet (path : CStr) : Quiet (creatSkServer path) :=
  (appsCreatSocket_quiet path).bind fun _ => .ite trivial trivial

theorem creatSkClient_quiet (path : CStr) : Quiet (creatSkClient path) := by
  refine (appsCreatSocket_quiet path).bind fun _ => .ite trivial ?_
  refine (quiet_call (q := .setsockopt) trivial).bind fun ret => .ite trivial ?_
  exact initSockAddr_quiet.bind fun _ => trivial

/-- What is quiet may be done before anything has been sent or received. -/
theorem Quiet.follows {D : Protocol Phase SysCall SysAnswer} {Q : β → Phase → Prop}
    (hallowed : ∀ q, quiet.allowed () q → D.allowed .start q ∧ ∀ a, D.next .start q a = .start)
    (hQ : ∀ b, Q b .start) {x : IpcProc β} (hx : Quiet x) : D.Follows Q x .start := by
  induction x with
  | done b => exact hQ b
  | fault => trivial
  | ask q cont ih =>
      obtain ⟨hq, hnext⟩ := hallowed q hx.1
      refine ⟨hq, fun a _ => ?_⟩
      rw [hnext a]
      exact ih a (hx.2 a trivial)

end Quiet

theorem quiet_client (q : SysCall) (h : quiet.allowed () q) :
    (clientProtocol N k c).allowed .start q ∧
      ∀ a, (clientProtocol N k c).next .start q a = .start := by
  cases q with
  | sendto self data dest => exact h.elim
  | recvfrom self => exact h.elim
  | _ => exact ⟨trivial, fun _ => rfl⟩

theorem quiet_server (q : SysCall) (h : quiet.allowed () q) :
    (serverProtocol N c).allowed .start q ∧ ∀ a, (serverProtocol N c).next .start q a = .start := by
  cases q with
  | sendto self data dest => exact h.elim
  | recvfrom self => exact h.elim
  | _ => exact ⟨trivial, fun _ => rfl⟩

theorem ipcSendRecv_follows (pstTx pstRx : IpcSk) :
    (clientProtocol N k (.ipcSendRecv pstTx pstRx)).Follows (ClientReturns N)
      (ipcSendRecv (N.client k) pstTx pstRx N.server) .start := by
  have hsend : (clientProtocol N k (.ipcSendRecv pstTx pstRx)).Follows
      (fun ret m => m = .sent ∨ m = .start ∧ ret = -1) (ipcSend (N.client k) pstTx N.server)
      .start := by
    refine ⟨⟨rfl, rfl, rfl⟩, fun sendSize _ => ?_⟩
    by_cases hret : sendSize.ret = -1 <;> simp [clientProtocol, hret]
  refine hsend.bind fun ret m hm => ?_
  by_cases hret : ret > 0
  · obtain rfl : m = .sent := hm.resolve_right fun h => by omega
    rw [if_pos hret, ipcRecv_eq]
    refine ⟨rfl, fun a ha => ?_⟩
    obtain ⟨_, _ | d⟩ := a
    · exact ⟨rfl, fun h => absurd h (by decide)⟩
    · exact ⟨ha d rfl, fun _ => ⟨d, rfl, rfl⟩⟩
  · rw [if_neg hret]
    exact ⟨rfl, fun h => absurd h (by decide)⟩

theorem ipcRecvSend_follows (pstTx : IpcSk) (pstSockAddr : CStr) :
    (serverProtocol N (.ipcRecvSend pstTx pstSockAddr)).Follows ServerReturns
      (ipcRecvSend N.server pstTx pstSockAddr) .start := by
  rw [ipcRecvSend, ipcRecv_eq]
  refine ⟨rfl, fun a _ => ?_⟩
  obtain ⟨_, _ | d⟩ := a
  · exact fun h => absurd h (by decide)
  show (serverProtocol N (.ipcRecvSend pstTx pstSockAddr)).Follows ServerReturns
    (if enCmd d.data = enCmd pstTx then
      (ipcSend N.server pstTx d.source).bind fun sent =>
        if sent > 0 then .done (.exchanged 0 d.data d.source)
        else .done (.exchanged (-1) d.data d.source)
    else .done (.exchanged (-1) d.data d.source)) (.got d)
  by_cases hcmd : enCmd d.data = enCmd pstTx
  · have hsend : (serverProtocol N (.ipcRecvSend pstTx pstSockAddr)).Follows
        (fun ret m => m = .replied d ∨ m = .got d ∧ ret = -1) (ipcSend N.server pstTx d.source)
        (.got d) := by
      refine ⟨⟨rfl, rfl, hcmd.symm, rfl⟩, fun sendSize _ => ?_⟩
      by_cases hret : sendSize.ret = -1 <;> simp [serverProtocol, hret]
    rw [if_pos hcmd]
    refine hsend.bind fun ret m hm => ?_
    by_cases hret : ret > 0
    · obtain rfl : m = .replied d := hm.resolve_right fun h => by omega
      rw [if_pos hret]
      exact fun _ => ⟨d, rfl, rfl, rfl⟩
    · rw [if_neg hret]
      exact fun h => absurd h (by decide)
  · rw [if_neg hcmd]
    exact fun h => absurd h (by decide)

/-- A client keeps to its protocol. -/
theorem client_follows (N : Endpoints C CStr) (k : C) (c : SkCall) :
    (clientProtocol N k c).Follows (ClientReturns N) (body N (.client k) c) .start := by
  cases c with
  | creatSkClient =>
      have hquiet : (clientProtocol N k .creatSkClient).Follows (fun _ _ => True)
          (creatSkClient (N.client k)) .start :=
        (creatSkClient_quiet _).follows quiet_client fun _ => trivial
      exact hquiet.bind fun _ _ _ => trivial
  | ipcSendRecv pstTx pstRx => exact ipcSendRecv_follows pstTx pstRx
  | _ => trivial

/-- The server keeps to its protocol. -/
theorem server_follows (N : Endpoints C CStr) (c : SkCall) :
    (serverProtocol N c).Follows ServerReturns (body N .server c) .start := by
  cases c with
  | creatSkServer =>
      have hquiet : (serverProtocol N .creatSkServer).Follows (fun _ _ => True)
          (creatSkServer N.server) .start :=
        (creatSkServer_quiet _).follows quiet_server fun _ => trivial
      exact hquiet.bind fun _ _ _ => trivial
  | ipcRecvSend pstTx pstSockAddr => exact ipcRecvSend_follows pstTx pstSockAddr
  | _ => trivial

/-! ## Turns -/

/-- The request that a call has not sent yet. -/
def Phase.unsent (c : SkCall) : Phase → List IpcSk
  | .start => c.request
  | _ => []

/-- The reply that a client has received and not returned yet. -/
def Phase.held : Phase → List IpcSk
  | .got d => [d.data]
  | _ => []

/-- The request that is in the hand of the server. -/
def Phase.hand : Phase → Option (Datagram CStr IpcSk)
  | .got d => some d
  | _ => none

/-- The request from a name that the server has received and not returned yet. -/
def Phase.heldFor (name : CStr) : Phase → List IpcSk
  | .got d | .replied d => if d.source = name then [d.data] else []
  | _ => []

variable {P P' : Progress C CStr IpcSk} {s s' : Ledger CStr IpcSk}
  {m m' : Phase} {q : SysCall} {a : SysAnswer} {ok : Bool} {state : Net CStr IpcSk}

/-- How a turn of a client changes what has been done. -/
structure ClientTurn (N : Endpoints C CStr) (k : C) (c : SkCall) (m m' : Phase)
    (P P' : Progress C CStr IpcSk) (s s' : Ledger CStr IpcSk) : Prop where
  talk : Conversations N enCmd P' s'
  hand : P'.hand = P.hand
  offered : P'.offered = P.offered
  taken : P'.taken = P.taken
  sent : s'.sent (N.client k) ++ m'.unsent c = s.sent (N.client k) ++ m.unsent c
  answered : ∃ new, (P'.answered k).map Prod.snd = (P.answered k).map Prod.snd ++ new ∧
    m'.held = m.held ++ new
  others : ∀ k', k' ≠ k → s'.sent (N.client k') = s.sent (N.client k') ∧
    P'.answered k' = P.answered k'

/-- A turn that only loses datagrams. -/
theorem ClientTurn.lose (h : Conversations N enCmd P s') (hsent : s'.sent = s.sent) :
    ClientTurn N k c m m P P s s' where
  talk := h
  hand := rfl
  offered := rfl
  taken := rfl
  sent := by rw [hsent]
  answered := ⟨[], by simp, by simp⟩
  others _ _ := ⟨by rw [hsent], rfl⟩

/-- How a turn of the server changes what has been done. -/
structure ServerTurn (N : Endpoints C CStr) (c : SkCall) (m m' : Phase)
    (P P' : Progress C CStr IpcSk) (s s' : Ledger CStr IpcSk) : Prop where
  talk : Conversations N enCmd P' s'
  hand : P'.hand.map Tagged.toDatagram = m'.hand
  offered : ∀ x ∈ P'.offered, x ∈ P.offered ∨ x ∈ c.offer
  answered : P'.answered = P.answered
  sent : s'.sent = s.sent
  taken : ∀ k, ∃ new, P'.taken k = P.taken k ++ new ∧
    m'.heldFor (N.client k) = m.heldFor (N.client k) ++ new
  source : ∀ d, m' = .replied d → ∃ k, d.source = N.client k

/-- A turn that only loses datagrams. -/
theorem ServerTurn.lose (h : Conversations N enCmd P s')
    (hhand : P.hand.map Tagged.toDatagram = m.hand) (hm : ∀ d, m ≠ .replied d)
    (hsent : s'.sent = s.sent) : ServerTurn N c m m P P s s' where
  talk := h
  hand := hhand
  offered _ hx := .inl hx
  answered := rfl
  sent := hsent
  taken _ := ⟨[], by simp, by simp⟩
  source d hd := absurd hd (hm d)

/-- The system serves a quiet call. -/
theorem serve_quiet (h : Conversations N enCmd P s)
    (hserve : s.net.serve (fun m => m.1.length) q true = some (a, state))
    (hq : quiet.allowed () q) :
    a.datagram = none ∧ ∃ s', s'.net = state ∧ s'.sent = s.sent ∧ Conversations N enCmd P s' := by
  cases q with
  | sendto self data dest => exact hq.elim
  | recvfrom self => exact hq.elim
  | unlink name =>
      cases hserve
      exact ⟨rfl, s.rebind name none, s.net_rebind name none, rfl, h.rebind name rfl⟩
  | bind name =>
      simp only [Net.serve] at hserve
      split at hserve
      case h_2 => cases hserve
      case h_1 hfree =>
        cases hserve
        exact ⟨rfl, s.rebind name (some []), s.net_rebind name _, rfl, h.rebind name rfl⟩
  | _ =>
      cases hserve
      exact ⟨rfl, s, rfl, rfl, h⟩

/-- A client sends its request. -/
theorem client_sends (h : Conversations N enCmd P s) {data : IpcSk} (hrequest : c.request = [data])
    (hserve : s.net.serve (fun m => m.1.length) (.sendto (N.client k) data N.server) true =
      some (a, state)) :
    a = ⟨sizeofIpcSk, none⟩ ∧ ∃ s', s'.net = state ∧ ClientTurn N k c .start .sent P P s s' := by
  simp only [Net.serve] at hserve
  split at hserve
  case h_2 => cases hserve
  case h_1 own queue hown hqueue =>
    obtain ⟨q, hq, rfl⟩ := Ledger.inbox_of_net hqueue
    cases hserve
    refine ⟨by rw [data.2], Conversations.asked s (N.client k) data N.server q, ?_, ?_⟩
    · exact (s.record (N.client k) data).net_deliver _ _ _
    · refine ⟨h.request hq k data, rfl, rfl, rfl, ?_, ⟨[], by simp, rfl⟩, fun k' hk' => ⟨?_, rfl⟩⟩
      · have hsent : (Conversations.asked s (N.client k) data N.server q).sent (N.client k) =
            s.sent (N.client k) ++ [data] := Ledger.sent_record_self
        rw [hsent, show Phase.unsent c .sent = [] from rfl, List.append_nil,
          show Phase.unsent c .start = [data] from hrequest]
      · exact Ledger.sent_record_of_ne fun heq => hk' (N.injective heq)

/-- The server replies. -/
theorem server_replies (h : Conversations N enCmd P s) {d : Datagram CStr IpcSk} {data : IpcSk}
    (hhand : P.hand.map Tagged.toDatagram = some d) (hcmd : enCmd data = enCmd d.data)
    (hoffer : c.offer = [data])
    (hserve : s.net.serve (fun m => m.1.length) (.sendto N.server data d.source) true =
      some (a, state)) :
    a = ⟨sizeofIpcSk, none⟩ ∧ ∃ P' s', s'.net = state ∧
      ServerTurn N c (.got d) (.replied d) P P' s s' := by
  obtain ⟨t, ht, rfl⟩ := Option.map_eq_some_iff.mp hhand
  obtain ⟨k, hsource⟩ := h.of_hand ht
  simp only [Net.serve] at hserve
  split at hserve
  case h_2 => cases hserve
  case h_1 own queue hown hqueue =>
    rw [hsource] at hqueue
    obtain ⟨q, hq, rfl⟩ := Ledger.inbox_of_net hqueue
    cases hserve
    refine ⟨by rw [data.2], P.offer data, s.deliver (t.reply N.server data) (N.client k) q, ?_,
      h.sendReply ht hsource hq hcmd, rfl, ?_, rfl, rfl,
      fun k' => ⟨[], by simp [Progress.offer], ?_⟩, ?_⟩
    · rw [hsource]
      exact s.net_deliver _ _ _
    · intro x hx
      rw [hoffer]
      exact (List.mem_cons.mp hx).symm.imp id List.mem_singleton.mpr
    · rw [List.append_nil]
      rfl
    · rintro d' ⟨⟩
      exact ⟨k, hsource⟩

variable [DecidableEq C]

/-- A client receives a reply. -/
theorem client_receives (h : Conversations N enCmd P s)
    (hserve : s.net.serve (fun m => m.1.length) (.recvfrom (N.client k)) true = some (a, state)) :
    ∃ d, a.datagram = some d ∧ d.source = N.server ∧ ∃ P' s', s'.net = state ∧
      ClientTurn N k c .sent (.got d) P P' s s' := by
  simp only [Net.serve] at hserve
  split at hserve
  case h_2 => cases hserve
  case h_1 d queue hown =>
    obtain ⟨q, hq, hmap⟩ := Ledger.inbox_of_net hown
    obtain ⟨t, q, rfl, rfl, rfl⟩ := List.map_eq_cons_iff.mp hmap
    cases hserve
    obtain ⟨hsource, htalk⟩ := h.takeReply hq
    refine ⟨t.toDatagram, rfl, hsource, P.answer k t, s.rebind (N.client k) (some q),
      s.net_rebind _ _, htalk, rfl, rfl, rfl, by simp [Phase.unsent], ⟨[t.data], ?_, rfl⟩,
      fun k' hk' => ⟨rfl, Function.update_of_ne hk' _ _⟩⟩
    simp [Progress.answer]

/-- What a turn of a client does. -/
theorem client_turn (h : Conversations N enCmd P s)
    (hallowed : (clientProtocol N k c).allowed m q)
    (hserve : s.net.serve (fun m => m.1.length) q ok = some (a, state)) :
    (clientProtocol N k c).answers m q a ∧ ∃ P' s', s'.net = state ∧
      ClientTurn N k c m ((clientProtocol N k c).next m q a) P P' s s' := by
  cases ok with
  | false =>
      have hnext : (clientProtocol N k c).next m q ⟨-1, none⟩ = m := by
        cases m <;> cases q <;> rfl
      cases hserve
      rw [hnext]
      exact ⟨nofun, P, s, rfl, .lose h rfl⟩
  | true =>
      cases m with
      | start =>
          cases q with
          | sendto self data dest =>
              obtain ⟨rfl, rfl, hrequest⟩ := hallowed
              obtain ⟨rfl, s', hnet, hturn⟩ := client_sends h hrequest hserve
              exact ⟨nofun, P, s', hnet, hturn⟩
          | recvfrom self => exact hallowed.elim
          | _ =>
              obtain ⟨hnone, s', hnet, hsent, htalk⟩ := serve_quiet h hserve trivial
              refine ⟨fun d hd => ?_, P, s', hnet, .lose htalk hsent⟩
              rw [hnone] at hd
              cases hd
      | sent =>
          cases q with
          | recvfrom self =>
              obtain rfl := hallowed
              obtain ⟨d, hd, hsource, P', s', hnet, hturn⟩ := client_receives h hserve
              refine ⟨fun d' hd' => ?_, P', s', hnet, ?_⟩
              · obtain rfl := Option.some.inj (hd.symm.trans hd')
                exact hsource
              · have hnext : (clientProtocol N k c).next .sent (.recvfrom (N.client k)) a =
                    .got d := by simp [clientProtocol, hd]
                rw [hnext]
                exact hturn
          | _ => exact hallowed.elim
      | got d => cases q <;> exact hallowed.elim
      | replied d => cases q <;> exact hallowed.elim

/-- The server receives a request. -/
theorem server_receives (h : Conversations N enCmd P s) (hhand : P.hand = none)
    (hserve : s.net.serve (fun m => m.1.length) (.recvfrom N.server) true = some (a, state)) :
    ∃ d, a.datagram = some d ∧ ∃ P' s', s'.net = state ∧
      ServerTurn N c .start (.got d) P P' s s' := by
  simp only [Net.serve] at hserve
  split at hserve
  case h_2 => cases hserve
  case h_1 d queue hown =>
    obtain ⟨q, hq, hmap⟩ := Ledger.inbox_of_net hown
    obtain ⟨t, q, rfl, rfl, rfl⟩ := List.map_eq_cons_iff.mp hmap
    cases hserve
    obtain ⟨k, hsource, -⟩ := h.requests t (by simp [hhand, Ledger.queue_of_inbox hq])
    refine ⟨t.toDatagram, rfl, P.take k t, s.rebind N.server (some q), s.net_rebind _ _,
      h.takeRequest hhand hsource hq, rfl, fun x hx => .inl hx, rfl, rfl, fun k' => ?_, nofun⟩
    by_cases hk : k' = k
    · subst hk
      exact ⟨[t.data], by simp [Progress.take], by simp [Phase.heldFor, hsource]⟩
    · have hother : ¬ t.source = N.client k' := fun heq => hk (N.injective (heq.symm.trans hsource))
      exact ⟨[], by simp [Progress.take, hk], by simp [Phase.heldFor, hother]⟩

/-- What a turn of the server does. -/
theorem server_turn (h : Conversations N enCmd P s) (hhand : P.hand.map Tagged.toDatagram = m.hand)
    (hallowed : (serverProtocol N c).allowed m q)
    (hserve : s.net.serve (fun m => m.1.length) q ok = some (a, state)) :
    ∃ P' s', s'.net = state ∧
      ServerTurn N c m ((serverProtocol N c).next m q a) P P' s s' := by
  have hm : ∀ d, m ≠ .replied d := by
    rintro d rfl
    cases q <;> exact hallowed
  cases ok with
  | false =>
      have hnext : (serverProtocol N c).next m q ⟨-1, none⟩ = m := by
        cases m <;> cases q <;> rfl
      cases hserve
      rw [hnext]
      exact ⟨P, s, rfl, .lose h hhand hm rfl⟩
  | true =>
      cases m with
      | start =>
          cases q with
          | sendto self data dest => exact hallowed.elim
          | recvfrom self =>
              obtain rfl := hallowed
              obtain ⟨d, hd, P', s', hnet, hturn⟩ :=
                server_receives h (Option.map_eq_none_iff.mp hhand) hserve
              have hnext : (serverProtocol N c).next .start (.recvfrom N.server) a = .got d := by
                simp [serverProtocol, hd]
              rw [hnext]
              exact ⟨P', s', hnet, hturn⟩
          | _ =>
              obtain ⟨-, s', hnet, hsent, htalk⟩ := serve_quiet h hserve trivial
              exact ⟨P, s', hnet, .lose htalk hhand hm hsent⟩
      | got d =>
          cases q with
          | sendto self data dest =>
              obtain ⟨rfl, rfl, hcmd, hoffer⟩ := hallowed
              obtain ⟨rfl, P', s', hnet, hturn⟩ := server_replies h hhand hcmd hoffer hserve
              exact ⟨P', s', hnet, hturn⟩
          | _ => exact hallowed.elim
      | sent => cases q <;> exact hallowed.elim
      | replied d => exact absurd rfl (hm d)

end BcmUtils.IpcNetwork
