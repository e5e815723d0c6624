import BcmUtils.Verification.IpcNetwork.Names
import BcmUtils.Verification.IpcNetwork.Turns

/-! # Which replies the clients get

However the system calls of a server and its clients come one after the other, and whichever of
them fail, the replies that a client gets answer some of its own requests, in order. -/

namespace BcmUtils.IpcNetwork

open CLib Ipc

variable {C : Type}

/-! ## What has been seen -/

abbrev SkSeen (C : Type) := Seen (Party C) SkCall SkResult

abbrev SkWorld (C : Type) := World (Party C) SkCall (IpcProc SkResult) SkResult (Net CStr IpcSk)

/-- What has been seen of one kind, in order. -/
def history {α : Type} (f : SkSeen C → Option α) (seen : List (SkSeen C)) : List α :=
  (seen.filterMap f).reverse

theorem history_cons {α : Type} (f : SkSeen C → Option α) (x : SkSeen C) (seen : List (SkSeen C)) :
    history f (x :: seen) = history f seen ++ (f x).toList := by
  cases hx : f x <;> simp [history, hx]

theorem history_cons_of_none {α : Type} {f : SkSeen C → Option α} {x : SkSeen C}
    (h : f x = none) (seen : List (SkSeen C)) : history f (x :: seen) = history f seen := by
  rw [history_cons, h, Option.toList_none, List.append_nil]

/-- The reply that a call of the server has ready. -/
def offeredBy : SkSeen C → Option IpcSk
  | .called .server (.ipcRecvSend pstTx _) => some pstTx
  | _ => none

/-- What the server has got from a name when it returns successfully. -/
def servedFor (name : CStr) : SkSeen C → Option IpcSk
  | .returned .server _ (.exchanged ret pstRx pstSockAddr) =>
      if ret = 0 ∧ pstSockAddr = name then some pstRx else none
  | _ => none

section Clients

variable [DecidableEq C]

/-- The request of a call of a client. -/
def askedBy (k : C) : SkSeen C → Option IpcSk
  | .called (.client k') (.ipcSendRecv pstTx _) => if k' = k then some pstTx else none
  | _ => none

/-- What a client has got when it returns successfully. -/
def repliedTo (k : C) : SkSeen C → Option IpcSk
  | .returned (.client k') _ (.exchanged ret pstRx _) =>
      if k' = k ∧ ret = 0 then some pstRx else none
  | _ => none

theorem askedBy_called (k : C) (c : SkCall) :
    (askedBy k (.called (.client k) c)).toList = c.request := by
  cases c <;> simp [askedBy, SkCall.request]

theorem askedBy_called_of_ne {k k' : C} (h : k' ≠ k) (c : SkCall) :
    askedBy k (.called (.client k') c) = none := by
  cases c <;> simp [askedBy, h]

theorem repliedTo_returned_of_ne {k k' : C} (h : k' ≠ k) (c : SkCall) (b : SkResult) :
    repliedTo k (.returned (.client k') c b) = none := by
  cases b <;> simp [repliedTo, h]

end Clients

theorem offeredBy_called (c : SkCall) :
    (offeredBy (.called (.server : Party C) c)).toList = c.offer := by
  cases c <;> rfl

/-- The address that an exchange leaves: that of the server for a client, and that of a client for a
server that has succeeded. -/
def Addressed (N : Endpoints C CStr) : SkSeen C → Prop
  | .returned (.client _) _ (.exchanged _ _ pstSockAddr) => pstSockAddr = N.server
  | .returned .server _ (.exchanged ret _ pstSockAddr) => ret = 0 → ∃ k, pstSockAddr = N.client k
  | _ => True

/-! ## Where the calls stand -/

/-- The call of a client, its requests so far, those among them that have been sent, the replies
that it has taken and those among them that have been returned. -/
def ClientAt (N : Endpoints C CStr) (k : C) (asked sent answered replied : List IpcSk) :
    Option (SkCall × IpcProc SkResult) → Prop
  | none => sent.Sublist asked ∧ replied.Sublist answered
  | some (c, x) => ∃ m, (clientProtocol N k c).Follows (ClientReturns N) x m ∧
      (sent ++ m.unsent c).Sublist asked ∧ (replied ++ m.held).Sublist answered

/-- The call of the server, its replies so far, the request in its hand, the requests of each client
that it has taken and those among them that have been returned. -/
def ServerAt (N : Endpoints C CStr) (offers : List IpcSk) (hand : Option (Datagram CStr IpcSk))
    (taken served : C → List IpcSk) : Option (SkCall × IpcProc SkResult) → Prop
  | none => hand = none ∧ ∀ k, (served k).Sublist (taken k)
  | some (c, x) => (∀ y ∈ c.offer, y ∈ offers) ∧
      ∃ m, (serverProtocol N c).Follows ServerReturns x m ∧ hand = m.hand ∧
        (∀ k, (served k ++ m.heldFor (N.client k)).Sublist (taken k)) ∧
        ∀ d, m = .replied d → ∃ k, d.source = N.client k

variable {N : Endpoints C CStr} {k : C}

theorem ClientAt.idle {asked sent answered replied : List IpcSk}
    {pending : Option (SkCall × IpcProc SkResult)}
    (h : ClientAt N k asked sent answered replied pending) :
    ClientAt N k asked sent answered replied none := by
  cases pending with
  | none => exact h
  | some call =>
      obtain ⟨m, -, hsent, hreplied⟩ := h
      exact ⟨(List.sublist_append_left _ _).trans hsent,
        (List.sublist_append_left _ _).trans hreplied⟩

theorem ServerAt.idle {offers : List IpcSk} {hand : Option (Datagram CStr IpcSk)}
    {taken served : C → List IpcSk} {pending : Option (SkCall × IpcProc SkResult)}
    (h : ServerAt N offers hand taken served pending) :
    ServerAt N offers none taken served none := by
  cases pending with
  | none => exact ⟨rfl, h.2⟩
  | some call =>
      obtain ⟨-, m, -, -, hserved, -⟩ := h
      exact ⟨rfl, fun k => (List.sublist_append_left _ _).trans (hserved k)⟩

variable [DecidableEq C]

/-- What has been seen agrees with what has been done. -/
structure Sound (N : Endpoints C CStr) (pending : Party C → Option (SkCall × IpcProc SkResult))
    (state : Net CStr IpcSk) (seen : List (SkSeen C)) (P : Progress C CStr IpcSk)
    (s : Ledger CStr IpcSk) : Prop where
  net : s.net = state
  talk : Conversations N enCmd P s
  client : ∀ k, ClientAt N k (history (askedBy k) seen) (s.sent (N.client k))
    ((P.answered k).map Prod.snd) (history (repliedTo k) seen) (pending (.client k))
  server : ServerAt N (history offeredBy seen) (P.hand.map Tagged.toDatagram) P.taken
    (fun k => history (servedFor (N.client k)) seen) (pending .server)
  offered : ∀ y ∈ P.offered, y ∈ history offeredBy seen
  addressed : ∀ x ∈ seen, Addressed N x

theorem sound_start (N : Endpoints C CStr) :
    Sound N (fun _ => none) (fun _ => none) [] Progress.start Ledger.start where
  net := rfl
  talk := .start
  client _ := ⟨List.Sublist.refl _, List.Sublist.refl _⟩
  server := ⟨rfl, fun _ => List.Sublist.refl _⟩
  offered _ hy := by cases hy
  addressed _ hx := by cases hx

variable {pending : Party C → Option (SkCall × IpcProc SkResult)} {state state' : Net CStr IpcSk}
  {seen seen' : List (SkSeen C)} {P P' : Progress C CStr IpcSk} {s s' : Ledger CStr IpcSk}
  {y : Option (SkCall × IpcProc SkResult)}

/-! ### Clients -/

/-- What has been seen since concerns one client. -/
structure ClientSaw (k : C) (seen seen' : List (SkSeen C)) : Prop where
  asked : ∀ k', k' ≠ k → history (askedBy k') seen' = history (askedBy k') seen
  replied : ∀ k', k' ≠ k → history (repliedTo k') seen' = history (repliedTo k') seen
  offered : history offeredBy seen' = history offeredBy seen
  served : ∀ name, history (servedFor name) seen' = history (servedFor name) seen

theorem ClientSaw.refl (k : C) (seen : List (SkSeen C)) : ClientSaw k seen seen :=
  ⟨fun _ _ => rfl, fun _ _ => rfl, rfl, fun _ => rfl⟩

theorem ClientSaw.called (k : C) (c : SkCall) (seen : List (SkSeen C)) :
    ClientSaw k seen (.called (.client k) c :: seen) where
  asked _ h := history_cons_of_none (askedBy_called_of_ne h.symm c) seen
  replied _ _ := history_cons_of_none rfl seen
  offered := history_cons_of_none rfl seen
  served _ := history_cons_of_none rfl seen

theorem ClientSaw.returned (k : C) (c : SkCall) (b : SkResult) (seen : List (SkSeen C)) :
    ClientSaw k seen (.returned (.client k) c b :: seen) where
  asked _ _ := history_cons_of_none rfl seen
  replied _ h := history_cons_of_none (repliedTo_returned_of_ne h.symm c b) seen
  offered := history_cons_of_none rfl seen
  served _ := history_cons_of_none rfl seen

theorem ClientSaw.ended (k : C) (p : Party C) (seen : List (SkSeen C)) :
    ClientSaw k seen (.ended p :: seen) where
  asked _ _ := history_cons_of_none rfl seen
  replied _ _ := history_cons_of_none rfl seen
  offered := history_cons_of_none rfl seen
  served _ := history_cons_of_none rfl seen

/-- Something happens to one client. -/
theorem Sound.move_client (h : Sound N pending state seen P s) {c : SkCall} {m m' : Phase}
    (hturn : ClientTurn N k c m m' P P' s s') (hnet : s'.net = state')
    (hsaw : ClientSaw k seen seen')
    (hk : ClientAt N k (history (askedBy k) seen') (s'.sent (N.client k))
      ((P'.answered k).map Prod.snd) (history (repliedTo k) seen') y)
    (haddressed : ∀ x ∈ seen', Addressed N x) :
    Sound N (Function.update pending (.client k) y) state' seen' P' s' where
  net := hnet
  talk := hturn.talk
  client k' := by
    by_cases hne : k' = k
    · subst hne
      rw [Function.update_self]
      exact hk
    · have hparty : Party.client k' ≠ Party.client k := fun heq => hne (Party.client.inj heq)
      obtain ⟨hsent, hanswered⟩ := hturn.others k' hne
      rw [Function.update_of_ne hparty, hsent, hanswered, hsaw.asked k' hne, hsaw.replied k' hne]
      exact h.client k'
  server := by
    have hparty : Party.server ≠ Party.client k := nofun
    rw [Function.update_of_ne hparty, hturn.hand, hturn.taken, hsaw.offered]
    simp only [hsaw.served]
    exact h.server
  offered := by
    rw [hturn.offered, hsaw.offered]
    exact h.offered
  addressed := haddressed

/-! ### The server -/

/-- What has been seen since concerns the server. -/
structure ServerSaw (seen seen' : List (SkSeen C)) : Prop where
  asked : ∀ k, history (askedBy k) seen' = history (askedBy k) seen
  replied : ∀ k, history (repliedTo k) seen' = history (repliedTo k) seen

theorem ServerSaw.refl (seen : List (SkSeen C)) : ServerSaw seen seen :=
  ⟨fun _ => rfl, fun _ => rfl⟩

theorem ServerSaw.called (c : SkCall) (seen : List (SkSeen C)) :
    ServerSaw seen (.called .server c :: seen) where
  asked _ := history_cons_of_none rfl seen
  replied _ := history_cons_of_none rfl seen

theorem ServerSaw.returned (c : SkCall) (b : SkResult) (seen : List (SkSeen C)) :
    ServerSaw seen (.returned .server c b :: seen) where
  asked _ := history_cons_of_none rfl seen
  replied _ := history_cons_of_none rfl seen

theorem ServerSaw.ended (seen : List (SkSeen C)) : ServerSaw seen (.ended .server :: seen) where
  asked _ := history_cons_of_none rfl seen
  replied _ := history_cons_of_none rfl seen

/-- Something happens to the server. -/
theorem Sound.move_server (h : Sound N pending state seen P s)
    (htalk : Conversations N enCmd P' s') (hsent : s'.sent = s.sent)
    (hanswered : P'.answered = P.answered) (hnet : s'.net = state') (hsaw : ServerSaw seen seen')
    (hserver : ServerAt N (history offeredBy seen') (P'.hand.map Tagged.toDatagram) P'.taken
      (fun k => history (servedFor (N.client k)) seen') y)
    (hoffered : ∀ y ∈ P'.offered, y ∈ history offeredBy seen')
    (haddressed : ∀ x ∈ seen', Addressed N x) :
    Sound N (Function.update pending .server y) state' seen' P' s' where
  net := hnet
  talk := htalk
  client k := by
    have hparty : Party.client k ≠ Party.server := nofun
    rw [Function.update_of_ne hparty, hsent, hanswered, hsaw.asked k, hsaw.replied k]
    exact h.client k
  server := by
    rw [Function.update_self]
    exact hserver
  offered := hoffered
  addressed := haddressed

/-! ## Steps -/

theorem addressed_cons {x : SkSeen C} (h : Sound N pending state seen P s) (hx : Addressed N x) :
    ∀ x' ∈ x :: seen, Addressed N x' := by
  intro x' hx'
  cases hx' with
  | head => exact hx
  | tail _ hx' => exact h.addressed x' hx'

/-- A process makes a call. -/
theorem Sound.call (h : Sound N pending state seen P s) (p : Party C) (c : SkCall)
    (hidle : pending p = none) :
    Sound N (Function.update pending p (some (c, body N p c))) state (.called p c :: seen) P s := by
  cases p with
  | client k =>
      have hk := h.client k
      rw [hidle] at hk
      refine h.move_client (.lose (m := .start) (c := c) h.talk rfl) h.net (.called k c seen)
        ⟨.start, client_follows N k c, ?_, ?_⟩ (addressed_cons h trivial)
      · rw [history_cons, askedBy_called]
        exact hk.1.append (List.Sublist.refl _)
      · rw [history_cons_of_none rfl, show Phase.start.held = [] from rfl, List.append_nil]
        exact hk.2
  | server =>
      have hserver := h.server
      rw [hidle] at hserver
      refine h.move_server h.talk rfl rfl h.net (.called c seen)
        ⟨fun y hy => ?_, .start, server_follows N c, hserver.1, fun k => ?_, nofun⟩ (fun y hy => ?_)
        (addressed_cons h trivial)
      · rw [history_cons, offeredBy_called]
        exact List.mem_append_right _ hy
      · have hsame : history (servedFor (N.client k)) (.called .server c :: seen) =
            history (servedFor (N.client k)) seen := history_cons_of_none rfl seen
        beta_reduce
        rw [hsame, show Phase.start.heldFor (N.client k) = [] from rfl, List.append_nil]
        exact hserver.2 k
      · rw [history_cons]
        exact List.mem_append_left _ (h.offered y hy)

/-- A system call of a process is served. -/
theorem Sound.turn (h : Sound N pending state seen P s) (p : Party C) {c : SkCall} {q : SysCall}
    {cont : SysAnswer → IpcProc SkResult} {ok : Bool} {a : SysAnswer}
    (hp : pending p = some (c, .ask q cont))
    (hserve : state.serve (fun m : IpcSk => (m.1.length : ℤ)) q ok = some (a, state')) :
    ∃ P' s', Sound N (Function.update pending p (some (c, cont a))) state' seen P' s' := by
  rw [← h.net] at hserve
  cases p with
  | client k =>
      have hk := h.client k
      rw [hp] at hk
      obtain ⟨m, ⟨hallowed, hfollows⟩, hsent, hreplied⟩ := hk
      obtain ⟨ha, P', s', hnet, hturn⟩ := client_turn h.talk hallowed hserve
      obtain ⟨new, hnew, hheld⟩ := hturn.answered
      refine ⟨P', s', h.move_client hturn hnet (.refl k seen) ⟨_, hfollows a ha, ?_, ?_⟩
        h.addressed⟩
      · rw [hturn.sent]
        exact hsent
      · rw [hnew, hheld, ← List.append_assoc]
        exact hreplied.append (List.Sublist.refl _)
  | server =>
      have hserver := h.server
      rw [hp] at hserver
      obtain ⟨hoffers, m, ⟨hallowed, hfollows⟩, hhand, hserved, -⟩ := hserver
      obtain ⟨P', s', hnet, hturn⟩ := server_turn h.talk hhand hallowed hserve
      refine ⟨P', s', h.move_server hturn.talk hturn.sent hturn.answered hnet (.refl seen)
        ⟨hoffers, _, hfollows a trivial, hturn.hand, fun k => ?_, hturn.source⟩ (fun y hy => ?_)
        h.addressed⟩
      · obtain ⟨new, hnew, hheld⟩ := hturn.taken k
        rw [hnew, hheld, ← List.append_assoc]
        exact (hserved k).append (List.Sublist.refl _)
      · exact (hturn.offered y hy).elim (h.offered y) (hoffers y)

omit [DecidableEq C] in
/-- The server returns what it holds. -/
theorem servedFor_sublist {b : SkResult} {m : Phase} (h : ServerReturns b m) (c : SkCall)
    (name : CStr) :
    (servedFor name (.returned (.server : Party C) c b)).toList.Sublist (m.heldFor name) := by
  cases b with
  | created ret => exact List.nil_sublist _
  | exchanged ret pstRx pstSockAddr =>
      rw [servedFor]
      split
      case isFalse => exact List.nil_sublist _
      case isTrue hret =>
        obtain ⟨d, rfl, rfl, rfl⟩ := h hret.1
        simp [Phase.heldFor, hret.2]

/-- A client returns what it holds. -/
theorem repliedTo_sublist {b : SkResult} {m : Phase} (h : ClientReturns N b m) (c : SkCall) :
    (repliedTo k (.returned (.client k) c b)).toList.Sublist m.held := by
  cases b with
  | created ret => exact List.nil_sublist _
  | exchanged ret pstRx pstSockAddr =>
      rw [repliedTo]
      split
      case isFalse => exact List.nil_sublist _
      case isTrue hret =>
        obtain ⟨d, rfl, rfl⟩ := h.2 hret.2
        exact List.Sublist.refl _

/-- A call returns. -/
theorem Sound.ret (h : Sound N pending state seen P s) (p : Party C) {c : SkCall} {b : SkResult}
    (hp : pending p = some (c, .done b)) :
    ∃ P', Sound N (Function.update pending p none) state (.returned p c b :: seen) P' s := by
  cases p with
  | client k =>
      have hk := h.client k
      rw [hp] at hk
      obtain ⟨m, hreturns, hsent, hreplied⟩ := hk
      refine ⟨P, h.move_client (.lose (m := m) (c := c) h.talk rfl) h.net (.returned k c b seen)
        ⟨?_, ?_⟩ (addressed_cons h ?_)⟩
      · rw [history_cons_of_none rfl]
        exact (List.sublist_append_left _ _).trans hsent
      · rw [history_cons]
        exact ((List.Sublist.refl _).append (repliedTo_sublist hreturns c)).trans hreplied
      · cases b with
        | created ret => trivial
        | exchanged ret pstRx pstSockAddr => exact hreturns.1
  | server =>
      have hserver := h.server
      rw [hp] at hserver
      obtain ⟨-, m, hreturns, -, hserved, hsource⟩ := hserver
      refine ⟨{ P with hand := none }, h.move_server h.talk.drop rfl rfl h.net
        (.returned c b seen) ⟨rfl, fun k => ?_⟩ (fun y hy => ?_) (addressed_cons h ?_)⟩
      · beta_reduce
        rw [history_cons]
        exact ((List.Sublist.refl _).append (servedFor_sublist hreturns c _)).trans (hserved k)
      · rw [history_cons_of_none rfl]
        exact h.offered y hy
      · cases b with
        | created ret => trivial
        | exchanged ret pstRx pstSockAddr =>
            intro hret
            obtain ⟨d, rfl, -, rfl⟩ := hreturns hret
            exact hsource d rfl

/-- A process ends. -/
theorem Sound.stop (h : Sound N pending state seen P s) (p : Party C) :
    ∃ P' s', Sound N (Function.update pending p none)
      (Function.update state (socketName N p) none) (.ended p :: seen) P' s' := by
  cases p with
  | client k =>
      have hnet : (s.rebind (N.client k) none).net = Function.update state (N.client k) none := by
        rw [s.net_rebind, h.net, Option.map_none]
      refine ⟨P, s.rebind (N.client k) none,
        h.move_client (.lose (m := .start) (c := .creatSkClient) (h.talk.rebind _ rfl) rfl) hnet
          (.ended k _ seen) ?_ (addressed_cons h trivial)⟩
      rw [history_cons_of_none rfl, history_cons_of_none rfl]
      exact (h.client k).idle
  | server =>
      have hnet : (s.rebind N.server none).net = Function.update state N.server none := by
        rw [s.net_rebind, h.net, Option.map_none]
      refine ⟨{ P with hand := none }, s.rebind N.server none,
        h.move_server (h.talk.rebind _ rfl).drop rfl rfl hnet (.ended seen) ⟨rfl, fun k => ?_⟩
          (fun y hy => ?_) (addressed_cons h trivial)⟩
      · beta_reduce
        rw [history_cons_of_none rfl]
        exact h.server.idle.2 k
      · rw [history_cons_of_none rfl]
        exact h.offered y hy

/-- Something happens. -/
theorem Sound.step {w w' : SkWorld C} (h : Sound N w.pending w.state w.seen P s)
    {x : Happening (Party C) SkCall Bool} (hx : (network N).step w x = some w') :
    ∃ P' s', Sound N w'.pending w'.state w'.seen P' s' := by
  cases x with
  | call p c =>
      simp only [Server.step] at hx
      split at hx
      case h_2 => cases hx
      case h_1 hidle =>
        cases hx
        exact ⟨P, s, h.call p c hidle⟩
  | turn p ok =>
      simp only [Server.step] at hx
      split at hx
      case h_2 => cases hx
      case h_1 c q cont hp =>
        obtain ⟨⟨a, state'⟩, hserve, rfl⟩ := Option.map_eq_some_iff.mp hx
        exact h.turn p hp hserve
  | ret p =>
      simp only [Server.step] at hx
      split at hx
      case h_2 => cases hx
      case h_1 c b hp =>
        cases hx
        obtain ⟨P', h'⟩ := h.ret p hp
        exact ⟨P', s, h'⟩
  | stop p =>
      cases hx
      exact h.stop p

/-- After any run. -/
theorem Sound.run {w w' : SkWorld C} (h : Sound N w.pending w.state w.seen P s)
    {xs : List (Happening (Party C) SkCall Bool)} (hxs : xs.foldlM (network N).step w = some w') :
    ∃ P' s', Sound N w'.pending w'.state w'.seen P' s' := by
  induction xs generalizing w P s with
  | nil =>
      cases hxs
      exact ⟨P, s, h⟩
  | cons x xs ih =>
      rw [List.foldlM_cons] at hxs
      obtain ⟨w₁, hx, hrest⟩ := Option.bind_eq_some_iff.mp hxs
      obtain ⟨P₁, s₁, h₁⟩ := h.step hx
      exact ih h₁ hrest

/-! ## Main result -/

/-- A server and clients whose names have their process numbers in them. -/
def pidEndpoints {C : Type} (path : List Byte) (server : CStr) (pid : C → BitVec 32)
    (hpid : Function.Injective fun k => (pid k).setWidth 16)
    (hserver : ∀ k, nameWithPid path (pid k) ≠ server) : Endpoints C CStr where
  server := server
  client k := nameWithPid path (pid k)
  injective _ _ h := hpid (nameWithPid_inj h)
  ne_server := hserver

def twoClients : Endpoints (Fin 2) CStr :=
  pidEndpoints clientPath (text "/tmp/server.sock") ![4660, 4661] (by decide) (by decide +kernel)

def message (cmd cOpt : Byte) : IpcSk :=
  ⟨cmd :: List.replicate 1030 0 ++ [cOpt], by
    rw [List.length_append, List.length_cons, List.length_replicate]
    rfl⟩

def turns (p : Party (Fin 2)) (n : ℕ) : List (Happening (Party (Fin 2)) SkCall Bool) :=
  List.replicate n (.turn p true)

/-- The server and two clients make their sockets. -/
def setUp : List (Happening (Party (Fin 2)) SkCall Bool) :=
  .call .server .creatSkServer :: turns .server 5 ++
    .call (.client 0) .creatSkClient :: .ret .server :: turns (.client 0) 7 ++
      .call (.client 1) .creatSkClient :: .ret (.client 0) :: turns (.client 1) 7 ++
        [.ret (.client 1)]

/-- Both clients send requests. One of them does not wait for its reply, and gets it when it has
sent another request. -/
def lateReply : List (Happening (Party (Fin 2)) SkCall Bool) :=
  setUp ++
    [.call (.client 0) (.ipcSendRecv (message 1 0) (Block.zeroed _)),
      .call (.client 1) (.ipcSendRecv (message 2 1) (Block.zeroed _)),
      .turn (.client 1) true, .turn (.client 0) true,
      .call .server (.ipcRecvSend (message 2 11) []), .turn .server true,
      .turn (.client 1) false, .ret (.client 1), .turn .server true, .ret .server,
      .call .server (.ipcRecvSend (message 1 10) []), .turn .server true, .turn .server true,
      .turn (.client 0) true, .ret .server, .ret (.client 0),
      .call (.client 1) (.ipcSendRecv (message 2 2) (Block.zeroed _)),
      .turn (.client 1) true, .turn (.client 1) true, .ret (.client 1)]

end BcmUtils.IpcNetwork
