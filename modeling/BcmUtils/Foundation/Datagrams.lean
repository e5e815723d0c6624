import Mathlib.Tactic

/-! # Requests and replies between named sockets

Datagrams go from socket to socket, each of which has a name and a queue. Clients send requests to
one server, which takes them in order, has at most one in hand, and replies to its sender. For the
proofs every datagram is kept with the number of the request that it is or answers. -/

namespace CLib

/-- A datagram with the name of its sender. -/
structure Datagram (ν μ : Type) where
  source : ν
  data : μ
  deriving DecidableEq

/-- What a process asks of the system. The first three concern only the process itself. -/
inductive NetCall (ν μ : Type)
  | malloc | socket | setsockopt
  | unlink (name : ν)
  | bind (name : ν)
  | sendto (self : ν) (data : μ) (dest : ν)
  | recvfrom (self : ν)

/-- What a system call returns, and the datagram that it takes from a queue. -/
structure NetAnswer (ν μ : Type) where
  ret : ℤ
  datagram : Option (Datagram ν μ)

/-- The queues of the sockets by their names. -/
abbrev Net (ν μ : Type) := ν → Option (List (Datagram ν μ))

variable {ν μ κ C : Type}

/-! ## Ledgers -/

/-- A datagram with the number and the text of the request that it is or answers. -/
structure Tagged (ν μ : Type) extends Datagram ν μ where
  number : ℕ
  request : μ

/-- The reply to a request. -/
def Tagged.reply (d : Tagged ν μ) (self : ν) (data : μ) : Tagged ν μ :=
  ⟨⟨self, data⟩, d.number, d.request⟩

/-- The queues with the numbers, and the requests that have been sent from each name. -/
structure Ledger (ν μ : Type) where
  inbox : ν → Option (List (Tagged ν μ))
  sent : ν → List μ

namespace Ledger

/-- There are no sockets. -/
def start : Ledger ν μ := ⟨fun _ => none, fun _ => []⟩

/-- What the system knows. -/
def net (s : Ledger ν μ) : Net ν μ := fun name => (s.inbox name).map (List.map Tagged.toDatagram)

/-- What waits in a queue. -/
def queue (s : Ledger ν μ) (name : ν) : List (Tagged ν μ) := (s.inbox name).getD []

theorem queue_of_inbox {s : Ledger ν μ} {name : ν} {q : List (Tagged ν μ)}
    (h : s.inbox name = some q) : s.queue name = q := by
  rw [queue, h, Option.getD_some]

theorem inbox_of_net {s : Ledger ν μ} {name : ν} {queue : List (Datagram ν μ)}
    (h : s.net name = some queue) :
    ∃ q, s.inbox name = some q ∧ q.map Tagged.toDatagram = queue :=
  Option.map_eq_some_iff.mp h

variable [DecidableEq ν]

/-- A name leads to a new queue, or nowhere. -/
def rebind (name : ν) (queue : Option (List (Tagged ν μ))) (s : Ledger ν μ) : Ledger ν μ :=
  { s with inbox := Function.update s.inbox name queue }

/-- A datagram is put into a queue. -/
def deliver (d : Tagged ν μ) (dest : ν) (queue : List (Tagged ν μ)) (s : Ledger ν μ) :
    Ledger ν μ :=
  s.rebind dest (some (queue ++ [d]))

/-- The next request from a name. -/
def request (s : Ledger ν μ) (self : ν) (data : μ) : Tagged ν μ :=
  ⟨⟨self, data⟩, (s.sent self).length, data⟩

/-- A request is recorded. -/
def record (self : ν) (data : μ) (s : Ledger ν μ) : Ledger ν μ :=
  { s with sent := Function.update s.sent self (s.sent self ++ [data]) }

variable {s : Ledger ν μ} {name other self dest : ν} {q : List (Tagged ν μ)} {data : μ}

theorem net_rebind (s : Ledger ν μ) (name : ν) (q : Option (List (Tagged ν μ))) :
    (s.rebind name q).net = Function.update s.net name (q.map (List.map Tagged.toDatagram)) := by
  funext other
  by_cases h : other = name
  · subst h
    simp [net, rebind]
  · simp [net, rebind, h]

theorem net_deliver (s : Ledger ν μ) (d : Tagged ν μ) (dest : ν) (q : List (Tagged ν μ)) :
    (s.deliver d dest q).net =
      Function.update s.net dest (some (q.map Tagged.toDatagram ++ [d.toDatagram])) := by
  rw [deliver, net_rebind, Option.map_some, List.map_append]
  rfl

@[simp] theorem net_record : (s.record self data).net = s.net := rfl

@[simp] theorem queue_record : (s.record self data).queue name = s.queue name := rfl

@[simp] theorem sent_rebind {q : Option (List (Tagged ν μ))} :
    (s.rebind name q).sent = s.sent := rfl

@[simp] theorem sent_deliver {d : Tagged ν μ} : (s.deliver d dest q).sent = s.sent := rfl

theorem sent_record_self : (s.record self data).sent self = s.sent self ++ [data] :=
  Function.update_self self _ s.sent

theorem sent_record_of_ne (h : other ≠ self) : (s.record self data).sent other = s.sent other := by
  simp [record, h]

theorem queue_rebind_self (s : Ledger ν μ) (name : ν) (q : Option (List (Tagged ν μ))) :
    (s.rebind name q).queue name = q.getD [] := by
  simp [queue, rebind]

theorem queue_rebind_of_ne (s : Ledger ν μ) (h : other ≠ name) (q : Option (List (Tagged ν μ))) :
    (s.rebind name q).queue other = s.queue other := by
  simp [queue, rebind, h]

theorem queue_deliver_self (h : s.inbox dest = some q) (d : Tagged ν μ) :
    (s.deliver d dest q).queue dest = s.queue dest ++ [d] := by
  rw [deliver, queue_rebind_self, queue_of_inbox h, Option.getD_some]

theorem queue_deliver_of_ne (s : Ledger ν μ) (h : other ≠ dest) (d : Tagged ν μ)
    (q : List (Tagged ν μ)) : (s.deliver d dest q).queue other = s.queue other :=
  s.queue_rebind_of_ne h _

/-- What has been sent before keeps its number. -/
theorem sent_record_of_some {x : μ} {n : ℕ} (h : (s.sent other)[n]? = some x) :
    ((s.record self data).sent other)[n]? = some x := by
  by_cases ho : other = self
  · subst ho
    rw [sent_record_self, List.getElem?_append_left (List.getElem?_eq_some_iff.mp h).1]
    exact h
  · rw [sent_record_of_ne ho]
    exact h

end Ledger

variable [DecidableEq ν]

/-- A system call succeeds or fails. One that has to wait is not served, and neither is one on a
socket that has no name. -/
def Net.serve (size : μ → ℤ) (s : Net ν μ) : NetCall ν μ → Bool → Option (NetAnswer ν μ × Net ν μ)
  | _, false => some (⟨-1, none⟩, s)
  | .unlink name, true => some (⟨0, none⟩, Function.update s name none)
  | .bind name, true =>
      match s name with
      | none => some (⟨0, none⟩, Function.update s name (some []))
      | some _ => none
  | .sendto self data dest, true =>
      match s self, s dest with
      | some _, some queue =>
          some (⟨size data, none⟩, Function.update s dest (some (queue ++ [⟨self, data⟩])))
      | _, _ => none
  | .recvfrom self, true =>
      match s self with
      | some (d :: queue) => some (⟨size d.data, some d⟩, Function.update s self (some queue))
      | _ => none
  | _, true => some (⟨0, none⟩, s)

/-! ## Conversations -/

/-- The server and its clients. -/
structure Endpoints (C ν : Type) where
  server : ν
  client : C → ν
  injective : Function.Injective client
  ne_server : ∀ c, client c ≠ server

/-- What has been done: the request in the hand of the server, what it has offered as replies, the
requests of each client that it has taken, those that have been answered with their replies, and the
numbers up to which these go. -/
structure Progress (C ν μ : Type) where
  hand : Option (Tagged ν μ)
  offered : List μ
  taken : C → List μ
  nextTaken : C → ℕ
  answered : C → List (μ × μ)
  nextAnswered : C → ℕ

/-- Nothing has been done. -/
def Progress.start : Progress C ν μ := ⟨none, [], fun _ => [], fun _ => 0, fun _ => [], fun _ => 0⟩

/-- The server replies to the request in its hand. -/
def Progress.offer (P : Progress C ν μ) (data : μ) : Progress C ν μ :=
  { P with hand := none, offered := data :: P.offered }

section Steps

variable [DecidableEq C]

/-- The server takes a request of a client. -/
def Progress.take (P : Progress C ν μ) (c : C) (d : Tagged ν μ) : Progress C ν μ :=
  { P with
    hand := some d
    taken := Function.update P.taken c (P.taken c ++ [d.data])
    nextTaken := Function.update P.nextTaken c (d.number + 1) }

/-- A client takes a reply. -/
def Progress.answer (P : Progress C ν μ) (c : C) (d : Tagged ν μ) : Progress C ν μ :=
  { P with
    answered := Function.update P.answered c (P.answered c ++ [(d.request, d.data)])
    nextAnswered := Function.update P.nextAnswered c (d.number + 1) }

end Steps

/-- Some of the requests below a number, in order. -/
def Upto (l : List μ) (n : ℕ) (sent : List μ) : Prop := n ≤ sent.length ∧ l.Sublist (sent.take n)

theorem Upto.sublist {l : List μ} {n : ℕ} {sent : List μ} (h : Upto l n sent) : l.Sublist sent :=
  h.2.trans (List.take_sublist n sent)

theorem Upto.append {l : List μ} {n : ℕ} {sent : List μ} (h : Upto l n sent) (rest : List μ) :
    Upto l n (sent ++ rest) := by
  refine ⟨h.1.trans (by simp), ?_⟩
  rw [List.take_append_of_le_length h.1]
  exact h.2

/-- The next one has a number that is not below. -/
theorem Upto.next {l : List μ} {n k : ℕ} {sent : List μ} (h : Upto l n sent) (hn : n ≤ k) {x : μ}
    (hx : sent[k]? = some x) : Upto (l ++ [x]) (k + 1) sent := by
  refine ⟨(List.getElem?_eq_some_iff.mp hx).1, ?_⟩
  rw [List.take_add_one, hx]
  exact (h.2.trans (List.take_sublist_take_left hn)).append (List.Sublist.refl _)

variable (N : Endpoints C ν)

/-- What is under way for a client, in order: the replies in its queue, and its requests, one of
which may be in the hand of the server. -/
def underWay (hand : Option (Tagged ν μ)) (s : Ledger ν μ) (c : C) : List (Tagged ν μ) :=
  s.queue (N.client c) ++ (hand.toList ++ s.queue N.server).filter (·.source = N.client c)

/-- The requests that wait are those of clients; a reply that waits answers a request of its client,
under a key that both have, with something that the server has offered; and what is under way for a
client has rising numbers that are new to it. -/
structure Conversations (key : μ → κ) (P : Progress C ν μ) (s : Ledger ν μ) : Prop where
  requests : ∀ d ∈ P.hand.toList ++ s.queue N.server, ∃ c, d.source = N.client c ∧
    (s.sent (N.client c))[d.number]? = some d.data ∧ d.request = d.data
  replies : ∀ c, ∀ d ∈ s.queue (N.client c), d.source = N.server ∧
    (s.sent (N.client c))[d.number]? = some d.request ∧ key d.data = key d.request ∧
    d.data ∈ P.offered
  ordered : ∀ c, ((underWay N P.hand s c).map (·.number)).Pairwise (· < ·)
  untaken : ∀ c, ∀ d ∈ s.queue N.server, d.source = N.client c → P.nextTaken c ≤ d.number
  unanswered : ∀ c, ∀ d ∈ underWay N P.hand s c, P.nextAnswered c ≤ d.number
  taken : ∀ c, Upto (P.taken c) (P.nextTaken c) (s.sent (N.client c))
  answered : ∀ c, Upto ((P.answered c).map Prod.fst) (P.nextAnswered c) (s.sent (N.client c))
  agreed : ∀ c, ∀ x ∈ P.answered c, key x.2 = key x.1 ∧ x.2 ∈ P.offered

namespace Conversations

variable {N} {key : μ → κ} {P : Progress C ν μ} {s s' : Ledger ν μ}

theorem start : Conversations N key Progress.start (Ledger.start : Ledger ν μ) where
  requests d hd := by cases hd
  replies c d hd := by cases hd
  ordered c := List.Pairwise.nil
  untaken c d hd := by cases hd
  unanswered c d hd := by cases hd
  taken c := ⟨Nat.zero_le _, List.nil_sublist _⟩
  answered c := ⟨Nat.zero_le _, List.nil_sublist _⟩
  agreed c x hx := by cases hx

/-- Datagrams may get lost. -/
theorem lose {hand : Option (Tagged ν μ)} (h : Conversations N key P s)
    (hhand : hand.toList.Sublist P.hand.toList) (hqueue : ∀ a, (s'.queue a).Sublist (s.queue a))
    (hsent : s'.sent = s.sent) : Conversations N key { P with hand } s' := by
  have hserver := hhand.append (hqueue N.server)
  have hway : ∀ c, (underWay N hand s' c).Sublist (underWay N P.hand s c) :=
    fun c => (hqueue (N.client c)).append (hserver.filter _)
  constructor
  case requests =>
    intro d hd
    rw [hsent]
    exact h.requests d (hserver.subset hd)
  case replies =>
    intro c d hd
    rw [hsent]
    exact h.replies c d ((hqueue _).subset hd)
  case ordered => exact fun c => (h.ordered c).sublist ((hway c).map _)
  case untaken => exact fun c d hd => h.untaken c d ((hqueue _).subset hd)
  case unanswered => exact fun c d hd => h.unanswered c d ((hway c).subset hd)
  case taken =>
    intro c
    rw [hsent]
    exact h.taken c
  case answered =>
    intro c
    rw [hsent]
    exact h.answered c
  case agreed => exact h.agreed

/-- The queue of a name is lost. -/
theorem rebind (h : Conversations N key P s) (name : ν) {q : Option (List (Tagged ν μ))}
    (hq : q.getD [] = []) : Conversations N key P (s.rebind name q) := by
  refine h.lose (List.Sublist.refl _) (fun a => ?_) rfl
  by_cases ha : a = name
  · rw [ha, Ledger.queue_rebind_self, hq]
    exact List.nil_sublist _
  · rw [Ledger.queue_rebind_of_ne s ha]

theorem drop (h : Conversations N key P s) : Conversations N key { P with hand := none } s :=
  h.lose (List.nil_sublist _) (fun _ => List.Sublist.refl _) rfl

/-- Everything under way has a number that has been given out. -/
theorem number_lt (h : Conversations N key P s) {c : C} {d : Tagged ν μ}
    (hd : d ∈ underWay N P.hand s c) : d.number < (s.sent (N.client c)).length := by
  rcases List.mem_append.mp hd with hreply | hrequest
  · obtain ⟨-, hnumber, -⟩ := h.replies c d hreply
    exact (List.getElem?_eq_some_iff.mp hnumber).1
  · obtain ⟨hmem, hsource⟩ := List.mem_filter.mp hrequest
    obtain ⟨c', hsource', hnumber, -⟩ := h.requests d hmem
    obtain rfl := N.injective (hsource'.symm.trans (of_decide_eq_true hsource))
    exact (List.getElem?_eq_some_iff.mp hnumber).1

/-! ### Requests -/

/-- A request is sent. -/
def asked (s : Ledger ν μ) (self : ν) (data : μ) (dest : ν) (q : List (Tagged ν μ)) :
    Ledger ν μ :=
  (s.record self data).deliver (s.request self data) dest q

theorem underWay_asked {q : List (Tagged ν μ)} (hq : s.inbox N.server = some q) (c : C) (data : μ) :
    underWay N P.hand (asked s (N.client c) data N.server q) c =
      underWay N P.hand s c ++ [s.request (N.client c) data] := by
  have hserver := Ledger.queue_deliver_self (s := s.record (N.client c) data) hq
    (s.request (N.client c) data)
  rw [underWay, underWay, asked, Ledger.queue_deliver_of_ne _ (N.ne_server c), hserver,
    ← List.append_assoc P.hand.toList, List.filter_append, ← List.append_assoc]
  congr 1
  exact List.filter_cons_of_pos (decide_eq_true rfl)

theorem underWay_asked_of_ne {q : List (Tagged ν μ)} (hq : s.inbox N.server = some q) {c c' : C}
    (hc : c' ≠ c) (data : μ) :
    underWay N P.hand (asked s (N.client c) data N.server q) c' = underWay N P.hand s c' := by
  have hserver := Ledger.queue_deliver_self (s := s.record (N.client c) data) hq
    (s.request (N.client c) data)
  have hsource : ¬ (s.request (N.client c) data).source = N.client c' :=
    fun heq => hc (N.injective heq).symm
  rw [underWay, underWay, asked, Ledger.queue_deliver_of_ne _ (N.ne_server c'), hserver,
    ← List.append_assoc P.hand.toList, List.filter_append,
    List.filter_cons_of_neg (by simpa using hsource), List.filter_nil, List.append_nil]
  rfl

/-- A client sends a request. -/
theorem request (h : Conversations N key P s) {q : List (Tagged ν μ)}
    (hq : s.inbox N.server = some q) (c : C) (data : μ) :
    Conversations N key P (asked s (N.client c) data N.server q) := by
  have hserver := Ledger.queue_deliver_self (s := s.record (N.client c) data) hq
    (s.request (N.client c) data)
  have hsent : ∀ c', ∃ rest, (asked s (N.client c) data N.server q).sent (N.client c') =
      s.sent (N.client c') ++ rest := by
    intro c'
    by_cases hc : N.client c' = N.client c
    · refine ⟨[data], ?_⟩
      rw [hc]
      exact Ledger.sent_record_self
    · refine ⟨[], ?_⟩
      rw [List.append_nil]
      exact Ledger.sent_record_of_ne hc
  constructor
  case requests =>
    intro d hd
    rw [asked, hserver, ← List.append_assoc] at hd
    rcases List.mem_append.mp hd with hold | hnew
    · obtain ⟨c', hsource, hnumber, hrequest⟩ := h.requests d hold
      exact ⟨c', hsource, Ledger.sent_record_of_some hnumber, hrequest⟩
    · obtain rfl := List.mem_singleton.mp hnew
      refine ⟨c, rfl, ?_, rfl⟩
      rw [asked, Ledger.sent_deliver, Ledger.sent_record_self]
      exact List.getElem?_concat_length
  case replies =>
    intro c' d hd
    rw [asked, Ledger.queue_deliver_of_ne _ (N.ne_server c')] at hd
    obtain ⟨hsource, hnumber, hkey⟩ := h.replies c' d hd
    exact ⟨hsource, Ledger.sent_record_of_some hnumber, hkey⟩
  case ordered =>
    intro c'
    by_cases hc : c' = c
    · subst hc
      rw [underWay_asked hq, List.map_append, List.pairwise_append]
      refine ⟨h.ordered c', List.pairwise_singleton _ _, fun n hn m hm => ?_⟩
      obtain ⟨d, hd, rfl⟩ := List.mem_map.mp hn
      obtain rfl := List.mem_singleton.mp hm
      exact h.number_lt hd
    · rw [underWay_asked_of_ne hq hc]
      exact h.ordered c'
  case untaken =>
    intro c' d hd hsource
    rw [asked, hserver] at hd
    rcases List.mem_append.mp hd with hold | hnew
    · exact h.untaken c' d hold hsource
    · obtain rfl := List.mem_singleton.mp hnew
      obtain rfl := N.injective hsource
      exact (h.taken c).1
  case unanswered =>
    intro c' d hd
    by_cases hc : c' = c
    · subst hc
      rw [underWay_asked hq] at hd
      rcases List.mem_append.mp hd with hold | hnew
      · exact h.unanswered c' d hold
      · obtain rfl := List.mem_singleton.mp hnew
        exact (h.answered c').1
    · rw [underWay_asked_of_ne hq hc] at hd
      exact h.unanswered c' d hd
  case taken =>
    intro c'
    obtain ⟨rest, hrest⟩ := hsent c'
    rw [hrest]
    exact (h.taken c').append rest
  case answered =>
    intro c'
    obtain ⟨rest, hrest⟩ := hsent c'
    rw [hrest]
    exact (h.answered c').append rest
  case agreed => exact h.agreed

/-- The request in the hand of the server is one of a client. -/
theorem of_hand (h : Conversations N key P s) {d : Tagged ν μ} (hhand : P.hand = some d) :
    ∃ c, d.source = N.client c := by
  obtain ⟨c, hsource, -⟩ := h.requests d (by simp [hhand])
  exact ⟨c, hsource⟩

/-- The server replies to the request in its hand, under the key of the request. -/
theorem sendReply (h : Conversations N key P s) {d : Tagged ν μ} (hhand : P.hand = some d) {c : C}
    (hsource : d.source = N.client c) {q : List (Tagged ν μ)} (hq : s.inbox (N.client c) = some q)
    {data : μ} (hkey : key data = key d.data) :
    Conversations N key (P.offer data) (s.deliver (d.reply N.server data) (N.client c) q) := by
  have hserver : (s.deliver (d.reply N.server data) (N.client c) q).queue N.server =
      s.queue N.server := s.queue_deliver_of_ne (N.ne_server c).symm _ _
  have hself := Ledger.queue_deliver_self hq (d.reply N.server data)
  have hother : ∀ c', c' ≠ c →
      (s.deliver (d.reply N.server data) (N.client c) q).queue (N.client c') =
        s.queue (N.client c') :=
    fun c' hc => s.queue_deliver_of_ne (fun heq => hc (N.injective heq)) _ _
  obtain ⟨c₀, hsource₀, hnumber, hrequest⟩ := h.requests d (by simp [hhand])
  obtain rfl := N.injective (hsource.symm.trans hsource₀)
  -- the reply has the place and the number of the request
  have hway : (underWay N (P.offer data).hand (s.deliver (d.reply N.server data) (N.client c) q)
      c).map (·.number) = (underWay N P.hand s c).map (·.number) := by
    have hfilter : (P.hand.toList ++ s.queue N.server).filter (·.source = N.client c) =
        d :: (s.queue N.server).filter (·.source = N.client c) := by
      rw [hhand]
      exact List.filter_cons_of_pos (decide_eq_true hsource)
    rw [underWay, underWay, hserver, hself, hfilter, List.map_append, List.map_append,
      List.map_append, List.map_cons, List.append_assoc]
    rfl
  have hway' : ∀ c', c' ≠ c →
      underWay N (P.offer data).hand (s.deliver (d.reply N.server data) (N.client c) q) c' =
        underWay N none s c' := by
    intro c' hc
    rw [underWay, underWay, hserver, hother c' hc]
    rfl
  have hsub : ∀ c', (underWay N none s c').Sublist (underWay N P.hand s c') := fun c' =>
    (List.Sublist.refl _).append (((List.nil_sublist _).append (List.Sublist.refl _)).filter _)
  constructor
  case requests =>
    intro d' hd'
    rw [hserver] at hd'
    exact h.requests d' (List.mem_append_right _ hd')
  case replies =>
    intro c' d' hd'
    by_cases hc : c' = c
    · subst hc
      rw [hself] at hd'
      rcases List.mem_append.mp hd' with hold | hnew
      · obtain ⟨hs, hn, hk, ho⟩ := h.replies c' d' hold
        exact ⟨hs, hn, hk, List.mem_cons_of_mem _ ho⟩
      · obtain rfl := List.mem_singleton.mp hnew
        refine ⟨rfl, ?_, ?_, List.mem_cons_self⟩
        · exact hnumber.trans (congrArg some hrequest.symm)
        · exact hkey.trans (congrArg key hrequest.symm)
    · rw [hother c' hc] at hd'
      obtain ⟨hs, hn, hk, ho⟩ := h.replies c' d' hd'
      exact ⟨hs, hn, hk, List.mem_cons_of_mem _ ho⟩
  case ordered =>
    intro c'
    by_cases hc : c' = c
    · subst hc
      rw [hway]
      exact h.ordered c'
    · rw [hway' c' hc]
      exact (h.ordered c').sublist ((hsub c').map _)
  case untaken =>
    intro c' d' hd' hsource'
    rw [hserver] at hd'
    exact h.untaken c' d' hd' hsource'
  case unanswered =>
    intro c' d' hd'
    by_cases hc : c' = c
    · subst hc
      have hmem := List.mem_map_of_mem (f := fun x : Tagged ν μ => x.number) hd'
      rw [hway] at hmem
      obtain ⟨d₁, hd₁, hnumber₁⟩ := List.mem_map.mp hmem
      rw [← hnumber₁]
      exact h.unanswered c' d₁ hd₁
    · rw [hway' c' hc] at hd'
      exact h.unanswered c' d' ((hsub c').subset hd')
  case taken => exact h.taken
  case answered => exact h.answered
  case agreed =>
    intro c' x hx
    obtain ⟨hk, ho⟩ := h.agreed c' x hx
    exact ⟨hk, List.mem_cons_of_mem _ ho⟩

section Taking

variable [DecidableEq C] {d : Tagged ν μ} {q : List (Tagged ν μ)}

/-- The server has taken a request. -/
theorem takeRequest (h : Conversations N key P s) (hhand : P.hand = none) {c : C}
    (hsource : d.source = N.client c) (hq : s.inbox N.server = some (d :: q)) :
    Conversations N key (P.take c d) (s.rebind N.server (some q)) := by
  have hqueue := Ledger.queue_of_inbox hq
  have hself : (s.rebind N.server (some q)).queue N.server = q := s.queue_rebind_self _ _
  have hserver : (P.take c d).hand.toList ++ (s.rebind N.server (some q)).queue N.server =
      P.hand.toList ++ s.queue N.server := by
    rw [hself, hqueue, hhand]
    rfl
  have hclient : ∀ c', (s.rebind N.server (some q)).queue (N.client c') = s.queue (N.client c') :=
    fun c' => s.queue_rebind_of_ne (N.ne_server c') _
  have hway : ∀ c', underWay N (P.take c d).hand (s.rebind N.server (some q)) c' =
      underWay N P.hand s c' := by
    intro c'
    rw [underWay, underWay, hserver, hclient]
  have hmem : d ∈ P.hand.toList ++ s.queue N.server := by
    rw [hhand, hqueue]
    exact List.mem_cons_self
  obtain ⟨c₀, hsource₀, hnumber, -⟩ := h.requests d hmem
  obtain rfl := N.injective (hsource.symm.trans hsource₀)
  have hold := h.untaken c d (hqueue ▸ List.mem_cons_self) hsource
  constructor
  case requests =>
    intro d' hd'
    rw [hserver] at hd'
    exact h.requests d' hd'
  case replies =>
    intro c' d' hd'
    rw [hclient] at hd'
    exact h.replies c' d' hd'
  case ordered =>
    intro c'
    rw [hway]
    exact h.ordered c'
  case untaken =>
    intro c' d' hd' hsource'
    rw [hself] at hd'
    by_cases hc : c' = c
    · subst hc
      have hnext : (P.take c' d).nextTaken c' = d.number + 1 := Function.update_self _ _ _
      have hfilter : (P.hand.toList ++ s.queue N.server).filter (·.source = N.client c') =
          d :: q.filter (·.source = N.client c') := by
        rw [hhand, hqueue]
        exact List.filter_cons_of_pos (decide_eq_true hsource)
      have hordered := (h.ordered c').sublist ((List.sublist_append_right _ _).map _)
      rw [hfilter, List.map_cons, List.pairwise_cons] at hordered
      rw [hnext]
      exact hordered.1 _ (List.mem_map_of_mem
        (List.mem_filter.mpr ⟨hd', decide_eq_true hsource'⟩))
    · have hnext : (P.take c d).nextTaken c' = P.nextTaken c' := Function.update_of_ne hc _ _
      rw [hnext]
      exact h.untaken c' d' (hqueue ▸ List.mem_cons_of_mem _ hd') hsource'
  case unanswered =>
    intro c' d' hd'
    rw [hway] at hd'
    exact h.unanswered c' d' hd'
  case taken =>
    intro c'
    by_cases hc : c' = c
    · subst hc
      simp only [Progress.take, Function.update_self]
      exact (h.taken c').next hold hnumber
    · simp only [Progress.take, Function.update_of_ne hc]
      exact h.taken c'
  case answered => exact h.answered
  case agreed => exact h.agreed

/-- A client takes a reply: it is the server's, and it answers a request of the client that is later
than those that have been answered before. -/
theorem takeReply (h : Conversations N key P s) {c : C}
    (hq : s.inbox (N.client c) = some (d :: q)) :
    d.source = N.server ∧
      Conversations N key (P.answer c d) (s.rebind (N.client c) (some q)) := by
  have hserver : (s.rebind (N.client c) (some q)).queue N.server = s.queue N.server :=
    s.queue_rebind_of_ne (N.ne_server c).symm _
  have hself : (s.rebind (N.client c) (some q)).queue (N.client c) = q := s.queue_rebind_self _ _
  have hother : ∀ c', c' ≠ c → (s.rebind (N.client c) (some q)).queue (N.client c') =
      s.queue (N.client c') :=
    fun c' hc => s.queue_rebind_of_ne (fun heq => hc (N.injective heq)) _
  have hqueue := Ledger.queue_of_inbox hq
  have hway : underWay N P.hand s c =
      d :: underWay N P.hand (s.rebind (N.client c) (some q)) c := by
    rw [underWay, underWay, hserver, hself, hqueue]
    rfl
  have hway' : ∀ c', c' ≠ c →
      underWay N P.hand (s.rebind (N.client c) (some q)) c' = underWay N P.hand s c' := by
    intro c' hc
    rw [underWay, underWay, hserver, hother c' hc]
  have hfirst : d ∈ underWay N P.hand s c := hway ▸ List.mem_cons_self
  have hmem : d ∈ s.queue (N.client c) := hqueue ▸ List.mem_cons_self
  obtain ⟨hsource, hnumber, hkey, hoffered⟩ := h.replies c d hmem
  have hordered := h.ordered c
  rw [hway, List.map_cons, List.pairwise_cons] at hordered
  refine ⟨hsource, ?_⟩
  constructor
  case requests =>
    intro d' hd'
    rw [hserver] at hd'
    exact h.requests d' hd'
  case replies =>
    intro c' d' hd'
    by_cases hc : c' = c
    · subst hc
      rw [hself] at hd'
      exact h.replies c' d' (hqueue ▸ List.mem_cons_of_mem _ hd')
    · rw [hother c' hc] at hd'
      exact h.replies c' d' hd'
  case ordered =>
    intro c'
    by_cases hc : c' = c
    · subst hc
      exact hordered.2
    · exact (hway' c' hc).symm ▸ h.ordered c'
  case untaken =>
    intro c' d' hd' hsource'
    rw [hserver] at hd'
    exact h.untaken c' d' hd' hsource'
  case unanswered =>
    intro c' d' hd'
    by_cases hc : c' = c
    · subst hc
      simp only [Progress.answer, Function.update_self]
      exact hordered.1 _ (List.mem_map_of_mem hd')
    · simp only [Progress.answer, Function.update_of_ne hc]
      exact h.unanswered c' d' (hway' c' hc ▸ hd')
  case taken => exact h.taken
  case answered =>
    intro c'
    by_cases hc : c' = c
    · subst hc
      simp only [Progress.answer, Function.update_self, List.map_append]
      exact (h.answered c').next (h.unanswered c' d hfirst) hnumber
    · simp only [Progress.answer, Function.update_of_ne hc]
      exact h.answered c'
  case agreed =>
    intro c' x hx
    by_cases hc : c' = c
    · subst hc
      simp only [Progress.answer, Function.update_self] at hx
      rcases List.mem_append.mp hx with hold | hnew
      · exact h.agreed c' x hold
      · obtain rfl := List.mem_singleton.mp hnew
        exact ⟨hkey, hoffered⟩
    · simp only [Progress.answer, Function.update_of_ne hc] at hx
      exact h.agreed c' x hx

end Taking

end Conversations

end CLib
