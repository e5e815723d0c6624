import BcmUtils.Foundation.Machine
import BcmUtils.Model.Ipc

/-! # Whose reply a call returns

A call takes the first reply that is there. It is the reply to its own request unless an older
one is still outstanding. -/

namespace BcmUtils.Ipc

open CLib

/-- A call that succeeds has the reply to its own request. -/
def OwnReply (s : Client) : Op → Client → Prop
  | .call c pstRx, _ =>
      let r := (ipcSendRecv c pstRx s).1
      r.ret = 0 → r.taken = some ⟨s.calls, c.pstTx, c.answer⟩ ∧
        r.pstRx = (Block.zeroed sizeofIpcSk).overlay c.answer
  | .arrive _, _ => True

/-- No reply to an earlier call is there for a call to take, but for an empty one. -/
def NoneLeft (s : Client) : Op → Prop
  | .call c _ => c.sendOk = true → c.recvOk = true →
      ∀ r ∈ (s.arrive c.arrivals).queue.head?, r.data = []
  | .arrive _ => True

/-- Every outstanding reply answers one of the first `n` calls. -/
def Below (n : ℕ) (s : Client) : Prop := ∀ r ∈ s.queue ++ s.pending, r.call < n

/-- Every outstanding reply answers an earlier call. -/
def Earlier (s : Client) : Prop := Below s.calls s

/-! ## What one call receives -/

theorem length_take_pos {d : List Byte} : 0 < ((d.take sizeofIpcSk).length : ℤ) ↔ d ≠ [] := by
  rw [List.length_take, sizeofIpcSk, ← List.length_pos_iff]
  omega

theorem ipcRecv_of_cons {c : Call} {s : Client} (hok : c.recvOk = true) {r : Reply}
    {queue : List Reply} (hq : (s.arrive c.arrivals).queue = r :: queue) :
    ipcRecv c s = (((r.data.take sizeofIpcSk).length : ℤ),
      (Block.zeroed sizeofIpcSk).overlay r.data,
      some r, { s.arrive c.arrivals with queue }) := by
  rw [ipcRecv, hok, hq]
  rfl

theorem ipcRecv_of_failed {c : Call} {s : Client}
    (h : c.recvOk = false ∨ (s.arrive c.arrivals).queue = []) :
    ipcRecv c s = (-1, Block.zeroed sizeofIpcSk, none, s.arrive c.arrivals) := by
  rw [ipcRecv]
  rcases h with h | h
  · rw [h]
    rfl
  · rw [h]
    cases c.recvOk <;> rfl

/-- The replies that a call can take: the older ones that have arrived, then its own. -/
theorem queue_arrive_ipcSend {c : Call} (hok : c.sendOk = true) (s : Client) :
    ((ipcSend c s).2.arrive c.arrivals).queue =
      (s.arrive c.arrivals).queue ++
        ([⟨s.calls, c.pstTx, c.answer⟩] : List Reply).take (c.arrivals - s.pending.length) := by
  rw [ipcSend, if_pos hok, Client.arrive, Client.arrive, List.take_append, List.append_assoc]

theorem ipcSendRecv_of_sent {c : Call} (hok : c.sendOk = true) (pstRx : Block sizeofIpcSk)
    (s : Client) :
    (ipcSendRecv c pstRx s).1 =
      ⟨if 0 < (ipcRecv c (ipcSend c s).2).1 then 0 else -1, (ipcRecv c (ipcSend c s).2).2.1,
        (ipcRecv c (ipcSend c s).2).2.2.1⟩ := by
  have hsent : (ipcSend c s).1 = sizeofIpcSk := by rw [ipcSend, if_pos hok]
  rw [ipcSendRecv]
  simp only [hsent]
  rw [if_pos (by decide)]

/-- A call succeeds only with its own reply exactly if it finds no older one. -/
theorem ownReply_iff {s : Client} (hs : Earlier s) (o : Op) (s' : Client) :
    OwnReply s o s' ↔ NoneLeft s o := by
  cases o with
  | arrive n => exact Iff.rfl
  | call c pstRx =>
      simp only [OwnReply, NoneLeft]
      cases hsend : c.sendOk with
      | false => simp [ipcSendRecv, ipcSend, hsend]
      | true =>
          rw [ipcSendRecv_of_sent hsend]
          cases hrecv : c.recvOk with
          | false => simp [ipcRecv_of_failed (Or.inl hrecv)]
          | true =>
              have hqueue := queue_arrive_ipcSend hsend s
              cases hold : (s.arrive c.arrivals).queue with
              | cons r queue =>
                  have hearlier : r.call < s.calls := by
                    apply hs r
                    have hmem : r ∈ (s.arrive c.arrivals).queue := by simp [hold]
                    rcases List.mem_append.mp hmem with hr | hr
                    · exact List.mem_append_left _ hr
                    · exact List.mem_append_right _ (List.mem_of_mem_take hr)
                  rw [hold, List.cons_append] at hqueue
                  rw [ipcRecv_of_cons hrecv hqueue]
                  simp only [length_take_pos]
                  by_cases hdata : r.data = []
                  · simp [hdata]
                  · have hne : r ≠ ⟨s.calls, c.pstTx, c.answer⟩ := by
                      rintro rfl
                      exact absurd hearlier (lt_irrefl _)
                    simp [hdata, hne]
              | nil =>
                  rw [hold, List.nil_append] at hqueue
                  cases hn : c.arrivals - s.pending.length with
                  | zero =>
                      rw [hn, List.take_zero] at hqueue
                      simp [ipcRecv_of_failed (Or.inr hqueue)]
                  | succ n =>
                      rw [hn, List.take_succ_cons, List.take_nil] at hqueue
                      rw [ipcRecv_of_cons hrecv hqueue]
                      simp

/-! ## Runs -/

theorem Below.arrive {n : ℕ} {s : Client} (hs : Below n s) (k : ℕ) : Below n (s.arrive k) := by
  intro r hr
  apply hs r
  simpa only [Client.arrive, List.append_assoc, List.take_append_drop] using hr

theorem Below.ipcSend {s : Client} (hs : Earlier s) (c : Call) :
    Below (s.calls + 1) (Ipc.ipcSend c s).2 := by
  intro r hr
  rw [Ipc.ipcSend] at hr
  split at hr
  · rw [← List.append_assoc, List.mem_append, List.mem_singleton] at hr
    rcases hr with hr | rfl
    · exact Nat.lt_succ_of_lt (hs r hr)
    · exact Nat.lt_succ_self _
  · exact Nat.lt_succ_of_lt (hs r hr)

theorem Below.ipcRecv {n : ℕ} {s : Client} (hs : Below n s) (c : Call) :
    Below n (Ipc.ipcRecv c s).2.2.2 := by
  by_cases h : c.recvOk = false ∨ (s.arrive c.arrivals).queue = []
  · rw [ipcRecv_of_failed h]
    exact hs.arrive c.arrivals
  · rw [not_or, Bool.not_eq_false] at h
    obtain ⟨r, queue, hq⟩ := List.exists_cons_of_ne_nil h.2
    rw [ipcRecv_of_cons h.1 hq]
    intro t ht
    apply hs.arrive c.arrivals t
    rw [hq]
    exact List.mem_cons_of_mem r ht

theorem calls_ipcSend (c : Call) (s : Client) : (ipcSend c s).2.calls = s.calls := by
  rw [ipcSend]
  split <;> rfl

theorem calls_ipcRecv (c : Call) (s : Client) : (ipcRecv c s).2.2.2.calls = s.calls := by
  rw [ipcRecv]
  split <;> rfl

/-- A call leaves what its send or its receive leaves, and is counted. -/
theorem ipcSendRecv_state (c : Call) (pstRx : Block sizeofIpcSk) (s : Client) :
    ∃ t : Client, (t = (ipcSend c s).2 ∨ t = (ipcRecv c (ipcSend c s).2).2.2.2) ∧
      (ipcSendRecv c pstRx s).2 = { t with calls := t.calls + 1 } := by
  by_cases hsent : 0 < (ipcSend c s).1
  · exact ⟨_, Or.inr rfl, by rw [ipcSendRecv]; simp only [if_pos hsent]⟩
  · exact ⟨_, Or.inl rfl, by rw [ipcSendRecv]; simp only [if_neg hsent]⟩

/-- Replies stay older than the calls to come. -/
theorem Earlier.step {s s' : Client} (hs : Earlier s) {o : Op} (h : step s o = some s') :
    Earlier s' := by
  cases o with
  | arrive n =>
      obtain rfl := Option.some.inj h
      exact Below.arrive hs n
  | call c pstRx =>
      obtain rfl := Option.some.inj h
      have hsent := Below.ipcSend hs c
      have hreceived := hsent.ipcRecv c
      obtain ⟨t, ht, hstate⟩ := ipcSendRecv_state c pstRx s
      rw [hstate]
      intro r hr
      rcases ht with rfl | rfl
      · simpa only [calls_ipcSend] using hsent r hr
      · simpa only [calls_ipcRecv, calls_ipcSend] using hreceived r hr

/-- In a run from a new socket every call that succeeds has its own reply exactly if no call
finds a non-empty reply to an earlier one. -/
theorem ipc_replies_own_iff (ops : List Op) :
    Safe step OwnReply creatSkClient ops ↔ Guarded step NoneLeft creatSkClient ops := by
  have hnew : Earlier creatSkClient := by
    intro r hr
    simp [creatSkClient] at hr
  refine safe_iff_guarded Earlier (fun s o hs => ?_) hnew ops
  obtain ⟨s', hs'⟩ : ∃ s', step s o = some s' := by
    cases o <;> exact ⟨_, rfl⟩
  exact ⟨s', hs', hs.step hs', ownReply_iff hs o s'⟩

/-- The first call times out, and the second one returns the answer to the first. -/
theorem ipc_reply_late :
    let rx := Block.zeroed sizeofIpcSk
    let late : Call := ⟨rx, true, [1], 0, true⟩
    let next : Call := ⟨rx, true, [2], 2, true⟩
    ((ipcSendRecv late rx creatSkClient).1.ret = -1 ∧
      let r := (ipcSendRecv next rx (ipcSendRecv late rx creatSkClient).2).1
      r.ret = 0 ∧ r.taken = some ⟨0, rx, [1]⟩) ∧
    ¬ Safe step OwnReply creatSkClient [.call late rx, .call next rx] := by
  intro rx late next
  have hret : (ipcSendRecv next rx (ipcSendRecv late rx creatSkClient).2).1.ret = 0 := by
    decide +kernel
  have htaken : (ipcSendRecv next rx (ipcSendRecv late rx creatSkClient).2).1.taken =
      some ⟨0, rx, [1]⟩ := rfl
  refine ⟨⟨by decide +kernel, hret, htaken⟩, ?_⟩
  rintro ⟨s₁, hs₁, -, s₂, -, hown, -⟩
  obtain rfl := Option.some.inj hs₁
  have hmine := congrArg (Option.map Reply.call) (hown hret).1
  rw [htaken] at hmine
  exact absurd hmine (by decide +kernel)

end BcmUtils.Ipc
