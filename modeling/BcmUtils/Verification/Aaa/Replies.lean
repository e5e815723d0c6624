import BcmUtils.Model.Aaa

/-! # Short replies of the aaa server

A datagram that is shorter than `struct reply` leaves the end of the buffer as it was:
zero, which means success, in `aaa_send_msg_bcm`, and a failure in
`aaa_send_msg_struct_bcm`. -/

namespace BcmUtils.Aaa

open CLib

/-- The reply reports success. -/
def Succeeded (e : Endian) (reply : Reply) : Prop :=
  Reply.identify e reply = AAA_REPLY_INT ∧ Reply.code e reply = AAA_REPLY_SUCCESS

/-- A datagram that holds a whole `struct reply` which reports success. -/
def CompleteSuccess (e : Endian) (d : List Byte) : Prop :=
  68 ≤ d.length ∧ wordOf e (d.take 4) = AAA_REPLY_INT ∧
    wordOf e ((d.drop 4).take 4) = AAA_REPLY_SUCCESS

theorem zero_words_iff {e : Endian} {mem : List Byte} (h : 8 ≤ mem.length) :
    (wordOf e (mem.take 4) = 0 ∧ wordOf e ((mem.drop 4).take 4) = 0) ↔
      ∀ b ∈ mem.take 8, b = 0 := by
  have hsplit : mem.take 8 = mem.take 4 ++ (mem.drop 4).take 4 := by
    rw [← List.take_add]
  rw [wordOf_eq_zero (by rw [List.length_take]; omega),
    wordOf_eq_zero (by rw [List.length_take, List.length_drop]; omega), hsplit]
  simp only [List.mem_append, or_imp, forall_and]

theorem succeeded_iff {e : Endian} {reply : Reply} :
    Succeeded e reply ↔ ∀ b ∈ reply.1.take 8, b = 0 :=
  zero_words_iff (by rw [reply.2]; decide)

theorem completeSuccess_iff {e : Endian} {d : List Byte} :
    CompleteSuccess e d ↔ 68 ≤ d.length ∧ ∀ b ∈ d.take 8, b = 0 := by
  constructor
  · rintro ⟨hlen, hwords⟩
    exact ⟨hlen, (zero_words_iff (by omega)).mp hwords⟩
  · rintro ⟨hlen, hzero⟩
    exact ⟨hlen, (zero_words_iff (by omega)).mpr hzero⟩

/-! ## The buffer after the call -/

theorem not_succeeded_setFields (e : Endian) (reply : Reply) :
    ¬ Succeeded e (Reply.setFields e reply AAA_REPLY_INT AAA_REPLY_FAIL) := by
  have htake : (Reply.setFields e reply AAA_REPLY_INT AAA_REPLY_FAIL).1.take 8 =
      bytesOf e AAA_REPLY_INT ++ bytesOf e AAA_REPLY_FAIL := by
    change (bytesOf e AAA_REPLY_INT ++ (bytesOf e AAA_REPLY_FAIL ++ reply.1.drop 8)).take 8 = _
    rw [← List.append_assoc, List.take_left' (by simp)]
  rw [succeeded_iff, htake]
  cases e <;> decide

/-- The first eight bytes of the buffer: those of the datagram, and the old ones behind
its end. -/
theorem take_recvfrom (d : List Byte) (buf : Block 68) :
    (recvfrom (some d) buf).2.1.take 8 = d.take 8 ++ (buf.1.drop d.length).take (8 - d.length) := by
  change (d.take 68 ++ buf.1.drop d.length).take 8 = _
  rw [List.take_append, List.take_take, List.length_take]
  congr 2
  omega

theorem receiveReply_some {e : Endian} {d : List Byte} (h : d ≠ []) (reply : Reply) :
    receiveReply e (some d) reply = (recvfrom (some d) reply).2 := by
  have hpos : ¬ ((recvfrom (some d) reply).1 ≤ 0) := by
    have := List.length_pos_of_ne_nil h
    simp only [recvfrom, List.length_take]
    omega
  rw [receiveReply]
  simp only [hpos, if_false]

/-- Behind a success is a datagram that is not empty. -/
theorem exists_of_succeeded {e : Endian} {datagram : Option (List Byte)} {reply : Reply}
    (h : Succeeded e (receiveReply e datagram reply)) : ∃ d, datagram = some d ∧ d ≠ [] := by
  cases datagram with
  | none => exact absurd h (not_succeeded_setFields e _)
  | some d =>
      refine ⟨d, rfl, ?_⟩
      rintro rfl
      exact not_succeeded_setFields e _ h

theorem succeeded_receiveReply_zeroed {e : Endian} {d : List Byte} (h : d ≠ []) :
    Succeeded e (receiveReply e (some d) (Block.zeroed 68)) ↔ ∀ b ∈ d.take 8, b = 0 := by
  have hold : ∀ b ∈ ((Block.zeroed 68).1.drop d.length).take (8 - d.length), b = 0 := by
    intro b hb
    exact List.eq_of_mem_replicate (List.mem_of_mem_drop (List.mem_of_mem_take hb))
  rw [receiveReply_some h, succeeded_iff, take_recvfrom]
  simp only [List.mem_append, or_imp, forall_and]
  exact and_iff_left hold

/-- A datagram that reaches behind both fields decides alone. -/
theorem succeeded_receiveReply_of_le {e : Endian} {d : List Byte} (h : 8 ≤ d.length)
    (reply : Reply) :
    Succeeded e (receiveReply e (some d) reply) ↔ ∀ b ∈ d.take 8, b = 0 := by
  rw [receiveReply_some (by rintro rfl; simp at h), succeeded_iff, take_recvfrom,
    Nat.sub_eq_zero_of_le h, List.take_zero, List.append_nil]

/-- A datagram with a nonzero byte in one of the fields is a failure. -/
theorem zeros_of_succeeded_receiveReply {e : Endian} {d : List Byte} {reply : Reply} (h : d ≠ [])
    (hs : Succeeded e (receiveReply e (some d) reply)) : ∀ b ∈ d.take 8, b = 0 := by
  rw [receiveReply_some h, succeeded_iff, take_recvfrom] at hs
  exact fun b hb => hs b (List.mem_append_left _ hb)

/-! ## The two functions -/

/-- All calls up to the reply succeed. -/
def Sent (calls : AaaCalls) : Prop :=
  calls.socket.isSome ∧ calls.bindOk = true ∧ calls.sendtoOk = true

theorem aaaSendMsgBcm_success_iff {e : Endian} {calls : AaaCalls} :
    (aaaSendMsgBcm e calls).1 = AAA_REPLY_SUCCESS ↔
      Sent calls ∧ Succeeded e (receiveReply e calls.recvfrom (Block.zeroed 68)) := by
  have hfail : AAA_REPLY_FAIL ≠ AAA_REPLY_SUCCESS := by decide
  obtain ⟨socket, bindOk, sendtoOk, datagram⟩ := calls
  rcases socket with _ | fd <;> cases bindOk <;> cases sendtoOk <;>
    simp only [aaaSendMsgBcm, Sent, Succeeded, hfail, Option.isSome_some, Option.isSome_none,
      Bool.false_eq_true, ite_true, ite_false, false_and, and_false, and_self, true_and]
  split
  · rename_i hint
    simp only [hint, true_and]
  · rename_i hint
    simp only [hint, hfail, false_and]

theorem aaaSendMsgStructBcm_success_iff {e : Endian} {calls : AaaCalls} :
    Succeeded e (aaaSendMsgStructBcm e calls).1 ↔
      Sent calls ∧ Succeeded e (receiveReply e calls.recvfrom
        (Reply.setFields e (Block.zeroed 68) AAA_REPLY_INT AAA_REPLY_FAIL)) := by
  have hfail := not_succeeded_setFields e (Block.zeroed 68)
  obtain ⟨socket, bindOk, sendtoOk, datagram⟩ := calls
  rcases socket with _ | fd <;> cases bindOk <;> cases sendtoOk <;>
    simp [aaaSendMsgStructBcm, Sent, hfail]

/-- `aaa_send_msg_bcm` reports success only for a complete reply that does, and answers as
`aaa_send_msg_struct_bcm`. -/
structure Faithful (e : Endian) (calls : AaaCalls) : Prop where
  complete : (aaaSendMsgBcm e calls).1 = AAA_REPLY_SUCCESS →
    Sent calls ∧ ∃ d, calls.recvfrom = some d ∧ CompleteSuccess e d
  agrees : (aaaSendMsgBcm e calls).1 = AAA_REPLY_SUCCESS ↔
    Succeeded e (aaaSendMsgStructBcm e calls).1

/-- The reply is shorter than the struct and has no nonzero byte in the two fields. -/
def ShortZeroReply (calls : AaaCalls) : Prop :=
  ∃ d, calls.recvfrom = some d ∧ d ≠ [] ∧ d.length < 68 ∧ ∀ b ∈ d.take 8, b = 0

/-- The answer is right for every outcome of the calls except a short reply of zeros. -/
theorem aaa_send_msg_faithful_iff (e : Endian) (calls : AaaCalls) :
    Faithful e calls ↔ ¬ (Sent calls ∧ ShortZeroReply calls) := by
  constructor
  · rintro hf ⟨hsent, d, hd, hne, hlen, hzero⟩
    have hs := aaaSendMsgBcm_success_iff.mpr
      ⟨hsent, by rw [hd]; exact (succeeded_receiveReply_zeroed (e := e) hne).mpr hzero⟩
    obtain ⟨-, d', hd', hlen', -⟩ := hf.complete hs
    obtain rfl : d = d' := by simpa [hd] using hd'
    omega
  · intro hshort
    -- a success is a datagram of zeros, and a complete one by assumption
    have hcomplete : (aaaSendMsgBcm e calls).1 = AAA_REPLY_SUCCESS →
        Sent calls ∧ ∃ d, calls.recvfrom = some d ∧ CompleteSuccess e d := by
      intro hs
      obtain ⟨hsent, hs⟩ := aaaSendMsgBcm_success_iff.mp hs
      obtain ⟨d, hd, hne⟩ := exists_of_succeeded hs
      rw [hd] at hs
      have hzero := (succeeded_receiveReply_zeroed hne).mp hs
      refine ⟨hsent, d, hd, completeSuccess_iff.mpr ⟨?_, hzero⟩⟩
      by_contra hlen
      exact hshort ⟨hsent, d, hd, hne, by omega, hzero⟩
    refine ⟨hcomplete, ?_, ?_⟩
    · intro hs
      obtain ⟨hsent, d, hd, hc⟩ := hcomplete hs
      obtain ⟨hlen, hzero⟩ := completeSuccess_iff.mp hc
      refine aaaSendMsgStructBcm_success_iff.mpr ⟨hsent, ?_⟩
      rw [hd, succeeded_receiveReply_of_le (by omega)]
      exact hzero
    · intro hs
      obtain ⟨hsent, hs⟩ := aaaSendMsgStructBcm_success_iff.mp hs
      obtain ⟨d, hd, hne⟩ := exists_of_succeeded hs
      rw [hd] at hs
      refine aaaSendMsgBcm_success_iff.mpr ⟨hsent, ?_⟩
      rw [hd]
      exact (succeeded_receiveReply_zeroed hne).mpr (zeros_of_succeeded_receiveReply hne hs)

/-- One zero byte is taken for a success by the one function and not by the other. -/
theorem aaa_send_msg_one_byte :
    (aaaSendMsgBcm .little ⟨some 3, true, true, some [0]⟩).1 = AAA_REPLY_SUCCESS ∧
      ¬ CompleteSuccess .little [0] ∧
      ¬ Succeeded .little (aaaSendMsgStructBcm .little ⟨some 3, true, true, some [0]⟩).1 := by
  refine ⟨by decide, ?_, ?_⟩
  · rintro ⟨hlen, -⟩
    exact absurd hlen (by decide)
  · rw [succeeded_iff]
    decide

end BcmUtils.Aaa
