import BcmUtils.Verification.Scfgmgr.Replies

/-! # Replies in pieces

What `socket_read` makes of a reply is decided by the sizes that the reads hand over: the
header is read once, and every round of the loop asks for the whole payload. -/

namespace BcmUtils.Socket

open CLib

/-! ## Any peer behind a valid header -/

/-- The connection to a peer that has sent a header in one piece. -/
def afterHeader (h : ScfgmgrHeader) (peer : Conn) : Conn :=
  ⟨h.toBytes ++ peer.stream, some 11 :: peer.chunks⟩

/-- The call ends, stores nothing behind the block, and reports success only with all of the
payload stored. -/
def EndsWithin (len : ℕ)
    (result : Except Fault (Option (ScfgmgrHeader × Option (List Byte)))) : Prop :=
  ∃ reply, result = .ok reply ∧
    ∀ header data, reply = some (header, data) → (data.getD []).length = len

/-- The reads stop at the payload's end, or fail before it. -/
def Stops (calls : ScfgmgrCalls) (len : ℕ) (peer : Conn) : Prop :=
  len = 0 ∨ calls.dataMallocOk = false ∨
    ReadsExactly len (handed len peer.stream.length peer.chunks) ∨
    FailsBefore len (handed len peer.stream.length peer.chunks)

theorem socketRead_afterHeader {calls : ScfgmgrCalls} {h : ScfgmgrHeader} (peer : Conn)
    (hmalloc : calls.headerMallocOk = true) (hmagic : h.magic = SCM_MAGIC) :
    socketRead calls false (afterHeader h peer) =
      if 0 < h.len.toNat then
        if calls.dataMallocOk then
          (readPayload h.len.toNat [] peer).map fun data => data.map fun data => (h, some data)
        else .ok none
      else .ok (some (h, none)) := by
  have hread : (afterHeader h peer).read 12 = (some h.toBytes, peer) := by
    simp only [afterHeader, Conn.read]
    rw [List.take_left' (by simp), List.drop_left' (by simp)]
  rw [socketRead, if_pos hmalloc, hread]
  simp only [ofBytes_overlay_toBytes, hmagic, ne_eq, not_true_eq_false, if_false]
  cases readPayload h.len.toNat [] peer with
  | error fault => rfl
  | ok data => rfl

/-- Exactly the peers whose reads stop at the payload's end keep the loop to its block. -/
theorem socketRead_endsWithin_iff (calls : ScfgmgrCalls) (h : ScfgmgrHeader) (peer : Conn)
    (hmalloc : calls.headerMallocOk = true) (hmagic : h.magic = SCM_MAGIC) :
    EndsWithin h.len.toNat (socketRead calls false (afterHeader h peer)) ↔
      Stops calls h.len.toNat peer := by
  rw [socketRead_afterHeader peer hmalloc hmagic]
  by_cases hpos : 0 < h.len.toNat
  · rw [if_pos hpos]
    cases hdata : calls.dataMallocOk with
    | false =>
        constructor
        · intro _
          exact Or.inr (Or.inl hdata)
        · intro _
          exact ⟨none, rfl, by simp⟩
    | true =>
        rw [if_pos rfl]
        constructor
        · intro hends
          obtain ⟨reply, hreply, -⟩ := hends
          cases hpayload : readPayload h.len.toNat [] peer with
          | error fault =>
              rw [hpayload] at hreply
              cases hreply
          | ok data =>
              cases data with
              | none => exact Or.inr (Or.inr (Or.inr (readPayload_eq_none_iff.mp hpayload)))
              | some data =>
                  exact Or.inr (Or.inr (Or.inl (readPayload_eq_some_iff.mp hpayload).1))
        · intro hstops
          rcases hstops with hzero | hfalse | hexactly | hfails
          · omega
          · rw [hdata] at hfalse
            cases hfalse
          · have hpayload := readPayload_eq_some_iff.mpr ⟨hexactly, rfl⟩
            refine ⟨_, by rw [hpayload]; rfl, ?_⟩
            intro header data heq
            cases heq
            rw [Option.getD_some, List.length_take]
            exact Nat.min_eq_left (le_of_readsExactly hexactly)
          · have hpayload := readPayload_eq_none_iff.mpr hfails
            exact ⟨none, by rw [hpayload]; rfl, by simp⟩
  · have hzero : h.len.toNat = 0 := by omega
    rw [if_neg hpos]
    constructor
    · intro _
      exact Or.inl hzero
    · intro _
      refine ⟨_, rfl, ?_⟩
      intro header data heq
      cases heq
      rw [hzero]
      rfl

theorem socketRead_endsWithin_iff_two :
    EndsWithin 2 (socketRead goodCalls false
      (afterHeader ⟨SCM_MAGIC, 0, 2⟩ ⟨[65, 66, 67], [some 0, some 0]⟩)) :=
  (socketRead_endsWithin_iff goodCalls ⟨SCM_MAGIC, 0, 2⟩ ⟨[65, 66, 67], [some 0, some 0]⟩ rfl
    rfl).mpr (Or.inr (Or.inr (Or.inl ⟨[1, 1], [some 1], rfl, rfl⟩)))

/-- A peer that closes before the payload is read for ever, and one that sends more than two
bytes in two reads has the third stored behind the block. -/
theorem socketRead_not_endsWithin :
    ¬ EndsWithin 1 (socketRead goodCalls false (afterHeader ⟨SCM_MAGIC, 0, 1⟩ ⟨[], []⟩)) ∧
      ¬ EndsWithin 2 (socketRead goodCalls false
        (afterHeader ⟨SCM_MAGIC, 0, 2⟩ ⟨[65, 66, 67], [some 0, some 1]⟩)) := by
  have hfault : ∀ {len fault} {result : Except Fault (Option (ScfgmgrHeader × Option (List Byte)))},
      result = .error fault → ¬ EndsWithin len result := by
    intro len fault result hresult hends
    obtain ⟨reply, hreply, -⟩ := hends
    rw [hresult] at hreply
    cases hreply
  constructor
  · apply @hfault 1 .blocked
    rw [socketRead_afterHeader _ rfl rfl, readPayload_settle _ _ _ (Nat.zero_le _)]
    rfl
  · apply @hfault 2 .overrun
    rw [socketRead_afterHeader _ rfl rfl, readPayload_settle _ _ _ (Nat.zero_le _)]
    rfl

/-! ## A reply in any pieces -/

/-- The bytes that the first read hands over, and the sizes that follow it. -/
def firstRead : List ℕ → ℕ × List ℕ
  | [] => (12, [])
  | k :: chunks => (min 12 (k + 1), chunks)

/-- The header comes in one piece, or the block allocated for it happens to contain what is
missing, and what is read for the payload happens to be the payload. -/
def PiecesFit (junk : Block 12) (h : ScfgmgrHeader) (payload : List Byte) (chunks : List ℕ) :
    Prop :=
  (firstRead chunks).1 = 12 ∨
    junk.1.drop (firstRead chunks).1 = h.toBytes.drop (firstRead chunks).1 ∧
      (payload = [] ∨
        ReadsExactly payload.length (handed payload.length
          (12 - (firstRead chunks).1 + payload.length) ((firstRead chunks).2.map some)) ∧
        (h.toBytes.drop (firstRead chunks).1 ++ payload).take payload.length = payload)

theorem readsAll_map_some (n : ℕ) (chunks : List ℕ) : readsAll n (chunks.map some) = true := by
  induction chunks generalizing n with
  | nil => cases n <;> rfl
  | cons k chunks ih =>
      cases n with
      | zero => rfl
      | succ n => exact ih (n - k)

theorem toBytes_ofBytes (mem : Block 12) : (ScfgmgrHeader.ofBytes mem).toBytes = mem.1 := by
  have hmem := mem.2
  have htake : ∀ n, n ≤ 8 → ((mem.1.drop n).take 4).length = 4 := by
    intro n hn
    rw [List.length_take, List.length_drop]
    omega
  have hfirst := htake 0 (by omega)
  rw [List.drop_zero] at hfirst
  rw [ScfgmgrHeader.toBytes, ScfgmgrHeader.ofBytes, bytesOf_wordOf _ hfirst,
    bytesOf_wordOf _ (htake 4 (by omega)), bytesOf_wordOf _ (htake 8 (by omega)),
    ← List.append_assoc, ← List.take_add, ← List.take_add]
  exact List.take_of_length_le (by omega)

/-- The header read is the one sent exactly if the block contains what is missing. -/
theorem ofBytes_overlay_take_eq_iff {m : ℕ} (hm : m ≤ 12) (h : ScfgmgrHeader) (junk : Block 12) :
    ScfgmgrHeader.ofBytes (junk.overlay (h.toBytes.take m)) = h ↔
      junk.1.drop m = h.toBytes.drop m := by
  have hmem : (junk.overlay (h.toBytes.take m)).1 = h.toBytes.take m ++ junk.1.drop m := by
    change (h.toBytes.take m).take 12 ++ junk.1.drop (h.toBytes.take m).length = _
    have hlength : (h.toBytes.take m).length = m := by
      rw [List.length_take, length_toBytes]
      omega
    rw [hlength, List.take_of_length_le (by omega)]
  constructor
  · intro heq
    have hbytes := toBytes_ofBytes (junk.overlay (h.toBytes.take m))
    rw [heq, hmem] at hbytes
    exact (List.append_cancel_left ((List.take_append_drop m h.toBytes).trans hbytes)).symm
  · intro heq
    have hblock : junk.overlay (h.toBytes.take m) = junk.overlay h.toBytes := by
      apply Subtype.ext
      rw [hmem, heq, List.take_append_drop]
      change _ = h.toBytes.take 12 ++ junk.1.drop h.toBytes.length
      rw [List.take_of_length_le (by simp), List.drop_eq_nil_of_le (by simp [junk.2]),
        List.append_nil]
    rw [hblock, ofBytes_overlay_toBytes]

/-- What is read for the payload behind a header that is read as it was sent. -/
theorem piecesFit_iff {junk : Block 12} {h : ScfgmgrHeader} {payload : List Byte}
    {chunks : List ℕ} (hne : payload ≠ [])
    (hjunk : junk.1.drop (firstRead chunks).1 = h.toBytes.drop (firstRead chunks).1) :
    PiecesFit junk h payload chunks ↔
      readPayload payload.length [] ⟨h.toBytes.drop (firstRead chunks).1 ++ payload,
        (firstRead chunks).2.map some⟩ = .ok (some payload) := by
  have hlength : (h.toBytes.drop (firstRead chunks).1 ++ payload).length =
      12 - (firstRead chunks).1 + payload.length := by
    rw [List.length_append, List.length_drop, length_toBytes]
  rw [PiecesFit, readPayload_eq_some_iff, hlength]
  by_cases hwhole : (firstRead chunks).1 = 12
  · -- Behind a whole header the payload may come in any pieces.
    have hpayload : ReadsExactly payload.length
        (handed payload.length payload.length ((firstRead chunks).2.map some)) :=
      (readsExactly_handed_iff le_rfl le_rfl).mpr ⟨rfl, readsAll_map_some _ _⟩
    have hnil : h.toBytes.drop 12 = [] := List.drop_eq_nil_of_le (by simp)
    rw [hwhole, hnil, List.nil_append, Nat.sub_self, Nat.zero_add]
    exact iff_of_true (Or.inl rfl) ⟨hpayload, (List.take_of_length_le le_rfl).symm⟩
  · constructor
    · intro hfit
      rcases hfit with hfit | ⟨-, hfit | ⟨hreads, htake⟩⟩
      · exact absurd hfit hwhole
      · exact absurd hfit hne
      · exact ⟨hreads, htake.symm⟩
    · intro hreads
      exact Or.inr ⟨hjunk, Or.inr ⟨hreads.1, hreads.2.symm⟩⟩

theorem firstRead_le (chunks : List ℕ) : (firstRead chunks).1 ≤ 12 := by
  cases chunks with
  | nil => exact Nat.le_refl 12
  | cons k chunks => exact Nat.min_le_left _ _

/-- The first read hands over the first part of the header only. -/
theorem read_header (h : ScfgmgrHeader) (payload : List Byte) (chunks : List ℕ) :
    Conn.read 12 ⟨h.toBytes ++ payload, chunks.map some⟩ =
      (some (h.toBytes.take (firstRead chunks).1),
        ⟨h.toBytes.drop (firstRead chunks).1 ++ payload, (firstRead chunks).2.map some⟩) := by
  have hm : (firstRead chunks).1 ≤ h.toBytes.length := by
    rw [length_toBytes]
    exact firstRead_le chunks
  have htake : (h.toBytes ++ payload).take (firstRead chunks).1 =
      h.toBytes.take (firstRead chunks).1 := List.take_append_of_le_length hm
  have hdrop : (h.toBytes ++ payload).drop (firstRead chunks).1 =
      h.toBytes.drop (firstRead chunks).1 ++ payload := List.drop_append_of_le_length hm
  rw [← htake, ← hdrop]
  cases chunks with
  | nil => rfl
  | cons k chunks => rfl

/-- The header that is returned is the one that the block holds behind the first read. -/
theorem header_of_socketRead {calls : ScfgmgrCalls} {c c' : Conn} {bs : List Byte}
    {header : ScfgmgrHeader} {data : Option (List Byte)} (hmalloc : calls.headerMallocOk = true)
    (hread : c.read 12 = (some bs, c'))
    (h : socketRead calls false c = .ok (some (header, data))) :
    header = heldHeader calls bs := by
  by_cases htaken : Taken calls (heldHeader calls bs) c' false
  · obtain ⟨data', hdata⟩ := socketRead_taken hmalloc hread htaken
    rw [h] at hdata
    simp only [Except.ok.injEq, Option.some.injEq, Prod.mk.injEq] at hdata
    exact hdata.1
  · by_cases hrefused : Refused calls (heldHeader calls bs) c' false
    · rw [socketRead_refused hmalloc hread hrefused] at h
      cases h
    · obtain ⟨fault, hfault⟩ := socketRead_faulty hmalloc hread htaken hrefused
      rw [hfault] at h
      cases h

theorem not_piecesFit {junk : Block 12} {h : ScfgmgrHeader} {payload : List Byte}
    {chunks : List ℕ} (hjunk : junk.1.drop (firstRead chunks).1 ≠
      h.toBytes.drop (firstRead chunks).1) : ¬ PiecesFit junk h payload chunks := by
  intro hfit
  cases hfit with
  | inl hwhole =>
      apply hjunk
      rw [hwhole, List.drop_eq_nil_of_le (by simp [junk.2]), List.drop_eq_nil_of_le (by simp)]
  | inr hfit => exact hjunk hfit.1

/-- A reply is read as it was sent exactly if its pieces fit. -/
theorem socketRead_pieces_iff (calls : ScfgmgrCalls) {h : ScfgmgrHeader} {payload : List Byte}
    (hmagic : h.magic = SCM_MAGIC) (hlen : payload.length = h.len.toNat) (chunks : List ℕ) :
    socketRead calls false ⟨h.toBytes ++ payload, chunks.map some⟩ =
        .ok (some (h, if payload = [] then none else some payload)) ↔
      calls.headerMallocOk = true ∧ (payload ≠ [] → calls.dataMallocOk = true) ∧
        PiecesFit calls.junk h payload chunks := by
  have hread := read_header h payload chunks
  have hheader := ofBytes_overlay_take_eq_iff (firstRead_le chunks) h calls.junk
  by_cases hjunk : calls.junk.1.drop (firstRead chunks).1 = h.toBytes.drop (firstRead chunks).1
  · rw [socketRead, hread]
    cases hmalloc : calls.headerMallocOk with
    | false => simp
    | true =>
        simp only [if_true, true_and]
        rw [hheader.mpr hjunk, hmagic, if_neg (not_not_intro rfl), ← hlen]
        by_cases hne : payload = []
        · subst hne
          simp [PiecesFit, hjunk]
        · rw [if_pos (List.length_pos_iff.mpr hne), if_neg Bool.false_ne_true, if_neg hne,
            piecesFit_iff hne hjunk]
          cases hdata : calls.dataMallocOk with
          | false => simp [hne]
          | true =>
              rw [if_pos rfl]
              cases readPayload payload.length [] ⟨h.toBytes.drop (firstRead chunks).1 ++ payload,
                  (firstRead chunks).2.map some⟩ with
              | error fault => simp [bind, Except.bind]
              | ok data =>
                  cases data with
                  | none => simp [bind, Except.bind, pure, Except.pure]
                  | some data => simp [bind, Except.bind, pure, Except.pure]
  · -- The header that is read is another one.
    constructor
    · intro heq
      have hmalloc : calls.headerMallocOk = true := by
        by_contra hnull
        rw [socketRead, if_neg hnull] at heq
        cases heq
      exact absurd (hheader.mp (header_of_socketRead hmalloc hread heq).symm) hjunk
    · intro hfit
      exact absurd hfit.2.2 (not_piecesFit hjunk)

theorem socketRead_pieces_iff_two :
    socketRead goodCalls false
        ⟨(⟨SCM_MAGIC, 0, 2⟩ : ScfgmgrHeader).toBytes ++ [65, 66], [11, 0].map some⟩ =
      .ok (some (⟨SCM_MAGIC, 0, 2⟩, if [65, 66] = ([] : List Byte) then none else some [65, 66])) :=
  (socketRead_pieces_iff goodCalls rfl rfl [11, 0]).mpr ⟨rfl, fun _ => rfl, Or.inl rfl⟩

/-- A header cut behind its magic is taken to be whole: its length is that of the block
allocated for it. -/
theorem socketRead_header_cut :
    socketRead goodCalls false
        ⟨(⟨SCM_MAGIC, 0, 1⟩ : ScfgmgrHeader).toBytes ++ [65], [3, 8, 0].map some⟩ ≠
      .ok (some (⟨SCM_MAGIC, 0, 1⟩, if [65] = ([] : List Byte) then none else some [65])) := by
  have hread : socketRead goodCalls false
      ⟨(⟨SCM_MAGIC, 0, 1⟩ : ScfgmgrHeader).toBytes ++ [65], [3, 8, 0].map some⟩ =
        .ok (some (⟨SCM_MAGIC, 0, 0⟩, none)) := rfl
  rw [hread]
  intro h
  cases h

end BcmUtils.Socket
