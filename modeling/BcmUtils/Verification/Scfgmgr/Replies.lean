import BcmUtils.Verification.Scfgmgr.Payloads

/-! # Answers of the configuration server

What the six requests return for a reply that arrives in any pieces. The header is read
once, and what a short read leaves out is taken from the block allocated for it. Three of
the requests do not look at the command of the reply, and two pass no place for its
payload. -/

namespace BcmUtils.Socket

open CLib

/-! ## Replies -/

/-- A reply of the server: any header, and as many bytes as it announces. They arrive in any
pieces, and the peer may close before the last of them. -/
structure ServerReply where
  header : ScfgmgrHeader
  payload : List Byte
  length_eq : payload.length = header.len.toNat
  arriving : ℕ
  chunks : List (Option ℕ)

/-- The reads behind those that hand over the next `n` bytes, unless one of these fails. -/
def readsBehind : ℕ → List (Option ℕ) → Option (List (Option ℕ))
  | 0, chunks => some chunks
  | _ + 1, [] => some []
  | _ + 1, none :: _ => none
  | n + 1, some k :: chunks => readsBehind (n - k) chunks

namespace ServerReply

variable (r : ServerReply)

/-- The stream of a reply. -/
def conn : Conn := ⟨(r.header.toBytes ++ r.payload).take r.arriving, r.chunks⟩

/-- The bytes that the first read hands over, unless it fails. -/
def first : Option (List Byte) := (r.conn.read 12).1

/-- What is left for the reads behind the first one. -/
def rest : Conn := (r.conn.read 12).2

/-- All of the reply arrives before a read fails: the header, and then the payload. -/
def Arrives : Prop :=
  12 + r.payload.length ≤ r.arriving ∧
    (readsBehind 12 r.chunks).any (readsAll r.payload.length) = true

instance : Decidable r.Arrives := inferInstanceAs (Decidable (_ ∧ _))

end ServerReply

/-! ## Headers -/

@[simp] theorem length_toBytes (h : ScfgmgrHeader) : h.toBytes.length = 12 := by
  simp [ScfgmgrHeader.toBytes]

/-- A header that arrived whole is read as it was sent. -/
theorem ofBytes_overlay_toBytes (h : ScfgmgrHeader) (junk : Block 12) :
    ScfgmgrHeader.ofBytes (junk.overlay h.toBytes) = h := by
  have hmem : (junk.overlay h.toBytes).1 = h.toBytes := by
    change h.toBytes.take 12 ++ junk.1.drop h.toBytes.length = h.toBytes
    rw [List.take_of_length_le (by simp), List.drop_eq_nil_of_le (by simp [junk.2]),
      List.append_nil]
  have hmagic : h.toBytes.take 4 = bytesOf .little h.magic := by
    rw [ScfgmgrHeader.toBytes, List.take_left' (by simp)]
  have hcmd : (h.toBytes.drop 4).take 4 = bytesOf .little h.cmd := by
    rw [ScfgmgrHeader.toBytes, List.drop_left' (by simp), List.take_left' (by simp)]
  have hlen : (h.toBytes.drop 8).take 4 = bytesOf .little h.len := by
    rw [ScfgmgrHeader.toBytes, ← List.append_assoc, List.drop_left' (by simp),
      List.take_of_length_le (by simp)]
  rw [ScfgmgrHeader.ofBytes, hmem, hmagic, hcmd, hlen]
  simp only [wordOf_bytesOf]

theorem ServerReply.payload_eq_nil (r : ServerReply) :
    r.payload = [] ↔ r.header.len.toNat = 0 := by
  rw [← r.length_eq, List.length_eq_zero_iff]

/-- A first read that is not short hands over the header. -/
theorem ServerReply.first_short_or_whole {r : ServerReply} {bs : List Byte}
    (h : r.first = some bs) : bs.length < 12 ∨ bs = r.header.toBytes := by
  obtain ⟨n, hn, rfl⟩ : ∃ n ≤ 12, bs = (r.header.toBytes.take n).take r.arriving := by
    rw [ServerReply.first, ServerReply.conn, Conn.read] at h
    split at h
    · refine ⟨12, le_rfl, ?_⟩
      rw [← Option.some.inj h, List.take_take, List.take_take, Nat.min_comm,
        List.take_append_of_le_length (by rw [length_toBytes]; omega)]
    · cases h
    · rename_i k _ _
      refine ⟨min 12 (k + 1), by omega, ?_⟩
      rw [← Option.some.inj h, List.take_take, List.take_take, Nat.min_comm r.arriving,
        List.take_append_of_le_length (by rw [length_toBytes]; omega)]
  rw [List.take_take, List.length_take, length_toBytes]
  by_cases hshort : min r.arriving n < 12
  · exact Or.inl (by omega)
  · exact Or.inr (List.take_of_length_le (by rw [length_toBytes]; omega))

/-- Behind a whole header the reads find what arrives of the payload. -/
theorem ServerReply.rest_of_whole {r : ServerReply} (h : r.first = some r.header.toBytes) :
    12 ≤ r.arriving ∧ r.rest = ⟨r.payload.take (r.arriving - 12), r.chunks.tail⟩ ∧
      readsBehind 12 r.chunks = some r.chunks.tail ∧
      (none ∈ r.chunks ↔ none ∈ r.chunks.tail) := by
  have hdrop : r.conn.stream.drop 12 = r.payload.take (r.arriving - 12) := by
    rw [ServerReply.conn, List.drop_take, List.drop_left' (length_toBytes r.header)]
  have hstream : r.conn.stream.length ≤ r.arriving := List.length_take_le _ _
  rw [ServerReply.first, Conn.read] at h
  rw [ServerReply.rest, Conn.read]
  cases hchunks : r.chunks with
  | nil =>
      rw [show r.conn.chunks = [] from hchunks] at h ⊢
      have hlength := congrArg List.length (Option.some.inj h)
      rw [List.length_take, length_toBytes] at hlength
      refine ⟨by omega, by simp only [hdrop]; rfl, rfl, Iff.rfl⟩
  | cons chunk chunks =>
      rw [show r.conn.chunks = chunk :: chunks from hchunks] at h ⊢
      cases chunk with
      | none => cases h
      | some k =>
          have hlength := congrArg List.length (Option.some.inj h)
          rw [List.length_take, length_toBytes] at hlength
          have hk : min 12 (k + 1) = 12 := by omega
          refine ⟨by omega, by simp only [hk, hdrop]; rfl, ?_, by simp⟩
          rw [readsBehind, show 11 - k = 0 by omega, readsBehind]
          rfl

/-! ## The six requests -/

/-- A call of one of the six functions. -/
inductive Request
  | cmd (cmd : BitVec 32) (rdataNull : Bool)
  | set (name data : CStr)
  | sendfile (data : CStr) (len : BitVec 32)
  | getall (rdataNull : Bool)
  | get (data : CStr) (rdataNull : Bool)
  | console (data : CStr) (rdataNull : Bool)

namespace Request

/-- The call. -/
def perform (calls : ScfgmgrCalls) (server : ScfgmgrHeader → CStr → Conn) :
    Request → Except Fault (ℤ × Option (List Byte))
  | .cmd c rdataNull => scfgmgrCmd calls server c rdataNull
  | .set name data => scfgmgrSet calls server name data
  | .sendfile data len => scfgmgrSendfile calls server data len
  | .getall rdataNull => scfgmgrGetall calls server rdataNull
  | .get data rdataNull => scfgmgrGet calls server data rdataNull
  | .console data rdataNull => scfgmgrConsole calls server data rdataNull

/-- The header and the data that are sent, unless a set outgrows its array. -/
def message : Request → Option (ScfgmgrHeader × CStr)
  | .cmd c _ => some (⟨SCM_MAGIC, c, 0⟩, [])
  | .set name data => (setMessage name data).map fun tmp =>
      (⟨SCM_MAGIC, SCFG_SET, BitVec.ofNat 32 (tmp.length + 1)⟩, tmp)
  | .sendfile data len => some (⟨SCM_MAGIC, SCFG_RECEIVE, len⟩, data)
  | .getall _ => some (⟨SCM_MAGIC, SCFG_GETALL, 0⟩, [])
  | .get data _ => some (⟨SCM_MAGIC, SCFG_GET, BitVec.ofNat 32 (data.length + 1)⟩, data)
  | .console data _ => some (⟨SCM_MAGIC, SCFG_CONSOLE, BitVec.ofNat 32 (data.length + 1)⟩, data)

/-- No place for the payload is passed on. -/
def rdataNull : Request → Bool
  | .set _ _ | .sendfile _ _ => true
  | .cmd _ rdataNull | .getall rdataNull | .get _ rdataNull | .console _ rdataNull => rdataNull

/-- The command of the reply is looked at. -/
def looksAtCmd : Request → Bool
  | .cmd _ _ | .set _ _ | .sendfile _ _ => true
  | .getall _ | .get _ _ | .console _ _ => false

theorem perform_eq (calls : ScfgmgrCalls) (server : ScfgmgrHeader → CStr → Conn) (req : Request) :
    req.perform calls server =
      match req.message with
      | none => .error .overrun
      | some (shd, sdata) => scfgmgrRequest calls server shd sdata req.rdataNull
          fun rhd => if req.looksAtCmd then rhd.cmd else 0 := by
  cases req with
  | set name data =>
      simp only [perform, scfgmgrSet, message]
      cases setMessage name data <;> rfl
  | _ => rfl

end Request

/-- The request reaches the server. -/
def Sent (calls : ScfgmgrCalls) (shd : ScfgmgrHeader) : Prop :=
  calls.socket.isSome ∧ calls.connectOk = true ∧ calls.writeHeaderOk = true ∧
    (shd.len.toNat ≠ 0 → calls.writeDataOk = true)

instance (calls : ScfgmgrCalls) (shd : ScfgmgrHeader) : Decidable (Sent calls shd) :=
  inferInstanceAs (Decidable (_ ∧ _ ∧ _ ∧ (_ → _)))

/-- The exchange succeeds: the request is sent, and the reply arrives with its payload and
finds memory. -/
def Exchanged (calls : ScfgmgrCalls) (shd : ScfgmgrHeader) (r : ServerReply) : Prop :=
  Sent calls shd ∧ calls.headerMallocOk = true ∧ r.header.magic = SCM_MAGIC ∧
    (r.payload ≠ [] → calls.dataMallocOk = true) ∧ r.Arrives

/-- What a request makes of the result of the exchange. -/
def answer (i : ScfgmgrHeader → BitVec 32) :
    Option (ScfgmgrHeader × Option (List Byte)) → ℤ × Option (List Byte)
  | none => (-1, none)
  | some (rhd, rdata) => (if i rhd = SCFG_ERR then -1 else 0, rdata)

theorem scfgmgrRequest_eq (calls : ScfgmgrCalls) (server : ScfgmgrHeader → CStr → Conn)
    (shd : ScfgmgrHeader) (sdata : CStr) (dataNull : Bool) (i : ScfgmgrHeader → BitVec 32) :
    scfgmgrRequest calls server shd sdata dataNull i =
      if Sent calls shd then (socketRead calls dataNull (server shd sdata)).map (answer i)
      else .ok (-1, none) := by
  have hwrite : socketWrite calls shd = true ↔
      calls.writeHeaderOk = true ∧ (shd.len.toNat ≠ 0 → calls.writeDataOk = true) := by
    simp only [socketWrite, Bool.and_eq_true, Bool.or_eq_true, decide_eq_true_eq, ne_eq,
      or_iff_not_imp_left]
  unfold scfgmgrRequest scfgmgrConnect
  cases hsocket : calls.socket with
  | none =>
      have : ¬ Sent calls shd := fun h => by simp [Sent, hsocket] at h
      simp only [this, if_false]
      rfl
  | some sockfd =>
      by_cases hsent : calls.connectOk = true ∧ socketWrite calls shd = true
      · have : Sent calls shd := ⟨by simp [hsocket], hsent.1, hwrite.mp hsent.2⟩
        simp only [hsent.1, hsent.2, Bool.and_self, ite_true, this]
        rcases socketRead calls dataNull (server shd sdata) with e | ⟨_ | ⟨rhd, rdata⟩⟩ <;> rfl
      · have : ¬ Sent calls shd := fun h => hsent ⟨h.2.1, hwrite.mpr h.2.2⟩
        rw [← Bool.and_eq_true] at hsent
        simp only [hsent, this, if_false]
        rfl

/-! ## What is read behind a header -/

/-- The header in the block allocated for it, behind a read that hands over `bs`. -/
def heldHeader (calls : ScfgmgrCalls) (bs : List Byte) : ScfgmgrHeader :=
  .ofBytes (calls.junk.overlay bs)

/-- The header `h` is accepted, and the reads behind it fill the block for its payload. -/
def Taken (calls : ScfgmgrCalls) (h : ScfgmgrHeader) (c : Conn) (dataNull : Bool) : Prop :=
  h.magic = SCM_MAGIC ∧ (h.len.toNat = 0 ∨ dataNull = false ∧ calls.dataMallocOk = true ∧
    ReadsExactly h.len.toNat (handed h.len.toNat c.stream.length c.chunks))

/-- The header `h` is turned down, or memory or a read for its payload fails. -/
def Refused (calls : ScfgmgrCalls) (h : ScfgmgrHeader) (c : Conn) (dataNull : Bool) : Prop :=
  h.magic ≠ SCM_MAGIC ∨ h.len.toNat ≠ 0 ∧ dataNull = false ∧ (calls.dataMallocOk = false ∨
    FailsBefore h.len.toNat (handed h.len.toNat c.stream.length c.chunks))

theorem not_refused {calls : ScfgmgrCalls} {h : ScfgmgrHeader} {c : Conn} {dataNull : Bool}
    (htaken : Taken calls h c dataNull) : ¬ Refused calls h c dataNull := by
  obtain ⟨hmagic, hpayload⟩ := htaken
  rintro (hother | ⟨hpos, -, hfails⟩)
  · exact hother hmagic
  · obtain ⟨-, hmalloc, hreads⟩ := hpayload.resolve_left hpos
    rcases hfails with hfails | hfails
    · simp [hmalloc] at hfails
    · exact not_failsBefore hreads hfails

section

variable {calls : ScfgmgrCalls} {dataNull : Bool} {c next : Conn} {bs : List Byte}
  (hmalloc : calls.headerMallocOk = true) (hread : c.read 12 = (some bs, next))

include hmalloc hread

theorem socketRead_of_read :
    socketRead calls dataNull c =
      if (heldHeader calls bs).magic ≠ SCM_MAGIC then .ok none
      else if 0 < (heldHeader calls bs).len.toNat then
        if dataNull then .error .nullStore
        else if calls.dataMallocOk then
          (readPayload (heldHeader calls bs).len.toNat [] next).map fun data =>
            data.map fun data => (heldHeader calls bs, some data)
        else .ok none
      else .ok (some (heldHeader calls bs, none)) := by
  rw [socketRead, if_pos hmalloc, hread]
  rfl

theorem socketRead_taken (h : Taken calls (heldHeader calls bs) next dataNull) :
    ∃ data, socketRead calls dataNull c = .ok (some (heldHeader calls bs, data)) := by
  obtain ⟨hmagic, hpayload⟩ := h
  rw [socketRead_of_read hmalloc hread, if_neg (not_not_intro hmagic)]
  by_cases hzero : (heldHeader calls bs).len.toNat = 0
  · exact ⟨none, by rw [if_neg (by omega)]⟩
  · obtain ⟨hnull, hdata, hreads⟩ := hpayload.resolve_left hzero
    have hfull := readPayload_eq_some_iff.mpr ⟨hreads, rfl⟩
    refine ⟨some (next.stream.take (heldHeader calls bs).len.toNat), ?_⟩
    rw [if_pos (by omega), hnull, if_neg Bool.false_ne_true, hdata, if_pos rfl, hfull]
    rfl

theorem socketRead_refused (h : Refused calls (heldHeader calls bs) next dataNull) :
    socketRead calls dataNull c = .ok none := by
  rw [socketRead_of_read hmalloc hread]
  by_cases hmagic : (heldHeader calls bs).magic = SCM_MAGIC
  · obtain ⟨hpos, hnull, hfails⟩ := h.resolve_left (not_not_intro hmagic)
    rw [if_neg (not_not_intro hmagic), if_pos (by omega), hnull, if_neg Bool.false_ne_true]
    cases hdata : calls.dataMallocOk with
    | false => rfl
    | true =>
        have hnone := readPayload_eq_none_iff.mpr (hfails.resolve_left (by simp [hdata]))
        rw [if_pos rfl, hnone]
        rfl
  · rw [if_pos hmagic]

/-- Without either the call does not return. -/
theorem socketRead_faulty (htaken : ¬ Taken calls (heldHeader calls bs) next dataNull)
    (hrefused : ¬ Refused calls (heldHeader calls bs) next dataNull) :
    ∃ fault, socketRead calls dataNull c = .error fault := by
  rw [socketRead_of_read hmalloc hread]
  have hmagic : (heldHeader calls bs).magic = SCM_MAGIC := by
    by_contra hother
    exact hrefused (Or.inl hother)
  have hpos : (heldHeader calls bs).len.toNat ≠ 0 := fun hzero =>
    htaken ⟨hmagic, Or.inl hzero⟩
  rw [if_neg (not_not_intro hmagic), if_pos (by omega)]
  cases dataNull with
  | true => exact ⟨_, rfl⟩
  | false =>
      cases hdata : calls.dataMallocOk with
      | false => exact absurd (Or.inr ⟨hpos, rfl, Or.inl hdata⟩) hrefused
      | true =>
          rw [if_neg Bool.false_ne_true, if_pos rfl]
          cases hpayload : readPayload (heldHeader calls bs).len.toNat [] next with
          | error fault => exact ⟨fault, rfl⟩
          | ok data =>
              cases data with
              | none =>
                  exact absurd (Or.inr ⟨hpos, rfl, Or.inr (readPayload_eq_none_iff.mp hpayload)⟩)
                    hrefused
              | some data =>
                  have hreads := (readPayload_eq_some_iff.mp hpayload).1
                  exact absurd ⟨hmagic, Or.inr ⟨rfl, hdata, hreads⟩⟩ htaken

end

/-! ## Lawful answers -/

/-- The return value is `-1` exactly for a failed exchange or the command `SCFG_ERR`, and 0
otherwise, and nothing is stored through a null pointer. -/
structure Lawful (result : Except Fault (ℤ × Option (List Byte))) (exchanged : Prop)
    (cmd : BitVec 32) : Prop where
  failure : (∃ rdata, result = .ok (-1, rdata)) ↔ ¬ exchanged ∨ cmd = SCFG_ERR
  success : (∃ rdata, result = .ok (0, rdata)) ↔ exchanged ∧ cmd ≠ SCFG_ERR
  no_null_store : result ≠ .error .nullStore

/-- A returned value decides between the two cases. -/
theorem lawful_ok_iff {ret : ℤ} {rdata : Option (List Byte)} {exchanged : Prop}
    {cmd : BitVec 32} : Lawful (.ok (ret, rdata)) exchanged cmd ↔
      (ret = -1 ∧ (¬ exchanged ∨ cmd = SCFG_ERR)) ∨ (ret = 0 ∧ exchanged ∧ cmd ≠ SCFG_ERR) := by
  constructor
  · intro h
    have hfailure := h.failure
    have hsuccess := h.success
    simp only [Except.ok.injEq, Prod.mk.injEq, exists_and_left, exists_eq', and_true]
      at hfailure hsuccess
    tauto
  · rintro (⟨rfl, h⟩ | ⟨rfl, h⟩)
    · refine ⟨?_, ?_, by simp⟩ <;> simp <;> tauto
    · refine ⟨?_, ?_, by simp⟩ <;> simp <;> tauto

theorem not_lawful_error {e : Fault} {exchanged : Prop} {cmd : BitVec 32} :
    ¬ Lawful (.error e) exchanged cmd := by
  intro h
  have hfailure := h.failure
  have hsuccess := h.success
  simp only [reduceCtorEq, exists_false, false_iff] at hfailure hsuccess
  tauto


/-! ## Answers behind a first read -/

/-- The call returns 0 for the header `h`. -/
def Accepts (calls : ScfgmgrCalls) (h : ScfgmgrHeader) (c : Conn) (rdataNull looks : Bool) :
    Prop :=
  Taken calls h c rdataNull ∧ (looks = true → h.cmd ≠ SCFG_ERR)

/-- The call returns `-1` for the header `h`. -/
def Rejects (calls : ScfgmgrCalls) (h : ScfgmgrHeader) (c : Conn) (rdataNull looks : Bool) :
    Prop :=
  Refused calls h c rdataNull ∨ Taken calls h c rdataNull ∧ looks = true ∧ h.cmd = SCFG_ERR

theorem lawful_read_iff {calls : ScfgmgrCalls} {c next : Conn} {bs : List Byte}
    (hmalloc : calls.headerMallocOk = true) (hread : c.read 12 = (some bs, next))
    (rdataNull looks : Bool) (exchanged : Prop) (cmd : BitVec 32) :
    Lawful ((socketRead calls rdataNull c).map (answer fun rhd => if looks then rhd.cmd else 0))
        exchanged cmd ↔
      Accepts calls (heldHeader calls bs) next rdataNull looks ∧ exchanged ∧ cmd ≠ SCFG_ERR ∨
        Rejects calls (heldHeader calls bs) next rdataNull looks ∧
          (¬ exchanged ∨ cmd = SCFG_ERR) := by
  have hzero : 0#32 ≠ SCFG_ERR := by decide
  by_cases htaken : Taken calls (heldHeader calls bs) next rdataNull
  · obtain ⟨data, hdata⟩ := socketRead_taken hmalloc hread htaken
    rw [hdata, Except.map, answer, lawful_ok_iff]
    simp only [Accepts, Rejects, htaken, not_refused htaken, true_and, false_or]
    cases looks with
    | false => simp [hzero]
    | true => by_cases hcmd : (heldHeader calls bs).cmd = SCFG_ERR <;> simp [hcmd]
  · by_cases hrefused : Refused calls (heldHeader calls bs) next rdataNull
    · rw [socketRead_refused hmalloc hread hrefused, Except.map, answer, lawful_ok_iff]
      simp [Accepts, Rejects, htaken, hrefused]
    · obtain ⟨fault, hfault⟩ := socketRead_faulty hmalloc hread htaken hrefused
      rw [hfault]
      refine iff_of_false not_lawful_error ?_
      rintro (⟨haccepts, -⟩ | ⟨hrejects | hrejects, -⟩)
      · exact htaken haccepts.1
      · exact hrefused hrejects
      · exact htaken hrejects.1

/-- The request is sent, and the first read for the reply hands something over. -/
def HeaderRead (calls : ScfgmgrCalls) (shd : ScfgmgrHeader) (r : ServerReply) : Prop :=
  Sent calls shd ∧ calls.headerMallocOk = true ∧ r.first.isSome = true

/-- The header arrives whole, a payload has a place to go, it arrives or memory or a read for
it fails, and the command of an error reply is looked at. -/
structure WholeReply (calls : ScfgmgrCalls) (shd : ScfgmgrHeader) (r : ServerReply)
    (rdataNull looks : Bool) : Prop where
  whole : r.first = some r.header.toBytes
  placed : r.header.magic = SCM_MAGIC → r.payload ≠ [] → rdataNull = false
  ended : r.header.magic = SCM_MAGIC → r.payload ≠ [] → calls.dataMallocOk = true →
    r.Arrives ∨ none ∈ r.chunks
  noticed : Exchanged calls shd r → r.header.cmd = SCFG_ERR → looks = true

/-- The first read ends within the header, and the header that the block then holds happens
to lead to the right answer. -/
def CutReply (calls : ScfgmgrCalls) (shd : ScfgmgrHeader) (r : ServerReply)
    (rdataNull looks : Bool) : Prop :=
  ∃ bs, r.first = some bs ∧ bs.length < 12 ∧
    (Accepts calls (heldHeader calls bs) r.rest rdataNull looks ∧ Exchanged calls shd r ∧
        r.header.cmd ≠ SCFG_ERR ∨
      Rejects calls (heldHeader calls bs) r.rest rdataNull looks ∧
        (¬ Exchanged calls shd r ∨ r.header.cmd = SCFG_ERR))

/-- Behind a whole header the reads fill the block exactly if the payload arrives. -/
theorem taken_whole_iff {calls : ScfgmgrCalls} {r : ServerReply} {rdataNull : Bool}
    (h : r.first = some r.header.toBytes) :
    Taken calls r.header r.rest rdataNull ↔ r.header.magic = SCM_MAGIC ∧
      (r.payload = [] ∨ rdataNull = false ∧ calls.dataMallocOk = true ∧ r.Arrives) := by
  obtain ⟨harriving, hrest, hbehind, -⟩ := ServerReply.rest_of_whole h
  have hleft : (r.payload.take (r.arriving - 12)).length ≤ r.header.len.toNat := by
    rw [← r.length_eq, List.length_take]
    exact Nat.min_le_right _ _
  have hall : (r.payload.take (r.arriving - 12)).length = r.header.len.toNat ↔
      12 + r.payload.length ≤ r.arriving := by
    rw [← r.length_eq, List.length_take]
    omega
  rw [Taken, hrest, readsExactly_handed_iff hleft le_rfl, hall, r.payload_eq_nil,
    ServerReply.Arrives, hbehind, Option.any_some, r.length_eq]

theorem refused_whole_iff {calls : ScfgmgrCalls} {r : ServerReply} {rdataNull : Bool}
    (h : r.first = some r.header.toBytes) :
    Refused calls r.header r.rest rdataNull ↔ r.header.magic ≠ SCM_MAGIC ∨
      r.payload ≠ [] ∧ rdataNull = false ∧
        (calls.dataMallocOk = false ∨ ¬ r.Arrives ∧ none ∈ r.chunks) := by
  obtain ⟨harriving, hrest, hbehind, hfails⟩ := ServerReply.rest_of_whole h
  have hleft : (r.payload.take (r.arriving - 12)).length ≤ r.header.len.toNat := by
    rw [← r.length_eq, List.length_take]
    exact Nat.min_le_right _ _
  have hall : (r.payload.take (r.arriving - 12)).length = r.header.len.toNat ↔
      12 + r.payload.length ≤ r.arriving := by
    rw [← r.length_eq, List.length_take]
    omega
  rw [Refused, hrest, failsBefore_handed_iff hleft le_rfl, hall, ne_eq r.payload,
    r.payload_eq_nil, ServerReply.Arrives, hbehind, Option.any_some, r.length_eq, hfails]

theorem lawful_whole_iff {calls : ScfgmgrCalls} {shd : ScfgmgrHeader} {r : ServerReply}
    (hsent : Sent calls shd) (hmalloc : calls.headerMallocOk = true)
    (h : r.first = some r.header.toBytes) (rdataNull looks : Bool) :
    (Accepts calls r.header r.rest rdataNull looks ∧ Exchanged calls shd r ∧
        r.header.cmd ≠ SCFG_ERR ∨
      Rejects calls r.header r.rest rdataNull looks ∧
        (¬ Exchanged calls shd r ∨ r.header.cmd = SCFG_ERR)) ↔
      WholeReply calls shd r rdataNull looks := by
  have hempty : r.payload = [] → r.Arrives := by
    intro hnil
    obtain ⟨harriving, -, hbehind, -⟩ := ServerReply.rest_of_whole h
    rw [ServerReply.Arrives, hnil, hbehind]
    exact ⟨harriving, by simp [readsAll]⟩
  have hex : Exchanged calls shd r ↔ r.header.magic = SCM_MAGIC ∧
      (r.payload ≠ [] → calls.dataMallocOk = true) ∧ r.Arrives := by
    simp only [Exchanged, hsent, hmalloc, true_and]
  have hwhole : WholeReply calls shd r rdataNull looks ↔
      (r.header.magic = SCM_MAGIC → r.payload ≠ [] → rdataNull = false) ∧
        (r.header.magic = SCM_MAGIC → r.payload ≠ [] → calls.dataMallocOk = true →
          r.Arrives ∨ none ∈ r.chunks) ∧
        (Exchanged calls shd r → r.header.cmd = SCFG_ERR → looks = true) :=
    ⟨fun w => ⟨w.placed, w.ended, w.noticed⟩, fun w => ⟨h, w.1, w.2.1, w.2.2⟩⟩
  rw [hwhole, hex, Accepts, Rejects, taken_whole_iff h, refused_whole_iff h]
  by_cases hmagic : r.header.magic = SCM_MAGIC
  · by_cases hnil : r.payload = []
    · have harrives := hempty hnil
      by_cases hcmd : r.header.cmd = SCFG_ERR <;> cases looks <;>
        simp [hmagic, hnil, harrives, hcmd]
    · cases rdataNull with
      | true => simp [hmagic, hnil]
      | false =>
          cases hdata : calls.dataMallocOk with
          | false => simp [hmagic, hnil]
          | true =>
              by_cases harrives : r.Arrives
              · by_cases hcmd : r.header.cmd = SCFG_ERR <;> cases looks <;>
                  simp [hmagic, hnil, harrives, hcmd]
              · simp [hmagic, hnil, harrives]
  · simp [hmagic]

theorem not_exchanged {calls : ScfgmgrCalls} {shd : ScfgmgrHeader} {r : ServerReply}
    (h : r.first = none) : ¬ Exchanged calls shd r := by
  rintro ⟨-, -, -, -, -, hreads⟩
  rw [ServerReply.first, Conn.read] at h
  split at h
  · cases h
  · rename_i heq
    rw [show r.chunks = _ from heq] at hreads
    cases hreads
  · cases h

theorem lawful_scfgmgrRequest_iff (calls : ScfgmgrCalls)
    (server : ScfgmgrHeader → CStr → ServerReply) (shd : ScfgmgrHeader) (sdata : CStr)
    (rdataNull looks : Bool) :
    Lawful (scfgmgrRequest calls (fun h d => (server h d).conn) shd sdata rdataNull
        fun rhd => if looks then rhd.cmd else 0)
        (Exchanged calls shd (server shd sdata)) (server shd sdata).header.cmd ↔
      ¬ HeaderRead calls shd (server shd sdata) ∨
        WholeReply calls shd (server shd sdata) rdataNull looks ∨
        CutReply calls shd (server shd sdata) rdataNull looks := by
  rw [scfgmgrRequest_eq]
  generalize server shd sdata = r
  have hfailed : ∀ {exchanged : Prop}, ¬ exchanged →
      Lawful (.ok (-1, none)) exchanged r.header.cmd := by
    intro exchanged hnot
    rw [lawful_ok_iff]
    exact Or.inl ⟨rfl, Or.inl hnot⟩
  by_cases hsent : Sent calls shd
  · rw [if_pos hsent]
    cases hmalloc : calls.headerMallocOk with
    | false =>
        rw [socketRead, hmalloc, if_neg Bool.false_ne_true]
        refine iff_of_true (hfailed fun hex => ?_) (Or.inl fun hhead => ?_)
        · simp [hex.2.1] at hmalloc
        · simp [hhead.2.1] at hmalloc
    | true =>
        cases hfirst : r.first with
        | none =>
            have hread : r.conn.read 12 = (none, r.rest) := Prod.ext hfirst rfl
            rw [socketRead, if_pos hmalloc, hread]
            refine iff_of_true (hfailed (not_exchanged hfirst)) (Or.inl fun hhead => ?_)
            exact absurd hhead.2.2 (by simp [hfirst])
        | some bs =>
            have hread : r.conn.read 12 = (some bs, r.rest) := Prod.ext hfirst rfl
            have hhead : HeaderRead calls shd r := ⟨hsent, hmalloc, by rw [hfirst]; rfl⟩
            rw [lawful_read_iff hmalloc hread, iff_false_intro (not_not_intro hhead), false_or]
            rcases ServerReply.first_short_or_whole hfirst with hshort | rfl
            · have hnot : ¬ WholeReply calls shd r rdataNull looks := by
                intro hwhole
                have hbs := Option.some.inj (hfirst.symm.trans hwhole.whole)
                rw [hbs, length_toBytes] at hshort
                omega
              rw [CutReply, hfirst]
              simp [hnot, hshort]
            · have hnot : ¬ CutReply calls shd r rdataNull looks := by
                rintro ⟨bs, hbs, hshort, -⟩
                rw [← Option.some.inj (hfirst.symm.trans hbs), length_toBytes] at hshort
                omega
              rw [heldHeader, ofBytes_overlay_toBytes, lawful_whole_iff hsent hmalloc hfirst]
              simp [hnot]
  · rw [if_neg hsent]
    exact iff_of_true (hfailed fun hex => hsent hex.1) (Or.inl fun hhead => hsent hhead.1)

/-- The calls of an exchange in which nothing fails. -/
def goodCalls : ScfgmgrCalls := ⟨some 3, true, true, true, true, true, Block.zeroed 12⟩

/-- A reply that refuses the request. -/
def errorReply (chunks : List (Option ℕ)) : ServerReply :=
  ⟨⟨SCM_MAGIC, SCFG_ERR, 0⟩, [], rfl, 12, chunks⟩

/-- A reply that accepts the request and sends one byte along. -/
def byteReply : ServerReply := ⟨⟨SCM_MAGIC, 0, 1⟩, [0], rfl, 13, []⟩

end BcmUtils.Socket
