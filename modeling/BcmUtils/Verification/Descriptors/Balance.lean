import BcmUtils.Foundation.Descriptors
import BcmUtils.Model.DeviceFiles
import BcmUtils.Verification.Aaa.Replies
import BcmUtils.Verification.Scfgmgr.Replies

/-! # Descriptors left open

The four calls close what they open only on some of their paths. Three of them return from an
error without the call of `close`, and the fourth closes its device twice. -/

namespace BcmUtils.Descriptors

open CLib

/-! ## `scfgmgr_connect` -/

section

open Socket

/-- The rest of a payload is read if it is in the stream and arrives before a read fails. -/
theorem isSome_of_readPayload {len : ℕ} (stored : List Byte) (c : Conn)
    (r : Option (List Byte)) (hlen : stored.length ≤ len)
    (hread : readPayload len stored c = .ok r) :
    r.isSome = true ↔ len - stored.length ≤ c.stream.length ∧
      readsAll (len - stored.length) c.chunks = true := by
  fun_induction readPayload len stored c with
  | case1 stored c hlt hend => simp at hread
  | case2 stored c hlt hend next hnone =>
      obtain ⟨stream, chunks⟩ := c
      obtain rfl : none = r := by simpa using hread
      obtain ⟨n, hn⟩ := Nat.exists_eq_add_of_lt hlt
      have hleft : len - stored.length = n + 1 := by omega
      cases chunks with
      | nil => simp [Conn.read] at hnone
      | cons chunk chunks =>
          cases chunk with
          | none => simp [hleft, readsAll]
          | some k => simp [Conn.read] at hnone
  | case3 stored c hlt hend bs next hsome hover => simp at hread
  | case4 stored c hlt hend bs next hsome hfits ih =>
      obtain ⟨stream, chunks⟩ := c
      have hnext := ih (by rw [List.length_append]; omega) hread
      rw [List.length_append] at hnext
      obtain ⟨n, hn⟩ := Nat.exists_eq_add_of_lt hlt
      have hleft : len - stored.length = n + 1 := by omega
      cases chunks with
      | nil =>
          obtain ⟨rfl, rfl⟩ : stream.take len = bs ∧ ⟨stream.drop len, []⟩ = next := by
            simpa [Conn.read] using hsome
          simp only [List.length_take, List.length_drop] at hnext hfits
          have hnil : ∀ m, readsAll m [] = true := fun m => by cases m <;> rfl
          rw [hnext, hnil, hnil]
          simp only [and_true]
          omega
      | cons chunk chunks =>
          cases chunk with
          | none => simp [Conn.read] at hsome
          | some k =>
              obtain ⟨rfl, rfl⟩ : stream.take (min len (k + 1)) = bs ∧
                  ⟨stream.drop (min len (k + 1)), chunks⟩ = next := by
                simpa [Conn.read] using hsome
              simp only [List.length_take, List.length_drop] at hnext hfits
              rw [hnext, hleft]
              by_cases havail : n + 1 ≤ stream.length
              · have harg :
                    len - (stored.length + min (min len (k + 1)) stream.length) = n - k := by
                  omega
                have hrest : n - k ≤ stream.length - min len (k + 1) := by omega
                simp only [harg, hrest, havail, readsAll]
              · have hrest : ¬ len - (stored.length + min (min len (k + 1)) stream.length) ≤
                    stream.length - min len (k + 1) := by omega
                simp only [hrest, havail, false_and]
  | case5 stored c hfull =>
      obtain rfl : some stored = r := by simpa using hread
      have hdone : len - stored.length = 0 := by omega
      simp [hdone, readsAll]

/-- The header has the right magic, and the stream behind it has as many bytes as the header
announces, which arrive before a read fails. -/
def HeaderHolds (calls : ScfgmgrCalls) (header : ScfgmgrHeader) (rest : Conn) : Prop :=
  header.magic = SCM_MAGIC ∧ (header.len.toNat = 0 ∨ calls.dataMallocOk = true ∧
    header.len.toNat ≤ rest.stream.length ∧ readsAll header.len.toNat rest.chunks = true)

/-- The reply is read: its header arrives, and it holds of the rest. -/
def ReplyRead (calls : ScfgmgrCalls) (c : Conn) : Prop :=
  calls.headerMallocOk = true ∧ ∃ bs rest, c.read 12 = (some bs, rest) ∧
    HeaderHolds calls (ScfgmgrHeader.ofBytes (calls.junk.overlay bs)) rest

/-- What `socket_read` does behind the header. -/
theorem isSome_of_header {calls : ScfgmgrCalls} {dataNull : Bool} {header : ScfgmgrHeader}
    {rest : Conn} {r : Option (ScfgmgrHeader × Option (List Byte))}
    (hread : (if header.magic ≠ SCM_MAGIC then .ok none
      else if 0 < header.len.toNat then
        if dataNull then .error .nullStore
        else if calls.dataMallocOk then do
          let data ← readPayload header.len.toNat [] rest
          return data.map fun data => (header, some data)
        else .ok none
      else .ok (some (header, none))) = (Except.ok r : Except Fault _)) :
    r.isSome = true ↔ HeaderHolds calls header rest := by
  unfold HeaderHolds
  split at hread
  next hmagic =>
    obtain rfl : none = r := by simpa using hread
    simp [hmagic]
  next hmagic =>
    have hmagic : header.magic = SCM_MAGIC := not_not.mp hmagic
    split at hread
    next hpos =>
      split at hread
      next => simp at hread
      next =>
        split at hread
        next hmalloc =>
          cases hpayload : readPayload header.len.toNat [] rest with
          | error fault => simp [hpayload, bind, Except.bind] at hread
          | ok data =>
              have hsome := isSome_of_readPayload [] rest data (Nat.zero_le _) hpayload
              obtain rfl : data.map (fun data => (header, some data)) = r := by
                simpa [hpayload, bind, Except.bind, pure, Except.pure] using hread
              rw [Option.isSome_map, hsome]
              simp [hmagic, hmalloc, hpos.ne']
        next hmalloc =>
          obtain rfl : none = r := by simpa using hread
          simp [hmalloc, hpos.ne']
    next hzero =>
      obtain rfl : some (header, none) = r := by simpa using hread
      simp [hmagic, Nat.eq_zero_of_not_pos hzero]

theorem isSome_of_socketRead {calls : ScfgmgrCalls} {dataNull : Bool} {c : Conn}
    {r : Option (ScfgmgrHeader × Option (List Byte))}
    (hread : socketRead calls dataNull c = .ok r) : r.isSome = true ↔ ReplyRead calls c := by
  unfold socketRead at hread
  unfold ReplyRead
  cases hmalloc : calls.headerMallocOk with
  | false =>
      obtain rfl : none = r := by simpa [hmalloc] using hread
      simp
  | true =>
      simp only [hmalloc, ite_true, true_and] at hread ⊢
      cases hfirst : c.read 12 with
      | mk bytes rest =>
          cases bytes with
          | none =>
              obtain rfl : none = r := by simpa [hfirst] using hread
              simp
          | some bs =>
              have hhead : (∃ bs' rest', (some bs, rest) = (some bs', rest') ∧
                  HeaderHolds calls (ScfgmgrHeader.ofBytes (calls.junk.overlay bs')) rest') ↔
                  HeaderHolds calls (ScfgmgrHeader.ofBytes (calls.junk.overlay bs)) rest := by
                simp
              simp only [hfirst] at hread
              rw [hhead]
              generalize ScfgmgrHeader.ofBytes (calls.junk.overlay bs) = header at hread
              exact isSome_of_header hread

/-- The call closes its socket if it gets none, or if it connects, sends the request and reads
the reply. -/
def ConnectCloses (calls : ScfgmgrCalls) (shd : ScfgmgrHeader) (c : Conn) : Prop :=
  calls.socket = none ∨
    calls.connectOk = true ∧
    (calls.writeHeaderOk = true ∧ (shd.len.toNat = 0 ∨ calls.writeDataOk = true)) ∧
    ReplyRead calls c

theorem balanced_scfgmgrConnect_iff {calls : ScfgmgrCalls}
    {server : ScfgmgrHeader → CStr → Conn} {shd : ScfgmgrHeader} {sdata : CStr} {dataNull : Bool}
    {reply : Option (ScfgmgrHeader × Option (List Byte))} {es : List FdEvent}
    (hconnect : scfgmgrConnect calls server shd sdata dataNull = .ok (reply, es)) :
    Balanced es ↔ ConnectCloses calls shd (server shd sdata) := by
  have hwrite : socketWrite calls shd = true ↔
      calls.writeHeaderOk = true ∧ (shd.len.toNat = 0 ∨ calls.writeDataOk = true) := by
    simp [socketWrite]
  unfold scfgmgrConnect at hconnect
  unfold ConnectCloses
  rw [← hwrite]
  cases hsocket : calls.socket with
  | none =>
      obtain ⟨-, rfl⟩ : none = reply ∧ [] = es := by simpa [hsocket] using hconnect
      simp [balanced_nil]
  | some sockfd =>
      simp only [hsocket] at hconnect
      split at hconnect
      next hsent =>
        cases hread : socketRead calls dataNull (server shd sdata) with
        | error fault => simp [hread, bind, Except.bind] at hconnect
        | ok r =>
            have hreply := isSome_of_socketRead hread
            cases r with
            | none =>
                obtain ⟨-, rfl⟩ : none = reply ∧ [.opened sockfd] = es := by
                  simpa [hread, bind, Except.bind, pure, Except.pure] using hconnect
                have hnot : ¬ ReplyRead calls (server shd sdata) := by simpa using hreply
                simp [hnot, not_balanced_opened]
            | some r =>
                obtain ⟨-, rfl⟩ : some r = reply ∧ [.opened sockfd, .closed sockfd] = es := by
                  simpa [hread, bind, Except.bind, pure, Except.pure] using hconnect
                have hyes : ReplyRead calls (server shd sdata) := by simpa using hreply
                simp only [Bool.and_eq_true] at hsent
                simp [hyes, hsent, balanced_pair]
      next hsent =>
        obtain ⟨-, rfl⟩ : none = reply ∧ [.opened sockfd] = es := by simpa using hconnect
        have hfailed : ¬ (calls.connectOk = true ∧ socketWrite calls shd = true) := by
          simpa using hsent
        simp only [reduceCtorEq, false_or, not_balanced_opened, false_iff]
        exact fun h => hfailed ⟨h.1, h.2.1⟩

end

/-! ## The other calls -/

theorem balanced_aaaIsExist (fopen : Option ℕ) (reads : List CStr) :
    Balanced (aaaIsExist fopen reads).2 := by
  cases fopen with
  | none => exact balanced_nil
  | some fp => exact balanced_pair fp

/-- The request closes its socket if it gets none, or if it binds it and sends the message. The
answer does not matter. -/
theorem balanced_aaaSendMsgBcmFds_iff (e : Endian) (fopen : Option ℕ) (reads : List CStr)
    (calls : AaaCalls) :
    Balanced (aaaSendMsgBcmFds e fopen reads calls) ↔
      calls.socket = none ∨ calls.bindOk = true ∧ calls.sendtoOk = true := by
  have hexist := balanced_aaaIsExist fopen reads
  unfold aaaSendMsgBcmFds aaaSendMsgBcm
  cases calls.socket with
  | none => simp [hexist]
  | some fd =>
      cases calls.bindOk with
      | false => simp [hexist.not_append_opened]
      | true =>
          cases calls.sendtoOk with
          | false => simp [hexist.not_append_opened]
          | true => simp [hexist.append (balanced_pair fd)]

/-- The file is closed if it does not open, if it is locked by another process, or if its bytes
are read. -/
def StatusCloses (calls : PoeStatusCalls) : Prop :=
  calls.fd = none ∨
    calls.lockError = some .EACCES ∨ calls.lockError = some .EAGAIN ∨
    calls.lockError = none ∧ calls.mallocOk = true ∧ calls.read.isSome = true

theorem balanced_getPoeStatusFromFile_iff (calls : PoeStatusCalls) :
    Balanced (getPoeStatusFromFile calls).2.2 ↔ StatusCloses calls := by
  unfold getPoeStatusFromFile StatusCloses
  cases calls.fd with
  | none => simp [balanced_nil]
  | some fd =>
      cases calls.lockError with
      | some errno => cases errno <;> simp [balanced_pair, not_balanced_opened]
      | none =>
          cases calls.mallocOk with
          | false => simp [not_balanced_opened]
          | true => cases calls.read <;> simp [balanced_pair, not_balanced_opened]

/-- The device is closed twice whenever it is opened. -/
theorem balanced_getPortStpStatus_iff (calls : PortStpCalls) (ring : CStr) :
    Balanced (getPortStpStatus calls ring).2 ↔
      ring.head? ≠ some (chr '1') ∨ calls.fd = none := by
  unfold getPortStpStatus
  by_cases hring : ring.head? = some (chr '1')
  · cases calls.fd with
    | none => simp [hring, balanced_nil]
    | some skfd => simp [hring, not_balanced_closed_twice]
  · simp [hring, balanced_nil]

/-- The four calls leave the same descriptors open, each closed once, exactly on the paths
where they close what they opened. -/
theorem descriptors_balanced_iff {calls : Socket.ScfgmgrCalls}
    {server : Socket.ScfgmgrHeader → CStr → Conn} {shd : Socket.ScfgmgrHeader} {sdata : CStr}
    {dataNull : Bool} {reply : Option (Socket.ScfgmgrHeader × Option (List Byte))}
    {es : List FdEvent}
    (hconnect : Socket.scfgmgrConnect calls server shd sdata dataNull = .ok (reply, es))
    (e : Endian) (fopen : Option ℕ) (reads : List CStr) (aaa : AaaCalls) (poe : PoeStatusCalls)
    (stp : PortStpCalls) (ring : CStr) :
    (Balanced es ↔ ConnectCloses calls shd (server shd sdata)) ∧
    (Balanced (aaaSendMsgBcmFds e fopen reads aaa) ↔
      aaa.socket = none ∨ aaa.bindOk = true ∧ aaa.sendtoOk = true) ∧
    (Balanced (getPoeStatusFromFile poe).2.2 ↔ StatusCloses poe) ∧
    (Balanced (getPortStpStatus stp ring).2 ↔
      ring.head? ≠ some (chr '1') ∨ stp.fd = none) :=
  ⟨balanced_scfgmgrConnect_iff hconnect, balanced_aaaSendMsgBcmFds_iff e fopen reads aaa,
    balanced_getPoeStatusFromFile_iff poe, balanced_getPortStpStatus_iff stp ring⟩

/-- A request whose connection is refused. -/
theorem descriptors_balanced_iff_refused :
    Balanced [.opened 3] ↔ ConnectCloses
      ⟨some 3, false, true, true, true, true, Block.zeroed 12⟩ ⟨Socket.SCM_MAGIC, 1, 0⟩
      ⟨[], []⟩ := by
  have hconnect : Socket.scfgmgrConnect ⟨some 3, false, true, true, true, true, Block.zeroed 12⟩
      (fun _ _ => ⟨[], []⟩) ⟨Socket.SCM_MAGIC, 1, 0⟩ [] false = .ok (none, [.opened 3]) := rfl
  exact (descriptors_balanced_iff hconnect .little none [] ⟨none, true, true, none⟩
    ⟨none, none, 0, true, none⟩ ⟨none, 0⟩ []).1

/-- A refused connection, an address that cannot be bound, a failed read, and a device that
answers. -/
theorem descriptors_left_open :
    Socket.scfgmgrConnect ⟨some 3, false, true, true, true, true, Block.zeroed 12⟩
      (fun _ _ => ⟨[], []⟩) ⟨Socket.SCM_MAGIC, 1, 0⟩ [] false = .ok (none, [.opened 3]) ∧
    ¬ Balanced [.opened 3] ∧
    ¬ Balanced (aaaSendMsgBcmFds .little (some 3) [] ⟨some 3, false, true, none⟩) ∧
    ¬ Balanced (getPoeStatusFromFile ⟨some 3, none, 5, true, none⟩).2.2 ∧
    ¬ Balanced (getPortStpStatus ⟨some 3, 4⟩ (text "1")).2 := by
  refine ⟨rfl, not_balanced_opened 3, ?_, ?_, ?_⟩
  · rw [balanced_aaaSendMsgBcmFds_iff]
    simp
  · rw [balanced_getPoeStatusFromFile_iff]
    simp [StatusCloses]
  · rw [balanced_getPortStpStatus_iff]
    simp [text]

end BcmUtils.Descriptors
