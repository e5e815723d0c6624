import BcmUtils.Model.PowerManager
import BcmUtils.Verification.Serial.Delivery

/-! # What a call to the power manager can do

Everything that a request, a response and a call of `CallRoutine` have done when they
return. -/

namespace BcmUtils.Serial

open CLib

variable {n : ℕ} {e : Endian}

/-! ## Byte order -/

theorem toNat_append_eq {m k : ℕ} (hi : BitVec m) (lo : BitVec k) :
    (hi ++ lo).toNat = 2 ^ k * hi.toNat + lo.toNat := by
  rw [BitVec.toNat_append, ← Nat.shiftLeft_add_eq_or_of_lt lo.isLt, Nat.shiftLeft_eq, Nat.mul_comm]

theorem toNat_swap16 (word : BitVec 16) :
    (swap16 word).toNat = 256 * (word.toNat % 256) + word.toNat / 256 := by
  have hlt := word.isLt
  rw [swap16]
  split
  · rename_i h
    rw [h]
    rfl
  · rw [toNat_append_eq, BitVec.extractLsb'_toNat, BitVec.extractLsb'_toNat,
      Nat.shiftRight_eq_div_pow, Nat.shiftRight_eq_div_pow]
    omega

theorem toNat_swap32 (long : BitVec 32) :
    (swap32 long).toNat = 16777216 * (long.toNat % 256) + 65536 * (long.toNat / 256 % 256) +
      256 * (long.toNat / 256 / 256 % 256) + long.toNat / 256 / 256 / 256 := by
  have hlt := long.isLt
  rw [swap32]
  split
  · rename_i h
    rw [h]
    rfl
  · rw [toNat_append_eq, toNat_swap16, toNat_swap16, BitVec.extractLsb'_toNat,
      BitVec.extractLsb'_toNat, Nat.shiftRight_eq_div_pow, Nat.shiftRight_eq_div_pow]
    omega

/-- The word that four bytes hold, swapped, is the one with the most significant byte first. -/
theorem Swap32_wordOf {bs : List Byte} (h : bs.length = 4) :
    Swap32 e (wordOf e bs) = wordOf .big bs := by
  cases e with
  | big => rfl
  | little =>
      obtain ⟨b₀, b₁, b₂, b₃, rfl⟩ : ∃ b₀ b₁ b₂ b₃, bs = [b₀, b₁, b₂, b₃] := by
        rcases bs with _ | ⟨b₀, _ | ⟨b₁, _ | ⟨b₂, _ | ⟨b₃, _ | _⟩⟩⟩⟩ <;> simp at h ⊢
      have h₀ := b₀.toNat_lt
      have h₁ := b₁.toNat_lt
      have h₂ := b₂.toNat_lt
      have h₃ := b₃.toNat_lt
      have hlittle : (wordOf .little [b₀, b₁, b₂, b₃]).toNat =
          b₀.toNat + 256 * (b₁.toNat + 256 * (b₂.toNat + 256 * b₃.toNat)) := by
        simp only [wordOf, bigNat, BitVec.toNat_ofNat, List.reverse_cons, List.reverse_nil,
          List.nil_append, List.cons_append, List.foldl_cons, List.foldl_nil]
        omega
      have hbig : (wordOf .big [b₀, b₁, b₂, b₃]).toNat =
          b₃.toNat + 256 * (b₂.toNat + 256 * (b₁.toNat + 256 * b₀.toNat)) := by
        simp only [wordOf, bigNat, BitVec.toNat_ofNat, List.foldl_cons, List.foldl_nil]
        omega
      apply BitVec.eq_of_toNat_eq
      have hdiv : ∀ (b : Byte) (m : ℕ), (b.toNat + 256 * m) / 256 = m ∧
          (b.toNat + 256 * m) % 256 = b.toNat := by
        intro b m
        have hb := b.toNat_lt
        omega
      rw [Swap32, toNat_swap32, hlittle, hbig]
      simp only [hdiv]
      omega

/-! ## Requests -/

theorem take_splice {off i : ℕ} {mem : List Byte} (hi : i ≤ off) (hoff : off ≤ mem.length)
    (src : List Byte) : (splice off src mem).take i = mem.take i := by
  rw [splice, List.take_append_of_le_length (by rw [List.length_take]; omega), List.take_take,
    min_eq_left hi]

theorem getD_two_of_take {b₀ b₁ b₂ : Byte} {mem : List Byte} (h : mem.take 3 = [b₀, b₁, b₂]) :
    mem.getD 2 0 = b₂ := by
  rw [← List.take_append_drop 3 mem, h]
  rfl

/-- A packet of five bytes of data is sent if there is room for its checksum: the send succeeds
exactly if all nine bytes are written, and gives the port back otherwise. -/
theorem sendPacket_eq (hn : 9 ≤ n) {p : Port n} (hlength : p.packet.1.getD 2 0 = 5) (x : Exchange) :
    ∃ sent packet, sendPacket x p = some
      (if x.written = 9 then SUCCESS else ERROR_RESOURCE_WRITE, sent,
        ⟨packet, p.stream ++ x.answer,
          (if x.written = 9 then [] else [.unlock]) ++ .send :: .lock :: p.trace⟩) := by
  generalize hchk : ~~~((p.packet.1.take (3 + 5)).drop 1).foldl (· + ·) 0 + 1 = chk
  obtain ⟨packet, hpacket, -⟩ :=
    Block.copy_of_le (b := p.packet) (show 3 + 5 + [chk].length ≤ n by simpa)
  refine ⟨packet.1.take 9, packet, ?_⟩
  have hfive : (5 : Byte).toNat = 5 := rfl
  simp only [sendPacket, hlength, hfive, hchk, hpacket, Option.bind_eq_bind, Option.bind_some]
  by_cases h : x.written = 9
  · rw [if_pos h, if_pos h, serialSend, h]
    rfl
  · have hwrite : serialSend x.written (5 + 4) = ERROR_RESOURCE_WRITE := if_pos h
    rw [if_neg h, if_neg h, hwrite]
    rfl

/-- Data behind the header leave the header as it is. -/
theorem storeParm_spec {off : ℕ} {parm : Option (List Byte)} {packet : Block n} (hoff : 3 ≤ off)
    (hfits : ∀ bytes ∈ parm, off + bytes.length ≤ n) :
    ∃ packet', storeParm off parm packet = some packet' ∧
      packet'.1.take 3 = packet.1.take 3 := by
  cases parm with
  | none => exact ⟨packet, rfl, rfl⟩
  | some bytes =>
      have hle := hfits bytes rfl
      obtain ⟨packet', h, hmem⟩ := Block.copy_of_le (b := packet) hle
      exact ⟨packet', h, by rw [hmem, take_splice hoff (by rw [packet.2]; omega)]⟩

/-- A request is always built and handed to the line. -/
theorem sendRequest_eq (hn : 9 ≤ n) (routine : Byte) (pParm8 : Option Byte)
    (pParm32 : Option (BitVec 32)) (packet : Block n) (x : Exchange) (line : Line) :
    ∃ packet', sendRequest e routine pParm8 pParm32 packet x line = some
      (if x.written = 9 then SUCCESS else ERROR_RESOURCE_WRITE, packet',
        ⟨line.stream ++ x.answer,
          (if x.written = 9 then [] else [.unlock]) ++ .send :: .lock :: line.trace⟩) := by
  obtain ⟨packet₁, h₁, hmem⟩ := Block.copy_of_le (b := packet)
    (show 0 + [SOP, routine, UInt8.ofNat sizeofDataParms].length ≤ n by simp; omega)
  have htake₁ : packet₁.1.take 3 = [SOP, routine, 5] := by
    rw [hmem, splice]
    rfl
  obtain ⟨packet₂, h₂, htake₂⟩ := @storeParm_spec n 3 (pParm8.map fun parm8 => [parm8]) packet₁
    le_rfl (by simp; omega)
  obtain ⟨packet₃, h₃, htake₃⟩ := @storeParm_spec n 4
    (pParm32.map fun parm32 => bytesOf e (Swap32 e parm32)) packet₂ (by omega) (by simp; omega)
  obtain ⟨sent, packet', h₄⟩ := sendPacket_eq hn (p := ⟨packet₃, line.stream, line.trace⟩)
    (getD_two_of_take (by rw [htake₃, htake₂, htake₁])) x
  refine ⟨packet', ?_⟩
  rw [sendRequest, bind_of_eq h₁, bind_of_eq h₂, bind_of_eq h₃, bind_of_eq h₄]
  rfl

/-! ## Sessions -/

/-- What one `SendPacket` and the `ReceivePacket` after it do: the semaphore is taken, the packet
is sent, `k` times something is received, and the semaphore is released. -/
def session (k : ℕ) : List SerialEvent := .lock :: .send :: (List.replicate k .receive ++ [.unlock])

theorem reverse_session (k : ℕ) :
    (session k).reverse = .unlock :: (List.replicate k .receive ++ [.send, .lock]) := by
  simp [session]

/-- Since `line` there have been sessions with so many calls of `SerialReceive`. -/
def Sessions (ks : List ℕ) (line line' : Line) : Prop :=
  line'.trace = (ks.flatMap session).reverse ++ line.trace

theorem Sessions.nil (line : Line) : Sessions [] line line := rfl

theorem Sessions.trans {ks js : List ℕ} {line line' line'' : Line} (h : Sessions ks line line')
    (h' : Sessions js line' line'') : Sessions (ks ++ js) line line'' := by
  rw [Sessions, h', h, List.flatMap_append, List.reverse_append, List.append_assoc]

theorem sessions_singleton {k : ℕ} {line line' : Line}
    (h : line'.trace = .unlock :: (List.replicate k .receive ++ .send :: .lock :: line.trace)) :
    Sessions [k] line line' := by
  rw [Sessions, h, List.flatMap_singleton, reverse_session]
  simp

/-- A response gives the port back. -/
theorem receiveResponse_cases (hn : 4 ≤ n) {calls : List SerialCall} {packet packet' : Block n}
    {line line' : Line} {r : ℤ}
    (h : receiveResponse calls packet line = some (r, packet', line')) :
    (∃ k, line'.trace = .unlock :: (List.replicate k .receive ++ line.trace)) ∧
      (IsReceiveError r ∨ ∃ u bs, Received u bs (⟨packet, line.stream, line.trace⟩ : Port n)
        ⟨packet', line'.stream, line'.trace⟩ ∧
        Chunked (List.replicate (u.length + 1) 1 ++ [2, bs.length - 2]) calls ∧
        r = if bs.foldl (· + ·) 0 ≠ 0 then ERROR_RESOURCE_INVALID else SUCCESS) := by
  simp only [receiveResponse, Option.bind_eq_bind, Option.bind_eq_some_iff] at h
  obtain ⟨⟨r', p'⟩, hp', h⟩ := h
  simp only [Option.pure_def, Option.some.injEq, Prod.mk.injEq] at h
  obtain ⟨rfl, rfl, rfl⟩ := h
  exact receivePacket_cases hn hp'

/-- The routine of a packet is the first byte behind its start. -/
theorem getD_one_of_received {mem bs tl : List Byte} (hmem : mem = SOP :: (bs ++ tl))
    (hbs : 0 < bs.length) : mem.getD 1 0 = bs.getD 0 0 := by
  obtain ⟨b, rest, rfl⟩ := List.exists_cons_of_length_pos hbs
  rw [hmem]
  rfl

/-- A packet of this type holds a whole word. -/
theorem length_parm32 {room : ℕ} (packet : Block (PacketType.parms.size + room)) :
    ((packet.1.drop 4).take 4).length = 4 := by
  have hsize : PacketType.parms.size = 9 := rfl
  rw [List.length_take, List.length_drop, packet.2]
  omega

theorem not_isReceiveError_success : ¬ IsReceiveError SUCCESS := by
  rintro (h | h) <;> cases h

/-! ## CallRoutine -/

/-- The codes of a failed call. -/
def IsCallError (code : ℤ) : Prop :=
  code = ERROR_RESOURCE_WRITE ∨ code = ERROR_RESOURCE_NOT_FND ∨ code = ERROR_RESOURCE_INVALID

theorem IsCallError.ne_success {code : ℤ} (h : IsCallError code) : code ≠ SUCCESS := by
  rcases h with rfl | rfl | rfl <;> decide

variable {room : ℕ}

/-- A request has been sent, and the response `bs` behind the first start of a packet, after the
bytes `u`, arrives in time and leaves `rest` on the line. -/
structure Answered (room : ℕ) (routine : Byte) (x : Exchange) (stream u bs rest : List Byte) :
    Prop where
  written : x.written = 9
  clean : SOP ∉ u
  fits : bs.length < PacketType.parms.size + room
  short : bs.length < 258
  routine : bs.getD 0 0 = routine
  length : bs.length = (bs.getD 1 0).toNat + 3
  sum : bs.foldl (· + ·) 0 = 0
  stream : stream ++ x.answer = u ++ SOP :: (bs ++ rest)
  timely : Chunked (List.replicate (u.length + 1) 1 ++ [2, bs.length - 2]) x.calls

/-- `Parm8` of a packet into which a response has been received. What the response does not
overwrite is left from the request. -/
def parm8Of (request : Block n) (bs : List Byte) : Byte :=
  (bs ++ request.1.drop (bs.length + 1)).getD 2 0

/-- `Parm32` of such a packet. -/
def parm32Of (request : Block n) (bs : List Byte) : BitVec 32 :=
  wordOf .big (((bs ++ request.1.drop (bs.length + 1)).drop 3).take 4)

/-- What `CallRoutine` returns for a response. -/
def answerOf (pParm8 : Option Byte) (pParm32 : Option (BitVec 32)) (request : Block n)
    (bs : List Byte) : RoutineResult :=
  ⟨SUCCESS, pParm8.map fun _ => parm8Of request bs, pParm32.map fun _ => parm32Of request bs⟩

/-- A call is one session. It fails and leaves its values as they are, or it has got a response
and returns its data. -/
theorem callRoutine_cases {routine : Byte} {pParm8 : Option Byte} {pParm32 : Option (BitVec 32)}
    {packet : Block (PacketType.parms.size + room)} {x : Exchange} {line line' : Line}
    {r : RoutineResult}
    (h : callRoutine e routine pParm8 pParm32 packet x line = some (r, line')) :
    (∃ k, Sessions [k] line line') ∧
      ((∃ code, IsCallError code ∧ r = ⟨code, pParm8, pParm32⟩) ∨
        ∃ request line₁ u bs,
          sendRequest e routine pParm8 pParm32 packet x line = some (SUCCESS, request, line₁) ∧
          Answered room routine x line.stream u bs line'.stream ∧
          r = answerOf pParm8 pParm32 request bs) := by
  have hsize : PacketType.parms.size = 9 := rfl
  obtain ⟨packet₁, h₁⟩ := @sendRequest_eq _ e (show 9 ≤ PacketType.parms.size + room by omega)
    routine pParm8 pParm32 packet x line
  rw [callRoutine, bind_of_eq h₁] at h
  by_cases hwritten : x.written = 9
  · simp only [hwritten, if_true, ne_eq, not_true_eq_false, if_false, Option.bind_eq_bind,
      Option.bind_eq_some_iff] at h
    obtain ⟨⟨r₂, packet₂, line₂⟩, h₂, h⟩ := h
    obtain ⟨⟨k, htrace⟩, hr₂⟩ := receiveResponse_cases (by omega) h₂
    have hsession : Sessions [k] line line₂ := sessions_singleton htrace
    by_cases hok : r₂ = SUCCESS
    · obtain ⟨u, bs, hreceived, htimely, hsum⟩ :=
        hr₂.resolve_left (hok ▸ not_isReceiveError_success)
      have hzero : bs.foldl (· + ·) 0 = 0 := by
        by_contra hne
        rw [if_pos hne, hok] at hsum
        exact absurd hsum (by decide)
      have hpacket : packet₂.1 = SOP :: (bs ++ packet₁.1.drop (bs.length + 1)) := hreceived.packet
      have hlength := hreceived.length
      have hfirst : packet₂.1.getD 1 0 = bs.getD 0 0 :=
        getD_one_of_received hpacket (by omega)
      by_cases hroutine : bs.getD 0 0 = routine
      · simp only [hok, hfirst, hroutine, Swap32_wordOf (length_parm32 packet₂),
          not_true_eq_false, if_false, Option.pure_def, Option.some.injEq, Prod.mk.injEq] at h
        obtain ⟨rfl, rfl⟩ := h
        rw [if_pos hwritten] at h₁
        refine ⟨⟨k, hsession⟩, Or.inr ⟨packet₁, _, u, bs, h₁, ?_, ?_⟩⟩
        · exact ⟨hwritten, hreceived.clean, hreceived.fits, hreceived.short, hroutine, hlength,
            hzero, hreceived.stream, htimely⟩
        · rw [hpacket]
          rfl
      · simp only [hok, hfirst, hroutine, not_true_eq_false, not_false_eq_true, if_true, if_false,
          Option.pure_def, Option.some.injEq, Prod.mk.injEq] at h
        obtain ⟨rfl, rfl⟩ := h
        exact ⟨⟨k, hsession⟩, Or.inl ⟨_, Or.inr (Or.inr rfl), rfl⟩⟩
    · simp only [hok, not_false_eq_true, if_true, Option.pure_def, Option.some.injEq,
        Prod.mk.injEq] at h
      obtain ⟨rfl, rfl⟩ := h
      exact ⟨⟨k, hsession⟩, Or.inl ⟨_, Or.inr (Or.inl rfl), rfl⟩⟩
  · have hwrite : ERROR_RESOURCE_WRITE ≠ SUCCESS := by decide
    simp only [hwritten, if_false, ne_eq, hwrite, not_false_eq_true, if_true, Option.pure_def,
      Option.some.injEq, Prod.mk.injEq] at h
    obtain ⟨rfl, rfl⟩ := h
    exact ⟨⟨0, sessions_singleton rfl⟩, Or.inl ⟨_, Or.inl rfl, rfl⟩⟩

/-- A call that gets a response in time returns its data, and nothing else. -/
theorem callRoutine_of_answered {routine : Byte} {pParm8 : Option Byte}
    {pParm32 : Option (BitVec 32)} {packet request : Block (PacketType.parms.size + room)}
    {x : Exchange} {line line₁ : Line} {u bs rest : List Byte}
    (hsend : sendRequest e routine pParm8 pParm32 packet x line = some (SUCCESS, request, line₁))
    (h : Answered room routine x line.stream u bs rest) :
    ∃ line', callRoutine e routine pParm8 pParm32 packet x line =
      some (answerOf pParm8 pParm32 request bs, line') ∧ line'.stream = rest := by
  have hsize : PacketType.parms.size = 9 := rfl
  obtain ⟨packet₁, h₁⟩ := @sendRequest_eq _ e (show 9 ≤ PacketType.parms.size + room by omega)
    routine pParm8 pParm32 packet x line
  rw [hsend, if_pos h.written, Option.some.injEq, Prod.mk.injEq, Prod.mk.injEq] at h₁
  have hstream : line₁.stream = u ++ SOP :: (bs ++ rest) := by
    rw [h₁.2.2]
    exact h.stream
  obtain ⟨p, hreceive, hrest, hpacket⟩ := @receivePacket_of_chunked _ u bs rest h.clean h.fits
    h.length h.short _ h.timely ⟨request, line₁.stream, line₁.trace⟩ hstream
  rw [h.sum, if_neg (by simp)] at hreceive
  have hresponse : receiveResponse x.calls request line₁ =
      some (SUCCESS, p.packet, ⟨p.stream, p.trace⟩) := by
    rw [receiveResponse, bind_of_eq hreceive]
    rfl
  have hlength := h.length
  have hroutine : p.packet.1.getD 1 0 = routine := by
    rw [getD_one_of_received hpacket (by omega), h.routine]
  refine ⟨⟨p.stream, p.trace⟩, ?_, hrest⟩
  rw [callRoutine, bind_of_eq hsend]
  simp only [ne_eq, not_true_eq_false, if_false]
  rw [bind_of_eq hresponse]
  simp only [hroutine, Swap32_wordOf (length_parm32 p.packet), not_true_eq_false, if_false]
  rw [hpacket]
  rfl

end BcmUtils.Serial
