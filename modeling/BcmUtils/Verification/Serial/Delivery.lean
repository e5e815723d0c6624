import BcmUtils.Verification.Serial.Steps

/-! # Packets that arrive whole

A packet that `SendPacket` has sent is received as it was, in whatever pieces it arrives. -/

namespace BcmUtils.Serial

open CLib

variable {n : ℕ}

theorem Chunked.of_zero {parts : List ℕ} {calls : List SerialCall}
    (h : Chunked (0 :: parts) calls) : Chunked parts calls := by
  cases h with
  | part h => exact h
  | call hpos => exact absurd hpos (lt_irrefl 0)

theorem Chunked.of_pos {size : ℕ} {parts : List ℕ} {calls : List SerialCall} (hpos : 0 < size)
    (h : Chunked (size :: parts) calls) :
    ∃ k elapsed calls', calls = ⟨some k, elapsed⟩ :: calls' ∧ elapsed ≤ 1000 ∧
      Chunked ((size - k) :: parts) calls' := by
  cases h with
  | part h => exact absurd hpos (lt_irrefl 0)
  | @call k elapsed _ _ calls' _ he h => exact ⟨k, elapsed, calls', rfl, he, h⟩

/-- A loop stores the part that the calls bring. -/
theorem receiveLoop_of_chunked {bs rest : List Byte} {parts : List ℕ} {calls : List SerialCall}
    (hcalls : Chunked (bs.length :: parts) calls) {pByte pLimit : ℕ} {p : Port n}
    (hbs : bs.length = pLimit - pByte) (h256 : bs.length < 256) (hfits : pByte + bs.length ≤ n)
    (hstream : p.stream = bs ++ rest) :
    ∃ calls' p', receiveLoop pLimit calls pByte p = some (.ok calls', p') ∧ Chunked parts calls' ∧
      p'.stream = rest ∧ p'.packet.1 = splice pByte bs p.packet.1 := by
  induction calls generalizing bs pByte p with
  | nil =>
      cases bs with
      | nil =>
          simp only [List.length_nil] at hbs
          exact ⟨[], p, if_neg (by omega), hcalls.of_zero, hstream, by rw [splice_nil]⟩
      | cons b bs =>
          obtain ⟨k, elapsed, calls', hnil, -⟩ := hcalls.of_pos (by simp)
          simp at hnil
  | cons call calls ih =>
      cases hb : bs with
      | nil =>
          subst bs
          simp only [List.length_nil] at hbs
          exact ⟨call :: calls, p, if_neg (by omega), hcalls.of_zero, hstream, by rw [splice_nil]⟩
      | cons b tl =>
          rw [← hb]
          have hpos : 0 < bs.length := by simp [hb]
          obtain ⟨k, elapsed, calls, hcons, he, h⟩ := hcalls.of_pos hpos
          obtain ⟨rfl, rfl⟩ := List.cons.inj hcons
          obtain ⟨p₁, hp₁, hstored, hrest⟩ :=
            @serialReceive_of_timely n k elapsed pByte pLimit he p bs rest hbs h256 hfits hstream
          have hlen : (bs.take k).length + (bs.drop k).length = bs.length := by
            rw [← List.length_append, List.take_append_drop]
          rw [← List.length_drop] at h
          obtain ⟨calls', p', hp', hchunked, hstream', hpacket⟩ := ih h
            (show (bs.drop k).length = pLimit - (pByte + (bs.take k).length) by omega)
            (by omega) (by omega) hrest
          refine ⟨calls', p', ?_, hchunked, hstream', ?_⟩
          · rw [receiveLoop, if_pos (by omega), bind_of_eq hp₁]
            exact hp'
          · rw [hpacket, hstored.packet, splice_splice (by rw [p.packet.2]; omega),
              List.take_append_drop]

/-- The first loop passes the bytes before a packet, brought one at a time. -/
theorem startLoop_of_chunked {u rest : List Byte} (hu : SOP ∉ u) {parts : List ℕ}
    {calls : List SerialCall} (hcalls : Chunked (List.replicate (u.length + 1) 1 ++ parts) calls)
    {p : Port n} (hn : 0 < n) (hstart : p.packet.1.head? ≠ some SOP)
    (hstream : p.stream = u ++ SOP :: rest) :
    ∃ calls' p', startLoop calls p = some (.ok calls', p') ∧ Chunked parts calls' ∧
      p'.stream = rest ∧ p'.packet.1 = SOP :: p.packet.1.tail := by
  induction calls generalizing u p with
  | nil =>
      rw [List.replicate_succ, List.cons_append] at hcalls
      obtain ⟨k, elapsed, calls', hnil, -⟩ := hcalls.of_pos (by omega)
      simp at hnil
  | cons call calls ih =>
      rw [List.replicate_succ, List.cons_append] at hcalls
      obtain ⟨k, elapsed, calls, hcons, he, h⟩ := hcalls.of_pos (by omega)
      obtain ⟨rfl, rfl⟩ := List.cons.inj hcons
      -- the next byte of the line is a byte of `u` or the start of the packet
      obtain ⟨b, tl, hb⟩ : ∃ b tl, u ++ SOP :: rest = b :: tl :=
        List.exists_cons_of_ne_nil (by simp)
      obtain ⟨p₁, hp₁, hstored, hrest⟩ := @serialReceive_of_timely n k elapsed 0 1 he p [b] tl rfl
        (by simp) (by simp only [List.length_singleton]; omega) (by rw [hstream, hb]; rfl)
      rw [startLoop, if_neg hstart, bind_of_eq hp₁]
      change ∃ calls' p', startLoop calls p₁ = _ ∧ _
      cases k with
      | zero =>
          -- nothing arrived
          have hpacket : p₁.packet.1 = p.packet.1 := by
            rw [hstored.packet, List.take_zero, splice_nil]
          rw [List.drop_zero, List.singleton_append, ← hb] at hrest
          have hmore := ih hu (by rwa [List.replicate_succ, List.cons_append])
            (by rwa [hpacket]) hrest
          rwa [hpacket] at hmore
      | succ k =>
          have hpacket : p₁.packet.1 = b :: p.packet.1.tail := by
            rw [hstored.packet, List.take_succ_cons, List.take_nil,
              splice_zero_cons (by rwa [p.packet.2])]
          rw [List.drop_succ_cons, List.drop_nil, List.nil_append] at hrest
          rw [show 1 - (k + 1) = 0 by omega] at h
          cases u with
          | nil =>
              obtain ⟨rfl, rfl⟩ := List.cons.inj hb
              have hfound : p₁.packet.1.head? = some SOP := by rw [hpacket, List.head?_cons]
              exact ⟨calls, p₁, startLoop_of_start hfound, h.of_zero, hrest, hpacket⟩
          | cons c u =>
              obtain ⟨rfl, rfl⟩ := List.cons.inj hb
              simp only [List.mem_cons, not_or] at hu
              have hother : p₁.packet.1.head? ≠ some SOP := by
                rw [hpacket, List.head?_cons]
                simp [Ne.symm hu.1]
              have hmore := ih hu.2 h.of_zero hother hrest
              rwa [hpacket, List.tail_cons] at hmore

/-! ## Whole packets -/

/-- A packet of `bs` bytes behind its start, brought whole, is stored, and accepted exactly if
its bytes add up to zero. A size of 256 cannot be asked for. -/
theorem receivePacket_of_chunked {u bs rest : List Byte} (hu : SOP ∉ u) (hfits : bs.length < n)
    (hlength : bs.length = (bs.getD 1 0).toNat + 3) (h256 : bs.length < 258)
    {calls : List SerialCall}
    (hcalls : Chunked (List.replicate (u.length + 1) 1 ++ [2, bs.length - 2]) calls)
    {p : Port n} (hstream : p.stream = u ++ SOP :: (bs ++ rest)) :
    ∃ p', receivePacket calls p =
        some (if bs.foldl (· + ·) 0 ≠ 0 then ERROR_RESOURCE_INVALID else SUCCESS, p') ∧
      p'.stream = rest ∧ p'.packet.1 = SOP :: (bs ++ p.packet.1.drop (bs.length + 1)) := by
  obtain ⟨cleared, hcleared, hmem⟩ :=
    Block.copy_of_le (b := p.packet) (show 0 + [(0 : Byte)].length ≤ n by simp; omega)
  rw [splice_zero_cons (by rw [p.packet.2]; omega)] at hmem
  have hstart : cleared.1.head? ≠ some SOP := by
    rw [hmem, List.head?_cons]
    decide
  obtain ⟨calls₁, p₁, h₁, hcalls₁, hstream₁, hpacket₁⟩ := @startLoop_of_chunked n u (bs ++ rest)
    hu _ calls hcalls { p with packet := cleared } (by omega) hstart hstream
  obtain ⟨routine, length, data, rfl⟩ : ∃ routine length data, bs = routine :: length :: data := by
    rcases bs with _ | ⟨routine, _ | ⟨length, data⟩⟩
    · simp at hlength
    · simp at hlength
    · exact ⟨routine, length, data, rfl⟩
  simp only [List.length_cons, List.getD_cons_succ, List.getD_cons_zero] at hlength hfits h256
  obtain ⟨calls₂, p₂, h₂, hcalls₂, hstream₂, hpacket₂⟩ := @receiveLoop_of_chunked n
    [routine, length] (data ++ rest) _ calls₁ hcalls₁ 1 3 p₁ rfl (by simp)
    (by simp only [List.length_cons, List.length_nil]; omega) hstream₁
  obtain ⟨b₀, b₁, b₂, tl, hp⟩ := exists_packet_cons p.packet (by omega)
  have hheader : p₂.packet.1 = SOP :: routine :: length :: tl := by
    rw [hpacket₂, hpacket₁, hmem, hp]
    rfl
  have hgetD : p₂.packet.1.getD 2 0 = length := by rw [hheader]; rfl
  obtain ⟨calls₃, p₃, h₃, -, hstream₃, hpacket₃⟩ := @receiveLoop_of_chunked n data rest _ calls₂
    hcalls₂ 3 (3 + length.toNat + 1) p₂ (by omega) (by omega) (by omega) hstream₂
  have hwhole : p₃.unlock.packet.1 = SOP :: routine :: length :: (data ++ tl.drop data.length) := by
    rw [show p₃.unlock.packet.1 = _ from hpacket₃, hheader, splice_data]
  have hsum : checksum 1 (3 + length.toNat) p₃.unlock.packet =
      some ((routine :: length :: data).foldl (· + ·) 0) := by
    rw [checksum, if_pos (by omega), hwhole, take_drop_packet (by omega)]
  refine ⟨p₃.unlock, ?_, hstream₃, by rw [hwhole, hp]; rfl⟩
  unfold receivePacket
  rw [bind_of_eq hcleared, bind_of_eq h₁]
  simp only []
  rw [bind_of_eq h₂]
  simp only [hgetD]
  rw [bind_of_eq h₃]
  simp only []
  rw [bind_of_eq hsum]
  split <;> rfl

/-! ## Checksums -/

theorem add_not_add_one (s : Byte) : s + (~~~s + 1) = 0 := by
  have hneg : s.toBitVec + (~~~s.toBitVec + 1#8) = 0#8 := by
    rw [← BitVec.neg_eq_not_add, BitVec.add_right_neg]
  exact UInt8.toBitVec_inj.mp hneg

theorem foldl_add_inj (bs : List Byte) {a a' : Byte} :
    bs.foldl (· + ·) a = bs.foldl (· + ·) a' ↔ a = a' := by
  induction bs generalizing a a' with
  | nil => exact Iff.rfl
  | cons b bs ih => rw [List.foldl_cons, List.foldl_cons, ih, UInt8.add_left_inj]

/-- The sum shows a change of one byte. -/
theorem foldl_add_set_ne {bs : List Byte} {j : ℕ} {b : Byte} (hj : j < bs.length)
    (hb : bs[j]? ≠ some b) (a : Byte) : (bs.set j b).foldl (· + ·) a ≠ bs.foldl (· + ·) a := by
  induction bs generalizing j a with
  | nil => simp at hj
  | cons c bs ih =>
      cases j with
      | zero =>
          rw [List.set_cons_zero, List.foldl_cons, List.foldl_cons, Ne, foldl_add_inj,
            UInt8.add_right_inj]
          intro h
          exact hb (by simp [h])
      | succ j =>
          rw [List.set_cons_succ, List.foldl_cons, List.foldl_cons]
          exact ih (by simpa using hj) (by simpa using hb) (a + c)

/-- A send succeeds only if the size of the packet fits in a byte and all of it is written. -/
theorem serialSend_eq_size {written : ℤ} {size : ℕ} (h : serialSend written size = (size : ℕ)) :
    size < 256 := by
  rw [serialSend, ERROR_RESOURCE_WRITE] at h
  split at h <;> omega

/-- What a packet that `SendPacket` has sent looks like: as before, but for a checksum that
makes its bytes add up to zero. -/
theorem sendPacket_sent {x : Exchange} {p p' : Port n} {sent : List Byte}
    (hstart : p.packet.1.head? = some SOP) (hlength : (p.packet.1.getD 2 0).toNat + 4 = n)
    (hsend : sendPacket x p = some (SUCCESS, sent, p')) :
    n < 256 ∧ sent = p'.packet.1 ∧ sent.take (n - 1) = p.packet.1.take (n - 1) ∧
      ∃ bs, sent = SOP :: bs ∧ bs.length + 1 = n ∧ bs.length = (bs.getD 1 0).toNat + 3 ∧
        bs.foldl (· + ·) 0 = 0 := by
  obtain ⟨b₀, routine, length, tl, hp⟩ := exists_packet_cons p.packet (by omega)
  have htl := p.packet.2
  rw [hp] at hstart hlength htl
  obtain rfl : b₀ = SOP := by simpa using hstart
  simp only [List.getD_cons_succ, List.getD_cons_zero] at hlength
  simp only [List.length_cons] at htl
  obtain ⟨data, c, rfl⟩ : ∃ data c, tl = data ++ [c] := by
    rcases List.eq_nil_or_concat tl with rfl | ⟨data, c, rfl⟩
    · simp at htl
      omega
    · exact ⟨data, c, by simp⟩
  simp only [List.length_append, List.length_singleton] at htl
  -- the bytes before the checksum, and the packet with the checksum
  have hsum : ((p.packet.1.take (3 + length.toNat)).drop 1).foldl (· + ·) 0 =
      (routine :: length :: data).foldl (· + ·) 0 := by
    rw [hp, show 3 + length.toNat = data.length + 2 + 1 by omega, List.take_succ_cons,
      List.drop_succ_cons, List.drop_zero, List.take_succ_cons, List.take_succ_cons, List.take_left]
  generalize hchk : ~~~(routine :: length :: data).foldl (· + ·) 0 + 1 = chk
  obtain ⟨packet, hpacket, hmem⟩ := Block.copy_of_le (b := p.packet)
    (show 3 + length.toNat + [chk].length ≤ n by simp only [List.length_singleton]; omega)
  have hwhole : packet.1 = SOP :: routine :: length :: (data ++ [chk]) := by
    rw [hmem, hp, show 3 + length.toNat = data.length + 3 by omega, splice]
    simp
  have hgetD : p.packet.1.getD 2 0 = length := by rw [hp]; rfl
  simp only [sendPacket, hgetD, hsum, hchk, hpacket, Option.bind_eq_bind, Option.bind_some] at hsend
  split at hsend
  · simp [ERROR_RESOURCE_WRITE, SUCCESS] at hsend
  · rename_i hresult
    have h256 := serialSend_eq_size (not_not.mp hresult)
    simp only [Option.pure_def, Option.some.injEq, Prod.mk.injEq, true_and] at hsend
    obtain ⟨rfl, rfl⟩ := hsend
    have hall : packet.1.take ((length.toNat + 4) % 256) = packet.1 :=
      List.take_of_length_le (by rw [packet.2]; omega)
    rw [hall]
    refine ⟨by omega, rfl, ?_, routine :: length :: (data ++ [chk]), hwhole, ?_, ?_, ?_⟩
    · rw [hwhole, hp, show n - 1 = data.length + 3 by omega]
      simp
    · simp only [List.length_cons, List.length_append, List.length_nil]
      omega
    · simp only [List.length_cons, List.length_append, List.length_nil, List.getD_cons_succ,
        List.getD_cons_zero]
      omega
    · rw [← hchk, ← List.cons_append, ← List.cons_append, List.foldl_append, List.foldl_cons,
        List.foldl_nil, add_not_add_one]

/-- A packet that `SendPacket` has sent, brought whole after any bytes without a start of a
packet, is received as it was sent; with one byte of routine, data or checksum altered it is
rejected. -/
theorem packet_delivered {x : Exchange} {p p' : Port n} {sent : List Byte}
    (hstart : p.packet.1.head? = some SOP) (hlength : (p.packet.1.getD 2 0).toNat + 4 = n)
    (hsend : sendPacket x p = some (SUCCESS, sent, p')) {u : List Byte} (hu : SOP ∉ u)
    {calls : List SerialCall}
    (hcalls : Chunked (List.replicate (u.length + 1) 1 ++ [2, n - 3]) calls) (rest : List Byte)
    (q : Port n) :
    (sent = p'.packet.1 ∧ sent.take (n - 1) = p.packet.1.take (n - 1) ∧
      ∃ q', receivePacket calls { q with stream := u ++ (sent ++ rest) } = some (SUCCESS, q') ∧
        q'.packet.1 = sent) ∧
    ∀ i b, i < n → i ≠ 0 → i ≠ 2 → sent[i]? ≠ some b →
      ∃ q', receivePacket calls { q with stream := u ++ (sent.set i b ++ rest) } =
        some (ERROR_RESOURCE_INVALID, q') := by
  obtain ⟨h256, hpacket, hfields, bs, rfl, hlen, hdata, hsum⟩ :=
    sendPacket_sent hstart hlength hsend
  rw [show n - 3 = bs.length - 2 by omega] at hcalls
  refine ⟨⟨hpacket, hfields, ?_⟩, ?_⟩
  · obtain ⟨q', hq', -, hwhole⟩ := @receivePacket_of_chunked n u bs rest hu (by omega) hdata
      (by omega) calls hcalls { q with stream := u ++ (SOP :: bs ++ rest) } rfl
    rw [hsum, if_neg (by simp)] at hq'
    rw [hlen, List.drop_of_length_le (by rw [q.packet.2]), List.append_nil] at hwhole
    exact ⟨q', hq', hwhole⟩
  · intro i b hi h0 h2 hb
    obtain ⟨j, rfl⟩ : ∃ j, i = j + 1 := Nat.exists_eq_succ_of_ne_zero h0
    rw [List.getElem?_cons_succ] at hb
    have hsame : (bs.set j b).getD 1 0 = bs.getD 1 0 := by
      rw [List.getD_eq_getElem?_getD, List.getD_eq_getElem?_getD, List.getElem?_set_ne (by omega)]
    have hchanged := foldl_add_set_ne (show j < bs.length by omega) hb 0
    rw [hsum] at hchanged
    obtain ⟨q', hq', -⟩ := @receivePacket_of_chunked n u (bs.set j b) rest hu
      (by rw [List.length_set]; omega) (by rw [List.length_set, hsame, hdata])
      (by rw [List.length_set]; omega) calls (by rwa [List.length_set])
      { q with stream := u ++ (SOP :: bs.set j b ++ rest) } rfl
    rw [if_pos hchanged] at hq'
    exact ⟨q', hq'⟩

/-- A request of nine bytes after two other bytes, in pieces. -/
theorem packet_delivered_parms :
    ∃ q', receivePacket
        [⟨some 1, 0⟩, ⟨some 0, 0⟩, ⟨some 1, 5⟩, ⟨some 1, 5⟩, ⟨some 2, 9⟩, ⟨some 4, 20⟩, ⟨some 9, 1000⟩]
        (⟨Block.zeroed 9, [0, 65] ++ ([SOP, 10, 5, 3, 0, 0, 0, 0, 238] ++ []), []⟩ : Port 9) =
          some (SUCCESS, q') ∧
      q'.packet.1 = [SOP, 10, 5, 3, 0, 0, 0, 0, 238] := by
  have hsend : sendPacket ⟨9, [], []⟩ (⟨⟨[SOP, 10, 5, 3, 0, 0, 0, 0, 0], rfl⟩, [], []⟩ : Port 9) =
      some (SUCCESS, [SOP, 10, 5, 3, 0, 0, 0, 0, 238],
        ⟨⟨[SOP, 10, 5, 3, 0, 0, 0, 0, 238], rfl⟩, [], [.send, .lock]⟩) := rfl
  have hcalls : Chunked (List.replicate (([0, 65] : List Byte).length + 1) 1 ++ [2, 9 - 3])
      [⟨some 1, 0⟩, ⟨some 0, 0⟩, ⟨some 1, 5⟩, ⟨some 1, 5⟩, ⟨some 2, 9⟩, ⟨some 4, 20⟩,
        ⟨some 9, 1000⟩] := by
    refine .call (by decide) (by decide) (.part ?_)
    refine .call (by decide) (by decide) ?_
    refine .call (by decide) (by decide) (.part ?_)
    refine .call (by decide) (by decide) (.part ?_)
    refine .call (by decide) (by decide) (.part ?_)
    refine .call (by decide) (by decide) ?_
    refine .call (by decide) (by decide) (.part ?_)
    exact .nil _
  exact (packet_delivered rfl rfl hsend (by decide) hcalls [] ⟨Block.zeroed 9, [], []⟩).1.2.2

end BcmUtils.Serial
