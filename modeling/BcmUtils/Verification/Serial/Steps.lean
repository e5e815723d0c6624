import BcmUtils.Model.Serial

/-! # What receiving can do

Everything a receive that returns has done: the events, the bytes it has taken from the line,
and where they were stored. -/

namespace BcmUtils.Serial

open CLib

variable {n : ℕ}

theorem copy_eq_some {off : ℕ} {src : List Byte} {b b' : Block n} (h : b.copy off src = some b') :
    off + src.length ≤ n ∧ b'.1 = splice off src b.1 := by
  rw [Block.copy] at h
  split at h
  · rename_i hle
    rw [← Option.some.inj h]
    exact ⟨hle, rfl⟩
  · simp at h

/-- The calls bring parts of these sizes one after the other, each in any pieces and in time. -/
inductive Chunked : List ℕ → List SerialCall → Prop
  | nil (calls) : Chunked [] calls
  | part {parts calls} : Chunked parts calls → Chunked (0 :: parts) calls
  | call {k elapsed size parts calls} : 0 < size → elapsed ≤ 1000 →
      Chunked ((size - k) :: parts) calls → Chunked (size :: parts) (⟨some k, elapsed⟩ :: calls)

/-- The codes of a failed receive. -/
def IsReceiveError (code : ℤ) : Prop := code = ERROR_RESOURCE_READ ∨ code = ERROR_RESOURCE_NOT_FND

/-- There have been `k` calls of `SerialReceive`. -/
def Called (k : ℕ) (p p' : Port n) : Prop := p'.trace = List.replicate k .receive ++ p.trace

/-- The port has been given back after `k` calls of `SerialReceive`. -/
def GivenBack (k : ℕ) (p p' : Port n) : Prop :=
  p'.trace = .unlock :: (List.replicate k .receive ++ p.trace)

theorem Called.trans {j k : ℕ} {p p' p'' : Port n} (h : Called j p p') (h' : Called k p' p'') :
    Called (k + j) p p'' := by
  rw [Called, h', h, ← List.append_assoc, ← List.replicate_add]

theorem Called.givenBack {j k : ℕ} {p p' p'' : Port n} (h : Called j p p')
    (h' : GivenBack k p' p'') : GivenBack (k + j) p p'' := by
  rw [GivenBack, h', h, List.replicate_add, List.append_assoc]

/-- The receive has stored `bs` from offset `pByte` on. -/
structure Stored (k pByte : ℕ) (bs : List Byte) (p p' : Port n) : Prop where
  called : Called k p p'
  stream : p.stream = bs ++ p'.stream
  packet : p'.packet.1 = splice pByte bs p.packet.1

theorem Stored.trans {j k pByte : ℕ} {bs cs : List Byte} {p p' p'' : Port n} (hle : pByte ≤ n)
    (h : Stored j pByte bs p p') (h' : Stored k (pByte + bs.length) cs p' p'') :
    Stored (k + j) pByte (bs ++ cs) p p'' where
  called := h.called.trans h'.called
  stream := by rw [h.stream, h'.stream, List.append_assoc]
  packet := by rw [h'.packet, h.packet, splice_splice (by rwa [p.packet.2])]

/-- The call has brought `bs` in time for the `size` bytes that were asked for. -/
structure Brought (call : SerialCall) (size : ℕ) (bs stream : List Byte) : Prop where
  timely : call.elapsed ≤ 1000
  bytes : ∃ k, call = ⟨some k, call.elapsed⟩ ∧ bs = stream.take (min k (size % 256))

theorem Brought.length_le {call : SerialCall} {size : ℕ} {bs stream : List Byte}
    (h : Brought call size bs stream) : bs.length ≤ size := by
  obtain ⟨k, -, rfl⟩ := h.bytes
  have hmod := Nat.mod_le size 256
  rw [List.length_take]
  omega

/-- A call that leaves enough bytes on the line for the rest has brought what it could. -/
theorem Brought.chunked {call : SerialCall} {size : ℕ} {bs stream : List Byte} {parts : List ℕ}
    {calls : List SerialCall} (h : Brought call size bs stream) (hpos : 0 < size)
    (h256 : size < 256) (hstream : size ≤ stream.length)
    (hrest : Chunked ((size - bs.length) :: parts) calls) :
    Chunked (size :: parts) (call :: calls) := by
  obtain ⟨k, hcall, rfl⟩ := h.bytes
  have hsize : size - (stream.take (min k (size % 256))).length = size - k := by
    rw [List.length_take, Nat.mod_eq_of_lt h256]
    omega
  rw [hcall]
  exact .call hpos h.timely (hsize ▸ hrest)

/-- One call fails, or stores the bytes that it brings. -/
theorem serialReceive_cases {call : SerialCall} {pByte pLimit : ℕ} {p p' : Port n}
    {r : Except ℤ ℕ} (h : serialReceive call pByte pLimit p = some (r, p')) :
    (∃ code, r = .error code ∧ IsReceiveError code ∧ GivenBack 1 p p') ∨
      ∃ bs, r = .ok bs.length ∧ Brought call (pLimit - pByte) bs p.stream ∧
        pByte + bs.length ≤ n ∧ Stored 1 pByte bs p p' := by
  obtain ⟨_ | k, elapsed⟩ := call
  · simp only [serialReceive, Option.some.injEq, Prod.mk.injEq] at h
    obtain ⟨rfl, rfl⟩ := h
    exact Or.inl ⟨_, rfl, Or.inl rfl, rfl⟩
  · generalize hbs : p.stream.take (min k ((pLimit - pByte) % 256)) = bs
    have hsplit : bs ++ p.stream.drop bs.length = p.stream :=
      List.prefix_iff_eq_append.mp (hbs ▸ List.take_prefix _ _)
    simp only [serialReceive, hbs, Option.bind_eq_bind, Option.bind_eq_some_iff] at h
    obtain ⟨packet, hpacket, h⟩ := h
    obtain ⟨hle, hmem⟩ := copy_eq_some hpacket
    split at h
    · simp only [Option.pure_def, Option.some.injEq, Prod.mk.injEq] at h
      obtain ⟨rfl, rfl⟩ := h
      exact Or.inl ⟨_, rfl, Or.inr rfl, rfl⟩
    · rename_i htimely
      simp only [Option.pure_def, Option.some.injEq, Prod.mk.injEq] at h
      obtain ⟨rfl, rfl⟩ := h
      have hbrought : Brought ⟨some k, elapsed⟩ (pLimit - pByte) bs p.stream :=
        ⟨not_lt.mp htimely, k, rfl, hbs.symm⟩
      exact Or.inr ⟨bs, rfl, hbrought, hle, rfl, hsplit.symm, hmem⟩

/-- A call in time stores what it brings. -/
theorem serialReceive_of_timely {k elapsed pByte pLimit : ℕ} (he : elapsed ≤ 1000) {p : Port n}
    {bs rest : List Byte} (hbs : bs.length = pLimit - pByte) (h256 : bs.length < 256)
    (hfits : pByte + bs.length ≤ n) (hstream : p.stream = bs ++ rest) :
    ∃ p', serialReceive ⟨some k, elapsed⟩ pByte pLimit p = some (.ok (bs.take k).length, p') ∧
      Stored 1 pByte (bs.take k) p p' ∧ p'.stream = bs.drop k ++ rest := by
  have htake : p.stream.take (min k ((pLimit - pByte) % 256)) = bs.take k := by
    rw [← hbs, Nat.mod_eq_of_lt h256, hstream, ← List.take_take, List.take_left' rfl]
  have hrest : p.stream.drop (bs.take k).length = bs.drop k ++ rest := by
    rw [hstream]
    nth_rewrite 2 [← List.take_append_drop k bs]
    rw [List.append_assoc, List.drop_left]
  obtain ⟨packet, hpacket, hmem⟩ := Block.copy_of_le (b := p.packet)
    (show pByte + (bs.take k).length ≤ n by rw [List.length_take]; omega)
  refine ⟨⟨packet, bs.drop k ++ rest, .receive :: p.trace⟩, ?_, ⟨rfl, ?_, hmem⟩, rfl⟩
  · simp only [serialReceive, htake, hpacket, hrest, Option.bind_eq_bind, Option.bind_some]
    rw [if_neg (by omega)]
    rfl
  · rw [hstream, ← List.append_assoc, List.take_append_drop]

/-- A loop fails, or stores all bytes up to its limit. -/
theorem receiveLoop_cases {calls : List SerialCall} {pByte pLimit : ℕ} {p p' : Port n}
    {r : Except ℤ (List SerialCall)} (hle : pByte ≤ pLimit)
    (h : receiveLoop pLimit calls pByte p = some (r, p')) :
    ∃ k, (∃ code, r = .error code ∧ IsReceiveError code ∧ GivenBack k p p') ∨
      ∃ rest bs, r = .ok rest ∧ bs.length = pLimit - pByte ∧ Stored k pByte bs p p' ∧
        (pLimit - pByte < 256 → ∀ parts, Chunked parts rest → Chunked (bs.length :: parts) calls) := by
  induction calls generalizing pByte p with
  | nil =>
      by_cases hlt : pByte < pLimit
      · rw [receiveLoop, if_pos hlt, Option.some.injEq, Prod.mk.injEq] at h
        obtain ⟨rfl, rfl⟩ := h
        exact ⟨1, Or.inl ⟨_, rfl, Or.inr rfl, rfl⟩⟩
      · rw [receiveLoop, if_neg hlt, Option.some.injEq, Prod.mk.injEq] at h
        obtain ⟨rfl, rfl⟩ := h
        exact ⟨0, Or.inr ⟨_, [], rfl, by simp; omega, ⟨rfl, rfl, by simp⟩, fun _ _ => .part⟩⟩
  | cons call calls ih =>
      by_cases hlt : pByte < pLimit
      · rw [receiveLoop, if_pos hlt] at h
        simp only [Option.bind_eq_bind, Option.bind_eq_some_iff] at h
        obtain ⟨⟨r₁, p₁⟩, h₁, h⟩ := h
        rcases serialReceive_cases h₁ with
          ⟨code, rfl, hcode, hback⟩ | ⟨bs, rfl, hbrought, hn, hstored⟩
        · simp only [Option.pure_def, Option.some.injEq, Prod.mk.injEq] at h
          obtain ⟨rfl, rfl⟩ := h
          exact ⟨1, Or.inl ⟨code, rfl, hcode, hback⟩⟩
        · have hbs := hbrought.length_le
          obtain ⟨k, hk⟩ := ih (by omega) h
          refine ⟨k + 1, ?_⟩
          rcases hk with ⟨code, rfl, hcode, hback⟩ | ⟨rest, cs, rfl, hcs, hstored', hchunked⟩
          · exact Or.inl ⟨code, rfl, hcode, hstored.called.givenBack hback⟩
          · have hall := hstored.trans (by omega) hstored'
            have hlen : (bs ++ cs).length = pLimit - pByte := by
              rw [List.length_append]
              omega
            refine Or.inr ⟨rest, bs ++ cs, rfl, hlen, hall, fun h256 parts hparts => ?_⟩
            rw [hlen]
            refine hbrought.chunked (by omega) h256 ?_ ?_
            · rw [hall.stream, List.length_append, hlen]
              omega
            · rw [show pLimit - pByte - bs.length = cs.length by omega]
              exact hchunked (by omega) parts hparts
      · rw [receiveLoop, if_neg hlt, Option.some.injEq, Prod.mk.injEq] at h
        obtain ⟨rfl, rfl⟩ := h
        exact ⟨0, Or.inr ⟨_, [], rfl, by simp; omega, ⟨rfl, rfl, by simp⟩, fun _ _ => .part⟩⟩

/-- A size of 256 is passed on as 0, so that the loop for it waits in vain. -/
theorem receiveLoop_of_mod (calls : List SerialCall) {pByte pLimit : ℕ} (p : Port n)
    (hlt : pByte < pLimit) (hmod : (pLimit - pByte) % 256 = 0) (hn : pByte ≤ n) :
    ∃ code p', receiveLoop pLimit calls pByte p = some (.error code, p') := by
  induction calls generalizing p with
  | nil => exact ⟨_, _, if_pos hlt⟩
  | cons call calls ih =>
      rw [receiveLoop, if_pos hlt]
      obtain ⟨_ | k, elapsed⟩ := call
      · exact ⟨_, _, rfl⟩
      · obtain ⟨packet, hpacket, -⟩ :=
          Block.copy_of_le (b := p.packet) (show pByte + ([] : List Byte).length ≤ n by simpa)
        have hnone : p.stream.take (min k ((pLimit - pByte) % 256)) = [] := by simp [hmod]
        simp only [serialReceive, hnone, hpacket, Option.bind_eq_bind, Option.bind_some]
        split
        · exact ⟨_, _, rfl⟩
        · exact ih _

theorem startLoop_of_start {calls : List SerialCall} {p : Port n}
    (h : p.packet.1.head? = some SOP) : startLoop calls p = some (.ok calls, p) := by
  cases calls <;> exact if_pos h

theorem splice_zero_cons {b : Byte} {mem : List Byte} (h : 0 < mem.length) :
    splice 0 [b] mem = b :: mem.tail := by
  cases mem with
  | nil => simp at h
  | cons c mem => rfl

/-- A call for a single byte leaves the packet as it is, or replaces its first byte. -/
theorem packet_of_stored_le_one {p p' : Port n} {bs : List Byte} (hn : 0 < n) (hbs : bs.length ≤ 1)
    (h : Stored 1 0 bs p p') :
    (bs = [] ∧ p'.packet.1 = p.packet.1) ∨ ∃ b, bs = [b] ∧ p'.packet.1 = b :: p.packet.1.tail := by
  rcases bs with _ | ⟨b, _ | ⟨c, bs⟩⟩
  · exact Or.inl ⟨rfl, by rw [h.packet, splice_nil]⟩
  · exact Or.inr ⟨b, rfl, by rw [h.packet, splice_zero_cons (by rwa [p.packet.2])]⟩
  · simp only [List.length_cons] at hbs
    omega

/-- A byte that is no start of a packet leaves all but the first byte of the packet. -/
theorem not_mem_of_stored_le_one {p p' : Port n} {bs : List Byte} (hn : 0 < n)
    (hbs : bs.length ≤ 1) (h : Stored 1 0 bs p p') (hfound : p'.packet.1.head? ≠ some SOP) :
    SOP ∉ bs ∧ p'.packet.1.tail = p.packet.1.tail := by
  rcases packet_of_stored_le_one hn hbs h with ⟨rfl, hpacket⟩ | ⟨b, rfl, hpacket⟩
  · exact ⟨by simp, by rw [hpacket]⟩
  · refine ⟨fun hmem => hfound ?_, by rw [hpacket, List.tail_cons]⟩
    rw [hpacket, List.mem_singleton.mp hmem, List.head?_cons]

/-- A call for a single byte, before the calls that bring `k` bytes and the start of a packet. -/
theorem Brought.chunked_ones {call : SerialCall} {bs stream : List Byte} {calls : List SerialCall}
    {parts : List ℕ} {k : ℕ} (h : Brought call 1 bs stream) (hstream : 1 ≤ stream.length)
    (hmore : Chunked (List.replicate (k + 1) 1 ++ parts) calls) :
    Chunked (List.replicate (bs.length + k + 1) 1 ++ parts) (call :: calls) := by
  have hone := h.length_le
  rw [List.replicate_succ, List.cons_append]
  apply h.chunked (by omega) (by omega) hstream
  rcases bs with _ | ⟨b, _ | ⟨c, bs⟩⟩
  · rw [List.replicate_succ, List.cons_append] at hmore
    simpa using hmore
  · rw [List.length_singleton, Nat.add_comm 1]
    exact .part hmore
  · simp only [List.length_cons] at hone
    omega

/-- The first loop fails, or passes the first start of a packet. -/
theorem startLoop_cases {calls : List SerialCall} {p p' : Port n}
    {r : Except ℤ (List SerialCall)} (hn : 0 < n) (hstart : p.packet.1.head? ≠ some SOP)
    (h : startLoop calls p = some (r, p')) :
    ∃ k, (∃ code, r = .error code ∧ IsReceiveError code ∧ GivenBack k p p') ∨
      ∃ rest u, r = .ok rest ∧ SOP ∉ u ∧ Called k p p' ∧
        p.stream = u ++ SOP :: p'.stream ∧ p'.packet.1 = SOP :: p.packet.1.tail ∧
        ∀ parts, Chunked parts rest → Chunked (List.replicate (u.length + 1) 1 ++ parts) calls := by
  induction calls generalizing p with
  | nil =>
      rw [startLoop, if_neg hstart, Option.some.injEq, Prod.mk.injEq] at h
      obtain ⟨rfl, rfl⟩ := h
      exact ⟨1, Or.inl ⟨_, rfl, Or.inr rfl, rfl⟩⟩
  | cons call calls ih =>
      rw [startLoop, if_neg hstart] at h
      simp only [Option.bind_eq_bind, Option.bind_eq_some_iff] at h
      obtain ⟨⟨r₁, p₁⟩, h₁, h⟩ := h
      rcases serialReceive_cases h₁ with
        ⟨code, rfl, hcode, hback⟩ | ⟨bs, rfl, hbrought, -, hstored⟩
      · simp only [Option.pure_def, Option.some.injEq, Prod.mk.injEq] at h
        obtain ⟨rfl, rfl⟩ := h
        exact ⟨1, Or.inl ⟨code, rfl, hcode, hback⟩⟩
      · change startLoop calls p₁ = some (r, p') at h
        by_cases hfound : p₁.packet.1.head? = some SOP
        · -- the byte that arrived is the start of a packet
          rw [startLoop_of_start hfound, Option.some.injEq, Prod.mk.injEq] at h
          obtain ⟨rfl, rfl⟩ := h
          rcases packet_of_stored_le_one hn hbrought.length_le hstored with
            ⟨rfl, hpacket⟩ | ⟨b, rfl, hpacket⟩
          · exact absurd (by rw [← hpacket, hfound]) hstart
          · obtain rfl : b = SOP := by simpa [hpacket] using hfound
            have hchunked : ∀ parts, Chunked parts calls → Chunked ([1] ++ parts) (call :: calls) :=
              fun parts hparts => hbrought.chunked (by omega) (by omega)
                (by rw [hstored.stream]; simp) (.part hparts)
            exact ⟨1, Or.inr ⟨calls, [], rfl, by simp, hstored.called, hstored.stream, hpacket,
              hchunked⟩⟩
        · have hnot := not_mem_of_stored_le_one hn hbrought.length_le hstored hfound
          obtain ⟨k, hk⟩ := ih hfound h
          refine ⟨k + 1, ?_⟩
          rcases hk with
            ⟨code, rfl, hcode, hback⟩ | ⟨rest, u, rfl, hu, hcalled, hstream, hpacket, hchunked⟩
          · exact Or.inl ⟨code, rfl, hcode, hstored.called.givenBack hback⟩
          · have hall : p.stream = bs ++ u ++ SOP :: p'.stream := by
              rw [hstored.stream, hstream, List.append_assoc]
            refine Or.inr ⟨rest, bs ++ u, rfl, by simp [hnot.1, hu], hstored.called.trans hcalled,
              hall, by rw [hpacket, hnot.2], fun parts hparts => ?_⟩
            rw [List.length_append]
            exact hbrought.chunked_ones (by rw [hall]; simp; omega) (hchunked parts hparts)

theorem exists_packet_cons (b : Block n) (hn : 3 ≤ n) :
    ∃ b₀ b₁ b₂ tl, b.1 = b₀ :: b₁ :: b₂ :: tl := by
  obtain ⟨mem, hmem⟩ := b
  rcases mem with _ | ⟨b₀, _ | ⟨b₁, _ | ⟨b₂, tl⟩⟩⟩
  · simp only [List.length_nil] at hmem
    omega
  · simp only [List.length_cons, List.length_nil] at hmem
    omega
  · simp only [List.length_cons, List.length_nil] at hmem
    omega
  · exact ⟨b₀, b₁, b₂, tl, rfl⟩

/-- Data and checksum follow the three bytes of the header. -/
theorem splice_data (b₀ b₁ b₂ : Byte) (tl data : List Byte) :
    splice 3 data (b₀ :: b₁ :: b₂ :: tl) = b₀ :: b₁ :: b₂ :: (data ++ tl.drop data.length) := by
  simp [splice, Nat.add_comm 3]

/-- The bytes that are added up for the checksum. -/
theorem take_drop_packet {dataLength : ℕ} {data : List Byte} (h : data.length = dataLength + 1)
    (b₀ b₁ b₂ : Byte) (tl : List Byte) :
    ((b₀ :: b₁ :: b₂ :: (data ++ tl)).take (3 + dataLength + 1)).drop 1 = b₁ :: b₂ :: data := by
  rw [show 3 + dataLength + 1 = (data.length + 2) + 1 by omega, List.take_succ_cons,
    List.drop_succ_cons, List.drop_zero, List.take_succ_cons, List.take_succ_cons, List.take_left]

/-- The packet `bs` behind the first start of a packet has been taken from the line, after the
bytes `u`, and stored. -/
structure Received (u bs : List Byte) (p p' : Port n) : Prop where
  clean : SOP ∉ u
  fits : bs.length < n
  short : bs.length < 258
  length : bs.length = (bs.getD 1 0).toNat + 3
  stream : p.stream = u ++ SOP :: (bs ++ p'.stream)
  packet : p'.packet.1 = SOP :: (bs ++ p.packet.1.drop (bs.length + 1))

theorem checksum_eq_some {pByte pLimit : ℕ} {packet : Block n} {sum : Byte}
    (h : checksum pByte pLimit packet = some sum) :
    pLimit < n ∧ sum = ((packet.1.take (pLimit + 1)).drop pByte).foldl (· + ·) 0 := by
  rw [checksum] at h
  split at h
  · rename_i hlt
    exact ⟨hlt, (Option.some.inj h).symm⟩
  · simp at h

section

variable {k₂ k₃ : ℕ} {u data : List Byte} {routine length : Byte} {p p₁ p₂ p₃ : Port n}
  (hpacket : p₁.packet.1 = SOP :: p.packet.1.tail) (hheader : Stored k₂ 1 [routine, length] p₁ p₂)

include hpacket hheader

/-- The packet with its header. -/
theorem packet_of_header (hn : 3 ≤ n) :
    p₂.packet.1 = SOP :: routine :: length :: p.packet.1.drop 3 := by
  obtain ⟨b₀, b₁, b₂, tl, hp⟩ := exists_packet_cons p.packet hn
  rw [hheader.packet, hpacket, hp]
  rfl

variable (hdata : Stored k₃ 3 data p₂ p₃)

include hdata

/-- The packet with data and checksum. -/
theorem packet_of_data (hn : 3 ≤ n) :
    p₃.packet.1 = SOP :: routine :: length :: (data ++ p.packet.1.drop (3 + data.length)) := by
  rw [hdata.packet, packet_of_header hpacket hheader hn, splice_data, List.drop_drop]

/-- The three parts make a packet. -/
theorem received_of_parts (hu : SOP ∉ u) (hstream : p.stream = u ++ SOP :: p₁.stream)
    (hlength : data.length = length.toNat + 1) (h255 : length.toNat < 255)
    (hlast : 3 + length.toNat < n) : Received u (routine :: length :: data) p p₃.unlock where
  clean := hu
  fits := by
    simp only [List.length_cons]
    omega
  short := by
    simp only [List.length_cons]
    omega
  length := by
    simp only [List.length_cons, List.getD_cons_succ, List.getD_cons_zero]
    omega
  stream := by
    have hrest := hheader.stream
    rw [hdata.stream] at hrest
    rw [hstream, hrest]
    rfl
  packet := by
    have hbehind : 3 + data.length = (routine :: length :: data).length + 1 := by
      simp only [List.length_cons]
      omega
    change p₃.packet.1 = _
    rw [packet_of_data hpacket hheader hdata (by omega), hbehind]
    rfl

end

/-- `ReceivePacket` gives the port back; unless a receive fails it has stored a packet that has
arrived in time, and succeeds exactly if the bytes of that packet add up to zero. -/
theorem receivePacket_cases {calls : List SerialCall} {p p' : Port n} {r : ℤ} (hn : 4 ≤ n)
    (h : receivePacket calls p = some (r, p')) :
    (∃ k, GivenBack k p p') ∧ (IsReceiveError r ∨ ∃ u bs, Received u bs p p' ∧
      Chunked (List.replicate (u.length + 1) 1 ++ [2, bs.length - 2]) calls ∧
      r = if bs.foldl (· + ·) 0 ≠ 0 then ERROR_RESOURCE_INVALID else SUCCESS) := by
  simp only [receivePacket, Option.bind_eq_bind, Option.bind_eq_some_iff] at h
  obtain ⟨cleared, hcleared, ⟨r₁, p₁⟩, h₁, h⟩ := h
  have hmem := (copy_eq_some hcleared).2
  rw [splice_zero_cons (by rw [p.packet.2]; omega)] at hmem
  have hstart : cleared.1.head? ≠ some SOP := by
    rw [hmem, List.head?_cons]
    decide
  obtain ⟨k₁, hk₁⟩ := startLoop_cases (by omega) hstart h₁
  rcases hk₁ with
    ⟨code, rfl, hcode, hback⟩ | ⟨calls₁, u, rfl, hu, hcalled₁, hstream₁, hpacket₁, hchunked₁⟩
  · simp only [Option.pure_def, Option.some.injEq, Prod.mk.injEq] at h
    obtain ⟨rfl, rfl⟩ := h
    exact ⟨⟨k₁, hback⟩, Or.inl hcode⟩
  simp only [Option.bind_eq_some_iff] at h
  obtain ⟨⟨r₂, p₂⟩, h₂, h⟩ := h
  obtain ⟨k₂, hk₂⟩ := receiveLoop_cases (by omega) h₂
  rcases hk₂ with
    ⟨code, rfl, hcode, hback⟩ | ⟨calls₂, header, rfl, hheader, hstored₂, hchunked₂⟩
  · simp only [Option.pure_def, Option.some.injEq, Prod.mk.injEq] at h
    obtain ⟨rfl, rfl⟩ := h
    exact ⟨⟨_, hcalled₁.givenBack hback⟩, Or.inl hcode⟩
  simp only [Option.bind_eq_some_iff] at h
  obtain ⟨⟨r₃, p₃⟩, h₃, h⟩ := h
  obtain ⟨k₃, hk₃⟩ := receiveLoop_cases (by omega) h₃
  rcases hk₃ with ⟨code, rfl, hcode, hback⟩ | ⟨calls₃, data, rfl, hdata, hstored₃, hchunked₃⟩
  · simp only [Option.pure_def, Option.some.injEq, Prod.mk.injEq] at h
    obtain ⟨rfl, rfl⟩ := h
    exact ⟨⟨_, (hcalled₁.trans hstored₂.called).givenBack hback⟩, Or.inl hcode⟩
  simp only [Option.bind_eq_some_iff] at h
  obtain ⟨sum, hsum, h⟩ := h
  obtain ⟨hlast, hsum⟩ := checksum_eq_some hsum
  obtain ⟨routine, length, rfl⟩ := List.length_eq_two.mp hheader
  have hcalled := (hcalled₁.trans hstored₂.called).trans hstored₃.called
  -- what the packet holds after each of the three parts
  have hpacket : p₁.packet.1 = SOP :: p.packet.1.tail := by
    rw [hpacket₁, hmem, List.tail_cons]
  have hlength : p₂.packet.1.getD 2 0 = length := by
    rw [packet_of_header hpacket hstored₂ (by omega)]
    rfl
  rw [hlength] at hdata hsum hlast hchunked₃ h₃
  have htake : (p₃.unlock.packet.1.take (3 + length.toNat + 1)).drop 1 =
      routine :: length :: data := by
    change (p₃.packet.1.take (3 + length.toNat + 1)).drop 1 = _
    rw [packet_of_data hpacket hstored₂ hstored₃ (by omega), take_drop_packet (by omega)]
  rw [htake] at hsum
  -- a size of 256 never arrives
  have h255 : length.toNat < 255 := by
    have hlt := length.toNat_lt
    by_contra hge
    obtain ⟨code, p₄, h₄⟩ := receiveLoop_of_mod calls₂ p₂
      (show 3 < 3 + length.toNat + 1 by omega) (by omega) (by omega)
    simp [h₃] at h₄
  have hreceived : Received u (routine :: length :: data) p p₃.unlock :=
    received_of_parts hpacket hstored₂ hstored₃ hu hstream₁ (by omega) h255 hlast
  have hchunked : Chunked (List.replicate (u.length + 1) 1 ++
      [2, (routine :: length :: data).length - 2]) calls :=
    hchunked₁ _ (hchunked₂ (by omega) _ (hchunked₃ (by omega) _ (.nil _)))
  obtain ⟨rfl, rfl⟩ : (if sum ≠ 0 then ERROR_RESOURCE_INVALID else SUCCESS) = r ∧
      p₃.unlock = p' := by
    by_cases hzero : sum ≠ 0
    · simpa only [if_pos hzero, Option.pure_def, Option.some.injEq, Prod.mk.injEq] using h
    · simpa only [if_neg hzero, Option.pure_def, Option.some.injEq, Prod.mk.injEq] using h
  exact ⟨⟨_, congrArg (List.cons SerialEvent.unlock) hcalled⟩,
    Or.inr ⟨u, _, hreceived, hchunked, by rw [hsum]⟩⟩

end BcmUtils.Serial
