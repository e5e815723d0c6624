import BcmUtils.Verification.Serial.Steps

/-! # Accesses outside the packet

The number of bytes to receive is taken from the third byte of the packet and is not
compared with the size of the object. -/

namespace BcmUtils.Serial

open CLib

variable {n : ℕ}

/-! ## Receiving within the packet -/

/-- A call stays in the packet if there is room for the bytes it brings. -/
theorem exists_serialReceive (call : SerialCall) (pByte pLimit : ℕ) {p : Port n}
    (hroom : pByte + min (pLimit - pByte) p.stream.length ≤ n) :
    ∃ r p', serialReceive call pByte pLimit p = some (r, p') := by
  obtain ⟨_ | k, elapsed⟩ := call
  · exact ⟨_, _, rfl⟩
  · have hmod := Nat.mod_le (pLimit - pByte) 256
    have hfits : pByte + (p.stream.take (min k ((pLimit - pByte) % 256))).length ≤ n := by
      rw [List.length_take]
      omega
    obtain ⟨packet, hpacket, -⟩ := Block.copy_of_le (b := p.packet) hfits
    simp only [serialReceive, hpacket, Option.bind_eq_bind, Option.bind_some]
    split <;> exact ⟨_, _, rfl⟩

/-- A loop whose bytes find room stays in the packet. -/
theorem exists_receiveLoop (calls : List SerialCall) (pByte pLimit : ℕ) {p : Port n}
    (hroom : pByte + min (pLimit - pByte) p.stream.length ≤ n) :
    ∃ r p', receiveLoop pLimit calls pByte p = some (r, p') := by
  induction calls generalizing pByte p with
  | nil =>
      by_cases h : pByte < pLimit
      · exact ⟨_, _, if_pos h⟩
      · exact ⟨_, _, if_neg h⟩
  | cons call calls ih =>
      by_cases h : pByte < pLimit
      · obtain ⟨r, p', hr⟩ := exists_serialReceive call pByte pLimit hroom
        rw [receiveLoop, if_pos h, bind_of_eq hr]
        rcases serialReceive_cases hr with ⟨code, rfl, -⟩ | ⟨bs, rfl, hbrought, -, hstored⟩
        · exact ⟨_, _, rfl⟩
        · have hlen : p.stream.length = bs.length + p'.stream.length := by
            rw [hstored.stream, List.length_append]
          have hbs := hbrought.length_le
          exact ih (pByte + bs.length) (by omega)
      · exact ⟨_, _, if_neg h⟩

/-- The first loop stays in the packet. -/
theorem exists_startLoop (calls : List SerialCall) {p : Port n} (hn : 1 ≤ n) :
    ∃ r p', startLoop calls p = some (r, p') := by
  induction calls generalizing p with
  | nil =>
      by_cases h : p.packet.1.head? = some SOP
      · exact ⟨_, _, if_pos h⟩
      · exact ⟨_, _, if_neg h⟩
  | cons call calls ih =>
      by_cases h : p.packet.1.head? = some SOP
      · exact ⟨_, _, if_pos h⟩
      · obtain ⟨r, p', hr⟩ := exists_serialReceive call 0 1 (p := p) (by omega)
        rw [startLoop, if_neg h, bind_of_eq hr]
        cases r with
        | error code => exact ⟨_, _, rfl⟩
        | ok k => exact ih

/-! ## Long packets -/

/-- The first packet of the stream claims more data than the object holds, and brings them. A
claim of 255 bytes is never received. -/
def Overlong (n : ℕ) (stream : List Byte) : Prop :=
  ∃ u routine dataLength rest, stream = u ++ SOP :: routine :: dataLength :: rest ∧ SOP ∉ u ∧
    n ≤ dataLength.toNat + 3 ∧ dataLength.toNat < 255 ∧ n < rest.length + 3

/-- The third byte of the packet is the length that was received. -/
theorem getD_splice_header {packet : List Byte} (h : 3 ≤ packet.length) (routine length : Byte) :
    (splice 1 [routine, length] packet).getD 2 0 = length := by
  obtain ⟨s, packet, rfl⟩ := List.exists_cons_of_length_pos (l := packet) (by omega)
  simp [splice]

/-- Whatever the calls bring, a stream that is not overlong stays in the packet. -/
theorem isSome_receivePacket {stream : List Byte} (hn : 4 ≤ n) (h : ¬ Overlong n stream)
    (calls : List SerialCall) (packet : Block n) (trace : List SerialEvent) :
    (receivePacket calls ⟨packet, stream, trace⟩).isSome := by
  obtain ⟨cleared, hcleared, hmem⟩ :=
    Block.copy_of_le (b := packet) (show 0 + [(0 : Byte)].length ≤ n by simp; omega)
  rw [splice_zero_cons (by rw [packet.2]; omega)] at hmem
  have hstart : cleared.1.head? ≠ some SOP := by
    rw [hmem, List.head?_cons]
    decide
  obtain ⟨r₁, p₁, hr₁⟩ := exists_startLoop calls (p := ⟨cleared, stream, trace⟩) (by omega)
  unfold receivePacket
  rw [bind_of_eq hcleared, bind_of_eq hr₁]
  obtain ⟨k₁, ⟨code, rfl, -⟩ | ⟨calls₁, u, rfl, hu, -, hstream, -, -⟩⟩ :=
    startLoop_cases (by omega) hstart hr₁
  · rfl
  obtain ⟨r₂, p₂, hr₂⟩ := exists_receiveLoop calls₁ 1 3 (p := p₁) (by omega)
  simp only []
  rw [bind_of_eq hr₂]
  obtain ⟨k₂, ⟨code, rfl, -⟩ | ⟨calls₂, bs, rfl, hbs, hstored₂, -⟩⟩ :=
    receiveLoop_cases (by omega) hr₂
  · rfl
  obtain ⟨routine, dataLength, rfl⟩ := List.length_eq_two.mp hbs
  have hlength : p₂.packet.1.getD 2 0 = dataLength := by
    rw [hstored₂.packet, getD_splice_header (by rw [p₁.packet.2]; omega)]
  simp only [hlength]
  by_cases h255 : dataLength.toNat = 255
  · obtain ⟨code, p₃, hr₃⟩ := receiveLoop_of_mod calls₂ p₂
      (by omega : 3 < 3 + dataLength.toNat + 1) (by omega) (by omega)
    rw [bind_of_eq hr₃]
    rfl
  -- the stream is not overlong, so the data find room
  have hroom : 3 + min (3 + dataLength.toNat + 1 - 3) p₂.stream.length ≤ n := by
    by_contra hlong
    have hlt := dataLength.toNat_lt
    refine h ⟨u, routine, dataLength, p₂.stream, ?_, hu, by omega, by omega, by omega⟩
    rw [show stream = _ from hstream, hstored₂.stream]
    rfl
  obtain ⟨r₃, p₃, hr₃⟩ := exists_receiveLoop calls₂ 3 (3 + dataLength.toNat + 1) hroom
  rw [bind_of_eq hr₃]
  obtain ⟨k₃, ⟨code, rfl, -⟩ | ⟨calls₃, data, rfl, hdata, hstored₃, -⟩⟩ :=
    receiveLoop_cases (by omega) hr₃
  · rfl
  have hlen : p₂.stream.length = data.length + p₃.stream.length := by
    rw [hstored₃.stream, List.length_append]
  have hlast : 3 + dataLength.toNat < n := by omega
  simp only [checksum, if_pos hlast, Option.bind_eq_bind, Option.bind_some]
  split <;> rfl

/-! ## A long packet that arrives at once -/

/-- A call that brings all the bytes it is asked for without delay. -/
def promptCall : SerialCall := ⟨some 255, 0⟩

theorem serialReceive_promptCall (pByte pLimit : ℕ) (bs : List Byte) {p : Port n}
    {rest : List Byte} (hstream : p.stream = bs ++ rest) (hbs : bs.length = pLimit - pByte)
    (h256 : bs.length < 256)
    (hfits : pByte + bs.length ≤ n) :
    ∃ p', serialReceive promptCall pByte pLimit p = some (.ok bs.length, p') ∧
      p'.stream = rest ∧ p'.packet.1 = splice pByte bs p.packet.1 := by
  obtain ⟨p', hp', hstored, hrest⟩ :=
    @serialReceive_of_timely n 255 0 pByte pLimit (by omega) p bs rest hbs h256 hfits hstream
  rw [List.take_of_length_le (by omega)] at hp' hstored
  rw [List.drop_of_length_le (by omega)] at hrest
  exact ⟨p', hp', hrest, hstored.packet⟩

theorem startLoop_promptCall {u : List Byte} (hu : SOP ∉ u) (calls : List SerialCall) {p : Port n}
    {rest : List Byte} (hn : 1 ≤ n) (hstart : p.packet.1.head? ≠ some SOP)
    (hstream : p.stream = u ++ SOP :: rest) :
    ∃ p', startLoop (List.replicate (u.length + 1) promptCall ++ calls) p =
      some (.ok calls, p') ∧ p'.stream = rest := by
  induction u generalizing p with
  | nil =>
      obtain ⟨p', hp', hstream', hmem⟩ := serialReceive_promptCall 0 1 [SOP] hstream rfl
        (by simp) (by simpa)
      have hhead : p'.packet.1.head? = some SOP := by simp [hmem, splice]
      refine ⟨p', ?_, hstream'⟩
      change startLoop (promptCall :: calls) p = _
      rw [startLoop, if_neg hstart, bind_of_eq hp']
      exact startLoop_of_start hhead
  | cons b u ih =>
      simp only [List.mem_cons, not_or] at hu
      obtain ⟨p', hp', hstream', hmem⟩ := serialReceive_promptCall 0 1 [b] hstream rfl
        (by simp) (by simpa)
      have hhead : p'.packet.1.head? ≠ some SOP := by
        simpa [hmem, splice] using Ne.symm hu.1
      obtain ⟨p'', hp'', hrest⟩ := ih hu.2 hhead hstream'
      refine ⟨p'', ?_, hrest⟩
      rw [List.length_cons, List.replicate_succ, List.cons_append, startLoop, if_neg hstart,
        bind_of_eq hp']
      exact hp''

/-- An overlong packet that arrives at once is stored behind the end of the object. -/
theorem receivePacket_of_overlong {stream : List Byte} (hn : 4 ≤ n) (h : Overlong n stream)
    (packet : Block n) (trace : List SerialEvent) :
    ∃ calls, receivePacket calls ⟨packet, stream, trace⟩ = none := by
  obtain ⟨u, routine, dataLength, rest, hstream, hu, hlong, hlt, hrest⟩ := h
  obtain ⟨cleared, hcleared, hmem⟩ :=
    Block.copy_of_le (b := packet) (show 0 + [(0 : Byte)].length ≤ n by simp; omega)
  have hstart : cleared.1.head? ≠ some SOP := by
    simp only [hmem, splice, List.take_zero, List.nil_append, List.cons_append, List.head?_cons]
    decide
  obtain ⟨p₁, hp₁, hstream₁⟩ := startLoop_promptCall hu [promptCall, promptCall]
    (p := ⟨cleared, stream, trace⟩) (by omega) hstart hstream
  obtain ⟨p₂, hp₂, hstream₂, hmem₂⟩ := serialReceive_promptCall 1 3 [routine, dataLength]
    hstream₁ rfl (by simp) (by simp; omega)
  have hlength : p₂.packet.1.getD 2 0 = dataLength := by
    rw [hmem₂, getD_splice_header (by rw [p₁.packet.2]; omega)]
  have hloop₂ : receiveLoop 3 [promptCall, promptCall] 1 p₁ = some (.ok [promptCall], p₂) := by
    rw [receiveLoop, if_pos (by omega), bind_of_eq hp₂]
    rfl
  have hloop₃ : receiveLoop (3 + dataLength.toNat + 1) [promptCall] 3 p₂ = none := by
    have hmin : min 255 ((3 + dataLength.toNat + 1 - 3) % 256) = dataLength.toNat + 1 := by omega
    have hnone : p₂.packet.copy 3 (rest.take (dataLength.toNat + 1)) = none := by
      rw [Block.copy, dif_neg]
      rw [List.length_take]
      omega
    rw [receiveLoop, if_pos (by omega)]
    simp only [serialReceive, promptCall, hmin, hstream₂, hnone, Option.bind_eq_bind,
      Option.bind_none]
  refine ⟨List.replicate (u.length + 1) promptCall ++ [promptCall, promptCall], ?_⟩
  unfold receivePacket
  rw [bind_of_eq hcleared, bind_of_eq hp₁]
  simp only []
  rw [bind_of_eq hloop₂]
  simp only [hlength, hloop₃]
  rfl

/-- `ReceivePacket` stays in the packet object of each of its callers, for every chunking,
exactly if the stream does not start an overlong packet. -/
theorem receive_packet_in_bounds_iff (type : PacketType) (stream : List Byte) :
    (∀ calls packet trace, (receivePacket (n := type.size) calls ⟨packet, stream, trace⟩).isSome) ↔
      ¬ Overlong type.size stream := by
  have hn : 4 ≤ type.size := by cases type <;> decide
  constructor
  · intro hsafe hlong
    obtain ⟨calls, hcalls⟩ := receivePacket_of_overlong hn hlong (Block.zeroed _) []
    have := hsafe calls (Block.zeroed _) []
    rw [hcalls] at this
    simp at this
  · intro hlong calls packet trace
    exact isSome_receivePacket hn hlong calls packet trace

/-- A packet of ten data bytes received into a `PKT_PARMS`. -/
theorem receive_packet_parms_overrun :
    receivePacket (n := PacketType.parms.size) (List.replicate 3 promptCall)
      ⟨Block.zeroed _, [SOP, 1, 9, 0, 0, 0, 0, 0, 0, 0, 0, 0, 0], []⟩ = none := by
  rfl

end BcmUtils.Serial
