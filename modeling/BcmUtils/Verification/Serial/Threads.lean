import BcmUtils.Model.SerialThreads

/-! # The serial port is used by one call at a time

Threads that call `CallRoutine`, in whatever order of their system calls, see what they would see
if each call had the serial port to itself. -/

namespace BcmUtils.SerialThreads

open CLib Serial

variable {n room : ℕ} {d d' : List Byte}

/-! ## The semaphore is taken and given back -/

section Semaphore

variable {γ : Type} {Q R : γ → Prop}

theorem holds_serialUnlock {f : Unit → Thread γ} (h : ∃ c, f () = .done c ∧ R c) :
    Holds Q R (serialUnlock.bind f) := h

theorem holds_elapsedTime {startTime : BitVec 32} {f : BitVec 32 → Thread γ}
    (h : ∀ elapsed, Holds Q R (f elapsed)) : Holds Q R ((elapsedTime startTime).bind f) := by
  rintro (_ | ⟨_ | _ | (_ | t)⟩)
  · trivial
  · trivial
  · trivial
  · exact h _
  · exact h _

theorem holds_currentTime {f : BitVec 32 → Thread γ} (h : ∀ time, Holds Q R (f time)) :
    Holds Q R (currentTime.bind f) := by
  rintro (_ | ⟨_ | _ | (_ | t)⟩)
  · trivial
  · trivial
  · trivial
  · exact h _
  · exact h _

end Semaphore

theorem serialReceive_holds {startTime : BitVec 32} {pByte pLimit : ℕ} {packet : Block n} :
    Holds (fun r => ∃ k, r.1 = .ok k ∧ pByte + k ≤ n) (fun r => ∃ code, r.1 = .error code)
      (serialReceive startTime pByte pLimit packet) := by
  rintro (_ | ⟨_ | (_ | data) | _⟩)
  · trivial
  · trivial
  · exact ⟨_, rfl, _, rfl⟩
  · refine Holds.ofOption_bind fun stored hstored => ?_
    refine holds_elapsedTime fun elapsed => ?_
    split_ifs
    · exact ⟨_, rfl, _, rfl⟩
    · refine ⟨data.length, rfl, ?_⟩
      by_contra hlong
      rw [Block.copy, dif_neg hlong] at hstored
      cases hstored
  · trivial

theorem receiveLoop_holds {startTime : BitVec 32} {pLimit rounds pByte : ℕ} {packet : Block n}
    (h : pByte ≤ n) :
    Holds (fun r => r.1 = .ok () ∧ pLimit ≤ n) (fun r => ∃ code, r.1 = .error code)
      (receiveLoop startTime pLimit rounds pByte packet) := by
  induction rounds generalizing pByte packet with
  | zero => trivial
  | succ rounds ih =>
      rw [receiveLoop]
      split_ifs with hlt
      · refine Holds.bind serialReceive_holds ?_ ?_
        · rintro ⟨_, packet⟩ ⟨k, rfl, hk⟩
          exact ih hk
        · rintro ⟨_, packet⟩ ⟨code, rfl⟩
          exact ⟨_, rfl, _, rfl⟩
      · exact ⟨rfl, by omega⟩

theorem startLoop_holds {startTime : BitVec 32} {rounds : ℕ} {packet : Block n} :
    Holds (fun r => r.1 = .ok ()) (fun r => ∃ code, r.1 = .error code)
      (startLoop startTime rounds packet) := by
  induction rounds generalizing packet with
  | zero => trivial
  | succ rounds ih =>
      rw [startLoop]
      split_ifs
      · exact rfl
      · refine Holds.bind serialReceive_holds ?_ ?_
        · rintro ⟨_, packet⟩ ⟨k, rfl, -⟩
          exact ih
        · rintro ⟨_, packet⟩ ⟨code, rfl⟩
          exact ⟨_, rfl, _, rfl⟩

theorem holds_checksum {γ : Type} {Q R : γ → Prop} {pByte pLimit : ℕ} {packet : Block n}
    (hlimit : pLimit < n) {f : Byte → Thread γ} (h : ∀ sum, ∃ c, f sum = .done c ∧ R c) :
    Holds Q R (serialUnlock.bind fun _ => (Proc.ofOption (checksum pByte pLimit packet)).bind f) := by
  refine holds_serialUnlock ?_
  rw [checksum, if_pos hlimit]
  exact h _

theorem receivePacket_inside {rounds : ℕ} {packet : Block n} (hn : 3 ≤ n) :
    Inside (receivePacket rounds packet) := by
  refine Holds.ofOption_bind fun packet _ => holds_currentTime fun startTime => ?_
  refine Holds.bind startLoop_holds ?_ ?_
  · rintro ⟨_, packet⟩ rfl
    refine Holds.bind (receiveLoop_holds (by omega)) ?_ ?_
    · rintro ⟨_, header⟩ ⟨rfl, -⟩
      refine Holds.bind (receiveLoop_holds hn) ?_ ?_
      · rintro ⟨_, packet⟩ ⟨rfl, hlimit⟩
        -- the checksum has been received into the packet
        refine holds_checksum (by omega) fun sum => ?_
        split_ifs
        · exact ⟨_, rfl, trivial⟩
        · exact ⟨_, rfl, trivial⟩
      · rintro ⟨_, packet⟩ ⟨code, rfl⟩
        exact ⟨_, rfl, trivial⟩
    · rintro ⟨_, packet⟩ ⟨code, rfl⟩
      exact ⟨_, rfl, trivial⟩
  · rintro ⟨_, packet⟩ ⟨code, rfl⟩
    exact ⟨_, rfl, trivial⟩

theorem sendPacket_takes {packet : Block n} :
    Takes (fun r => r.1 = SUCCESS) (fun r => r.1 ≠ SUCCESS) (sendPacket packet) := by
  refine Takes.ofOption_bind fun packet _ => ?_
  rintro (_ | ⟨dataSent | _ | _⟩)
  · trivial
  · change Holds _ _ (if _ then _ else _)
    split_ifs
    · exact ⟨_, rfl, show ERROR_RESOURCE_WRITE ≠ SUCCESS by decide⟩
    · exact rfl
  · trivial
  · trivial

theorem callRoutine_outside (e : Endian) (rounds : ℕ) (c : RoutineCall room) :
    Outside (callRoutine e rounds c) := by
  refine Takes.ofOption_bind fun packet _ => Takes.ofOption_bind fun packet _ =>
    Takes.ofOption_bind fun packet _ => ?_
  refine Takes.bind sendPacket_takes ?_ ?_
  · rintro ⟨_, packet⟩ rfl
    have hsize : 3 ≤ PacketType.parms.size + room := Nat.le_add_right_of_le (by decide)
    refine Holds.bind (receivePacket_inside hsize) (fun _ h => h.elim) ?_
    rintro ⟨result, packet⟩ -
    by_cases hreceived : result ≠ SUCCESS
    · exact ⟨_, if_pos hreceived, trivial⟩
    · by_cases hroutine : packet.1.getD 1 0 ≠ c.routine
      · exact ⟨_, (if_neg hreceived).trans (if_pos hroutine), trivial⟩
      · exact ⟨_, (if_neg hreceived).trans (if_neg hroutine), trivial⟩
  · rintro ⟨result, packet⟩ hresult
    exact ⟨_, if_pos hresult, trivial⟩

/-! ## A call that has the port to itself -/

/-- The step of the packet and the line is one of a function that records the events. -/
def Does {γ : Type} (f : Port n → Option (γ × Port n)) (packet : Block n) (d : List Byte) (r : γ)
    (packet' : Block n) (d' : List Byte) : Prop :=
  ∀ trace, ∃ trace', f ⟨packet, d, trace⟩ = some (r, ⟨packet', d', trace'⟩)

variable {a : LineAnswer} {o : LineOutcome}

theorem line_write {data : List Byte} (h : line d (.write data) o = some (a, d')) :
    ∃ dataSent answer, a = .written dataSent ∧ d' = d ++ answer := by
  cases o with
  | sends dataSent answer =>
      cases h
      exact ⟨dataSent, answer, rfl, rfl⟩
  | brings k => cases h
  | shows t => cases h

theorem line_read {size : ℕ} (h : line d (.read size) o = some (a, d')) :
    a = .received none ∧ d' = d ∨
      ∃ k, a = .received (some (d.take (min k size))) ∧
        d' = d.drop (d.take (min k size)).length := by
  cases o with
  | sends dataSent answer => cases h
  | shows t => cases h
  | brings k =>
      cases k with
      | none =>
          cases h
          exact .inl ⟨rfl, rfl⟩
      | some k =>
          cases h
          exact .inr ⟨k, rfl, rfl⟩

theorem line_clockGettime (h : line d .clockGettime o = some (a, d')) :
    ∃ t, a = .time t ∧ d' = d := by
  cases o with
  | sends dataSent answer => cases h
  | brings k => cases h
  | shows t =>
      cases h
      exact ⟨t, rfl, rfl⟩

theorem serialUnlock_alone {γ : Type} {b b' : γ}
    (h : Alone line (serialUnlock.bind fun _ => .done b) d b' d') : b = b' ∧ d = d' :=
  alone_done.mp (alone_post.mp h)

theorem currentTime_alone {time : BitVec 32} (h : Alone line currentTime d time d') : d' = d := by
  obtain ⟨o, a, d₁, hline, h⟩ := alone_use.mp h
  obtain ⟨t, rfl, rfl⟩ := line_clockGettime hline
  cases t with
  | none => exact (alone_done.mp h).2.symm
  | some t => exact (alone_done.mp h).2.symm

theorem elapsedTime_alone {startTime elapsed : BitVec 32}
    (h : Alone line (elapsedTime startTime) d elapsed d') : d' = d := by
  obtain ⟨time, d₁, htime, h⟩ := Alone.of_bind h
  obtain ⟨-, rfl⟩ := alone_done.mp h
  exact currentTime_alone htime

/-- A call that has the port to itself receives with some outcome and some elapsed time. -/
theorem serialReceive_alone {startTime : BitVec 32} {pByte pLimit : ℕ} {packet : Block n}
    {r : Except ℤ ℕ × Block n}
    (hr : Alone line (serialReceive startTime pByte pLimit packet) d r d') :
    ∃ call, Does (Serial.serialReceive call pByte pLimit) packet d r.1 r.2 d' := by
  obtain ⟨o, a, d₁, hline, h⟩ := alone_use.mp hr
  clear hr
  rcases line_read hline with ⟨rfl, rfl⟩ | ⟨k, rfl, rfl⟩
  · obtain ⟨rfl, rfl⟩ := serialUnlock_alone h
    exact ⟨⟨none, 0⟩, fun trace => ⟨_, rfl⟩⟩
  · obtain ⟨stored, hstored, hstore⟩ := alone_ofOption_bind.mp h
    obtain ⟨elapsed, d₂, helapsed, hlimit⟩ := Alone.of_bind hstore
    clear hstore
    obtain rfl := elapsedTime_alone helapsed
    refine ⟨⟨some k, elapsed.toNat⟩, fun trace => ?_⟩
    by_cases hlate : elapsed > 1000
    · have hnat : elapsed.toNat > 1000 := hlate
      rw [if_pos hlate] at hlimit
      obtain ⟨rfl, rfl⟩ := serialUnlock_alone hlimit
      refine ⟨.unlock :: .receive :: trace, ?_⟩
      simp only [Serial.serialReceive, hstored, Option.bind_eq_bind, Option.bind_some, if_pos hnat]
      rfl
    · have hnat : ¬ elapsed.toNat > 1000 := hlate
      rw [if_neg hlate] at hlimit
      obtain ⟨rfl, rfl⟩ := alone_done.mp hlimit
      refine ⟨.receive :: trace, ?_⟩
      simp only [Serial.serialReceive, hstored, Option.bind_eq_bind, Option.bind_some, if_neg hnat]
      rfl

theorem receiveLoop_alone {startTime : BitVec 32} {pLimit rounds pByte : ℕ} {packet : Block n}
    {r : Except ℤ Unit × Block n}
    (h : Alone line (receiveLoop startTime pLimit rounds pByte packet) d r d') :
    ∃ calls, ∀ more, Does (Serial.receiveLoop pLimit (calls ++ more) pByte) packet d
      (r.1.map fun _ => more) r.2 d' := by
  induction rounds generalizing pByte packet d with
  | zero => exact absurd h alone_fault
  | succ rounds ih =>
      rw [receiveLoop] at h
      by_cases hlt : pByte < pLimit
      · rw [if_pos hlt] at h
        obtain ⟨⟨result, stored⟩, d₁, hreceive, h⟩ := Alone.of_bind h
        obtain ⟨call, hcall⟩ := serialReceive_alone hreceive
        cases result with
        | error code =>
            obtain ⟨rfl, rfl⟩ := alone_done.mp h
            refine ⟨[call], fun more trace => ?_⟩
            obtain ⟨trace', htrace⟩ := hcall trace
            refine ⟨trace', ?_⟩
            simp only [List.singleton_append, Serial.receiveLoop, if_pos hlt, htrace]
            rfl
        | ok result =>
            obtain ⟨calls, hcalls⟩ := ih h
            refine ⟨call :: calls, fun more trace => ?_⟩
            obtain ⟨trace₁, htrace₁⟩ := hcall trace
            obtain ⟨trace', htrace'⟩ := hcalls more trace₁
            refine ⟨trace', ?_⟩
            simp only [List.cons_append, Serial.receiveLoop, if_pos hlt, htrace₁]
            exact htrace'
      · rw [if_neg hlt] at h
        obtain ⟨rfl, rfl⟩ := alone_done.mp h
        refine ⟨[], fun more trace => ⟨trace, ?_⟩⟩
        cases more with
        | nil => exact if_neg hlt
        | cons call more => exact if_neg hlt

theorem startLoop_alone {startTime : BitVec 32} {rounds : ℕ} {packet : Block n}
    {r : Except ℤ Unit × Block n} (h : Alone line (startLoop startTime rounds packet) d r d') :
    ∃ calls, ∀ more, Does (Serial.startLoop (calls ++ more)) packet d (r.1.map fun _ => more) r.2
      d' := by
  induction rounds generalizing packet d with
  | zero => exact absurd h alone_fault
  | succ rounds ih =>
      rw [startLoop] at h
      by_cases hstart : packet.1.head? = some SOP
      · rw [if_pos hstart] at h
        obtain ⟨rfl, rfl⟩ := alone_done.mp h
        refine ⟨[], fun more trace => ⟨trace, ?_⟩⟩
        cases more with
        | nil => exact if_pos hstart
        | cons call more => exact if_pos hstart
      · rw [if_neg hstart] at h
        obtain ⟨⟨result, stored⟩, d₁, hreceive, h⟩ := Alone.of_bind h
        obtain ⟨call, hcall⟩ := serialReceive_alone hreceive
        cases result with
        | error code =>
            obtain ⟨rfl, rfl⟩ := alone_done.mp h
            refine ⟨[call], fun more trace => ?_⟩
            obtain ⟨trace', htrace⟩ := hcall trace
            refine ⟨trace', ?_⟩
            simp only [List.singleton_append, Serial.startLoop, if_neg hstart, htrace]
            rfl
        | ok result =>
            obtain ⟨calls, hcalls⟩ := ih h
            refine ⟨call :: calls, fun more trace => ?_⟩
            obtain ⟨trace₁, htrace₁⟩ := hcall trace
            obtain ⟨trace', htrace'⟩ := hcalls more trace₁
            refine ⟨trace', ?_⟩
            simp only [List.cons_append, Serial.startLoop, if_neg hstart, htrace₁]
            exact htrace'

theorem receivePacket_alone {rounds : ℕ} {packet : Block n} {r : ℤ × Block n}
    (hr : Alone line (receivePacket rounds packet) d r d') :
    ∃ calls, Does (Serial.receivePacket calls) packet d r.1 r.2 d' := by
  obtain ⟨cleared, hcleared, hr⟩ := alone_ofOption_bind.mp hr
  obtain ⟨startTime, d₀, htime, hr⟩ := Alone.of_bind hr
  rw [currentTime_alone htime] at hr
  obtain ⟨⟨result₁, packet₁⟩, d₁, hstart, h⟩ := Alone.of_bind hr
  obtain ⟨calls₁, hcalls₁⟩ := startLoop_alone hstart
  rcases result₁ with code | ⟨⟩
  · obtain ⟨rfl, rfl⟩ := alone_done.mp h
    refine ⟨calls₁ ++ [], fun trace => ?_⟩
    obtain ⟨trace₁, htrace₁⟩ := hcalls₁ [] trace
    refine ⟨trace₁, ?_⟩
    simp only [Serial.receivePacket, hcleared, Option.bind_eq_bind, Option.bind_some, htrace₁]
    rfl
  obtain ⟨⟨result₂, packet₂⟩, d₂, hheader, h⟩ := Alone.of_bind h
  obtain ⟨calls₂, hcalls₂⟩ := receiveLoop_alone hheader
  rcases result₂ with code | ⟨⟩
  · obtain ⟨rfl, rfl⟩ := alone_done.mp h
    refine ⟨calls₁ ++ (calls₂ ++ []), fun trace => ?_⟩
    obtain ⟨trace₁, htrace₁⟩ := hcalls₁ (calls₂ ++ []) trace
    obtain ⟨trace₂, htrace₂⟩ := hcalls₂ [] trace₁
    refine ⟨trace₂, ?_⟩
    simp only [Serial.receivePacket, hcleared, Option.bind_eq_bind, Option.bind_some, htrace₁,
      Except.map, htrace₂]
    rfl
  obtain ⟨⟨result₃, packet₃⟩, d₃, hdata, h⟩ := Alone.of_bind h
  obtain ⟨calls₃, hcalls₃⟩ := receiveLoop_alone hdata
  -- each loop is left with the outcomes that the loops behind it use
  refine ⟨calls₁ ++ (calls₂ ++ (calls₃ ++ [])), fun trace => ?_⟩
  obtain ⟨trace₁, htrace₁⟩ := hcalls₁ (calls₂ ++ (calls₃ ++ [])) trace
  obtain ⟨trace₂, htrace₂⟩ := hcalls₂ (calls₃ ++ []) trace₁
  obtain ⟨trace₃, htrace₃⟩ := hcalls₃ [] trace₂
  rcases result₃ with code | ⟨⟩
  · obtain ⟨rfl, rfl⟩ := alone_done.mp h
    refine ⟨trace₃, ?_⟩
    simp only [Serial.receivePacket, hcleared, Option.bind_eq_bind, Option.bind_some, htrace₁,
      Except.map, htrace₂, htrace₃]
    rfl
  obtain ⟨sum, hsum, h⟩ := alone_ofOption_bind.mp (alone_post.mp h)
  refine ⟨.unlock :: trace₃, ?_⟩
  simp only [Serial.receivePacket, hcleared, Option.bind_eq_bind, Option.bind_some, htrace₁,
    Except.map, htrace₂, htrace₃, Port.unlock, hsum]
  by_cases hzero : sum ≠ 0
  · rw [if_pos hzero] at h ⊢
    obtain ⟨rfl, rfl⟩ := alone_done.mp h
    rfl
  · rw [if_neg hzero] at h ⊢
    obtain ⟨rfl, rfl⟩ := alone_done.mp h
    rfl

theorem sendPacket_alone {packet : Block n} {r : ℤ × Block n}
    (h : Alone line (sendPacket packet) d r d') :
    ∃ dataSent answer, ∀ calls trace, ∃ sent trace',
      Serial.sendPacket ⟨dataSent, answer, calls⟩ ⟨packet, d, trace⟩ =
        some (r.1, sent, ⟨r.2, d', trace'⟩) := by
  obtain ⟨summed, hsummed, h⟩ := alone_ofOption_bind.mp h
  obtain ⟨o, a, d₁, hline, h⟩ := alone_use.mp (alone_wait.mp h)
  obtain ⟨dataSent, answer, rfl, rfl⟩ := line_write hline
  change Alone line (if _ then _ else _) _ _ _ at h
  refine ⟨dataSent, answer, fun calls trace => ?_⟩
  simp only [Serial.sendPacket, hsummed, Option.bind_eq_bind, Option.bind_some]
  by_cases hresult : Serial.serialSend dataSent ((packet.1.getD 2 0).toNat + 4) ≠
      ((packet.1.getD 2 0).toNat + 4 : ℕ)
  · rw [if_pos hresult] at h ⊢
    obtain ⟨rfl, rfl⟩ := serialUnlock_alone h
    exact ⟨_, _, rfl⟩
  · rw [if_neg hresult] at h ⊢
    obtain ⟨rfl, rfl⟩ := alone_done.mp h
    exact ⟨_, _, rfl⟩

/-- A call that has the port to itself is a call with some exchange on the line. -/
theorem callRoutine_alone {e : Endian} {rounds : ℕ} {c : RoutineCall room} {r : RoutineResult}
    (h : Alone line (callRoutine e rounds c) d r d') :
    ∃ x line', Serial.callRoutine e c.routine c.pParm8 c.pParm32 c.packet x ⟨d, []⟩ =
      some (r, line') ∧ line'.stream = d' := by
  obtain ⟨packet₁, h₁, h⟩ := alone_ofOption_bind.mp h
  obtain ⟨packet₂, h₂, h⟩ := alone_ofOption_bind.mp h
  obtain ⟨packet₃, h₃, h⟩ := alone_ofOption_bind.mp h
  obtain ⟨⟨result, packet₄⟩, d₁, hsend, h⟩ := Alone.of_bind h
  obtain ⟨dataSent, answer, hsent⟩ := sendPacket_alone hsend
  by_cases hresult : result ≠ SUCCESS
  · obtain ⟨sent, trace₁, hsent⟩ := hsent [] []
    refine ⟨⟨dataSent, answer, []⟩, ⟨d₁, trace₁⟩, ?_⟩
    replace h := (congrArg (Alone line · d₁ r d') (if_pos hresult)).mp h
    obtain ⟨rfl, rfl⟩ := alone_done.mp h
    simp only [Serial.callRoutine, sendRequest, h₁, h₂, h₃, Option.bind_eq_bind, Option.bind_some,
      hsent, Option.pure_def, if_pos hresult, and_self]
  · replace h := (congrArg (Alone line · d₁ r d') (if_neg hresult)).mp h
    obtain ⟨⟨result', packet₅⟩, d₂, hreceive, h⟩ := Alone.of_bind h
    obtain ⟨calls, hcalls⟩ := receivePacket_alone hreceive
    obtain ⟨sent, trace₁, hsent⟩ := hsent calls []
    obtain ⟨trace₂, hreceived⟩ := hcalls trace₁
    refine ⟨⟨dataSent, answer, calls⟩, ⟨d', trace₂⟩, ?_, rfl⟩
    simp only [Serial.callRoutine, sendRequest, receiveResponse, h₁, h₂, h₃, Option.bind_eq_bind,
      Option.bind_some, hsent, Option.pure_def, if_neg hresult, hreceived]
    by_cases hresult' : result' ≠ SUCCESS
    · replace h := (congrArg (Alone line · d₂ r d') (if_pos hresult')).mp h
      obtain ⟨rfl, rfl⟩ := alone_done.mp h
      rw [if_pos hresult']
    · replace h := (congrArg (Alone line · d₂ r d') (if_neg hresult')).mp h
      rw [if_neg hresult']
      by_cases hroutine : packet₅.1.getD 1 0 ≠ c.routine
      · replace h := (congrArg (Alone line · d₂ r d') (if_pos hroutine)).mp h
        obtain ⟨rfl, rfl⟩ := alone_done.mp h
        rw [if_pos hroutine]
      · replace h := (congrArg (Alone line · d₂ r d') (if_neg hroutine)).mp h
        obtain ⟨rfl, rfl⟩ := alone_done.mp h
        rw [if_neg hroutine]

/-! ## Main result -/

variable {P : Type}

/-- The serial port with the bytes that still arrive, used by one call of `CallRoutine` at a time.
A thread that ends in the middle of a call may leave the port locked for ever. -/
def onePort (P : Type) (room : ℕ) (e : Endian) :
    Atomic P (RoutineCall room) RoutineResult (Option (List Byte)) where
  effect _ t c r t' := ∃ stream x line', t = some stream ∧ t' = some line'.stream ∧
    Serial.callRoutine e c.routine c.pParm8 c.pParm32 c.packet x ⟨stream, []⟩ = some (r, line')
  ends _ t c t' := t' = t ∨ c.isSome = true ∧ t' = none

/-- Whatever threads call `CallRoutine`, in whatever order of their system calls and wherever they
end, they see what they could see if each call had the serial port to itself. If no thread has
ended, the port is free when no call is under way. -/
theorem call_routine_atomic [DecidableEq P] (e : Endian) (rounds : ℕ) (stream : List Byte)
    (xs : List (Happening P (RoutineCall room) LineOutcome))
    (w : World P (RoutineCall room) (Thread RoutineResult) RoutineResult (ℕ × List Byte))
    (hxs : xs.foldlM (semServer line fun _ => callRoutine e rounds).step
      (World.start (1, stream)) = some w) :
    ∃ v, (onePort P room e).Run (World.start (some stream)) v ∧ v.seen = w.seen ∧
      ((∀ p, w.pending p = none) → (∀ p, .ended p ∉ w.seen) →
        w.state.1 = 1 ∧ v.state = some w.state.2) := by
  obtain ⟨v, hv, hseen, hfree⟩ := one_at_a_time (fun _ => callRoutine_outside e rounds) hxs
  refine ⟨v, Atomic.Run.mono ?_ ?_ hv, hseen, hfree⟩
  · rintro p t c r t' ⟨d, d', rfl, rfl, halone⟩
    obtain ⟨x, line', hx, rfl⟩ := callRoutine_alone halone
    exact ⟨d, x, line', rfl, rfl, hx⟩
  · exact fun _ _ _ _ h => h

/-- A call with a byte to be returned. -/
def byteCall (routine parm8 : Byte) : RoutineCall 0 :=
  ⟨routine, some parm8, none, Block.zeroed PacketType.parms.size⟩

/-- Two threads ask for the system status at once. The second one cannot send its request. -/
def overlappingCalls : List (Happening Side (RoutineCall 0) LineOutcome) :=
  [.call .left (byteCall RTN_GETSYSTEMSTATUS 0xFC),
    .call .right (byteCall RTN_GETSYSTEMSTATUS 0xFC), .turn .right (.shows none),
    .turn .right (.sends 9 [SOP, 1, 5, 7, 0, 0, 0, 0, 0xF3]),
    .turn .right (.shows (some (4294967, 295000000))), .turn .right (.brings (some 1)),
    .turn .right (.shows (some (4294967, 295000000))), .turn .right (.brings (some 2)),
    .turn .right (.shows (some (4294967, 296000000))), .turn .right (.brings (some 4)),
    .turn .right (.shows (some (4294967, 796000000))), .turn .right (.brings (some 4)),
    .turn .right (.shows (some (4294967, 896000000))), .turn .right (.shows none),
    .turn .left (.shows none), .ret .right, .turn .left (.sends 3 []), .turn .left (.shows none),
    .ret .left]

theorem call_routine_atomic_overlapping :
    ∃ v, (onePort Side 0 .little).Run (World.start (some [])) v ∧
      v.seen = [.returned .left (byteCall RTN_GETSYSTEMSTATUS 0xFC)
          ⟨ERROR_RESOURCE_WRITE, some 0xFC, none⟩,
        .returned .right (byteCall RTN_GETSYSTEMSTATUS 0xFC) ⟨SUCCESS, some 7, none⟩,
        .called .right (byteCall RTN_GETSYSTEMSTATUS 0xFC),
        .called .left (byteCall RTN_GETSYSTEMSTATUS 0xFC)] ∧ v.state = some [] := by
  have hrun : (overlappingCalls.foldlM (semServer line fun _ => callRoutine .little 9).step
      (World.start (1, []))).isSome = true := rfl
  obtain ⟨v, hv, hseen, hfree⟩ := call_routine_atomic .little 9 [] overlappingCalls _
    (Option.some_get hrun).symm
  refine ⟨v, hv, hseen, (hfree (fun p => ?_) fun p hp => ?_).2⟩
  · cases p <;> rfl
  · change Seen.ended p ∈ [.returned _ _ _, .returned _ _ _, .called _ _, .called _ _] at hp
    simp at hp

end BcmUtils.SerialThreads
