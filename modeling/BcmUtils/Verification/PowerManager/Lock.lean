import BcmUtils.Verification.PowerManager.Steps
import BcmUtils.Verification.Serial.Bounds

/-! # The semaphore of the serial port

Every call to the power manager takes the semaphore once for each packet that it sends, and gives
it back before it returns. -/

namespace BcmUtils.Serial

open CLib

/-! ## The value of the semaphore -/

/-- The value of the semaphore after an event. `sem_wait` does not return while it is zero. -/
def semaphore : ℕ → SerialEvent → Option ℕ
  | 0, .lock => none
  | value + 1, .lock => some value
  | value, .unlock => some (value + 1)
  | value, .send => some value
  | value, .receive => some value

/-- From this value on the semaphore is never above one, every send and every receive finds it
held, every lock finds it free, and it is free in the end. -/
def Balanced : ℕ → List SerialEvent → Prop
  | value, [] => value = 1
  | value, event :: events => value ≤ 1 ∧ (event = .send ∨ event = .receive → value = 0) ∧
      ∃ value', semaphore value event = some value' ∧ Balanced value' events

theorem Balanced.append {value : ℕ} {events more : List SerialEvent} (h : Balanced value events)
    (h' : Balanced 1 more) : Balanced value (events ++ more) := by
  induction events generalizing value with
  | nil =>
      obtain rfl : value = 1 := h
      exact h'
  | cons event events ih =>
      obtain ⟨hle, hheld, value', hvalue, hrest⟩ := h
      exact ⟨hle, hheld, value', hvalue, ih hrest⟩

theorem balanced_replicate (k : ℕ) : Balanced 0 (List.replicate k .receive ++ [.unlock]) := by
  induction k with
  | zero => exact ⟨by omega, fun _ => rfl, 1, rfl, rfl⟩
  | succ k ih => exact ⟨by omega, fun _ => rfl, 0, rfl, ih⟩

theorem balanced_session (k : ℕ) : Balanced 1 (session k) := by
  have hlock : SerialEvent.lock = .send ∨ SerialEvent.lock = .receive → 1 = 0 := by simp
  exact ⟨by omega, hlock, 0, rfl, by omega, fun _ => rfl, 0, rfl, balanced_replicate k⟩

theorem balanced_sessions (ks : List ℕ) : Balanced 1 (ks.flatMap session) := by
  induction ks with
  | nil => rfl
  | cons k ks ih => exact (balanced_session k).append ih

/-! ## Sessions of the calls -/

variable {m n room : ℕ} {e : Endian}

/-- A request that is sent takes the port; one that is not sent is a session of its own. -/
theorem sendRequest_cases (hn : 9 ≤ n) {routine : Byte} {pParm8 : Option Byte}
    {pParm32 : Option (BitVec 32)} {packet packet' : Block n} {x : Exchange} {line line' : Line}
    {r : ℤ} (h : sendRequest e routine pParm8 pParm32 packet x line = some (r, packet', line')) :
    if r = SUCCESS then line'.trace = .send :: .lock :: line.trace
    else Sessions [0] line line' := by
  obtain ⟨packet₁, h₁⟩ := @sendRequest_eq _ e hn routine pParm8 pParm32 packet x line
  rw [h, Option.some.injEq, Prod.mk.injEq, Prod.mk.injEq] at h₁
  obtain ⟨rfl, -, rfl⟩ := h₁
  by_cases hwritten : x.written = 9
  · rw [if_pos hwritten, if_pos hwritten]
    rfl
  · rw [if_neg hwritten, if_neg hwritten]
    exact sessions_singleton rfl

/-- A response ends the session that its request has begun. -/
theorem receiveResponse_session (hm : 4 ≤ m) {calls : List SerialCall} {packet packet' : Block m}
    {line line₁ line' : Line} {r : ℤ} (hsent : line₁.trace = .send :: .lock :: line.trace)
    (h : receiveResponse calls packet line₁ = some (r, packet', line')) :
    ∃ k, Sessions [k] line line' := by
  obtain ⟨⟨k, htrace⟩, -⟩ := receiveResponse_cases hm h
  rw [hsent] at htrace
  exact ⟨k, sessions_singleton htrace⟩

/-- An exchange is one session, or two if it is repeated. -/
theorem exchangeTwice_sessions (hn : 9 ≤ n) (hm : 4 ≤ m) {routine : Byte} {pParm8 : Option Byte}
    {packet : Block n} {response response' : Block m} {x y : Exchange} {s s' : Statistics}
    {line line' : Line} {outcome : Except ℤ ℤ}
    (h : exchangeTwice e routine pParm8 packet response x y s line =
      some (outcome, response', s', line')) : ∃ ks, Sessions ks line line' := by
  simp only [exchangeTwice, Option.bind_eq_bind, Option.bind_eq_some_iff] at h
  obtain ⟨⟨r₁, packet₁, line₁⟩, h₁, h⟩ := h
  have hsent := sendRequest_cases hn h₁
  by_cases hr₁ : r₁ = SUCCESS
  · simp only [hr₁, ne_eq, not_true_eq_false, if_false, Option.bind_eq_some_iff] at h
    obtain ⟨⟨r₂, response₂, line₂⟩, h₂, h⟩ := h
    rw [if_pos hr₁] at hsent
    obtain ⟨k, hfirst⟩ := receiveResponse_session hm hsent h₂
    by_cases hr₂ : r₂ = SUCCESS
    · simp only [hr₂, if_true, Option.pure_def, Option.some.injEq, Prod.mk.injEq] at h
      obtain ⟨-, -, -, rfl⟩ := h
      exact ⟨_, hfirst⟩
    · -- the exchange is repeated
      simp only [hr₂, if_false, Option.bind_eq_some_iff] at h
      obtain ⟨⟨r₃, packet₃, line₃⟩, h₃, h⟩ := h
      have hagain := sendRequest_cases hn h₃
      by_cases hr₃ : r₃ = SUCCESS
      · simp only [hr₃, not_true_eq_false, if_false, Option.bind_eq_some_iff] at h
        obtain ⟨⟨r₄, response₄, line₄⟩, h₄, h⟩ := h
        rw [if_pos hr₃] at hagain
        obtain ⟨j, hsecond⟩ := receiveResponse_session hm hagain h₄
        have hline : line₄ = line' := by
          split at h
          · simp only [Option.pure_def, Option.some.injEq, Prod.mk.injEq] at h
            exact h.2.2.2
          · simp only [Option.pure_def, Option.some.injEq, Prod.mk.injEq] at h
            exact h.2.2.2
        exact ⟨_, hline ▸ hfirst.trans hsecond⟩
      · simp only [hr₃, not_false_eq_true, if_true, Option.pure_def, Option.some.injEq,
          Prod.mk.injEq] at h
        obtain ⟨-, -, -, rfl⟩ := h
        rw [if_neg hr₃] at hagain
        exact ⟨_, hfirst.trans hagain⟩
  · simp only [hr₁, ne_eq, not_false_eq_true, if_true, Option.pure_def, Option.some.injEq,
      Prod.mk.injEq] at h
    obtain ⟨-, -, -, rfl⟩ := h
    rw [if_neg hr₁] at hsent
    exact ⟨_, hsent⟩

theorem getPoePortInfo_sessions {port : Byte} {packet : Block (PacketType.parms.size + room)}
    {x y : Exchange} {portInfo portInfo' : PortInfo} {d d' : Device room} {r : ℤ}
    (h : getPoePortInfo e port packet x y portInfo d = some (r, portInfo', d')) :
    ∃ ks, Sessions ks d.line d'.line := by
  simp only [getPoePortInfo, Option.bind_eq_bind, Option.bind_eq_some_iff] at h
  obtain ⟨⟨outcome, portInfoPacket, statistics, line⟩, hexchange, h⟩ := h
  obtain ⟨ks, hks⟩ := exchangeTwice_sessions
    (show 9 ≤ PacketType.parms.size + room from Nat.le_add_right 9 room)
    (show 4 ≤ PacketType.portinfo.size + room from Nat.le_add_right_of_le (by decide)) hexchange
  refine ⟨ks, ?_⟩
  have hline : d'.line = line := by
    cases outcome with
    | error code =>
        simp only [Option.pure_def, Option.some.injEq, Prod.mk.injEq] at h
        rw [← h.2.2]
    | ok result =>
        simp only [Option.pure_def] at h
        split_ifs at h <;>
        · simp only [Option.some.injEq, Prod.mk.injEq] at h
          rw [← h.2.2]
  rwa [hline]

theorem getPoeSystemInfo_sessions {packet : Block (PacketType.parms.size + room)} {x y : Exchange}
    {systemInfo : SysInfo} {d d' : Device room} {r : Option ℤ}
    (h : getPoeSystemInfo e packet x y d = some (r, systemInfo, d')) :
    ∃ ks, Sessions ks d.line d'.line := by
  simp only [getPoeSystemInfo, Option.bind_eq_bind, Option.bind_eq_some_iff] at h
  obtain ⟨packet₁, -, packet₂, -, ⟨outcome, sysInfoPacket, statistics, line⟩, hexchange, h⟩ := h
  obtain ⟨ks, hks⟩ := exchangeTwice_sessions
    (show 9 ≤ PacketType.parms.size + room from Nat.le_add_right 9 room)
    (show 4 ≤ PacketType.sysinfo.size + room from Nat.le_add_right_of_le (by decide)) hexchange
  refine ⟨ks, ?_⟩
  have hline : d'.line = line := by
    cases outcome with
    | error code =>
        simp only [Option.pure_def, Option.some.injEq, Prod.mk.injEq] at h
        rw [← h.2.2]
    | ok result =>
        simp only [Option.pure_def, Option.some.injEq, Prod.mk.injEq] at h
        rw [← h.2.2]
  rwa [hline]

/-- What every call does. -/
theorem step_sessions {d d' : Device room} {call : ApiCall room} (h : d.step e call = some d') :
    ∃ ks, Sessions ks d.line d'.line := by
  cases call with
  | callRoutine routine pParm8 pParm32 packet x =>
      simp only [Device.step, Option.bind_eq_bind, Option.bind_eq_some_iff] at h
      obtain ⟨⟨r, line⟩, hcall, h⟩ := h
      obtain ⟨k, hk⟩ := (callRoutine_cases hcall).1
      simp only [Option.pure_def, Option.some.injEq] at h
      subst h
      exact ⟨_, hk⟩
  | portInfo port packet x y portInfo =>
      simp only [Device.step, Option.bind_eq_bind, Option.bind_eq_some_iff] at h
      obtain ⟨⟨r, portInfo', d₁⟩, hcall, h⟩ := h
      simp only [Option.pure_def, Option.some.injEq] at h
      exact h ▸ getPoePortInfo_sessions hcall
  | systemInfo packet x y =>
      simp only [Device.step, Option.bind_eq_bind, Option.bind_eq_some_iff] at h
      obtain ⟨⟨r, systemInfo, d₁⟩, hcall, h⟩ := h
      simp only [Option.pure_def, Option.some.injEq] at h
      exact h ▸ getPoeSystemInfo_sessions hcall

/-- What every run does. -/
theorem run_sessions {calls : List (ApiCall room)} {d d' : Device room}
    (h : calls.foldlM (Device.step e) d = some d') : ∃ ks, Sessions ks d.line d'.line := by
  induction calls generalizing d with
  | nil =>
      obtain rfl : d = d' := Option.some.inj h
      exact ⟨[], Sessions.nil d.line⟩
  | cons call calls ih =>
      rw [List.foldlM_cons] at h
      obtain ⟨d₁, hstep, hrun⟩ := Option.bind_eq_some_iff.mp h
      obtain ⟨ks, hks⟩ := step_sessions hstep
      obtain ⟨js, hjs⟩ := ih hrun
      exact ⟨ks ++ js, hks.trans hjs⟩

/-! ## Every call returns -/

/-- A response does not leave a packet that is followed by enough memory. -/
theorem exists_receiveResponse (hm : 258 ≤ m) (calls : List SerialCall) (packet : Block m)
    (line : Line) :
    ∃ r packet' line', receiveResponse calls packet line = some (r, packet', line') := by
  have hlong : ¬ Overlong m line.stream := by
    intro h
    obtain ⟨u, routine, dataLength, rest, -, -, hle, hlt, -⟩ := h
    omega
  obtain ⟨⟨r, p⟩, hp⟩ := Option.isSome_iff_exists.mp
    (isSome_receivePacket (by omega) hlong calls packet line.trace)
  refine ⟨r, p.packet, ⟨p.stream, p.trace⟩, ?_⟩
  rw [receiveResponse, bind_of_eq hp]
  rfl

theorem exists_sendRequest (hn : 9 ≤ n) (routine : Byte) (pParm8 : Option Byte)
    (pParm32 : Option (BitVec 32)) (packet : Block n) (x : Exchange) (line : Line) :
    ∃ r packet' line', sendRequest e routine pParm8 pParm32 packet x line =
      some (r, packet', line') := by
  obtain ⟨packet', h⟩ := @sendRequest_eq _ e hn routine pParm8 pParm32 packet x line
  exact ⟨_, packet', _, h⟩

theorem exists_callRoutine (hroom : 249 ≤ room) (routine : Byte) (pParm8 : Option Byte)
    (pParm32 : Option (BitVec 32)) (packet : Block (PacketType.parms.size + room)) (x : Exchange)
    (line : Line) :
    ∃ r line', callRoutine e routine pParm8 pParm32 packet x line = some (r, line') := by
  have hsize : PacketType.parms.size = 9 := rfl
  obtain ⟨r₁, packet₁, line₁, h₁⟩ := @exists_sendRequest _ e
    (show 9 ≤ PacketType.parms.size + room by omega) routine pParm8 pParm32 packet x line
  rw [callRoutine, bind_of_eq h₁]
  simp only []
  split
  · exact ⟨_, _, rfl⟩
  · obtain ⟨r₂, packet₂, line₂, h₂⟩ := exists_receiveResponse
      (show 258 ≤ PacketType.parms.size + room by omega) x.calls packet₁ line₁
    rw [bind_of_eq h₂]
    simp only []
    split_ifs <;> exact ⟨_, _, rfl⟩

theorem exists_exchangeTwice (hn : 9 ≤ n) (hm : 258 ≤ m) (routine : Byte) (pParm8 : Option Byte)
    (packet : Block n) (response : Block m) (x y : Exchange) (s : Statistics) (line : Line) :
    ∃ outcome response' s' line', exchangeTwice e routine pParm8 packet response x y s line =
      some (outcome, response', s', line') := by
  obtain ⟨r₁, packet₁, line₁, h₁⟩ := @exists_sendRequest _ e hn routine pParm8 none packet x line
  rw [exchangeTwice, bind_of_eq h₁]
  simp only []
  split
  · exact ⟨_, _, _, _, rfl⟩
  obtain ⟨r₂, response₂, line₂, h₂⟩ := exists_receiveResponse hm x.calls response line₁
  rw [bind_of_eq h₂]
  simp only []
  split
  · exact ⟨_, _, _, _, rfl⟩
  obtain ⟨r₃, packet₃, line₃, h₃⟩ := @exists_sendRequest _ e hn routine pParm8 none packet₁ y line₂
  rw [bind_of_eq h₃]
  simp only []
  split
  · exact ⟨_, _, _, _, rfl⟩
  obtain ⟨r₄, response₄, line₄, h₄⟩ := exists_receiveResponse hm y.calls response₂ line₃
  rw [bind_of_eq h₄]
  simp only []
  split <;> exact ⟨_, _, _, _, rfl⟩

/-- Every call returns if the packets are followed by enough memory for any response. -/
theorem exists_step (hroom : 249 ≤ room) (d : Device room) (call : ApiCall room) :
    ∃ d', d.step e call = some d' := by
  have hparms : PacketType.parms.size = 9 := rfl
  have hportinfo : PacketType.portinfo.size = 21 := rfl
  have hsysinfo : PacketType.sysinfo.size = 20 := rfl
  cases call with
  | callRoutine routine pParm8 pParm32 packet x =>
      obtain ⟨r, line, h⟩ := @exists_callRoutine _ e hroom routine pParm8 pParm32 packet x d.line
      rw [Device.step, bind_of_eq h]
      exact ⟨_, rfl⟩
  | portInfo port packet x y portInfo =>
      obtain ⟨outcome, response, s, line, h⟩ := @exists_exchangeTwice
        (PacketType.portinfo.size + room) (PacketType.parms.size + room) e (by omega) (by omega)
        RTN_GETPORTINFO (some port) packet d.portInfoPacket x y d.statistics d.line
      rw [Device.step, getPoePortInfo, bind_of_eq h]
      cases outcome with
      | error code => exact ⟨_, rfl⟩
      | ok result =>
          simp only []
          split_ifs <;> exact ⟨_, rfl⟩
  | systemInfo packet x y =>
      obtain ⟨sysInfoPacket₁, h₁, -⟩ := Block.copy_of_le (b := d.sysInfoPacket)
        (show 3 + [(63 : Byte), 0].length ≤ PacketType.sysinfo.size + room by simp; omega)
      obtain ⟨sysInfoPacket₂, h₂, -⟩ := Block.copy_of_le (b := sysInfoPacket₁)
        (show 11 + [(63 : Byte), 0].length ≤ PacketType.sysinfo.size + room by simp; omega)
      obtain ⟨outcome, response, s, line, h⟩ := @exists_exchangeTwice
        (PacketType.sysinfo.size + room) (PacketType.parms.size + room) e (by omega) (by omega)
        RTN_GETSYSTEMINFO none packet sysInfoPacket₂ x y d.statistics d.line
      rw [Device.step, getPoeSystemInfo, bind_of_eq h₁, bind_of_eq h₂, bind_of_eq h]
      cases outcome with
      | error code => exact ⟨_, rfl⟩
      | ok result => exact ⟨_, rfl⟩

theorem exists_run (hroom : 249 ≤ room) (calls : List (ApiCall room)) (d : Device room) :
    ∃ d', calls.foldlM (Device.step e) d = some d' := by
  induction calls generalizing d with
  | nil => exact ⟨d, rfl⟩
  | cons call calls ih =>
      obtain ⟨d₁, h⟩ := @exists_step _ e hroom d call
      rw [List.foldlM_cons, bind_of_eq h]
      exact ih d₁

/-! ## Main result -/

/-- In every run of calls the semaphore is taken when a packet is sent, held until the response
has come or failed, released once for each packet, and free when a call has returned. A run
returns unless a response leaves its packet and what follows it. -/
theorem serial_semaphore_balanced (e : Endian) (calls : List (ApiCall room)) (d : Device room) :
    (249 ≤ room → ∃ d', calls.foldlM (Device.step e) d = some d') ∧
      ∀ d', calls.foldlM (Device.step e) d = some d' →
        ∃ ks : List ℕ, d'.line.trace = (ks.flatMap session).reverse ++ d.line.trace ∧
          Balanced 1 (ks.flatMap session) := by
  constructor
  · intro hroom
    exact exists_run hroom calls d
  · intro d' h
    obtain ⟨ks, hks⟩ := run_sessions h
    exact ⟨ks, hks, balanced_sessions ks⟩

end BcmUtils.Serial
