import BcmUtils.Verification.PowerManager.Steps

/-! # What the getters make of a call

A getter is to hand over the value of the response if the call has succeeded, and an error
code otherwise. -/

namespace BcmUtils.Serial

open CLib

variable {room : ℕ} {e : Endian} {stack : Stack room}

/-- The call that a getter makes: the routine, and what its two pointers point at. -/
def Getter.parms (stack : Stack room) : Getter → Byte × Option Byte × Option (BitVec 32)
  | .systemStatus => (RTN_GETSYSTEMSTATUS, some 0xFC, none)
  | .totalPowerConsumed => (RTN_GETTOTALPOWERCONSUMED, none, some stack.parm32)
  | .totalPowerGranted => (RTN_GETTOTALPOWERGRANTED, none, some stack.parm32)
  | .totalPowerProvided => (RTN_GETTOTALPOWERPROVIDED, none, some stack.parm32)
  | .portCount => (RTN_GETPORTCOUNT, some stack.parm8, none)
  | .portStatus port => (RTN_GETPORTSTATUS, some port, none)
  | .portPriorityStatus port => (RTN_GETPORTPRIORITYSTATUS, some port, none)
  | .portPowerConsumed port => (RTN_GETPORTPOWERCONSUMED, some port, some stack.parm32)
  | .portPowerGranted port => (RTN_GETPORTPOWERGRANTED, some port, some stack.parm32)
  | .portPowerRequested port => (RTN_GETPORTPOWERREQUESTED, some port, some stack.parm32)
  | .portPowerAvailable port => (RTN_GETPORTPOWERAVAILABLE, some port, some stack.parm32)
  | .powerProvided powerSupply => (RTN_GETPOWERPROVIDED, some powerSupply, some stack.parm32)
  | .reservedPower => (RTN_GETRESERVEDPOWER, some stack.parm8, none)
  | .overloadLimit => (RTN_GETOVERLOADLIMIT, some stack.parm8, none)
  | .grantingPolicy => (RTN_GETGRANTINGPOLICY, some stack.parm8, none)
  | .retryPolicy => (RTN_GETRETRYPOLICY, some stack.parm8, none)
  | .powerLocation => (RTN_GETPOWERLOCATION, some stack.parm8, none)
  | .portEnable port => (RTN_GETPORTENABLE, some port, none)
  | .portCapability port => (RTN_GETPORTCAPABILITY, some port, none)
  | .portPriority port => (RTN_GETPORTPRIORITY, some port, none)
  | .portPowerLimit port => (RTN_GETPORTPOWERLIMIT, some port, some stack.parm32)
  | .powerSupplyStatus powerSupply => (RTN_GETPOWERSUPPLYSTATUS, some powerSupply, none)

/-- The call of `CallRoutine` that a getter makes. -/
def Getter.call (e : Endian) (stack : Stack room) (g : Getter) (x : Exchange) (line : Line) :
    Option (RoutineResult × Line) :=
  callRoutine e (g.parms stack).1 (g.parms stack).2.1 (g.parms stack).2.2 stack.packet x line

/-! ## The value of a response -/

/-- The data of a packet, between its length and its checksum. -/
def dataOf (bs : List Byte) : List Byte := (bs.drop 2).take (bs.getD 1 0).toNat

/-- `Parm8` of a packet, unless its data are too short. -/
def replyParm8 (bs : List Byte) : Option Byte := (dataOf bs).head?

/-- `Parm32` of a packet, unless its data are too short. -/
def replyParm32 (bs : List Byte) : Option (BitVec 32) :=
  if 5 ≤ (dataOf bs).length then some (wordOf .big (((dataOf bs).drop 1).take 4)) else none

/-- The whole value of a packet for a getter, as a signed number: the word if the getter passes a
pointer to a word, the byte otherwise. -/
def Getter.value (stack : Stack room) (g : Getter) (bs : List Byte) : Option ℤ :=
  match (g.parms stack).2.2 with
  | some _ => (replyParm32 bs).map fun parm32 => parm32.toInt
  | none => (replyParm8 bs).map fun parm8 => parm8.toBitVec.toInt

/-- The call of a getter has received the packet `bs`. -/
def Getter.Receives (stack : Stack room) (g : Getter) (x : Exchange) (line line' : Line)
    (bs : List Byte) : Prop :=
  ∃ u, Answered room (g.parms stack).1 x line.stream u bs line'.stream

theorem length_dataOf {bs : List Byte} (h : bs.length = (bs.getD 1 0).toNat + 3) :
    (dataOf bs).length = (bs.getD 1 0).toNat := by
  rw [dataOf, List.length_take, List.length_drop]
  omega

/-- The byte in the packet is that of the response if this has any data. -/
theorem replyParm8_eq {n : ℕ} {bs : List Byte} (h : bs.length = (bs.getD 1 0).toNat + 3)
    (request : Block n) :
    replyParm8 bs = if 1 ≤ (bs.getD 1 0).toNat then some (parm8Of request bs) else none := by
  obtain ⟨b₀, b₁, b₂, tl, rfl⟩ : ∃ b₀ b₁ b₂ tl, bs = b₀ :: b₁ :: b₂ :: tl := by
    rcases bs with _ | ⟨b₀, _ | ⟨b₁, _ | ⟨b₂, tl⟩⟩⟩
    · simp at h
    · simp at h
    · simp only [List.length_cons, List.length_nil] at h
      omega
    · exact ⟨b₀, b₁, b₂, tl, rfl⟩
  rw [replyParm8, dataOf, List.getD_cons_succ, List.getD_cons_zero, List.drop_succ_cons,
    List.drop_succ_cons, List.drop_zero]
  cases hlen : b₁.toNat with
  | zero => rfl
  | succ n =>
      rw [if_pos (by omega)]
      rfl

/-- The word in the packet is that of the response if this has five bytes of data. -/
theorem replyParm32_eq {n : ℕ} {bs : List Byte} (h : bs.length = (bs.getD 1 0).toNat + 3)
    (request : Block n) :
    replyParm32 bs = if 5 ≤ (bs.getD 1 0).toNat then some (parm32Of request bs) else none := by
  rw [replyParm32, length_dataOf h]
  split
  · have hdrop : ((bs ++ request.1.drop (bs.length + 1)).drop 3).take 4 = (bs.drop 3).take 4 := by
      rw [List.drop_append_of_le_length (by omega),
        List.take_append_of_le_length (by rw [List.length_drop]; omega)]
    rw [parm32Of, hdrop, dataOf, List.drop_take, List.drop_drop, List.take_take,
      Nat.min_eq_left (by omega)]
  · rfl

/-- A packet that does not start in the pending bytes is the one behind them. -/
theorem eq_of_not_pending {pending body u tl : List Byte} (hu : SOP ∉ u)
    (h : pending ++ SOP :: body = u ++ SOP :: tl) (hlt : ¬ u.length < pending.length) :
    u = pending ∧ body = tl := by
  rcases List.append_eq_append_iff.mp h with ⟨mid, rfl, hmid⟩ | ⟨mid, rfl, hmid⟩
  · cases mid with
    | nil => exact ⟨List.append_nil _, (List.cons.inj hmid).2⟩
    | cons b mid =>
        obtain ⟨rfl, -⟩ := List.cons.inj hmid
        simp at hu
  · cases mid with
    | nil => exact ⟨(List.append_nil _).symm, ((List.cons.inj hmid).2).symm⟩
    | cons b mid => simp at hlt

/-- A response is found at one place only. -/
theorem Answered.unique {routine : Byte} {x : Exchange} {stream u u' bs bs' rest rest' : List Byte}
    (h : Answered room routine x stream u bs rest)
    (h' : Answered room routine x stream u' bs' rest') : bs = bs' := by
  have hstream := h.stream.symm.trans h'.stream
  have htl : bs ++ rest = bs' ++ rest' := by
    by_cases hlt : u'.length < u.length
    · exact ((eq_of_not_pending h.clean hstream.symm (by omega)).2).symm
    · exact (eq_of_not_pending h'.clean hstream hlt).2
  have hlength := h.length
  have hlength' := h'.length
  have hget := congrArg (fun l => l[1]?) htl
  rw [List.getElem?_append_left (by omega), List.getElem?_append_left (by omega)] at hget
  rw [List.getD_eq_getElem?_getD, hget, ← List.getD_eq_getElem?_getD] at hlength
  exact (List.append_inj htl (hlength.trans hlength'.symm)).1

/-- What is received of an idle line whose answer begins a packet. -/
theorem Getter.Receives.eq_of_start {g : Getter} {x : Exchange} {trace trace' : List SerialEvent}
    {bs tl : List Byte} (h : g.Receives stack x ⟨[], trace⟩ ⟨[], trace'⟩ bs)
    (hx : x.answer = SOP :: tl) : tl = bs := by
  obtain ⟨u, hanswered⟩ := h
  have hstream : [] ++ SOP :: tl = u ++ SOP :: (bs ++ []) := hx ▸ hanswered.stream
  rw [(eq_of_not_pending hanswered.clean hstream (by simp)).2, List.append_nil]

/-! ## What the getters return -/

/-- What a getter stores for the data of a response. -/
def Getter.stored (g : Getter) (parm8 : Byte) (parm32 : BitVec 32) : BitVec g.width :=
  match g with
  | .totalPowerConsumed | .totalPowerGranted | .totalPowerProvided | .portPowerConsumed _
  | .portPowerGranted _ | .portPowerRequested _ | .portPowerAvailable _ | .powerProvided _ => parm32
  | .portPowerLimit _ => parm32.setWidth 8
  | .systemStatus | .portCount | .portStatus _ | .portPriorityStatus _ | .reservedPower
  | .overloadLimit | .grantingPolicy | .retryPolicy | .powerLocation | .portEnable _
  | .portCapability _ | .portPriority _ | .powerSupplyStatus _ => parm8.toBitVec

theorem getter8_of_failure {routine parm8 : Byte} (onError : ℤ → ℤ) {x : Exchange}
    {line line' : Line} {r : RoutineResult}
    (h : callRoutine e routine (some parm8) none stack.packet x line = some (r, line'))
    (hret : r.ret ≠ SUCCESS) (out : BitVec 8) :
    getter8 e routine parm8 onError stack x out line = some (onError r.ret, out, line') := by
  rw [getter8, bind_of_eq h]
  exact if_pos hret

theorem getter32_of_failure {routine : Byte} {pParm8 : Option Byte} {x : Exchange}
    {line line' : Line} {r : RoutineResult}
    (h : callRoutine e routine pParm8 (some stack.parm32) stack.packet x line = some (r, line'))
    (hret : r.ret ≠ SUCCESS) (out : BitVec 32) :
    getter32 e routine pParm8 stack x out line = some (r.ret, out, line') := by
  rw [getter32, bind_of_eq h]
  exact if_pos hret

/-- A getter whose call fails stores nothing. It returns an error, except for
`get_poe_port_count`, which returns `SUCCESS`. -/
theorem run_of_failure (g : Getter) {x : Exchange} {line line' : Line} {r : RoutineResult}
    (h : g.call e stack x line = some (r, line')) (hret : r.ret ≠ SUCCESS) (out : BitVec g.width) :
    ∃ code, g.run e stack x out line = some (code, out, line') ∧
      (code ≠ SUCCESS ↔ g ≠ .portCount) := by
  cases g with
  | systemStatus =>
      exact ⟨_, getter8_of_failure (fun _ => STATUS_SYSTEM_COMM_LOST) h hret out,
        iff_of_true (by decide : STATUS_SYSTEM_COMM_LOST ≠ SUCCESS) (by simp)⟩
  | portCount =>
      exact ⟨_, getter8_of_failure (fun _ => 0) h hret out,
        iff_of_false (not_not_intro rfl) (by simp)⟩
  | portPowerLimit port =>
      exact ⟨r.ret, (bind_of_eq h _).trans (if_pos hret), iff_of_true hret (by simp)⟩
  | portStatus | portPriorityStatus | reservedPower | overloadLimit | grantingPolicy | retryPolicy
  | powerLocation | portEnable | portCapability | portPriority | powerSupplyStatus =>
      exact ⟨_, getter8_of_failure id h hret out, iff_of_true hret (by simp)⟩
  | totalPowerConsumed | totalPowerGranted | totalPowerProvided | portPowerConsumed
  | portPowerGranted | portPowerRequested | portPowerAvailable | powerProvided =>
      exact ⟨_, getter32_of_failure h hret out, iff_of_true hret (by simp)⟩

theorem run_of_answer (g : Getter) {x : Exchange} {line line' : Line}
    {request : Block (PacketType.parms.size + room)} {bs : List Byte}
    (h : g.call e stack x line =
      some (answerOf (g.parms stack).2.1 (g.parms stack).2.2 request bs, line'))
    (out : BitVec g.width) :
    g.run e stack x out line =
      some (SUCCESS, g.stored (parm8Of request bs) (parm32Of request bs), line') := by
  cases g with
  | systemStatus | portCount | portStatus | portPriorityStatus | reservedPower | overloadLimit
  | grantingPolicy | retryPolicy | powerLocation | portEnable | portCapability | portPriority
  | powerSupplyStatus => exact bind_of_eq h _
  | totalPowerConsumed | totalPowerGranted | totalPowerProvided | portPowerConsumed
  | portPowerGranted | portPowerRequested | portPowerAvailable | powerProvided =>
      exact bind_of_eq h _
  | portPowerLimit port => exact bind_of_eq h _

/-- A word is cut to its lowest byte without loss if it is the value of a signed byte. -/
theorem toInt_eq_toInt_setWidth_iff (parm32 : BitVec 32) :
    parm32.toInt = (parm32.setWidth 8).toInt ↔ -128 ≤ parm32.toInt ∧ parm32.toInt < 128 := by
  have hlt := parm32.isLt
  rw [BitVec.toInt_setWidth, BitVec.toInt_eq_toNat_bmod, Int.bmod_def, Int.bmod_def]
  omega

/-! ## Faithful getters -/

/-- A getter does with the result of its call what it is to do: it returns `SUCCESS` exactly if
the call has, and then stores the whole value of the packet received; otherwise it returns an
error and stores nothing. -/
def Getter.Faithful (e : Endian) (stack : Stack room) (g : Getter) (x : Exchange)
    (out : BitVec g.width) (line : Line) (r : RoutineResult) (line' : Line) : Prop :=
  ∃ ret out', g.run e stack x out line = some (ret, out', line') ∧
    (ret = SUCCESS ↔ r.ret = SUCCESS) ∧
    (r.ret = SUCCESS →
      ∃ bs, g.Receives stack x line line' bs ∧ g.value stack bs = some out'.toInt) ∧
    (r.ret ≠ SUCCESS → ret ≠ 0 ∧ out' = out)

/-- The bytes of data that a getter reads of a packet. -/
def Getter.needed (stack : Stack room) (g : Getter) : ℕ :=
  if (g.parms stack).2.2.isSome then 5 else 1

/-- What a getter asks of the packet that its call receives: enough data, and a power limit that
fits in a signed byte. -/
def Getter.Accepts (stack : Stack room) (g : Getter) (bs : List Byte) : Prop :=
  g.needed stack ≤ (bs.getD 1 0).toNat ∧
    ∀ port, g = .portPowerLimit port → ∀ limit ∈ g.value stack bs, -128 ≤ limit ∧ limit < 128

theorem accepts_iff {g : Getter} {m : ℕ} {bs : List Byte} (hneeded : g.needed stack = m)
    (hg : ∀ port, g ≠ .portPowerLimit port) :
    g.Accepts stack bs ↔ m ≤ (bs.getD 1 0).toNat := by
  rw [← hneeded]
  exact ⟨fun h => h.1, fun h => ⟨h, fun port hport => absurd hport (hg port)⟩⟩

/-- What a getter stores is the value of the packet received exactly if this is accepted. -/
theorem value_eq_stored_iff (g : Getter) {bs : List Byte}
    (h : bs.length = (bs.getD 1 0).toNat + 3) {n : ℕ} (request : Block n) :
    g.value stack bs = some (g.stored (parm8Of request bs) (parm32Of request bs)).toInt ↔
      g.Accepts stack bs := by
  have hbyte : (replyParm8 bs).map (fun parm8 => parm8.toBitVec.toInt) =
      some (parm8Of request bs).toBitVec.toInt ↔ 1 ≤ (bs.getD 1 0).toNat := by
    rw [replyParm8_eq h request]
    split
    · rename_i hlong
      exact iff_of_true rfl hlong
    · rename_i hshort
      exact iff_of_false (by simp) hshort
  have hword : (replyParm32 bs).map (fun parm32 => parm32.toInt) =
      some (parm32Of request bs).toInt ↔ 5 ≤ (bs.getD 1 0).toNat := by
    rw [replyParm32_eq h request]
    split
    · rename_i hlong
      exact iff_of_true rfl hlong
    · rename_i hshort
      exact iff_of_false (by simp) hshort
  cases g with
  | portPowerLimit port =>
      have hvalue : (Getter.portPowerLimit port).value stack bs =
          (replyParm32 bs).map fun parm32 => parm32.toInt := rfl
      have hneeded : (Getter.portPowerLimit port).needed stack = 5 := rfl
      have hstored : ((Getter.portPowerLimit port).stored (parm8Of request bs)
          (parm32Of request bs)).toInt = ((parm32Of request bs).setWidth 8).toInt := rfl
      rw [Getter.Accepts, hneeded, hvalue, hstored]
      by_cases hlong : 5 ≤ (bs.getD 1 0).toNat
      · rw [hword.mpr hlong, Option.some.injEq, toInt_eq_toInt_setWidth_iff]
        simp only [hlong, true_and, Getter.portPowerLimit.injEq, forall_eq', Option.mem_def,
          Option.some.injEq]
      · rw [replyParm32_eq h request, if_neg hlong]
        exact iff_of_false (by simp) fun haccepts => hlong haccepts.1
  | systemStatus | portCount | portStatus | portPriorityStatus | reservedPower | overloadLimit
  | grantingPolicy | retryPolicy | powerLocation | portEnable | portCapability | portPriority
  | powerSupplyStatus =>
      rw [accepts_iff (m := 1) rfl (by simp)]
      exact hbyte
  | totalPowerConsumed | totalPowerGranted | totalPowerProvided | portPowerConsumed
  | portPowerGranted | portPowerRequested | portPowerAvailable | powerProvided =>
      rw [accepts_iff (m := 5) rfl (by simp)]
      exact hword

/-- A successful call has received exactly one packet. -/
theorem existsUnique_receives {g : Getter} {x : Exchange} {line line' : Line} {r : RoutineResult}
    (h : g.call e stack x line = some (r, line')) (hret : r.ret = SUCCESS) :
    ∃! bs, g.Receives stack x line line' bs := by
  rcases (callRoutine_cases h).2 with ⟨code, hcode, rfl⟩ | ⟨request, line₁, u, bs, -, hanswered, -⟩
  · exact absurd hret hcode.ne_success
  · refine ⟨bs, ⟨u, hanswered⟩, ?_⟩
    rintro bs' ⟨u', hanswered'⟩
    exact hanswered'.unique hanswered

theorem faithful_of_success_iff {g : Getter} {x : Exchange} {line line' : Line} {r : RoutineResult}
    (h : g.call e stack x line = some (r, line')) (hret : r.ret = SUCCESS)
    (out : BitVec g.width) :
    g.Faithful e stack x out line r line' ↔
      ∃ bs, g.Receives stack x line line' bs ∧ g.Accepts stack bs := by
  obtain ⟨_, -, honly⟩ := existsUnique_receives h hret
  rcases (callRoutine_cases h).2 with ⟨code, hcode, rfl⟩ | ⟨request, line₁, u, bs, -, hanswered, rfl⟩
  · exact absurd hret hcode.ne_success
  · have hreceives : g.Receives stack x line line' bs := ⟨u, hanswered⟩
    have hrun := run_of_answer g h out
    have hvalue : g.value stack bs =
        some (g.stored (parm8Of request bs) (parm32Of request bs)).toInt ↔ g.Accepts stack bs :=
      value_eq_stored_iff g hanswered.length request
    constructor
    · rintro ⟨ret, out', hrun', -, hok, -⟩
      obtain ⟨bs', hreceives', hout⟩ := hok hret
      obtain rfl := (honly bs' hreceives').trans (honly bs hreceives).symm
      rw [hrun, Option.some.injEq, Prod.mk.injEq, Prod.mk.injEq] at hrun'
      obtain ⟨-, rfl, -⟩ := hrun'
      exact ⟨bs', hreceives, hvalue.mp hout⟩
    · rintro ⟨bs', hreceives', haccepts⟩
      obtain rfl := (honly bs' hreceives').trans (honly bs hreceives).symm
      exact ⟨SUCCESS, _, hrun, iff_of_true rfl hret, fun _ => ⟨bs', hreceives,
        hvalue.mpr haccepts⟩, fun hne => absurd hret hne⟩

theorem faithful_of_failure_iff {g : Getter} {x : Exchange} {line line' : Line} {r : RoutineResult}
    (h : g.call e stack x line = some (r, line')) (hret : r.ret ≠ SUCCESS)
    (out : BitVec g.width) : g.Faithful e stack x out line r line' ↔ g ≠ .portCount := by
  obtain ⟨code, hrun, hcode⟩ := run_of_failure g h hret out
  constructor
  · rintro ⟨ret, out', hrun', -, -, hfail⟩
    rw [hrun, Option.some.injEq, Prod.mk.injEq, Prod.mk.injEq] at hrun'
    obtain ⟨rfl, -, -⟩ := hrun'
    exact hcode.mp (hfail hret).1
  · intro hg
    have herror := hcode.mpr hg
    exact ⟨code, out, hrun, iff_of_false herror hret, fun hok => absurd hok hret,
      fun _ => ⟨herror, rfl⟩⟩

/-- The line after a call that receives a packet in three pieces. -/
def receivedLine : Line := ⟨[], [.unlock, .receive, .receive, .receive, .send, .lock]⟩

/-- The exchange in which `answer` comes at once. -/
def promptExchange (answer : List Byte) : Exchange :=
  ⟨9, answer, List.replicate 3 ⟨some 255, 0⟩⟩

end BcmUtils.Serial
