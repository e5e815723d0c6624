import BcmUtils.Foundation.Machine
import BcmUtils.Verification.PowerManager.Getters

/-! # Answers that come too late

The power manager answers every request that it gets, in order, and an answer that has not been
received in time stays on the line. A response names its routine, but not the port that was asked
for. -/

namespace BcmUtils.Serial

open CLib

variable {room : ℕ} {e : Endian}

/-! ## Queries -/

/-- The response of the power manager. -/
def response (routine parm8 : Byte) (parm32 : BitVec 32) : List Byte :=
  let bs := routine :: 5 :: parm8 :: bytesOf .big parm32
  SOP :: (bs ++ [~~~(bs.foldl (· + ·) 0) + 1])

/-- A query of a getter, with what the power manager answers to it, or any other call. -/
inductive PoeQuery (room : ℕ)
  | get (g : Getter) (stack : Stack room) (out : BitVec g.width) (written : ℤ)
      (calls : List SerialCall) (parm8 : Byte) (parm32 : BitVec 32)
  | other (call : ApiCall room)

/-- The exchange of a query. The power manager answers once it has got the whole request. -/
def exchange (g : Getter) (stack : Stack room) (written : ℤ) (calls : List SerialCall)
    (parm8 : Byte) (parm32 : BitVec 32) : Exchange where
  written := written
  answer := if written = 9 then response (g.parms stack).1 parm8 parm32 else []
  calls := calls

/-- One query, from start to return. -/
def Device.query (e : Endian) (d : Device room) : PoeQuery room → Option (Device room)
  | .get g stack out written calls parm8 parm32 => do
      let (_, _, line) ← g.run e stack (exchange g stack written calls parm8 parm32) out d.line
      return { d with line }
  | .other call => d.step e call

/-- A getter that returns `SUCCESS` has stored the answer to its own request. The result of
`get_poe_port_count` does not tell whether it has got an answer. -/
def OwnAnswer (e : Endian) (d : Device room) : PoeQuery room → Prop
  | .get g stack out written calls parm8 parm32 =>
      g ≠ .portCount → ∀ out' line',
        g.run e stack (exchange g stack written calls parm8 parm32) out d.line =
          some (SUCCESS, out', line') → out' = g.stored parm8 parm32
  | .other _ => True

/-- Among the bytes that are on the line already, the start of a packet is found; this packet is
a response to the routine, arrives in time, and holds something else than the answer. -/
def LateAnswer (e : Endian) (d : Device room) : PoeQuery room → Prop
  | .get g stack _ written calls parm8 parm32 =>
      g ≠ .portCount ∧ ∃ request line₁ u bs rest,
        sendRequest e (g.parms stack).1 (g.parms stack).2.1 (g.parms stack).2.2 stack.packet
          (exchange g stack written calls parm8 parm32) d.line = some (SUCCESS, request, line₁) ∧
        Answered room (g.parms stack).1 (exchange g stack written calls parm8 parm32) d.line.stream
          u bs rest ∧
        u.length < d.line.stream.length ∧
        g.stored (parm8Of request bs) (parm32Of request bs) ≠ g.stored parm8 parm32
  | .other _ => False

/-! ## One query -/

variable {stack : Stack room}

theorem exists_call_of_run (g : Getter) {x : Exchange} {line line' : Line} {ret : ℤ}
    {out out' : BitVec g.width} (h : g.run e stack x out line = some (ret, out', line')) :
    ∃ r line₁, g.call e stack x line = some (r, line₁) := by
  have hbind : ∃ f, g.run e stack x out line = g.call e stack x line >>= f := by
    cases g <;> exact ⟨_, rfl⟩
  obtain ⟨f, hf⟩ := hbind
  rw [hf] at h
  obtain ⟨⟨r, line₁⟩, hcall, -⟩ := Option.bind_eq_some_iff.mp h
  exact ⟨r, line₁, hcall⟩

/-- A getter that reports success has got an answer. -/
theorem success_of_run (g : Getter) (hg : g ≠ .portCount) {x : Exchange} {line line₁ line' : Line}
    {r : RoutineResult} {out out' : BitVec g.width}
    (hcall : g.call e stack x line = some (r, line₁))
    (hrun : g.run e stack x out line = some (SUCCESS, out', line')) : r.ret = SUCCESS := by
  by_contra hret
  obtain ⟨code, hrun', hcode⟩ := run_of_failure g hcall hret out
  rw [hrun, Option.some.injEq, Prod.mk.injEq] at hrun'
  exact hcode.mpr hg hrun'.1.symm

theorem parm32Of_eq {n : ℕ} (request : Block n) (b₀ b₁ b₂ : Byte) {word : List Byte}
    (hword : word.length = 4) (tl : List Byte) :
    parm32Of request (b₀ :: b₁ :: b₂ :: (word ++ tl)) = wordOf .big word := by
  rw [parm32Of, List.cons_append, List.cons_append, List.cons_append, List.drop_succ_cons,
    List.drop_succ_cons, List.drop_succ_cons, List.drop_zero, List.append_assoc,
    List.take_left' hword]

/-- The data of the own answer. -/
theorem own_of_answered {routine parm8 : Byte} {parm32 : BitVec 32} {x : Exchange}
    {pending u bs rest : List Byte} (hx : x.answer = response routine parm8 parm32)
    (h : Answered room routine x pending u bs rest) (hlt : ¬ u.length < pending.length)
    (request : Block (PacketType.parms.size + room)) :
    parm8Of request bs = parm8 ∧ parm32Of request bs = parm32 := by
  have hstream := h.stream
  rw [hx, response] at hstream
  generalize ~~~((routine :: 5 :: parm8 :: bytesOf .big parm32).foldl (· + ·) 0) + 1 = chk
    at hstream
  obtain ⟨-, hbody⟩ := eq_of_not_pending h.clean hstream hlt
  have hlength := h.length
  obtain ⟨b₀, b₁, tl, rfl⟩ : ∃ b₀ b₁ tl, bs = b₀ :: b₁ :: tl := by
    rcases bs with _ | ⟨b₀, _ | ⟨b₁, tl⟩⟩
    · simp at hlength
    · simp at hlength
    · exact ⟨b₀, b₁, tl, rfl⟩
  simp only [List.cons_append, List.cons.injEq] at hbody
  obtain ⟨rfl, rfl, htl⟩ := hbody
  have hfive : (5 : Byte).toNat = 5 := rfl
  simp only [List.length_cons, List.getD_cons_succ, List.getD_cons_zero, hfive] at hlength
  -- the response has been taken whole
  have hsize : (parm8 :: (bytesOf .big parm32 ++ [chk])).length = tl.length := by
    simp only [List.length_cons, List.length_append, length_bytesOf, List.length_nil]
    omega
  obtain ⟨rfl, -⟩ := List.append_inj ((List.append_nil _).trans htl) hsize
  exact ⟨rfl, by rw [parm32Of_eq request _ _ _ (length_bytesOf _ _), wordOf_bytesOf]⟩

/-- A query gets its own answer unless it gets a late one. -/
theorem ownAnswer_iff (e : Endian) (d : Device room) (q : PoeQuery room) :
    OwnAnswer e d q ↔ ¬ LateAnswer e d q := by
  cases q with
  | other call => exact iff_of_true trivial not_false
  | get g stack out written calls parm8 parm32 =>
      constructor
      · rintro hown ⟨hg, request, line₁, u, bs, rest, hsend, hanswered, -, hne⟩
        obtain ⟨line', hcall, -⟩ := callRoutine_of_answered hsend hanswered
        exact hne (hown hg _ _ (run_of_answer g hcall out))
      · intro hlate hg out' line' hrun
        obtain ⟨r, line₁, hcall⟩ := exists_call_of_run g hrun
        have hret := success_of_run g hg hcall hrun
        rcases (callRoutine_cases hcall).2 with
          ⟨code, hcode, rfl⟩ | ⟨request, line₂, u, bs, hsend, hanswered, rfl⟩
        · exact absurd hret hcode.ne_success
        · rw [run_of_answer g hcall out, Option.some.injEq, Prod.mk.injEq, Prod.mk.injEq] at hrun
          rw [← hrun.2.1]
          by_cases hlt : u.length < d.line.stream.length
          · by_contra hne
            exact hlate ⟨hg, request, line₂, u, bs, _, hsend, hanswered, hlt, hne⟩
          · have hx : (exchange g stack written calls parm8 parm32).answer =
                response (g.parms stack).1 parm8 parm32 := if_pos hanswered.written
            obtain ⟨h8, h32⟩ := own_of_answered hx hanswered hlt request
            rw [h8, h32]

/-! ## Runs -/

/-- In a run every query gets its own answer exactly if at no query the bytes that are on the
line already bring a late one in time. -/
theorem poe_answers_own_iff (e : Endian) (d : Device room) (queries : List (PoeQuery room)) :
    Guarded (Device.query e) (OwnAnswer e) d queries ↔
      Guarded (Device.query e) (fun d q => ¬ LateAnswer e d q) d queries :=
  guarded_congr (ownAnswer_iff e) d queries

/-- The power consumption of port 1 is asked for, the time for the answer 100 runs out, and the
next query, for the power consumption of port 2, gets this answer instead of 200. -/
theorem late_answer_stored :
    (∃ line₁ line₂,
      (Getter.portPowerConsumed 1).run .little (⟨Block.zeroed _, 0, 0⟩ : Stack 0)
        ⟨9, [SOP, 10, 5, 1, 0, 0, 0, 100, 140], [⟨some 0, 1001⟩]⟩ 0 ⟨[], []⟩ =
          some (ERROR_RESOURCE_NOT_FND, 0, line₁) ∧
      (Getter.portPowerConsumed 2).run .little (⟨Block.zeroed _, 0, 0⟩ : Stack 0)
        ⟨9, [SOP, 10, 5, 2, 0, 0, 0, 200, 39], List.replicate 3 ⟨some 255, 0⟩⟩ 0 line₁ =
          some (SUCCESS, 100, line₂)) ∧
    ¬ Guarded (Device.query .little) (OwnAnswer .little)
      (⟨Block.zeroed _, Block.zeroed _, ⟨0, 0, 0, 0, 0⟩, ⟨[], []⟩⟩ : Device 0)
      [.get (.portPowerConsumed 1) ⟨Block.zeroed _, 0, 0⟩ 0 9 [⟨some 0, 1001⟩] 1 100,
        .get (.portPowerConsumed 2) ⟨Block.zeroed _, 0, 0⟩ 0 9 (List.replicate 3 ⟨some 255, 0⟩) 2
          200] := by
  refine ⟨⟨_, _, rfl, rfl⟩, fun h => ?_⟩
  have hlater := (h.2 _ rfl).1 (by simp) 100 _ rfl
  exact absurd hlater (by decide)

end BcmUtils.Serial
