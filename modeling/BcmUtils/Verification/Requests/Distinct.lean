import BcmUtils.Model.Requests

/-! # What the requests determine

The words of a request determine the arguments of the wrapper, except for the second block port of
`bcm_set_erps_bpdu` and the upper half of the port map of `pvlan_port_type_set`. -/

namespace BcmUtils.Requests

/-- A call of one of the wrappers, without its descriptor. -/
inductive Call
  | setErpsBpdu (mdLevel controlVlan block1 block2 primaryPort secondPort : BitVec 32)
  | setStgStp (unit stg port status : BitVec 32)
  | pvlanPortType (mode portType vlan : BitVec 32) (bmaps : BitVec 64)
  | registerWrite (reg : BitVec 32) (value : BitVec 64)
  | doubletag (port oldvid oldvidHigh newid mode : BitVec 32)
  deriving DecidableEq

/-- The request of a call. -/
def Call.request (driver : BitVec 32 → Request → ℤ) (skfd : BitVec 32) : Call → Request
  | setErpsBpdu mdLevel controlVlan block1 block2 primaryPort secondPort =>
      (bcmSetErpsBpdu driver skfd mdLevel controlVlan block1 block2 primaryPort secondPort).2
  | setStgStp unit stg port status => (bcmSetStgStp driver skfd unit stg port status).2
  | pvlanPortType mode portType vlan bmaps =>
      (pvlanPortTypeSet driver skfd mode portType vlan bmaps).2
  | registerWrite reg value => (bcmRegisterWrite driver skfd reg value).2
  | doubletag port oldvid oldvidHigh newid mode =>
      (bcmPortDoubletagSet driver skfd port oldvid oldvidHigh newid mode).2

/-- Two calls of a wrapper that differ only in what it does not send. -/
inductive Lost : Call → Call → Prop
  | block2 {mdLevel controlVlan block1 primaryPort secondPort x y : BitVec 32} (h : x ≠ y) :
      Lost (.setErpsBpdu mdLevel controlVlan block1 x primaryPort secondPort)
        (.setErpsBpdu mdLevel controlVlan block1 y primaryPort secondPort)
  | bmaps {mode portType vlan : BitVec 32} {x y : BitVec 64} (h : x ≠ y)
      (hlow : x.setWidth 32 = y.setWidth 32) :
      Lost (.pvlanPortType mode portType vlan x) (.pvlanPortType mode portType vlan y)

theorem dataOf_inj {as bs : List (BitVec 32)} (hlen : as.length = bs.length)
    (hle : as.length ≤ 8) : dataOf as = dataOf bs ↔ as = bs := by
  constructor
  · intro h
    apply List.ext_getElem hlen
    intro i hi hi'
    have hword := congrFun h ⟨i, by omega⟩
    simpa [dataOf, List.getD_eq_getElem?_getD, hi, hi'] using hword
  · rintro rfl
    rfl

/-- The two words of a register determine its value. -/
theorem register_words_inj {x y : BitVec 64} (hhigh : (x >>> 32).setWidth 32 =
    (y >>> 32).setWidth 32) (hlow : (x &&& 0xffffffff).setWidth 32 =
    (y &&& 0xffffffff).setWidth 32) : x = y := by
  ext i hi
  by_cases hi32 : i < 32
  · have hbit := congrArg (fun w => w.getLsbD i) hlow
    have hmask : (0xffffffff : BitVec 64).getLsbD i = true := by
      have hall : ∀ k < 32, (0xffffffff : BitVec 64).getLsbD k = true := by decide
      exact hall i hi32
    simp only [BitVec.getLsbD_setWidth, BitVec.getLsbD_and, hi32, hmask, decide_true,
      Bool.true_and, Bool.and_true] at hbit
    rwa [BitVec.getLsbD_eq_getElem hi, BitVec.getLsbD_eq_getElem hi] at hbit
  · have hbit := congrArg (fun w => w.getLsbD (i - 32)) hhigh
    have hpos : 32 + (i - 32) = i := by omega
    simpa [BitVec.getLsbD_setWidth, hpos, (by omega : i - 32 < 32),
      BitVec.getLsbD_eq_getElem hi] using hbit

namespace Call

/-- The code of a call. -/
def code : Call → ℕ
  | setErpsBpdu .. => ERPS_BPDU_LEVEL_SET
  | setStgStp .. => ERPS_STG_STATE_SET
  | pvlanPortType .. => PVLAN_PORT_SET
  | registerWrite .. => BCM_REGISTER_WRITE
  | doubletag .. => VLAN_DTAG_SET

/-- The words that a call sets. -/
def words : Call → List (BitVec 32)
  | setErpsBpdu mdLevel controlVlan block1 _ primaryPort secondPort =>
      [mdLevel, block1, block1, controlVlan, primaryPort, secondPort]
  | setStgStp unit stg port status => [unit, port, status, stg]
  | pvlanPortType mode portType vlan bmaps => [vlan, mode, bmaps.setWidth 32, portType]
  | registerWrite reg value =>
      [reg, (value >>> 32).setWidth 32, (value &&& 0xffffffff).setWidth 32]
  | doubletag port oldvid oldvidHigh newid mode => [port, oldvid, oldvidHigh, newid, mode]

theorem request_eq (driver : BitVec 32 → Request → ℤ) (skfd : BitVec 32) (c : Call) :
    c.request driver skfd = { code := c.code, data := dataOf c.words } := by
  cases c <;> rfl

theorem length_words_le (c : Call) : c.words.length ≤ 8 := by
  cases c <;> simp [words]

/-- Calls of different wrappers have different codes. -/
theorem length_words_eq {c d : Call} (h : c.code = d.code) : c.words.length = d.words.length := by
  cases c <;> cases d <;> simp only [code] at h <;> first | rfl | exact absurd h (by decide)

end Call

section

variable (driver driver' : BitVec 32 → Request → ℤ) (skfd skfd' : BitVec 32)

theorem request_eq_iff (c d : Call) : c.request driver skfd = d.request driver' skfd' ↔
    c.code = d.code ∧ c.words = d.words := by
  rw [Call.request_eq, Call.request_eq, Request.mk.injEq]
  constructor
  · intro h
    exact ⟨h.1, (dataOf_inj (Call.length_words_eq h.1) c.length_words_le).mp h.2⟩
  · intro h
    exact ⟨h.1, by rw [h.2]⟩

/-- Equal words belong to equal calls or to calls that differ in what is not sent. -/
theorem eq_or_lost_of_words {c d : Call} (hcode : c.code = d.code) (h : c.words = d.words) :
    c = d ∨ Lost c d := by
  cases c with
  | setErpsBpdu mdLevel controlVlan block1 block2 primaryPort secondPort =>
      cases d with
      | setErpsBpdu mdLevel' controlVlan' block1' block2' primaryPort' secondPort' =>
          simp only [Call.words, List.cons.injEq, and_true] at h
          obtain ⟨rfl, rfl, -, rfl, rfl, rfl⟩ := h
          by_cases hblock : block2 = block2'
          · exact Or.inl (by rw [hblock])
          · exact Or.inr (.block2 hblock)
      | _ =>
          simp only [Call.code] at hcode
          exact absurd hcode (by decide)
  | setStgStp unit stg port status =>
      cases d with
      | setStgStp unit' stg' port' status' =>
          simp only [Call.words, List.cons.injEq, and_true] at h
          obtain ⟨rfl, rfl, rfl, rfl⟩ := h
          exact Or.inl rfl
      | _ =>
          simp only [Call.code] at hcode
          exact absurd hcode (by decide)
  | pvlanPortType mode portType vlan bmaps =>
      cases d with
      | pvlanPortType mode' portType' vlan' bmaps' =>
          simp only [Call.words, List.cons.injEq, and_true] at h
          obtain ⟨rfl, rfl, hlow, rfl⟩ := h
          by_cases hmaps : bmaps = bmaps'
          · exact Or.inl (by rw [hmaps])
          · exact Or.inr (.bmaps hmaps hlow)
      | _ =>
          simp only [Call.code] at hcode
          exact absurd hcode (by decide)
  | registerWrite reg value =>
      cases d with
      | registerWrite reg' value' =>
          simp only [Call.words, List.cons.injEq, and_true] at h
          obtain ⟨rfl, hhigh, hlow⟩ := h
          exact Or.inl (by rw [register_words_inj hhigh hlow])
      | _ =>
          simp only [Call.code] at hcode
          exact absurd hcode (by decide)
  | doubletag port oldvid oldvidHigh newid mode =>
      cases d with
      | doubletag port' oldvid' oldvidHigh' newid' mode' =>
          simp only [Call.words, List.cons.injEq, and_true] at h
          obtain ⟨rfl, rfl, rfl, rfl, rfl⟩ := h
          exact Or.inl rfl
      | _ =>
          simp only [Call.code] at hcode
          exact absurd hcode (by decide)

/-- Two calls that differ have different requests exactly if they do not only differ in the second
block port of `bcm_set_erps_bpdu` or in the upper half of the map of `pvlan_port_type_set`. -/
theorem requests_differ_iff (c d : Call) :
    (c ≠ d → c.request driver skfd ≠ d.request driver' skfd') ↔ ¬ Lost c d := by
  rw [Ne, Ne, request_eq_iff]
  constructor
  · intro h hlost
    cases hlost with
    | block2 hne => exact h (by simpa using hne) ⟨rfl, rfl⟩
    | bmaps hne hlow => exact h (by simpa using hne) ⟨rfl, by simp only [Call.words, hlow]⟩
  · intro hlost hne heq
    cases eq_or_lost_of_words heq.1 heq.2 with
    | inl heq => exact hne heq
    | inr h => exact hlost h

end

/-- The second block port is not sent. -/
theorem requests_equal_block2 :
    ¬ ∀ (driver : BitVec 32 → Request → ℤ) (skfd : BitVec 32) (c d : Call), c ≠ d →
      c.request driver skfd ≠ d.request driver skfd := by
  intro h
  exact h (fun _ _ => 0) 0 (.setErpsBpdu 1 100 1 2 1 2) (.setErpsBpdu 1 100 1 3 1 2) (by decide) rfl

end BcmUtils.Requests
