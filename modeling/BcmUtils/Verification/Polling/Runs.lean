import BcmUtils.Verification.Polling.Rounds
import BcmUtils.Verification.PowerManager.LateAnswers

/-! # The file over a whole run

The task polls while it is not paused. What it has saved last stays in the file, whatever happens
in later rounds. -/

namespace BcmUtils.Polling

open CLib Serial

variable {b : Board} {room : ℕ} {e : Endian}

/-! ## Steps -/

/-- The flag that a signal sets. -/
def Event.flag : Event room → Option Bool
  | .pauseSig => some false
  | .continueSig => some true
  | .awake _ => none

/-- The last signal, if there is one, was to continue. -/
def resumed (os : List (Event room)) : Bool := (os.filterMap Event.flag).getLast?.getD false

/-- The task saves a round: it is not paused, all requests succeed, and the file can be opened. -/
def Saves (e : Endian) (t : Task b) (o : Event room) (file : Option (List Byte)) : Prop :=
  ∃ (r : Round room) (a : Answers b) (k : ℕ), o = .awake r ∧ t.checkPoe = true ∧
    a.Of e r t.line ∧ r.saved = some k ∧ file = some ((image e a.table).take k)

theorem step_cases {t t' : Task b} {o : Event room} (h : t.step e o = some t') (ht : t.Inv) :
    t'.Inv ∧ t'.checkPoe = o.flag.getD t.checkPoe ∧
      (Saves e t o t'.file ∨ (∀ file, ¬ Saves e t o file) ∧ t'.file = t.file) := by
  cases o with
  | pauseSig =>
      obtain rfl := Option.some.inj h
      exact ⟨ht, rfl, .inr ⟨fun file ⟨r, a, k, ho, _⟩ => (nomatch ho), rfl⟩⟩
  | continueSig =>
      obtain rfl := Option.some.inj h
      exact ⟨ht, rfl, .inr ⟨fun file ⟨r, a, k, ho, _⟩ => (nomatch ho), rfl⟩⟩
  | awake r =>
      rw [Task.step] at h
      by_cases hflag : t.checkPoe = true
      · rw [if_pos hflag] at h
        obtain ⟨hcheck, hinv, ⟨a, ha, hfile⟩ | ⟨hnone, hfile⟩⟩ := round_cases h ht
        · refine ⟨hinv, hcheck, ?_⟩
          cases hsaved : r.saved with
          | none =>
              rw [hsaved] at hfile
              refine .inr ⟨fun file hsaves => ?_, hfile⟩
              obtain ⟨r', a', k, ho, -, -, hk, -⟩ := hsaves
              obtain rfl := Event.awake.inj ho
              exact absurd (hsaved.symm.trans hk) (by simp)
          | some k =>
              rw [hsaved] at hfile
              exact .inl ⟨r, a, k, rfl, hflag, ha, hsaved, hfile⟩
        · refine ⟨hinv, hcheck, .inr ⟨fun file hsaves => ?_, hfile⟩⟩
          obtain ⟨r', a, k, ho, -, ha, -⟩ := hsaves
          obtain rfl := Event.awake.inj ho
          exact hnone a ha
      · rw [if_neg hflag] at h
        obtain rfl := Option.some.inj h
        exact ⟨ht, rfl, .inr ⟨fun file ⟨_, _, _, _, hcheck, _⟩ => hflag hcheck, rfl⟩⟩

/-! ## Runs -/

theorem checkPoe_of_run {t t' : Task b} {os : List (Event room)} (ht : t.Inv)
    (h : os.foldlM (Task.step e) t = some t') :
    t'.checkPoe = (os.filterMap Event.flag).getLast?.getD t.checkPoe := by
  induction os generalizing t with
  | nil =>
      cases h
      rfl
  | cons o os ih =>
      rw [List.foldlM_cons] at h
      obtain ⟨t₁, hstep, hrest⟩ := Option.bind_eq_some_iff.mp h
      obtain ⟨ht₁, hcheck, -⟩ := step_cases hstep ht
      rw [ih ht₁ hrest, hcheck]
      cases hflag : o.flag with
      | none => rw [List.filterMap_cons_none hflag, Option.getD_none]
      | some flag =>
          rw [List.filterMap_cons_some hflag, Option.getD_some, List.getLast?_cons]
          rfl

/-- In every run the task polls exactly if the last signal was to continue, and the file holds the
records of the last round that has been saved, all of which are answers to the requests of this one
round; if none has been saved, the file is what it was. -/
theorem power_link_status_last_round {file : Option (List Byte)} {line : Line}
    {os : List (Event room)} {t : Task b}
    (h : os.foldlM (Task.step e) (Task.start b file line) = some t) :
    t.checkPoe = resumed os ∧
    (LastWrite (Task.step e) (Saves e) (Task.start b file line) os t.file ∨
      Guarded (Task.step e) (fun t o => ∀ file, ¬ Saves e t o file) (Task.start b file line) os ∧
        t.file = file) := by
  have hstart : (Task.start b file line).Inv := rfl
  refine ⟨checkPoe_of_run hstart h, ?_⟩
  refine last_write Task.file (fun t o t' ht hstep => ?_) hstart h
  exact ⟨(step_cases hstep ht).1, (step_cases hstep ht).2.2⟩

/-- A request that is answered at once. -/
def answeredRequest (routine parm8 : Byte) (parm32 : BitVec 32) : Request 0 :=
  ⟨⟨Block.zeroed _, 0, 0⟩, 9, response routine parm8 parm32, List.replicate 3 ⟨some 255, 0⟩⟩

/-- A round in which every request is answered. -/
def answeredRound : Round 0 where
  total := answeredRequest RTN_GETTOTALPOWERCONSUMED 0 240
  powerConsumed := 0
  ports i :=
    ⟨answeredRequest RTN_GETPORTPOWERCONSUMED 1 (BitVec.ofNat 32 i),
      answeredRequest RTN_GETPORTSTATUS 1 0, 0⟩
  saved := some 136

/-- A round in which no request can be sent. -/
def silentRound : Round 0 where
  total := ⟨⟨Block.zeroed _, 0, 0⟩, 0, [], []⟩
  powerConsumed := 0
  ports _ := ⟨⟨⟨Block.zeroed _, 0, 0⟩, 0, [], []⟩, ⟨⟨Block.zeroed _, 0, 0⟩, 0, [], []⟩, 0⟩
  saved := some 136

theorem power_link_status_last_round_silent :
    ∃ t, [.awake answeredRound, .continueSig, .awake answeredRound, .awake silentRound].foldlM
        (Task.step .little) (Task.start .HGM20 none ⟨[], []⟩) = some t ∧
      LastWrite (Task.step .little) (Saves .little) (Task.start .HGM20 none ⟨[], []⟩)
        [.awake answeredRound, .continueSig, .awake answeredRound, .awake silentRound] t.file := by
  have hrun : ([.awake answeredRound, .continueSig, .awake answeredRound,
      .awake silentRound].foldlM (Task.step .little)
      (Task.start .HGM20 none ⟨[], []⟩)).bind Task.file ≠ none := by
    decide +kernel
  obtain ⟨file, hfile⟩ := Option.ne_none_iff_exists'.mp hrun
  obtain ⟨t, ht, hsaved⟩ := Option.bind_eq_some_iff.mp hfile
  refine ⟨t, ht, ?_⟩
  rcases (power_link_status_last_round ht).2 with hlast | ⟨-, hnone⟩
  · exact hlast
  · rw [hsaved] at hnone
    exact absurd hnone (by simp)

end BcmUtils.Polling
