import BcmUtils.Foundation.Tokens
import BcmUtils.Model.PidSearch
import Mathlib.Data.List.TakeWhile

/-! # What `find_pid_by_name` finds

The pids of all processes with the name are added up, times ten for each further process. -/

namespace BcmUtils.PidSearch

open CLib

/-! ## One entry -/

/-- The last component of the path of the executable is the name, also when a blank and more
follows, as in `sendSig (deleted)`. -/
def HasName (procName : CStr) (d : ProcEntry) : Prop :=
  ∃ dir s, d.path = some (dir ++ chr '/' :: s) ∧ chr '/' ∉ s ∧
    (s = procName ∨ ∃ rest, s = procName ++ chr ' ' :: rest)

/-- The entry is that of a process with the name. -/
def IsMatch (procName : CStr) (d : ProcEntry) : Prop := atoi d.dName ≠ 0 ∧ HasName procName d

theorem strrchr_eq_none {c : Byte} {s : CStr} : strrchr c s = none ↔ c ∉ s := by
  induction s with
  | nil => simp [strrchr]
  | cons b s ih =>
      rw [strrchr, List.mem_cons, not_or, ← ih]
      cases strrchr c s with
      | none =>
          by_cases hb : b = c
          · simp [hb]
          · simp [hb, Ne.symm hb]
      | some q => simp

theorem strrchr_append_cons {c : Byte} {s : CStr} (h : c ∉ s) (u : CStr) :
    strrchr c (u ++ c :: s) = some (c :: s) := by
  induction u with
  | nil => simp [strrchr, strrchr_eq_none.mpr h]
  | cons b u ih => rw [List.cons_append, strrchr, ih]

theorem strrchr_eq_some {c : Byte} {s t : CStr} (h : strrchr c s = some t) :
    ∃ u v, s = u ++ c :: v ∧ c ∉ v ∧ t = c :: v := by
  induction s with
  | nil => cases h
  | cons b s ih =>
      rw [strrchr] at h
      cases hlater : strrchr c s with
      | some q =>
          rw [hlater, Option.some.injEq] at h
          subst h
          obtain ⟨u, v, rfl, hv, rfl⟩ := ih hlater
          exact ⟨b :: u, v, rfl, hv, rfl⟩
      | none =>
          simp only [hlater] at h
          split at h
          · rename_i hb
            rw [Option.some.injEq] at h
            exact ⟨[], s, by rw [hb]; rfl, strrchr_eq_none.mp hlater, by rw [← h, hb]⟩
          · cases h

/-- The text is the name, or the name goes on with a blank. -/
theorem nameMatches_iff {procName s : CStr} (hlen : procName.length ≤ s.length) :
    nameMatches procName s = true ↔ s = procName ∨ ∃ rest, s = procName ++ chr ' ' :: rest := by
  rw [nameMatches, Bool.and_eq_true, Bool.or_eq_true, decide_eq_true_eq, decide_eq_true_eq,
    decide_eq_true_eq]
  constructor
  · intro h
    obtain ⟨htake, hblank | hend⟩ := h
    · refine Or.inr ⟨s.drop (procName.length + 1), ?_⟩
      obtain ⟨hlt, hget⟩ := List.getElem?_eq_some_iff.mp hblank
      have hdrop := List.drop_eq_getElem_cons hlt
      rw [hget] at hdrop
      rw [← hdrop]
      conv_lhs => rw [← List.take_append_drop procName.length s, htake]
    · refine Or.inl ?_
      rw [← htake, ← hend, List.take_length]
  · intro h
    cases h with
    | inl h =>
        subst h
        exact ⟨List.take_length, Or.inr rfl⟩
    | inr h =>
        obtain ⟨rest, rfl⟩ := h
        simp

/-- The loop stores the pid of the processes with the name. -/
theorem procEntryPid_eq_some_iff {procName : CStr} {d : ProcEntry} {pid : ℤ} :
    procEntryPid procName d = some pid ↔ IsMatch procName d ∧ atoi d.dName = pid := by
  constructor
  · intro h
    simp only [procEntryPid, Option.bind_eq_bind] at h
    split at h
    · cases h
    · rename_i hpid
      simp only [Option.bind_eq_some_iff] at h
      obtain ⟨path, hpath, q, hq, s, hs, h⟩ := h
      obtain ⟨dir, v, rfl, hv, rfl⟩ := strrchr_eq_some hq
      rw [incr_cons, Option.some.injEq] at hs
      subst hs
      split at h
      · cases h
      · rename_i hlen
        split at h
        · rename_i hname
          have hname := (nameMatches_iff (Nat.le_of_not_lt hlen)).mp hname
          exact ⟨⟨hpid, dir, v, hpath, hv, hname⟩, Option.some.inj h⟩
        · cases h
  · intro h
    obtain ⟨⟨hpid, dir, s, hpath, hs, hname⟩, rfl⟩ := h
    have hlen : procName.length ≤ s.length := by
      cases hname with
      | inl h => exact h ▸ le_rfl
      | inr h =>
          obtain ⟨rest, rfl⟩ := h
          simp
    rw [procEntryPid, if_neg hpid, bind_of_eq hpath, bind_of_eq (strrchr_append_cons hs dir),
      bind_of_eq (incr_cons _ _), if_neg (Nat.not_lt.mpr hlen),
      if_pos ((nameMatches_iff hlen).mpr hname)]

theorem isMatch_iff_isSome {procName : CStr} {d : ProcEntry} :
    IsMatch procName d ↔ (procEntryPid procName d).isSome = true := by
  rw [Option.isSome_iff_exists]
  constructor
  · intro h
    exact ⟨atoi d.dName, procEntryPid_eq_some_iff.mpr ⟨h, rfl⟩⟩
  · intro h
    obtain ⟨pid, hpid⟩ := h
    exact (procEntryPid_eq_some_iff.mp hpid).1

instance (procName : CStr) (d : ProcEntry) : Decidable (IsMatch procName d) :=
  decidable_of_iff _ isMatch_iff_isSome.symm

/-! ## All entries -/

/-- The pids of the processes with the name, in the order of the entries. -/
def matchPids (procName : CStr) (entries : List ProcEntry) : List ℤ :=
  entries.filterMap (procEntryPid procName)

theorem mem_matchPids {procName : CStr} {entries : List ProcEntry} {pid : ℤ} :
    pid ∈ matchPids procName entries ↔
      ∃ d ∈ entries, IsMatch procName d ∧ atoi d.dName = pid := by
  simp only [matchPids, List.mem_filterMap, procEntryPid_eq_some_iff]

/-- The array holds the pids of all matches, as long as there is room. -/
theorem walkProc_eq {procName : CStr} {entries : List ProcEntry} {foundpid : List ℤ}
    (h : foundpid.length + (matchPids procName entries).length ≤ 128) :
    walkProc procName entries foundpid = some (foundpid ++ matchPids procName entries) := by
  induction entries generalizing foundpid with
  | nil => simp [walkProc, matchPids]
  | cons d ds ih =>
      rw [walkProc]
      cases hd : procEntryPid procName d with
      | none =>
          have hsame : matchPids procName (d :: ds) = matchPids procName ds :=
            List.filterMap_cons_none hd
          rw [hsame] at h ⊢
          exact ih h
      | some pid =>
          have hcons : matchPids procName (d :: ds) = pid :: matchPids procName ds :=
            List.filterMap_cons_some hd
          rw [hcons, List.length_cons] at h
          have hroom : (foundpid ++ [pid]).length + (matchPids procName ds).length ≤ 128 := by
            rw [List.length_append, List.length_singleton]
            omega
          have hrest := ih hroom
          simp only
          rw [if_pos (by omega), hrest, hcons, List.append_assoc, List.singleton_append]

/-- The number of processes with the name. -/
def matchCount (procName : CStr) (entries : List ProcEntry) : ℕ :=
  entries.countP fun d => decide (IsMatch procName d)

theorem length_matchPids (procName : CStr) (entries : List ProcEntry) :
    (matchPids procName entries).length = matchCount procName entries := by
  rw [matchPids, List.length_filterMap_eq_countP, matchCount]
  congr 1
  funext d
  rw [Bool.eq_iff_iff, decide_eq_true_eq, isMatch_iff_isSome]

/-! ## The sum -/

theorem addPids_eq_some {power pidFound v : ℤ} {pids : List ℤ}
    (h : addPids power pids pidFound = some v) : v = pidFound + pids.sum * power := by
  induction pids generalizing pidFound with
  | nil =>
      cases h
      simp
  | cons pid pids ih =>
      rw [addPids] at h
      split at h
      · rw [ih h, List.sum_cons, add_mul, add_assoc]
      · cases h

theorem le_sum_of_mem {pids : List ℤ} (hpos : ∀ pid ∈ pids, 0 < pid) {pid : ℤ} (h : pid ∈ pids) :
    pid ≤ pids.sum :=
  List.single_le_sum (fun x hx => (hpos x hx).le) pid h

/-- With two pids and more the sum is ten times as large as any of them. -/
theorem lt_of_addPids {pids : List ℤ} (hpos : ∀ pid ∈ pids, 0 < pid) (htwo : 2 ≤ pids.length)
    {v : ℤ} (h : addPids (10 ^ (pids.length - 1)) pids 0 = some v) {pid : ℤ} (hpid : pid ∈ pids) :
    pid < v := by
  have hsum := le_sum_of_mem hpos hpid
  have hone := hpos pid hpid
  have hpower : (10 : ℤ) ≤ 10 ^ (pids.length - 1) := by
    calc (10 : ℤ) = 10 ^ 1 := by norm_num
      _ ≤ 10 ^ (pids.length - 1) := by
        apply pow_le_pow_right₀
        · norm_num
        · omega
  rw [addPids_eq_some h]
  nlinarith

/-! ## The search -/

section

variable {procName : CStr} {entries : List ProcEntry}

theorem matchPids_pos (hpid : ∀ d ∈ entries, 0 ≤ atoi d.dName) :
    ∀ pid ∈ matchPids procName entries, 0 < pid := by
  intro pid h
  obtain ⟨d, hd, hmatch, rfl⟩ := mem_matchPids.mp h
  exact lt_of_le_of_ne (hpid d hd) (Ne.symm hmatch.1)

/-- The search stores the weighted sum of all matches. -/
theorem findPidByName_eq (hfew : matchCount procName entries < 128) (pid : ℤ) :
    findPidByName procName (some entries) pid =
      (addPids (10 ^ (matchCount procName entries - 1)) (matchPids procName entries) 0).bind
        fun pidFound => some (0, pidFound) := by
  have hlen := length_matchPids procName entries
  have hwalk := @walkProc_eq procName entries [] (by rw [List.length_nil]; omega)
  have hne : ∀ x ∈ matchPids procName entries, decide (x ≠ 0) = true := by
    intro x hx
    obtain ⟨d, -, hmatch, rfl⟩ := mem_matchPids.mp hx
    exact decide_eq_true hmatch.1
  rw [List.nil_append] at hwalk
  simp only [findPidByName]
  rw [bind_of_eq hwalk, if_pos (by omega), List.takeWhile_eq_self_iff.mpr hne, hlen]
  rfl

/-- The number is 0 if there is no match, and otherwise the pid of one. -/
def FindsMatch (procName : CStr) (entries : List ProcEntry) (pid : ℤ) : Prop :=
  (∀ d ∈ entries, ¬ IsMatch procName d) ∧ pid = 0 ∨
    ∃ d ∈ entries, IsMatch procName d ∧ atoi d.dName = pid

/-- The search returns 0 with such a number. -/
def FindsRight (procName : CStr) (entries : List ProcEntry) (pid : ℤ) : Prop :=
  ∃ pidFound, findPidByName procName (some entries) pid = some (0, pidFound) ∧
    FindsMatch procName entries pidFound

/-- The only match is found, and 0 if there is none. -/
theorem findPidByName_of_le_one (hle : matchCount procName entries ≤ 1) (pid : ℤ) :
    ∃ pidFound, findPidByName procName (some entries) pid = some (0, pidFound) ∧
      FindsMatch procName entries pidFound ∧
      (matchCount procName entries = 0 → pidFound = 0) := by
  have hlen := length_matchPids procName entries
  rw [findPidByName_eq (by omega)]
  cases hpids : matchPids procName entries with
  | nil =>
      refine ⟨0, rfl, Or.inl ⟨?_, rfl⟩, fun _ => rfl⟩
      intro d hd hmatch
      have hmem := mem_matchPids.mpr ⟨d, hd, hmatch, rfl⟩
      rw [hpids] at hmem
      cases hmem
  | cons found rest =>
      rw [hpids, List.length_cons] at hlen
      obtain rfl : rest = [] := List.eq_nil_of_length_eq_zero (by omega)
      obtain ⟨d, hd, hmatch, rfl⟩ := mem_matchPids.mp
        (by rw [hpids]; exact List.mem_singleton_self found)
      have hcount : matchCount procName entries = 1 := by rw [← hlen]; rfl
      refine ⟨atoi d.dName, ?_, Or.inr ⟨d, hd, hmatch, rfl⟩, by omega⟩
      have hint := isInt_atoi d.dName
      rw [hcount]
      simp [addPids, hint, (by decide : IsInt 1)]

/-- With several matches the sum is the pid of none of them. -/
theorem not_findsRight_of_two (hpid : ∀ d ∈ entries, 0 ≤ atoi d.dName)
    (htwo : 2 ≤ matchCount procName entries) (hfew : matchCount procName entries < 128)
    (pid : ℤ) : ¬ FindsRight procName entries pid := by
  have hlen := length_matchPids procName entries
  intro h
  obtain ⟨pidFound, hfind, hright⟩ := h
  rw [findPidByName_eq hfew, Option.bind_eq_some_iff] at hfind
  obtain ⟨v, hv, heq⟩ := hfind
  obtain rfl : v = pidFound := by simpa using heq
  rw [← hlen] at hv
  cases hright with
  | inl hnone =>
      have hpos : 0 < (matchPids procName entries).length := by omega
      obtain ⟨x, hx⟩ := List.exists_mem_of_length_pos hpos
      obtain ⟨d, hd, hmatch, -⟩ := mem_matchPids.mp hx
      exact hnone.1 d hd hmatch
  | inr hsome =>
      have hmem := mem_matchPids.mpr hsome
      have hlt := lt_of_addPids (matchPids_pos hpid) (by omega) hv hmem
      omega

/-- The search is right exactly if no more than one process has the name. -/
theorem findsRight_iff (hpid : ∀ d ∈ entries, 0 ≤ atoi d.dName)
    (hfew : matchCount procName entries < 128) (pid : ℤ) :
    FindsRight procName entries pid ↔ matchCount procName entries ≤ 1 := by
  constructor
  · intro h
    by_contra hmany
    exact not_findsRight_of_two hpid (by omega) hfew pid h
  · intro hle
    obtain ⟨pidFound, hfind, hright, -⟩ := findPidByName_of_le_one hle pid
    exact ⟨pidFound, hfind, hright⟩

end

/-! ## The handlers -/

/-- The number that `kill` is called with reaches the process: its own, or 0 for the processes in
the group of the caller. -/
def Reaches (entries : List ProcEntry) (group : Set ℤ) (pid q : ℤ) : Prop :=
  (∃ d ∈ entries, atoi d.dName ≠ 0 ∧ atoi d.dName = q) ∧ (0 < pid ∧ q = pid ∨ pid = 0 ∧ q ∈ group)

/-- The handler calls `kill`, and this reaches only processes with the name `sendSig`. -/
def KillsRight (handler : Option (List ProcEntry) → ℤ → Option (Bool × Option (ℤ × PoeSignal)))
    (entries : List ProcEntry) (group : Set ℤ) (pid : ℤ) : Prop :=
  ∃ checkPoe pidFound signo, handler (some entries) pid = some (checkPoe, some (pidFound, signo)) ∧
    ∀ q, Reaches entries group pidFound q →
      ∃ d ∈ entries, IsMatch (text "sendSig") d ∧ atoi d.dName = q

theorem poeSignalHandler_eq {entries : List ProcEntry} {pid pidFound : ℤ}
    (h : findPidByName (text "sendSig") (some entries) pid = some (0, pidFound)) (checkPoe : Bool)
    (signo : PoeSignal) :
    poeSignalHandler checkPoe signo (some entries) pid =
      some (checkPoe, some (pidFound, signo)) := by
  rw [poeSignalHandler, bind_of_eq h]
  rfl

section

variable {entries : List ProcEntry} {group : Set ℤ}

/-- With one match the handler reaches this process only. -/
theorem killsRight_of_one (hpid : ∀ d ∈ entries, 0 ≤ atoi d.dName)
    (hone : matchCount (text "sendSig") entries = 1) (checkPoe : Bool) (signo : PoeSignal)
    (pid : ℤ) : KillsRight (poeSignalHandler checkPoe signo) entries group pid := by
  obtain ⟨pidFound, hfind, hright, -⟩ := findPidByName_of_le_one hone.le pid
  refine ⟨checkPoe, pidFound, signo, poeSignalHandler_eq hfind checkPoe signo, ?_⟩
  intro q hq
  cases hright with
  | inl hnone =>
      have hzero : matchCount (text "sendSig") entries = 0 := by
        rw [matchCount, List.countP_eq_zero]
        intro d hd
        simp [hnone.1 d hd]
      omega
  | inr hsome =>
      obtain ⟨d, hd, hmatch, rfl⟩ := hsome
      have hpos : 0 < atoi d.dName := lt_of_le_of_ne (hpid d hd) (Ne.symm hmatch.1)
      cases hq.2 with
      | inl hpidq => exact ⟨d, hd, hmatch, hpidq.2.symm⟩
      | inr hgroup => omega

/-- Without a match the handler reaches the whole group of the caller. -/
theorem not_killsRight_of_zero (hzero : matchCount (text "sendSig") entries = 0) {self : ℤ}
    (hself : ∃ d ∈ entries, atoi d.dName ≠ 0 ∧ atoi d.dName = self) (hgroup : self ∈ group)
    (checkPoe : Bool) (signo : PoeSignal) (pid : ℤ) :
    ¬ KillsRight (poeSignalHandler checkPoe signo) entries group pid := by
  intro h
  obtain ⟨checkPoe', pidFound', signo', hhandler, hreach⟩ := h
  have hle : matchCount (text "sendSig") entries ≤ 1 := by omega
  obtain ⟨pidFound, hfind, -, hpidFound⟩ := findPidByName_of_le_one hle pid
  rw [poeSignalHandler_eq hfind, Option.some.injEq, Prod.mk.injEq, Option.some.injEq,
    Prod.mk.injEq] at hhandler
  have hzeroFound : pidFound' = 0 := by rw [← hhandler.2.1, hpidFound hzero]
  obtain ⟨d, hd, hmatch, -⟩ := hreach self ⟨hself, Or.inr ⟨hzeroFound, hgroup⟩⟩
  rw [matchCount, List.countP_eq_zero] at hzero
  exact hzero d hd (decide_eq_true hmatch)

end

/-- For every process table the search is right exactly if no more than one process has the name,
and the handlers reach only processes with the name exactly if one has it. The caller is itself a
process of the table and in its group. -/
theorem find_pid_by_name_iff (entries : List ProcEntry) (hpid : ∀ d ∈ entries, 0 ≤ atoi d.dName) :
    (∀ procName, matchCount procName entries < 128 → ∀ pid,
      (FindsRight procName entries pid ↔ matchCount procName entries ≤ 1)) ∧
    ∀ (self : ℤ) (group : Set ℤ), (∃ d ∈ entries, atoi d.dName ≠ 0 ∧ atoi d.dName = self) →
      self ∈ group → matchCount (text "sendSig") entries < 128 → ∀ pid,
      (FindsRight (text "sendSig") entries pid ∧ KillsRight handlePauseSig entries group pid ∧
        KillsRight handleContinueSig entries group pid ↔
          matchCount (text "sendSig") entries = 1) := by
  refine ⟨fun procName hfew pid => findsRight_iff hpid hfew pid, ?_⟩
  intro self group hself hgroup hfew pid
  constructor
  · intro h
    obtain ⟨hfinds, hpause, -⟩ := h
    have hle := (findsRight_iff hpid hfew pid).mp hfinds
    by_contra hne
    exact not_killsRight_of_zero (by omega) hself hgroup _ _ pid hpause
  · intro hone
    refine ⟨(findsRight_iff hpid hfew pid).mpr hone.le, ?_, ?_⟩
    · exact killsRight_of_one hpid hone _ _ pid
    · exact killsRight_of_one hpid hone _ _ pid

/-- Process 57 runs the handler, and process 80 is `sendSig`. -/
def oneSendSig : List ProcEntry :=
  [⟨text "self", none⟩, ⟨text "57", some (text "/usr/sbin/PoE")⟩,
    ⟨text "80", some (text "/usr/sbin/sendSig")⟩]

theorem find_pid_by_name_iff_one :
    matchCount (text "sendSig") oneSendSig = 1 ∧
    FindsRight (text "sendSig") oneSendSig 7 ∧ KillsRight handlePauseSig oneSendSig {57} 7 ∧
      KillsRight handleContinueSig oneSendSig {57} 7 := by
  have hone : matchCount (text "sendSig") oneSendSig = 1 := by decide
  have hpid : ∀ d ∈ oneSendSig, 0 ≤ atoi d.dName := by decide
  have hself : ∃ d ∈ oneSendSig, atoi d.dName ≠ 0 ∧ atoi d.dName = 57 := by decide
  have h := find_pid_by_name_iff oneSendSig hpid
  exact ⟨hone, (h.2 57 {57} hself rfl (by omega) 7).mpr hone⟩

/-- Two processes with the name, 100 and 200, are found as 3000. -/
theorem find_pid_by_name_two_matches :
    findPidByName (text "sendSig")
        (some [⟨text "100", some (text "/bin/sendSig")⟩, ⟨text "200", some (text "/bin/sendSig")⟩])
        7 = some (0, 3000) ∧
    ¬ FindsRight (text "sendSig")
        [⟨text "100", some (text "/bin/sendSig")⟩, ⟨text "200", some (text "/bin/sendSig")⟩] 7 := by
  have hfind : findPidByName (text "sendSig")
      (some [⟨text "100", some (text "/bin/sendSig")⟩, ⟨text "200", some (text "/bin/sendSig")⟩])
      7 = some (0, 3000) := by decide
  refine ⟨hfind, ?_⟩
  exact not_findsRight_of_two (by decide) (by decide) (by decide) 7

end BcmUtils.PidSearch
