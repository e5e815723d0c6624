import BcmUtils.Verification.PortList.Bounds

/-! # The widest port list

How many characters a list of the ports `1..n` needs at most, by the state of its last port. -/

namespace BcmUtils.PortList

open CLib

/-- The number of digits of a port. -/
def portDigits (n : ℕ) : ℕ := if n < 10 then 1 else 2

theorem decimalWidth_eq_portDigits {n : ℕ} (h : n < 100) : decimalWidth n = portDigits n := by
  unfold decimalWidth portDigits
  split
  · rename_i hn
    rw [Nat.log_of_lt hn]
  · rename_i hn
    rw [Nat.log_eq_of_pow_le_of_lt_pow (m := 1) (by omega) (by omega)]

/-- What a list needs at most with a comma behind each run: when port `n` is not in it, when it
is a run of its own, and when it ends a longer run. -/
def widest : ℕ → ℕ × ℕ × ℕ
  | 0 => (0, 0, 0)
  | n + 1 =>
      (max (widest n).1 (max (widest n).2.1 (widest n).2.2),
        (widest n).1 + portDigits (n + 1) + 1,
        max ((widest n).2.1 + 1 + portDigits (n + 1))
          ((widest n).2.2 + portDigits (n + 1) - portDigits n))

/-- The width of some runs with a comma behind each. -/
def runsWeight (rs : List (ℕ × ℕ)) : ℕ := (rs.map fun r => runWidth r + 1).sum

theorem runsWeight_cons (r : ℕ × ℕ) (rs : List (ℕ × ℕ)) :
    runsWeight (r :: rs) = runWidth r + 1 + runsWeight rs := by
  rw [runsWeight, List.map_cons, List.sum_cons, runsWeight]

theorem runWidth_single {n : ℕ} (h : n < 100) : runWidth (n, n) = portDigits n := by
  simp [runWidth, decimalWidth_eq_portDigits h]

theorem runWidth_of_lt {lo hi : ℕ} (h : lo < hi) (hhi : hi < 100) :
    runWidth (lo, hi) = portDigits lo + (1 + portDigits hi) := by
  rw [runWidth, if_neg h.ne, decimalWidth_eq_portDigits (by omega),
    decimalWidth_eq_portDigits hhi]

variable {p : ℕ → Bool}

/-- A member ends the last run. -/
theorem exists_runsRev_of_member {n : ℕ} (h : ¬ (n = 0 ∨ p n = false)) :
    ∃ lo rs, runsRev p n = (lo, n) :: rs := by
  cases n with
  | zero => exact (h (Or.inl rfl)).elim
  | succ n =>
      have hp : p (n + 1) = true := Bool.eq_true_of_not_eq_false fun hp => h (Or.inr hp)
      rw [runsRev_succ_of_pos hp]
      cases runsRev p n with
      | nil => exact ⟨n + 1, [], rfl⟩
      | cons r rs =>
          rw [growRun]
          split
          · exact ⟨r.1, rs, rfl⟩
          · exact ⟨n + 1, r :: rs, rfl⟩

/-- The weight of the runs is bounded by the entry of its case. -/
structure WithinWidest (p : ℕ → Bool) (n : ℕ) : Prop where
  absent : n = 0 ∨ p n = false → runsWeight (runsRev p n) ≤ (widest n).1
  single : ∀ rs, runsRev p n = (n, n) :: rs → runsWeight (runsRev p n) ≤ (widest n).2.1
  longer : ∀ lo rs, runsRev p n = (lo, n) :: rs → lo < n →
    runsWeight (runsRev p n) ≤ (widest n).2.2

/-- Whatever the case, the next entry for an absent port is a bound. -/
theorem WithinWidest.le {n : ℕ} (h : WithinWidest p n) :
    runsWeight (runsRev p n) ≤ (widest (n + 1)).1 := by
  have hmax : (widest (n + 1)).1 = max (widest n).1 (max (widest n).2.1 (widest n).2.2) := rfl
  by_cases habsent : n = 0 ∨ p n = false
  · have := h.absent habsent
    omega
  · obtain ⟨lo, rs, hrs⟩ := exists_runsRev_of_member habsent
    have hle := (runsRev_bounds (p := p) (n := n) (r := (lo, n)) (by simp [hrs])).2.1
    simp only at hle
    by_cases hlo : lo = n
    · have := h.single rs (by rw [hrs, hlo])
      omega
    · have := h.longer lo rs hrs (by omega)
      omega

/-- A member behind a gap is a run of its own. -/
theorem WithinWidest.succ_of_absent {n : ℕ} (h : WithinWidest p n) (hn : n + 1 < 100)
    (hp : p (n + 1) = true) (habsent : n = 0 ∨ p n = false) : WithinWidest p (n + 1) := by
  have hruns : runsRev p (n + 1) = (n + 1, n + 1) :: runsRev p n := by
    rw [runsRev_succ_of_pos hp, growRun_of_not_member habsent]
  have hentry : (widest (n + 1)).2.1 = (widest n).1 + portDigits (n + 1) + 1 := rfl
  have hweight := h.absent habsent
  refine ⟨?_, ?_, ?_⟩
  · intro hfalse
    simp [hp] at hfalse
  · intro rs _
    rw [hruns, runsWeight_cons, runWidth_single hn]
    omega
  · intro lo rs hrs hlo
    rw [hruns, List.cons.injEq, Prod.mk.injEq] at hrs
    omega

/-- A member behind a member makes its run longer. -/
theorem WithinWidest.succ_of_present {n lo : ℕ} {rs : List (ℕ × ℕ)} (h : WithinWidest p n)
    (hn : n + 1 < 100) (hp : p (n + 1) = true) (hrs : runsRev p n = (lo, n) :: rs) :
    WithinWidest p (n + 1) := by
  have hle := (runsRev_bounds (p := p) (n := n) (r := (lo, n)) (by simp [hrs])).2.1
  simp only at hle
  have hruns : runsRev p (n + 1) = (lo, n + 1) :: rs := by
    rw [runsRev_succ_of_pos hp, hrs, growRun, if_pos rfl]
  have hentry : (widest (n + 1)).2.2 = max ((widest n).2.1 + 1 + portDigits (n + 1))
    ((widest n).2.2 + portDigits (n + 1) - portDigits n) := rfl
  have hwidth : runWidth (lo, n + 1) = portDigits lo + (1 + portDigits (n + 1)) :=
    runWidth_of_lt (by omega) hn
  refine ⟨?_, ?_, ?_⟩
  · intro hfalse
    simp [hp] at hfalse
  · intro rs' hrs'
    rw [hruns, List.cons.injEq, Prod.mk.injEq] at hrs'
    omega
  · intro lo' rs' _ _
    rw [hruns, runsWeight_cons, hwidth]
    by_cases hlo : lo = n
    · subst hlo
      have hweight := h.single rs hrs
      rw [hrs, runsWeight_cons, runWidth_single (by omega)] at hweight
      omega
    · have hweight := h.longer lo rs hrs (by omega)
      rw [hrs, runsWeight_cons, runWidth_of_lt (by omega) (by omega)] at hweight
      omega

/-- A port that is no member leaves the runs as they are. -/
theorem WithinWidest.succ_of_not_member {n : ℕ} (h : WithinWidest p n) (hp : p (n + 1) = false) :
    WithinWidest p (n + 1) := by
  have hruns := runsRev_succ_of_neg hp
  have hend : ∀ lo rs, runsRev p (n + 1) ≠ (lo, n + 1) :: rs := by
    intro lo rs hrs
    have hbounds := (runsRev_bounds (p := p) (n := n) (r := (lo, n + 1))
      (by simp [← hruns, hrs])).2.2
    simp only at hbounds
    omega
  refine ⟨?_, ?_, ?_⟩
  · intro _
    rw [hruns]
    exact h.le
  · intro rs hrs
    exact (hend (n + 1) rs hrs).elim
  · intro lo rs hrs _
    exact (hend lo rs hrs).elim

theorem withinWidest {n : ℕ} (hn : n < 100) : WithinWidest p n := by
  induction n with
  | zero =>
      refine ⟨fun _ => le_rfl, ?_, ?_⟩
      · intro rs hrs
        cases hrs
      · intro lo rs hrs
        cases hrs
  | succ n ih =>
      have h := ih (by omega)
      cases hp : p (n + 1) with
      | false => exact h.succ_of_not_member hp
      | true =>
          by_cases habsent : n = 0 ∨ p n = false
          · exact h.succ_of_absent hn hp habsent
          · obtain ⟨lo, rs, hrs⟩ := exists_runsRev_of_member habsent
            exact h.succ_of_present hn hp hrs

/-- A port list has no more characters than the widest list of the build. -/
theorem portListWidth_le_widest (B : Build) (m : PortMap) :
    portListWidth B m ≤ (widest (B.PNUM + 1)).1 - 1 := by
  have hB := B.le_phy
  have hweight := (withinWidest (p := m.getLsbD) (n := B.PNUM) (by omega)).le
  have hsum : runsWeight (runsRev m.getLsbD B.PNUM) =
      ((runs m.getLsbD B.PNUM).map runWidth).sum + (runs m.getLsbD B.PNUM).length := by
    rw [← sum_map_add_one, runs, List.map_reverse, List.sum_reverse]
    rfl
  by_cases hnil : runs m.getLsbD B.PNUM = []
  · rw [portListWidth_of_runs_nil hnil]
    exact Nat.zero_le _
  · have hpos := List.length_pos_of_ne_nil hnil
    unfold portListWidth
    omega

end BcmUtils.PortList
