import Mathlib.Tactic

/-! # Maximal runs of a set of numbers

The members of a decidable set among `1, …, n`, grouped into maximal runs of
consecutive numbers. -/

namespace CLib

/-- The numbers from `r.1` to `r.2`. -/
def InRange (r : ℕ × ℕ) (k : ℕ) : Prop := r.1 ≤ k ∧ k ≤ r.2

instance (r : ℕ × ℕ) (k : ℕ) : Decidable (InRange r k) := inferInstanceAs (Decidable (_ ∧ _))

/-- Let the run that ends just before `n` grow by `n`, or start a new one. -/
def growRun (n : ℕ) : List (ℕ × ℕ) → List (ℕ × ℕ)
  | [] => [(n, n)]
  | r :: rs => if r.2 + 1 = n then (r.1, n) :: rs else (n, n) :: r :: rs

/-- The maximal runs of `p` among `1, …, n`, the last one first. -/
def runsRev (p : ℕ → Bool) : ℕ → List (ℕ × ℕ)
  | 0 => []
  | n + 1 => if p (n + 1) then growRun (n + 1) (runsRev p n) else runsRev p n

/-- The maximal runs of `p` among `1, …, n`, in increasing order. -/
def runs (p : ℕ → Bool) (n : ℕ) : List (ℕ × ℕ) := (runsRev p n).reverse

variable {p : ℕ → Bool}

theorem runsRev_succ_of_pos {n : ℕ} (h : p (n + 1) = true) :
    runsRev p (n + 1) = growRun (n + 1) (runsRev p n) := by
  simp [runsRev, h]

theorem runsRev_succ_of_neg {n : ℕ} (h : p (n + 1) = false) :
    runsRev p (n + 1) = runsRev p n := by
  simp [runsRev, h]

theorem mem_growRun {n : ℕ} {rs : List (ℕ × ℕ)} {r : ℕ × ℕ} (h : r ∈ growRun n rs) :
    r ∈ rs ∨ r = (n, n) ∨ ∃ q ∈ rs, q.2 + 1 = n ∧ r = (q.1, n) := by
  cases rs with
  | nil => simpa [growRun] using h
  | cons q rs =>
      simp only [growRun] at h
      split at h
      · rename_i hq
        rcases List.mem_cons.mp h with rfl | h
        · exact Or.inr (Or.inr ⟨q, by simp, hq, rfl⟩)
        · exact Or.inl (by simp [h])
      · rcases List.mem_cons.mp h with rfl | h
        · exact Or.inr (Or.inl rfl)
        · exact Or.inl h

/-- Runs are nonempty ranges of numbers between `1` and `n`. -/
theorem runsRev_bounds {n : ℕ} {r : ℕ × ℕ} (h : r ∈ runsRev p n) :
    1 ≤ r.1 ∧ r.1 ≤ r.2 ∧ r.2 ≤ n := by
  induction n generalizing r with
  | zero => simp [runsRev] at h
  | succ n ih =>
      by_cases hp : p (n + 1) = true
      · rw [runsRev_succ_of_pos hp] at h
        rcases mem_growRun h with h | rfl | ⟨q, hq, hn, rfl⟩
        · have := ih h
          omega
        · exact ⟨by simp, le_rfl, le_rfl⟩
        · have := ih hq
          simp only
          omega
      · rw [runsRev_succ_of_neg (by simpa using hp)] at h
        have := ih h
        omega

theorem exists_mem_growRun {n k : ℕ} {rs : List (ℕ × ℕ)} (hrs : ∀ r ∈ rs, r.1 ≤ r.2) :
    (∃ r ∈ growRun n rs, InRange r k) ↔ (∃ r ∈ rs, InRange r k) ∨ k = n := by
  cases rs with
  | nil => simp [growRun, InRange]; omega
  | cons q rs =>
      have hq := hrs q (by simp)
      simp only [growRun]
      split
      · rename_i hn
        simp only [List.mem_cons, exists_eq_or_imp, InRange]
        constructor
        · rintro (h | h)
          · by_cases hk : k = n
            · exact Or.inr hk
            · exact Or.inl (Or.inl (by omega))
          · exact Or.inl (Or.inr h)
        · rintro ((h | h) | rfl)
          · exact Or.inl (by omega)
          · exact Or.inr h
          · exact Or.inl (by omega)
      · simp only [List.mem_cons, exists_eq_or_imp, InRange]
        constructor
        · rintro (h | h | h)
          · exact Or.inr (by omega)
          · exact Or.inl (Or.inl h)
          · exact Or.inl (Or.inr h)
        · rintro ((h | h) | rfl)
          · exact Or.inr (Or.inl h)
          · exact Or.inr (Or.inr h)
          · exact Or.inl (by omega)

/-- The runs cover exactly the members of the set. -/
theorem exists_mem_runsRev {n k : ℕ} :
    (∃ r ∈ runsRev p n, InRange r k) ↔ 1 ≤ k ∧ k ≤ n ∧ p k = true := by
  induction n with
  | zero => simp [runsRev]; omega
  | succ n ih =>
      by_cases hp : p (n + 1) = true
      · rw [runsRev_succ_of_pos hp,
          exists_mem_growRun (fun r hr => (runsRev_bounds hr).2.1), ih]
        constructor
        · rintro (h | rfl)
          · exact ⟨h.1, by omega, h.2.2⟩
          · exact ⟨by omega, le_rfl, hp⟩
        · rintro ⟨h₁, h₂, h₃⟩
          by_cases hk : k = n + 1
          · exact Or.inr hk
          · exact Or.inl ⟨h₁, by omega, h₃⟩
      · rw [runsRev_succ_of_neg (by simpa using hp), ih]
        constructor
        · rintro ⟨h₁, h₂, h₃⟩
          exact ⟨h₁, by omega, h₃⟩
        · rintro ⟨h₁, h₂, h₃⟩
          refine ⟨h₁, ?_, h₃⟩
          by_contra hk
          obtain rfl : k = n + 1 := by omega
          exact hp h₃

theorem length_growRun_le (n : ℕ) (rs : List (ℕ × ℕ)) : (growRun n rs).length ≤ rs.length + 1 := by
  cases rs with
  | nil => simp [growRun]
  | cons r rs =>
      simp only [growRun]
      split <;> simp

theorem length_runsRev_le (n : ℕ) : (runsRev p n).length ≤ n := by
  induction n with
  | zero => simp [runsRev]
  | succ n ih =>
      by_cases hp : p (n + 1) = true
      · rw [runsRev_succ_of_pos hp]
        exact (length_growRun_le _ _).trans (by omega)
      · rw [runsRev_succ_of_neg (by simpa using hp)]
        omega

/-- A number outside the set closes every run before it. -/
theorem growRun_of_not_member {n : ℕ} (h : n = 0 ∨ p n = false) :
    growRun (n + 1) (runsRev p n) = (n + 1, n + 1) :: runsRev p n := by
  cases hr : runsRev p n with
  | nil => rfl
  | cons r rs =>
      have hmem : r ∈ runsRev p n := by simp [hr]
      have hb := runsRev_bounds hmem
      have hne : r.2 + 1 ≠ n + 1 := by
        intro he
        have hp := (exists_mem_runsRev.mp ⟨r, hmem, hb.2.1, le_rfl⟩).2.2
        rcases h with rfl | h
        · omega
        · rw [show r.2 = n by omega, h] at hp
          exact absurd hp (by simp)
      rw [growRun, if_neg hne]

/-! ## How much room the runs take -/

/-- Every run and the gap after it are disjoint from the other runs. -/
theorem sum_span_runsRev (n : ℕ) :
    ∀ r rs, runsRev p n = r :: rs →
      ((r :: rs).map fun q => q.2 - q.1 + 2).sum ≤ r.2 + 1 := by
  induction n with
  | zero => simp [runsRev]
  | succ n ih =>
      intro r rs hr
      by_cases hp : p (n + 1) = true
      · rw [runsRev_succ_of_pos hp] at hr
        cases hq : runsRev p n with
        | nil =>
            rw [hq, growRun, List.cons.injEq] at hr
            obtain ⟨rfl, rfl⟩ := hr
            simp
        | cons q qs =>
            have hs := ih q qs hq
            have hb := runsRev_bounds (p := p) (n := n) (r := q) (by simp [hq])
            simp only [List.map_cons, List.sum_cons] at hs
            rw [hq, growRun] at hr
            split at hr <;> rw [List.cons.injEq] at hr <;> obtain ⟨rfl, rfl⟩ := hr
            · simp only [List.map_cons, List.sum_cons]
              omega
            · simp only [List.map_cons, List.sum_cons]
              omega
      · rw [runsRev_succ_of_neg (by simpa using hp)] at hr
        exact ih r rs hr

theorem sum_span_runs_le (n : ℕ) : ((runs p n).map fun q => q.2 - q.1 + 2).sum ≤ n + 1 := by
  rw [runs, List.map_reverse, List.sum_reverse]
  cases hr : runsRev p n with
  | nil => simp
  | cons r rs =>
      have hb := runsRev_bounds (p := p) (n := n) (r := r) (by simp [hr])
      exact (sum_span_runsRev n r rs hr).trans (by omega)

/-- The runs together have at most `n` members. -/
theorem sum_length_runs_le (n : ℕ) : ((runs p n).map fun q => q.2 - q.1 + 1).sum ≤ n := by
  rw [runs, List.map_reverse, List.sum_reverse]
  induction n with
  | zero => simp [runsRev]
  | succ n ih =>
      by_cases hp : p (n + 1) = true
      · rw [runsRev_succ_of_pos hp]
        cases hq : runsRev p n with
        | nil => simp [growRun]
        | cons q qs =>
            have hb := runsRev_bounds (p := p) (n := n) (r := q) (by simp [hq])
            simp only [hq, List.map_cons, List.sum_cons] at ih
            simp only [growRun]
            split <;> simp only [List.map_cons, List.sum_cons] <;> omega
      · rw [runsRev_succ_of_neg (by simpa using hp)]
        omega

theorem mem_runs_bounds {n : ℕ} {r : ℕ × ℕ} (h : r ∈ runs p n) :
    1 ≤ r.1 ∧ r.1 ≤ r.2 ∧ r.2 ≤ n :=
  runsRev_bounds (List.mem_reverse.mp h)

theorem exists_mem_runs {n k : ℕ} :
    (∃ r ∈ runs p n, InRange r k) ↔ 1 ≤ k ∧ k ≤ n ∧ p k = true := by
  simpa [runs] using exists_mem_runsRev (p := p)

theorem length_runs_le (n : ℕ) : (runs p n).length ≤ n := by
  simpa [runs] using length_runsRev_le (p := p) n

end CLib
