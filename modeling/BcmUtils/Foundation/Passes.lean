import BcmUtils.Foundation.Machine

/-! # Loops over the indices of an array, and the last write of a run

A loop makes one pass for each index, in order. The states between the passes are a sequence, on
which each pass is one step. -/

namespace CLib

/-! ## Passes -/

section Passes

variable {σ : Type*} {n : ℕ}

/-- The states between the passes of a loop. -/
structure Passes (f : σ → Fin n → Option σ) (s : σ) (states : Fin (n + 1) → σ) (s' : σ) : Prop where
  start : states 0 = s
  stop : states (Fin.last n) = s'
  step : ∀ i, f (states i.castSucc) i = some (states i.succ)

variable {f : σ → Fin n → Option σ} {s s' : σ} {states : Fin (n + 1) → σ}

theorem exists_passes (h : (List.finRange n).foldlM f s = some s') :
    ∃ states, Passes f s states s' := by
  induction n generalizing s with
  | zero =>
      rw [List.finRange_zero, List.foldlM_nil] at h
      exact ⟨fun _ => s, rfl, Option.some.inj h, fun i => i.elim0⟩
  | succ n ih =>
      rw [List.finRange_succ, List.foldlM_cons] at h
      obtain ⟨s₁, hstep, hrest⟩ := Option.bind_eq_some_iff.mp h
      rw [List.foldlM_map] at hrest
      obtain ⟨states, hstates⟩ := ih (f := fun s i => f s i.succ) hrest
      refine ⟨Fin.cons s states, rfl, hstates.stop, fun i => ?_⟩
      cases i using Fin.cases with
      | zero =>
          rw [← hstates.start] at hstep
          exact hstep
      | succ i => exact hstates.step i

/-- The sum of the steps of a sequence. -/
theorem sum_of_steps {t : Fin (n + 1) → ℕ} {d : Fin n → ℕ}
    (h : ∀ i, t i.succ = t i.castSucc + d i) : t (Fin.last n) = t 0 + ∑ i, d i := by
  induction n with
  | zero => rfl
  | succ n ih =>
      have hinit := ih (t := fun i => t i.castSucc) (d := fun i => d i.castSucc)
        fun i => h i.castSucc
      rw [Fin.sum_univ_castSucc, ← Fin.succ_last, h (Fin.last n), ← add_assoc]
      exact congrArg (· + d (Fin.last n)) hinit

namespace Passes

/-- An invariant that may depend on the number of passes holds in the end. -/
theorem invariant (h : Passes f s states s') (P : ℕ → σ → Prop) (hstart : P 0 s)
    (hstep : ∀ i t t', f t i = some t' → P i t → P (i + 1) t') (i : Fin (n + 1)) :
    P i (states i) := by
  induction i using Fin.induction with
  | zero =>
      rw [h.start]
      exact hstart
  | succ i ih => exact hstep i _ _ (h.step i) ih

/-- What the passes behind one do not change is in the end as this one has left it. -/
theorem eq_of_later {α : Type*} (h : Passes f s states s') (view : σ → α) {i : Fin n}
    (hlater : ∀ j, i < j → view (states j.succ) = view (states j.castSucc)) :
    view s' = view (states i.succ) := by
  have hview : ∀ j : Fin (n + 1), i.succ ≤ j → view (states j) = view (states i.succ) := by
    intro j
    induction j using Fin.induction with
    | zero => exact fun hle => absurd hle (by simp)
    | succ j ih =>
        intro hle
        rcases eq_or_lt_of_le hle with heq | hlt
        · rw [← heq]
        · have hij : i < j := Fin.succ_lt_succ_iff.mp hlt
          exact (hlater j hij).trans (ih (Fin.succ_le_castSucc_iff.mpr hij))
  rw [← h.stop]
  exact hview _ (Fin.le_last _)

/-- A counter has in the end been raised by what all passes have raised it. -/
theorem count {c : σ → ℕ} {raise : Fin n → ℕ} (h : Passes f s states s')
    (hraise : ∀ i, c (states i.succ) = c (states i.castSucc) + raise i) :
    c s' = c s + ∑ i, raise i := by
  rw [← h.start, ← h.stop]
  exact sum_of_steps (t := fun i => c (states i)) hraise

/-- A counter that every pass raises by at most `k` has been raised to the utmost exactly if every
pass has raised it by `k`. -/
theorem count_le {c : σ → ℕ} {raise : Fin n → ℕ} {k : ℕ} (h : Passes f s states s')
    (hraise : ∀ i, c (states i.succ) = c (states i.castSucc) + raise i) (hle : ∀ i, raise i ≤ k) :
    c s' ≤ c s + n * k ∧ (c s' = c s + n * k ↔ ∀ i, raise i = k) := by
  have hconst : ∑ _i : Fin n, k = n * k := by simp
  rw [h.count hraise, ← hconst]
  refine ⟨Nat.add_le_add_left (Finset.sum_le_sum fun i _ => hle i) _, ?_⟩
  rw [Nat.add_left_cancel_iff, Finset.sum_eq_sum_iff_of_le fun i _ => hle i]
  exact ⟨fun hall i => hall i (Finset.mem_univ i), fun hall i _ => hall i⟩

end Passes

end Passes

/-! ## The last write -/

section LastWrite

variable {σ ο ν : Type*} {step : σ → ο → Option σ}

/-- The last operation of a run that writes anything writes this. -/
def LastWrite (step : σ → ο → Option σ) (W : σ → ο → ν → Prop) (s : σ) (os : List ο) (v : ν) :
    Prop :=
  ∃ before o after s₁ s₂, os = before ++ o :: after ∧ before.foldlM step s = some s₁ ∧
    W s₁ o v ∧ step s₁ o = some s₂ ∧ Guarded step (fun s o => ∀ v, ¬ W s o v) s₂ after

variable {W : σ → ο → ν → Prop} {s s' : σ} {os : List ο} {v : ν}

theorem LastWrite.cons {o : ο} (hstep : step s o = some s') (h : LastWrite step W s' os v) :
    LastWrite step W s (o :: os) v := by
  obtain ⟨before, o₁, after, s₁, s₂, rfl, hbefore, hwrite⟩ := h
  refine ⟨o :: before, o₁, after, s₁, s₂, rfl, ?_, hwrite⟩
  rw [List.foldlM_cons, hstep]
  exact hbefore

/-- Steps that keep an invariant, and leave in a place what they write there, or else what they
find there: in the end it holds what the last write has left, or else what it held in the
beginning. -/
theorem last_write {Inv : σ → Prop} (view : σ → ν)
    (hstep : ∀ s o s', Inv s → step s o = some s' →
      Inv s' ∧ (W s o (view s') ∨ (∀ v, ¬ W s o v) ∧ view s' = view s))
    (hs : Inv s) (h : os.foldlM step s = some s') :
    LastWrite step W s os (view s') ∨
      Guarded step (fun s o => ∀ v, ¬ W s o v) s os ∧ view s' = view s := by
  induction os generalizing s with
  | nil =>
      cases h
      exact .inr ⟨trivial, rfl⟩
  | cons o os ih =>
      rw [List.foldlM_cons] at h
      obtain ⟨s₁, hs₁, hrest⟩ := Option.bind_eq_some_iff.mp h
      obtain ⟨hinv, hview₁⟩ := hstep s o s₁ hs hs₁
      rcases ih hinv hrest with hlast | ⟨hnone, hview⟩
      · exact .inl (hlast.cons hs₁)
      · rcases hview₁ with hwrite | ⟨hno, hkeep⟩
        · rw [hview]
          exact .inl ⟨[], o, os, s, s₁, rfl, rfl, hwrite, hs₁, hnone⟩
        · refine .inr ⟨⟨hno, fun s₂ hs₂ => ?_⟩, hview.trans hkeep⟩
          obtain rfl : s₁ = s₂ := Option.some.inj (hs₁.symm.trans hs₂)
          exact hnone

end LastWrite

end CLib
