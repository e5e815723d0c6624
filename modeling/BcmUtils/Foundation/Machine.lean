import Mathlib.Tactic

/-! # Machines whose steps may fault

A step function returns `none` when the step faults. A run is safe when no step
faults and every step establishes what is asked of it; it is guarded when every
step meets a condition in the state before it. -/

namespace CLib

variable {σ ο : Type*} (step : σ → ο → Option σ)

/-- Every operation of the run meets the condition in the state where it is applied. -/
def Guarded (G : σ → ο → Prop) : σ → List ο → Prop
  | _, [] => True
  | s, o :: os => G s o ∧ ∀ s', step s o = some s' → Guarded G s' os

/-- No operation of the run faults, and each leaves a state as `Q` demands. -/
def Safe (Q : σ → ο → σ → Prop) : σ → List ο → Prop
  | _, [] => True
  | s, o :: os => ∃ s', step s o = some s' ∧ Q s o s' ∧ Safe Q s' os

variable {step} {Q : σ → ο → σ → Prop}

theorem guarded_congr {G G' : σ → ο → Prop} (h : ∀ s o, G s o ↔ G' s o) (s : σ) (os : List ο) :
    Guarded step G s os ↔ Guarded step G' s os := by
  induction os generalizing s with
  | nil => exact Iff.rfl
  | cons o os ih => exact and_congr (h s o) (forall_congr' fun s' => imp_congr_right fun _ => ih s')

theorem Guarded.and_of_forall {G : σ → ο → Prop} {W : ο → Prop} {s : σ} {os : List ο}
    (hg : Guarded step G s os) (hw : ∀ o ∈ os, W o) :
    Guarded step (fun s o => W o ∧ G s o) s os := by
  induction os generalizing s with
  | nil => trivial
  | cons o os ih =>
      refine ⟨⟨hw o (by simp), hg.1⟩, fun s' hs' => ?_⟩
      exact ih (hg.2 s' hs') fun o' ho' => hw o' (by simp [ho'])

/-- An invariant that every guarded step keeps makes every guarded run safe. -/
theorem safe_of_guarded {G : σ → ο → Prop} (Inv : σ → Prop)
    (hstep : ∀ s o, Inv s → G s o → ∃ s', step s o = some s' ∧ Q s o s' ∧ Inv s')
    {s : σ} (hs : Inv s) {os : List ο} (hg : Guarded step G s os) : Safe step Q s os := by
  induction os generalizing s with
  | nil => trivial
  | cons o os ih =>
      obtain ⟨s', hs', hq, hinv⟩ := hstep s o hs hg.1
      exact ⟨s', hs', hq, ih hinv (hg.2 s' hs')⟩

/-- If a step does what is asked exactly when it meets the condition, a run is safe exactly when
it is guarded. -/
theorem safe_iff_guarded {G : σ → ο → Prop} (Inv : σ → Prop)
    (hstep : ∀ s o, Inv s → ∃ s', step s o = some s' ∧ Inv s' ∧ (Q s o s' ↔ G s o))
    {s : σ} (hs : Inv s) (os : List ο) : Safe step Q s os ↔ Guarded step G s os := by
  induction os generalizing s with
  | nil => exact Iff.rfl
  | cons o os ih =>
      obtain ⟨s', hs', hinv, hiff⟩ := hstep s o hs
      constructor
      · rintro ⟨t, ht, hq, hrest⟩
        obtain rfl : s' = t := Option.some.inj (hs'.symm.trans ht)
        refine ⟨hiff.mp hq, fun u hu => ?_⟩
        obtain rfl : s' = u := Option.some.inj (hs'.symm.trans hu)
        exact (ih hinv).mp hrest
      · rintro ⟨hg, hrest⟩
        exact ⟨s', hs', hiff.mpr hg, (ih hinv).mpr (hrest s' hs')⟩

/-- A safe run can be carried out to its end. -/
theorem Safe.isSome_foldlM {s : σ} {os : List ο} (h : Safe step Q s os) :
    (os.foldlM step s).isSome := by
  induction os generalizing s with
  | nil => rfl
  | cons o os ih =>
      obtain ⟨s', hs', -, hrest⟩ := h
      rw [List.foldlM_cons, hs']
      exact ih hrest

end CLib
