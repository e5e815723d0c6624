import BcmUtils.Verification.PortList.Encoding
import Mathlib.Data.Nat.Log

/-! # Lengths of port lists -/

namespace BcmUtils.PortList

open CLib

/-- The number of decimal digits of a number. -/
def decimalWidth (n : ℕ) : ℕ := Nat.log 10 n + 1

theorem length_printNat (n : ℕ) : (printNat n).length = decimalWidth n := by
  induction n using Nat.strongRecOn with
  | ind n ih =>
      rw [printNat_eq, List.length_append, List.length_singleton]
      split
      · rename_i hn
        simp [decimalWidth, Nat.log_of_lt hn]
      · rename_i hn
        have hlog := Nat.log_of_one_lt_of_le (b := 10) (n := n) (by omega) (by omega)
        rw [ih (n / 10) (by omega), decimalWidth, decimalWidth, hlog]

/-- The width of a run: its first port, and its last one behind a hyphen. -/
def runWidth (r : ℕ × ℕ) : ℕ :=
  decimalWidth r.1 + if r.1 = r.2 then 0 else 1 + decimalWidth r.2

/-- The width of a port list: its runs and the commas between them. -/
def portListWidth (B : Build) (m : PortMap) : ℕ :=
  ((runs m.getLsbD B.PNUM).map runWidth).sum + ((runs m.getLsbD B.PNUM).length - 1)

theorem length_renderRun (r : ℕ × ℕ) : (renderRun r).length = runWidth r := by
  unfold renderRun runWidth
  split
  · simp [length_printNat]
  · simp only [List.length_append, List.length_cons, length_printNat]
    omega

theorem length_renderRuns (rs : List (ℕ × ℕ)) :
    (renderRuns rs).length = (rs.map runWidth).sum + (rs.length - 1) := by
  induction rs using List.reverseRecOn with
  | nil => rfl
  | append_singleton rs r ih =>
      rw [renderRuns_concat, List.length_append, List.length_append, ih, length_renderRun,
        List.map_append, List.sum_append, List.length_append]
      by_cases h : rs = []
      · simp [h]
      · have hpos := List.length_pos_of_ne_nil h
        simp only [h, ite_false, List.length_singleton, List.map_singleton, List.sum_singleton]
        omega

theorem length_bit2str (B : Build) (m : PortMap) : (bit2str B m).length = portListWidth B m := by
  rw [bit2str_eq, length_renderRuns, portListWidth]

theorem portListWidth_of_runs_nil {B : Build} {m : PortMap} (h : runs m.getLsbD B.PNUM = []) :
    portListWidth B m = 0 := by
  simp [portListWidth, h]

theorem sum_map_le {α : Type*} (f g : α → ℕ) (l : List α) (h : ∀ a ∈ l, f a ≤ g a) :
    (l.map f).sum ≤ (l.map g).sum := List.sum_le_sum h

theorem sum_map_add_one {α : Type*} (f : α → ℕ) (l : List α) :
    (l.map fun a => f a + 1).sum = (l.map f).sum + l.length := by
  rw [List.sum_map_add]
  simp

/-- The width is bounded by twice the sum of what the runs and their commas need. -/
theorem portListWidth_le_of_runs {B : Build} {m : PortMap} {need : ℕ × ℕ → ℕ} {total : ℕ}
    (hrun : ∀ r ∈ runs m.getLsbD B.PNUM, runWidth r + 1 ≤ 2 * need r)
    (htotal : ((runs m.getLsbD B.PNUM).map need).sum ≤ total) :
    portListWidth B m ≤ 2 * total - 1 := by
  have hsum := sum_map_le _ _ _ hrun
  rw [sum_map_add_one, List.sum_map_mul_left] at hsum
  by_cases hnil : runs m.getLsbD B.PNUM = []
  · rw [portListWidth_of_runs_nil hnil]
    omega
  · have hpos := List.length_pos_of_ne_nil hnil
    unfold portListWidth
    omega

/-- With numbers of at most two digits, a run and a comma need two characters for
each of its ports and for the gap after it. -/
theorem portListWidth_le (B : Build) (m : PortMap) : portListWidth B m ≤ 2 * B.PNUM + 1 := by
  have hB := B.le_phy
  have hrun : ∀ r ∈ runs m.getLsbD B.PNUM, runWidth r + 1 ≤ 2 * (r.2 - r.1 + 2) := by
    intro r hr
    have hb := mem_runs_bounds hr
    have h₁ := length_printNat_le (n := r.1) (k := 2) (by omega) (by omega)
    have h₂ := length_printNat_le (n := r.2) (k := 2) (by omega) (by omega)
    rw [length_printNat] at h₁ h₂
    unfold runWidth
    split <;> omega
  exact (portListWidth_le_of_runs hrun (sum_span_runs_le B.PNUM)).trans (by omega)

/-- With one-digit port numbers, two characters for each port are enough. -/
theorem portListWidth_le_of_lt_ten (B : Build) (m : PortMap) (hB : B.PNUM < 10) :
    portListWidth B m ≤ 2 * B.PNUM - 1 := by
  have hrun : ∀ r ∈ runs m.getLsbD B.PNUM, runWidth r + 1 ≤ 2 * (r.2 - r.1 + 1) := by
    intro r hr
    have hb := mem_runs_bounds hr
    have h₁ := length_printNat_le (n := r.1) (k := 1) (by omega) (by omega)
    have h₂ := length_printNat_le (n := r.2) (k := 1) (by omega) (by omega)
    rw [length_printNat] at h₁ h₂
    unfold runWidth
    split <;> omega
  exact portListWidth_le_of_runs hrun (sum_length_runs_le B.PNUM)

/-- A port list fits the block that `bit2str` allocates, and every array it is copied to. -/
theorem length_bit2str_le (B : Build) (m : PortMap) : (bit2str B m).length ≤ 57 := by
  have := portListWidth_le B m
  have := B.le_phy
  rw [length_bit2str]
  omega

end BcmUtils.PortList
