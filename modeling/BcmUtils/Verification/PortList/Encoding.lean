import BcmUtils.Foundation.Joined
import BcmUtils.Foundation.Ranges
import BcmUtils.Model.PortList

/-! # The text written by `bit2str`

The loop appends a run when it meets the first port of it and completes the text
when the run ends. The invariant relates a half-written run to the maximal runs
of the ports seen so far. -/

namespace BcmUtils.PortList

open CLib

/-- The text of one run of ports. -/
def renderRun (r : ℕ × ℕ) : CStr :=
  if r.1 = r.2 then printNat r.1 else printNat r.1 ++ chr '-' :: printNat r.2

/-- A port list: the runs joined by commas. -/
def renderRuns (rs : List (ℕ × ℕ)) : CStr := [chr ','].intercalate (rs.map renderRun)

theorem phy_succ_of_lt {B : Build} {i : ℕ} (h : i < B.PNUM) : phy (i + 1) = i + 1 := by
  have := B.le_phy
  rw [phy, if_pos (by omega)]

@[simp] theorem renderRuns_nil : renderRuns [] = [] := rfl

theorem renderRuns_concat (rs : List (ℕ × ℕ)) (r : ℕ × ℕ) :
    renderRuns (rs ++ [r]) =
      renderRuns rs ++ ((if rs = [] then [] else [chr ',']) ++ renderRun r) := by
  by_cases h : rs = []
  · simp [h, renderRuns]
  · rw [renderRuns, List.map_append, List.map_singleton, intercalate_concat (by simpa using h),
      if_neg h]
    rfl

/-- A run is written by its first port and completed by its last one. -/
theorem renderRuns_complete {lo hi : ℕ} (h : lo ≠ hi) (rs : List (ℕ × ℕ)) :
    renderRuns (rs ++ [(lo, lo)]) ++ chr '-' :: printNat hi = renderRuns (rs ++ [(lo, hi)]) := by
  simp [renderRuns_concat, renderRun, h, List.append_assoc]

/-! ## The loop invariant -/

/-- After the ports `1..i`, either every run is closed, or the last run is open and
only its first port is written. -/
inductive LoopInv (maps : PortMap) (i : ℕ) (st : Bit2strState) : Prop
  | closed (hlast : st.lastis = false) (htcount : st.tcount = 0)
      (hcount : st.count = 0 ↔ runsRev maps.getLsbD i = [])
      (hport : i = 0 ∨ maps.getLsbD i = false)
      (htext : st.portstr = renderRuns (runs maps.getLsbD i))
  | opened (lo : ℕ) (rs : List (ℕ × ℕ)) (hlast : st.lastis = true)
      (htcount : st.tcount + lo = i + 1) (hcount : st.count ≠ 0)
      (hruns : runsRev maps.getLsbD i = (lo, i) :: rs)
      (htext : st.portstr = renderRuns (rs.reverse ++ [(lo, lo)]))

theorem loopInv_init (maps : PortMap) : LoopInv maps 0 {} :=
  .closed rfl rfl (by simp [runsRev]) (Or.inl rfl) rfl

/-- A port outside the map closes the open run. -/
theorem loopInv_absent {maps : PortMap} {i : ℕ} {st : Bit2strState} (h : LoopInv maps i st)
    (hp : maps.getLsbD (i + 1) = false) :
    LoopInv maps (i + 1)
      { portstr := if st.lastis = true ∧ st.tcount > 1 then st.portstr ++ chr '-' :: printNat i
          else st.portstr
        lastis := false, tcount := 0, count := st.count } := by
  have hruns : runsRev maps.getLsbD (i + 1) = runsRev maps.getLsbD i := runsRev_succ_of_neg hp
  cases h with
  | closed hlast _ hcount _ htext =>
      exact .closed rfl rfl (by rw [hruns]; exact hcount) (Or.inr hp)
        (by simp [hlast, htext, runs, hruns])
  | opened lo rs hlast htcount hcount hrs htext =>
      refine .closed rfl rfl ?_ (Or.inr hp) ?_
      · rw [hruns, hrs]
        simp [hcount]
      · simp only [hlast, true_and, runs, hruns, hrs, List.reverse_cons]
        by_cases hlo : lo = i
        · subst hlo
          simp only [htext]
          rw [if_neg (by omega)]
        · have hb := runsRev_bounds (p := maps.getLsbD) (n := i) (r := (lo, i)) (by simp [hrs])
          simp only at hb
          rw [if_pos (by omega), htext, renderRuns_complete hlo]

/-- The first port of a run writes its number. -/
theorem loopInv_start {maps : PortMap} {i : ℕ} {st : Bit2strState} (h : LoopInv maps i st)
    (hp : maps.getLsbD (i + 1) = true) (hlast : st.lastis = false) :
    LoopInv maps (i + 1)
      { portstr := st.portstr ++ ((if st.count = 0 then [] else [chr ',']) ++ printNat (i + 1))
        lastis := true, tcount := st.tcount + 1, count := st.count + 1 } := by
  cases h with
  | opened lo rs hl => simp [hlast] at hl
  | closed _ htcount hcount hport htext =>
      have hruns : runsRev maps.getLsbD (i + 1) = (i + 1, i + 1) :: runsRev maps.getLsbD i := by
        rw [runsRev_succ_of_pos hp, growRun_of_not_member hport]
      refine .opened (i + 1) (runsRev maps.getLsbD i) rfl (by simp [htcount]; omega) (by simp)
        hruns ?_
      simp only [htext, renderRuns_concat, renderRun, hcount, List.reverse_eq_nil_iff, runs,
        ite_true]

/-- Later ports of a run write nothing. -/
theorem loopInv_continue {maps : PortMap} {i : ℕ} {st : Bit2strState} (h : LoopInv maps i st)
    (hp : maps.getLsbD (i + 1) = true) (hlast : st.lastis = true) :
    LoopInv maps (i + 1)
      { st with lastis := true, tcount := st.tcount + 1, count := st.count + 1 } := by
  cases h with
  | closed hl => simp [hlast] at hl
  | opened lo rs _ htcount _ hrs htext =>
      refine .opened lo rs rfl (by simp only; omega) (by simp) ?_ htext
      rw [runsRev_succ_of_pos hp, hrs]
      simp [growRun]

/-- The last port completes the open run. -/
theorem loopInv_last {maps : PortMap} {i : ℕ} {st : Bit2strState} (h : LoopInv maps i st)
    (hp : maps.getLsbD (i + 1) = true) (hlast : st.lastis = true) :
    st.portstr ++ chr '-' :: printNat (i + 1) = renderRuns (runs maps.getLsbD (i + 1)) := by
  cases h with
  | closed hl => simp [hlast] at hl
  | opened lo rs _ htcount _ hrs htext =>
      have hb := runsRev_bounds (p := maps.getLsbD) (n := i) (r := (lo, i)) (by simp [hrs])
      simp only at hb
      rw [htext, renderRuns_complete (by omega), runs, runsRev_succ_of_pos hp, hrs]
      simp [growRun]

/-- When the loop ends without `break`, an open run consists of the last port alone. -/
theorem loopInv_exit {maps : PortMap} {i : ℕ} {st : Bit2strState} (h : LoopInv maps i st)
    (hlast : st.lastis = true → st.tcount ≤ 1) :
    st.portstr = renderRuns (runs maps.getLsbD i) := by
  cases h with
  | closed _ _ _ _ htext => exact htext
  | opened lo rs hl htcount _ hrs htext =>
      have hb := runsRev_bounds (p := maps.getLsbD) (n := i) (r := (lo, i)) (by simp [hrs])
      simp only at hb
      obtain rfl : lo = i := by
        have := hlast hl
        omega
      rw [htext, runs, hrs, List.reverse_cons]

theorem bit2strLoop_text {B : Build} {maps : PortMap} (fuel : ℕ) {i : ℕ} {st : Bit2strState}
    (hi : i + fuel = B.PNUM) (h : LoopInv maps i st)
    (hlast : fuel = 0 → st.lastis = true → st.tcount ≤ 1) :
    (bit2strLoop B maps fuel i st).portstr = renderRuns (runs maps.getLsbD B.PNUM) := by
  induction fuel generalizing i st with
  | zero =>
      obtain rfl : i = B.PNUM := hi
      exact loopInv_exit h (hlast rfl)
  | succ fuel ih =>
      have hphy : phy (i + 1) = i + 1 := phy_succ_of_lt (B := B) (by omega)
      rw [bit2strLoop, hphy]
      by_cases hp : maps.getLsbD (i + 1) = true
      · rw [if_pos hp]
        by_cases hl : st.lastis = false
        · rw [if_pos hl]
          apply ih (by omega) (loopInv_start h hp hl)
          intro _ _
          cases h with
          | closed _ htcount => simp [htcount]
          | opened _ _ hl' => simp [hl] at hl'
        · rw [if_neg hl]
          have hl' : st.lastis = true := by simpa using hl
          by_cases hend : i = B.PNUM - 1
          · rw [if_pos hend, ← show i + 1 = B.PNUM by omega]
            exact loopInv_last h hp hl'
          · rw [if_neg hend]
            exact ih (by omega) (loopInv_continue h hp hl') (by omega)
      · rw [if_neg hp]
        exact ih (by omega) (loopInv_absent h (by simpa using hp)) (by simp)

/-- `bit2str` writes the maximal runs of the ports `1..PNUM` in the map. -/
theorem bit2str_eq (B : Build) (maps : PortMap) :
    bit2str B maps = renderRuns (runs maps.getLsbD B.PNUM) :=
  bit2strLoop_text B.PNUM (by simp) (loopInv_init maps) (by simp)

end BcmUtils.PortList
