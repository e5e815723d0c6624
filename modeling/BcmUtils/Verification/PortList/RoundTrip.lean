import BcmUtils.Verification.PortList.Encoding

/-! # Reading port lists back

`str2bit` sets the ports of every listed range, so it recovers the map that
`bit2str` wrote, without the bits that are no ports. -/

namespace BcmUtils.PortList

open CLib

/-! ## The bits set by `str2bit` -/

theorem setBits_loop (val : PortMap) (min : ℤ) (n : ℕ) (h : min + n ≤ 64) :
    ∃ w, (List.range n).foldlM
        (fun (v : PortMap) (j : ℕ) =>
          if 0 < min + j then
            if min + j < 64 then some (v ||| 1#64 <<< (min + j).toNat) else none
          else some v) val = some w ∧
      ∀ k < 64, w.getLsbD k =
        (val.getLsbD k || decide (0 < k ∧ min ≤ k ∧ (k : ℤ) < min + n)) := by
  induction n with
  | zero =>
      refine ⟨val, rfl, ?_⟩
      intro k _
      have : ¬ (0 < k ∧ min ≤ k ∧ (k : ℤ) < min + (0 : ℕ)) := by omega
      rw [decide_eq_false this, Bool.or_false]
  | succ n ih =>
      obtain ⟨w, hw, hbits⟩ := ih (by omega)
      rw [List.range_succ, List.foldlM_append, hw]
      by_cases hpos : 0 < min + n
      · refine ⟨w ||| 1#64 <<< (min + n).toNat, ?_, ?_⟩
        · simp [hpos, show min + (n : ℤ) < 64 by omega]
        · intro k hk
          rw [BitVec.getLsbD_or, hbits k hk, BitVec.getLsbD_shiftLeft]
          have hone : (1#64).getLsbD (k - (min + n).toNat) =
              decide (k ≤ (min + n).toNat) := by
            rw [BitVec.getLsbD_one]
            simp [Nat.sub_eq_zero_iff_le]
          rw [hone, Bool.or_assoc]
          congr 1
          rw [Bool.eq_iff_iff]
          simp only [Bool.or_eq_true, Bool.and_eq_true, decide_eq_true_eq, Bool.not_eq_true',
            decide_eq_false_iff_not]
          push_cast
          omega
      · refine ⟨w, by simp [hpos], ?_⟩
        intro k hk
        rw [hbits k hk]
        congr 1
        rw [decide_eq_decide]
        push_cast
        omega

/-- The bits of a range below 64 are added; bit 0 is never set. -/
theorem setBits_spec (val : PortMap) (min max : ℤ) (h : max < 64) :
    ∃ w, setBits val min max = some w ∧
      ∀ k < 64, w.getLsbD k = (val.getLsbD k || decide (0 < k ∧ min ≤ k ∧ (k : ℤ) ≤ max)) := by
  by_cases hle : min ≤ max + 1
  · obtain ⟨w, hw, hbits⟩ := setBits_loop val min (max - min + 1).toNat (by omega)
    refine ⟨w, ?_, fun k hk => ?_⟩
    · rw [setBits]
      exact hw
    · rw [hbits k hk]
      congr 1
      rw [decide_eq_decide]
      omega
  · refine ⟨val, ?_, fun k hk => ?_⟩
    · rw [setBits, show (max - min + 1).toNat = 0 by omega]
      rfl
    · have : ¬ (0 < k ∧ min ≤ k ∧ (k : ℤ) ≤ max) := by omega
      simp [this]

/-- The union of the listed ranges, as `str2bit` collects it. -/
theorem foldlM_setBits_spec {α : Type*} (range : α → ℤ × ℤ) (items : List α)
    (h : ∀ x ∈ items, (range x).2 < 64) (val : PortMap) :
    ∃ w, items.foldlM (fun v x => setBits v (range x).1 (range x).2) val = some w ∧
      ∀ k < 64, w.getLsbD k =
        (val.getLsbD k ||
          decide (0 < k ∧ ∃ x ∈ items, (range x).1 ≤ k ∧ (k : ℤ) ≤ (range x).2)) := by
  induction items generalizing val with
  | nil => exact ⟨val, rfl, by simp⟩
  | cons x items ih =>
      obtain ⟨v, hv, hvbits⟩ := setBits_spec val (range x).1 (range x).2 (h x (by simp))
      obtain ⟨w, hw, hwbits⟩ := ih (fun y hy => h y (by simp [hy])) v
      refine ⟨w, ?_, fun k hk => ?_⟩
      · rw [List.foldlM_cons, hv]
        exact hw
      · rw [hwbits k hk, hvbits k hk, Bool.or_assoc]
        congr 1
        rw [Bool.eq_iff_iff]
        simp only [Bool.or_eq_true, decide_eq_true_eq, List.mem_cons, exists_eq_or_imp]
        constructor
        · rintro (⟨hk, hx⟩ | ⟨hk, hx⟩)
          · exact ⟨hk, Or.inl hx⟩
          · exact ⟨hk, Or.inr hx⟩
        · rintro ⟨hk, hx | hx⟩
          · exact Or.inl ⟨hk, hx⟩
          · exact Or.inr ⟨hk, hx⟩

/-- What `str2bit` stores for a list of at most `PNUM` items of at most seven
characters, with values below 64. -/
theorem str2bit_spec (B : Build) {input : CStr}
    (hlen : (input.splitOn (chr ',')).length ≤ B.PNUM)
    (hitem : ∀ x ∈ input.splitOn (chr ','), x.length < 8 ∧ (0 : Byte) ∉ x)
    (hmax : ∀ x ∈ input.splitOn (chr ','), (itemRange x).2 < 64) :
    ∃ w, str2bit B input = some w ∧
      ∀ k < 64, w.getLsbD k =
        decide (0 < k ∧
          ∃ x ∈ input.splitOn (chr ','), (itemRange x).1 ≤ k ∧ (k : ℤ) ≤ (itemRange x).2) := by
  obtain ⟨w, hw, hbits⟩ := foldlM_setBits_spec itemRange (input.splitOn (chr ',')) hmax 0
  refine ⟨w, ?_, fun k hk => ?_⟩
  · rw [str2bit, splitRows_eq hlen hitem]
    exact hw
  · rw [hbits k hk]
    simp

/-! ## The items of a port list -/

theorem not_mem_renderRun {c : Byte} (hc : isDigit c = false) (hm : c ≠ chr '-') (r : ℕ × ℕ) :
    c ∉ renderRun r := by
  unfold renderRun
  split
  · exact not_mem_printNat hc _
  · simp [not_mem_printNat hc, hm]

theorem not_mem_renderRuns {c : Byte} (hc : isDigit c = false) (hm : c ≠ chr '-')
    (hs : c ≠ chr ',') (rs : List (ℕ × ℕ)) : c ∉ renderRuns rs := by
  induction rs using List.reverseRecOn with
  | nil => simp
  | append_singleton rs r ih =>
      rw [renderRuns_concat]
      split <;> simp [ih, not_mem_renderRun hc hm, hs]

/-- The ports of a build print in at most two digits, so an item has at most five
characters. -/
theorem length_renderRun_le {r : ℕ × ℕ} (h₁ : r.1 < 100) (h₂ : r.2 < 100) :
    (renderRun r).length ≤ 5 := by
  have hl := length_printNat_le (n := r.1) (k := 2) (by omega) (by omega)
  have hr := length_printNat_le (n := r.2) (k := 2) (by omega) (by omega)
  unfold renderRun
  split
  · omega
  · simp only [List.length_append, List.length_cons]
    omega

theorem itemRange_renderRun {r : ℕ × ℕ} (h₁ : r.1 < 100) (h₂ : r.2 < 100) :
    itemRange (renderRun r) = ((r.1 : ℤ), (r.2 : ℤ)) := by
  have hi₁ : IsInt (r.1 : ℤ) := by simp only [IsInt, intMin, intMax]; omega
  have hi₂ : IsInt (r.2 : ℤ) := by simp only [IsInt, intMin, intMax]; omega
  have hm : isDigit (chr '-') = false := by decide
  unfold renderRun
  split
  · rename_i he
    rw [itemRange, strchr_eq_none.mpr (not_mem_printNat hm _), ← he, atoi_printNat hi₁]
  · rw [itemRange, strchr_append_cons (not_mem_printNat hm _)]
    simp only [List.tail_cons]
    rw [atoi_printNat_append hi₁ (by simp [hm]), atoi_printNat hi₂]

theorem splitOn_renderRuns (rs : List (ℕ × ℕ)) :
    (renderRuns rs).splitOn (chr ',') = if rs = [] then [[]] else rs.map renderRun := by
  split
  · rename_i h
    simp [h]
  · rename_i h
    exact splitOn_intercalate_map h fun r _ => not_mem_renderRun (by decide) (by decide) r

theorem itemRange_nil : itemRange [] = (0, 0) := rfl

/-- The items of a written port list: at most `PNUM`, short, and with the ports of
the runs as their bounds. -/
theorem splitOn_bit2str (B : Build) (m : PortMap) :
    ((bit2str B m).splitOn (chr ',')).length ≤ B.PNUM ∧
      ∀ x ∈ (bit2str B m).splitOn (chr ','), x.length ≤ 5 ∧ (0 : Byte) ∉ x ∧
        (x = [] ∨ ∃ r ∈ runs m.getLsbD B.PNUM, x = renderRun r ∧ itemRange x = ((r.1 : ℤ), (r.2 : ℤ))) := by
  have hB₁ := B.one_le
  have hB₂ := B.le_phy
  rw [bit2str_eq, splitOn_renderRuns]
  split
  · refine ⟨by simpa using hB₁, ?_⟩
    intro x hx
    rw [List.mem_singleton] at hx
    subst hx
    exact ⟨by simp, by simp, Or.inl rfl⟩
  · refine ⟨by simpa using length_runs_le (p := m.getLsbD) B.PNUM, ?_⟩
    intro x hx
    obtain ⟨r, hr, rfl⟩ := List.mem_map.mp hx
    have hb := mem_runs_bounds hr
    exact ⟨length_renderRun_le (by omega) (by omega),
      not_mem_renderRun (by decide) (by decide) r,
      Or.inr ⟨r, hr, rfl, itemRange_renderRun (by omega) (by omega)⟩⟩

/-! ## The round trip -/

theorem getLsbD_restrictPorts (B : Build) (m : PortMap) {k : ℕ} (hk : k < 64) :
    (restrictPorts B m).getLsbD k = (m.getLsbD k && decide (1 ≤ k ∧ k ≤ B.PNUM)) := by
  rw [restrictPorts, BitVec.getLsbD_and, BitVec.getLsbD_ofNat]
  congr 1
  have hpow : 2 ^ (B.PNUM + 1) - 2 = 2 ^ 1 * (2 ^ B.PNUM - 1) := by
    rw [Nat.pow_succ, Nat.mul_sub]
    omega
  rw [hpow, Nat.testBit_two_pow_mul, Nat.testBit_two_pow_sub_one]
  rw [Bool.eq_iff_iff]
  simp only [Bool.and_eq_true, decide_eq_true_eq]
  omega

theorem exists_range_bit2str (B : Build) (m : PortMap) {k : ℕ} (hk : 0 < k) :
    (∃ x ∈ (bit2str B m).splitOn (chr ','), (itemRange x).1 ≤ k ∧ (k : ℤ) ≤ (itemRange x).2) ↔
      ∃ r ∈ runs m.getLsbD B.PNUM, InRange r k := by
  constructor
  · rintro ⟨x, hx, h⟩
    obtain ⟨-, -, rfl | ⟨r, hr, -, hxr⟩⟩ := (splitOn_bit2str B m).2 x hx
    · simp only [itemRange_nil] at h
      omega
    · refine ⟨r, hr, ?_⟩
      rw [hxr] at h
      simpa [InRange] using h
  · rintro ⟨r, hr, h⟩
    have hb := mem_runs_bounds hr
    have hB := B.le_phy
    refine ⟨renderRun r, ?_, ?_⟩
    · rw [bit2str_eq, splitOn_renderRuns, if_neg (List.ne_nil_of_mem hr)]
      exact List.mem_map_of_mem hr
    · rw [itemRange_renderRun (by omega) (by omega)]
      simpa [InRange] using h

/-- Reading a written port list recovers the map within the ports of the build. -/
theorem str2bit_bit2str_eq (B : Build) (m : PortMap) :
    str2bit B (bit2str B m) = some (restrictPorts B m) := by
  have hitems := splitOn_bit2str B m
  obtain ⟨w, hw, hbits⟩ := str2bit_spec B hitems.1
    (fun x hx => ⟨by have := (hitems.2 x hx).1; omega, (hitems.2 x hx).2.1⟩)
    (by
      intro x hx
      obtain ⟨-, -, rfl | ⟨r, hr, -, hxr⟩⟩ := hitems.2 x hx
      · decide
      · have hb := mem_runs_bounds hr
        have hB := B.le_phy
        rw [hxr]
        simp only
        omega)
  rw [hw, Option.some.injEq]
  apply BitVec.eq_of_getLsbD_eq
  intro k hk
  rw [hbits k hk, getLsbD_restrictPorts B m hk, Bool.eq_iff_iff]
  simp only [decide_eq_true_eq, Bool.and_eq_true]
  constructor
  · rintro ⟨hpos, hx⟩
    have := exists_mem_runs.mp ((exists_range_bit2str B m hpos).mp hx)
    exact ⟨this.2.2, this.1, this.2.1⟩
  · rintro ⟨hp, h₁, h₂⟩
    exact ⟨h₁, (exists_range_bit2str B m h₁).mpr (exists_mem_runs.mpr ⟨h₁, h₂, hp⟩)⟩

/-- A port map survives being written and read, up to the bits that are no ports, and
its text stays within the rows of the reader. -/
theorem port_list_round_trip (B : Build) (m : PortMap) :
    (∃ w, str2bit B (bit2str B m) = some w ∧
      ∀ k < 64, w.getLsbD k = (m.getLsbD k && decide (1 ≤ k ∧ k ≤ B.PNUM))) ∧
    ((bit2str B m).splitOn (chr ',')).length ≤ B.PNUM ∧
    ∀ x ∈ (bit2str B m).splitOn (chr ','), x.length ≤ 7 := by
  obtain ⟨hcount, hitems⟩ := splitOn_bit2str B m
  refine ⟨⟨_, str2bit_bit2str_eq B m, fun k hk => getLsbD_restrictPorts B m hk⟩, hcount, ?_⟩
  intro x hx
  exact (hitems x hx).1.trans (by omega)

end BcmUtils.PortList
