import BcmUtils.Model.PortMaps
import BcmUtils.Verification.PortList.RoundTrip

/-! # Agreement of the port map converters

The flags `s[0]`, `s[1]`, ... stand for the ports 1, 2, ..., whichever way they take. -/

namespace BcmUtils.PortMaps

open CLib PortList

/-! ## Collected bits -/

theorem getLsbD_one_shiftLeft {n k : ℕ} (hn : n < 64) :
    (1#64 <<< n).getLsbD k = decide (n = k) := by
  rw [BitVec.getLsbD_shiftLeft, BitVec.getLsbD_one, Bool.eq_iff_iff]
  simp only [Bool.and_eq_true, Bool.not_eq_true', decide_eq_true_eq, decide_eq_false_iff_not]
  omega

theorem getLsbD_foldl_set {indices : List ℕ} {set : ℕ → Bool} {bit : ℕ → ℕ}
    (hbit : ∀ i ∈ indices, bit i < 64) (value : PortMap) (k : ℕ) :
    (indices.foldl (fun value i => if set i then value ||| 1#64 <<< bit i else value)
        value).getLsbD k =
      (value.getLsbD k || indices.any fun i => set i && decide (bit i = k)) := by
  induction indices generalizing value with
  | nil => simp
  | cons i indices ih =>
      have hi := hbit i List.mem_cons_self
      rw [List.foldl_cons, ih fun j hj => hbit j (List.mem_cons_of_mem _ hj), List.any_cons,
        ← Bool.or_assoc]
      congr 1
      cases set i with
      | false => simp
      | true => simp [getLsbD_one_shiftLeft hi]

/-- The collected bits are those of the indices at which `set` holds. -/
theorem getLsbD_collectBits {indices : List ℕ} {set : ℕ → Bool} {bit : ℕ → ℕ}
    (hbit : ∀ i ∈ indices, bit i < 64) (k : ℕ) :
    (collectBits indices set bit).getLsbD k =
      indices.any fun i => set i && decide (bit i = k) := by
  rw [collectBits, getLsbD_foldl_set hbit]
  simp

theorem collectBits_congr {indices : List ℕ} {set set' : ℕ → Bool} {bit : ℕ → ℕ}
    (hbit : ∀ i ∈ indices, bit i < 64) (h : ∀ i ∈ indices, set i = set' i) :
    collectBits indices set bit = collectBits indices set' bit := by
  apply BitVec.eq_of_getLsbD_eq
  intro k _
  rw [getLsbD_collectBits hbit, getLsbD_collectBits hbit, Bool.eq_iff_iff, List.any_eq_true,
    List.any_eq_true]
  constructor
  · rintro ⟨i, hi, hset⟩
    exact ⟨i, hi, by rwa [← h i hi]⟩
  · rintro ⟨i, hi, hset⟩
    exact ⟨i, hi, by rwa [h i hi]⟩

/-! ## The table -/

theorem phy_of_le {i : ℕ} (h : i ≤ 28) : phy i = i := if_pos h

theorem phy_lt (i : ℕ) : phy i < 64 := by
  unfold phy
  split <;> omega

/-! ## Flags -/

/-- The flag at index `i`, as `str2phy_64` tests it. -/
def flag (s : CStr) (i : ℕ) : Bool := s[i]? = some (chr '1')

/-- The port is one whose flag is set. -/
def Flagged (B : Build) (s : CStr) (p : ℕ) : Prop :=
  1 ≤ p ∧ p ≤ B.PNUM ∧ s[p - 1]? = some (chr '1')

/-- The physical map of the flags. -/
def phyMap (B : Build) (s : CStr) : PortMap :=
  collectBits (List.range B.PNUM) (flag s) fun i => phy (i + 1)

theorem charAt_of_lt {s : CStr} {i : ℕ} (h : i < s.length) : charAt s i = some s[i] := by
  rw [charAt, if_pos h, List.getElem?_eq_getElem h]

theorem foldlM_flags {s : CStr} {indices : List ℕ} (h : ∀ i ∈ indices, i < s.length)
    (value : PortMap) :
    indices.foldlM
        (fun (value : PortMap) (i : ℕ) => do
          let c ← charAt s i
          return if c = chr '1' then value ||| 1#64 <<< phy (i + 1) else value) value =
      some (indices.foldl
        (fun value i => if flag s i then value ||| 1#64 <<< phy (i + 1) else value) value) := by
  induction indices generalizing value with
  | nil => rfl
  | cons i indices ih =>
      have hi := h i List.mem_cons_self
      rw [List.foldlM_cons, bind_of_eq (charAt_of_lt hi), List.foldl_cons,
        ← ih (fun j hj => h j (List.mem_cons_of_mem _ hj))]
      simp [flag, List.getElem?_eq_getElem hi]

theorem str2phy64_eq {B : Build} {s : CStr} (h : B.PNUM ≤ s.length) :
    str2phy64 B s = some (phyMap B s) := by
  apply foldlM_flags
  intro i hi
  exact (List.mem_range.mp hi).trans_le h

theorem port2phy64_eq {B : Build} {s : CStr} {m : PortMap}
    (h : ∀ i < B.PNUM, m.getLsbD i = true ↔ s[i]? = some (chr '1')) :
    port2phy64 B m = phyMap B s := by
  apply collectBits_congr fun i _ => phy_lt (i + 1)
  intro i hi
  rw [flag, Bool.eq_iff_iff, decide_eq_true_eq]
  exact h i (List.mem_range.mp hi)

/-- The physical map of the flags has the bits of their ports. -/
theorem getLsbD_phyMap (B : Build) (s : CStr) (k : ℕ) :
    (phyMap B s).getLsbD k = true ↔ Flagged B s k := by
  have hB := B.le_phy
  rw [phyMap, getLsbD_collectBits fun i _ => phy_lt (i + 1), List.any_eq_true]
  simp only [List.mem_range, Bool.and_eq_true, decide_eq_true_eq, flag]
  constructor
  · rintro ⟨i, hi, hflag, hk⟩
    rw [phy_of_le (by omega)] at hk
    subst hk
    exact ⟨by omega, by omega, hflag⟩
  · rintro ⟨h₁, h₂, hflag⟩
    refine ⟨k - 1, by omega, hflag, ?_⟩
    rw [Nat.sub_add_cancel h₁, phy_of_le (by omega)]

/-! ## Port maps -/

/-- The map of the table is the port map, within the ports of the build. -/
theorem phy2port64_eq (B : Build) (m : PortMap) : phy2port64 B m = restrictPorts B m := by
  have hB := B.le_phy
  apply BitVec.eq_of_getLsbD_eq
  intro k hk
  have hports : ∀ i ∈ List.range' 1 B.PNUM, i < 64 := by
    intro i hi
    rw [List.mem_range'_1] at hi
    omega
  rw [phy2port64, getLsbD_collectBits hports, getLsbD_restrictPorts B m hk, Bool.eq_iff_iff,
    List.any_eq_true]
  simp only [List.mem_range'_1, Bool.and_eq_true, decide_eq_true_eq]
  constructor
  · rintro ⟨i, hi, hset, rfl⟩
    rw [phy_of_le (by omega)] at hset
    exact ⟨hset, by omega, by omega⟩
  · rintro ⟨hset, h₁, h₂⟩
    exact ⟨k, by omega, by rwa [phy_of_le (by omega)], rfl⟩

/-- `pmap2port` finds the least port of the map. -/
theorem pmap2port_spec (B : Build) (m : PortMap) (nmaps : ℤ) :
    (∃ p : ℕ, IsLeast {p | 1 ≤ p ∧ p ≤ B.PNUM ∧ m.getLsbD p = true} p ∧
      pmap2port B m nmaps = ((p : ℤ), (p : ℤ))) ∨
    ((∀ p, 1 ≤ p → p ≤ B.PNUM → m.getLsbD p = false) ∧ pmap2port B m nmaps = (-1, nmaps)) := by
  unfold pmap2port
  cases hfind : (List.range' 1 B.PNUM).find? fun i => m.getLsbD i with
  | none =>
      refine Or.inr ⟨?_, rfl⟩
      intro p h₁ h₂
      have hp := List.find?_eq_none.mp hfind p (List.mem_range'_1.mpr (by omega))
      exact Bool.eq_false_of_not_eq_true hp
  | some p =>
      obtain ⟨hset, hmem, hbefore⟩ := List.find?_range'_eq_some.mp hfind
      rw [List.mem_range'_1] at hmem
      refine Or.inl ⟨p, ⟨⟨hmem.1, by omega, hset⟩, ?_⟩, rfl⟩
      intro q hq
      by_contra hlt
      have hq' := hbefore q hq.1 (by omega)
      simp [hq.2.2] at hq'

/-! ## The converters together -/

/-- The ports of the physical map of some flags are the flagged ones. -/
theorem getLsbD_ports {B : Build} {s : CStr} {phys : PortMap}
    (h : ∀ k, phys.getLsbD k = true ↔ Flagged B s k) (p : ℕ) :
    (phy2port64 B phys).getLsbD p = true ↔ Flagged B s p := by
  have hB := B.le_phy
  rw [phy2port64_eq]
  by_cases hp : p < 64
  · rw [getLsbD_restrictPorts B phys hp, Bool.and_eq_true, h, decide_eq_true_eq]
    constructor
    · intro hset
      exact hset.1
    · intro hset
      exact ⟨hset, hset.1, hset.2.1⟩
  · rw [BitVec.getLsbD_of_ge _ _ (Nat.le_of_not_lt hp)]
    constructor
    · intro hfalse
      cases hfalse
    · intro hset
      have := hset.2.1
      omega

/-- All converters agree on what a string of flags stands for. -/
theorem port_map_converters_agree (B : Build) (s : CStr) (hs : B.PNUM ≤ s.length) (m : PortMap)
    (hm : ∀ i < B.PNUM, m.getLsbD i = true ↔ s[i]? = some (chr '1')) :
    ∃ phys ports, str2phy64 B s = some phys ∧ port2phy64 B m = phys ∧
      phy2port64 B phys = ports ∧ (∀ p, ports.getLsbD p = true ↔ Flagged B s p) ∧
      str2bit B (bit2str B phys) = some ports ∧
      ∀ nmaps,
        (∃ p : ℕ, IsLeast {p | Flagged B s p} p ∧ pmap2port B ports nmaps = ((p : ℤ), (p : ℤ))) ∨
        ((∀ p, ¬ Flagged B s p) ∧ pmap2port B ports nmaps = (-1, nmaps)) := by
  have hports := getLsbD_ports (getLsbD_phyMap B s)
  refine ⟨_, _, str2phy64_eq hs, port2phy64_eq hm, rfl, hports, ?_, ?_⟩
  · rw [str2bit_bit2str_eq, phy2port64_eq]
  · intro nmaps
    have hsame : {p | 1 ≤ p ∧ p ≤ B.PNUM ∧ (phy2port64 B (phyMap B s)).getLsbD p = true} =
        {p | Flagged B s p} := by
      ext p
      rw [Set.mem_ofPred_eq, Set.mem_ofPred_eq, hports]
      constructor
      · intro hp
        exact hp.2.2
      · intro hp
        exact ⟨hp.1, hp.2.1, hp⟩
    have hleast := pmap2port_spec B (phy2port64 B (phyMap B s)) nmaps
    rw [hsame] at hleast
    cases hleast with
    | inl hsome => exact Or.inl hsome
    | inr hnone =>
        refine Or.inr ⟨?_, hnone.2⟩
        intro p hp
        have hclear := hnone.1 p hp.1 hp.2.1
        rw [(hports p).mpr hp] at hclear
        cases hclear

/-- The ports 1 and 3 of three. -/
theorem port_map_converters_agree_two :
    ∃ phys ports, str2phy64 ⟨3, 0, 0, by decide, by decide⟩ (text "101") = some phys ∧
      port2phy64 ⟨3, 0, 0, by decide, by decide⟩ 5 = phys ∧
      phy2port64 ⟨3, 0, 0, by decide, by decide⟩ phys = ports ∧
      (∀ p, ports.getLsbD p = true ↔
        Flagged ⟨3, 0, 0, by decide, by decide⟩ (text "101") p) ∧
      str2bit ⟨3, 0, 0, by decide, by decide⟩
        (bit2str ⟨3, 0, 0, by decide, by decide⟩ phys) = some ports ∧
      ∀ nmaps,
        (∃ p : ℕ, IsLeast {p | Flagged ⟨3, 0, 0, by decide, by decide⟩ (text "101") p} p ∧
          pmap2port ⟨3, 0, 0, by decide, by decide⟩ ports nmaps = ((p : ℤ), (p : ℤ))) ∨
        ((∀ p, ¬ Flagged ⟨3, 0, 0, by decide, by decide⟩ (text "101") p) ∧
          pmap2port ⟨3, 0, 0, by decide, by decide⟩ ports nmaps = (-1, nmaps)) :=
  port_map_converters_agree ⟨3, 0, 0, by decide, by decide⟩ (text "101") (by decide) 5 (by decide)

end BcmUtils.PortMaps
