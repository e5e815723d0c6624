import BcmUtils.Verification.VlanForward.Encoding

/-! # Room for the stored VLAN list

`scfgmgr_set` formats the string into an array of 4500 bytes whatever the number
of VLANs, while the string itself is built in a block that grows with it. -/

namespace BcmUtils.VlanForward

open CLib PortList

/-- The message that stores a VLAN list fits the array of `scfgmgr_set`. -/
def MessageFits (B : Build) (vs : List CliVlanInfoConf) : Prop :=
  ∃ s, vlanFowdResult B ⟨vs.length, vs⟩ = some s ∧
    (setMessage (text "vlan_fwd_config") s).isSome

theorem setMessage_isSome {name data : CStr} :
    (setMessage name data).isSome ↔ name.length + data.length + 2 ≤ 4500 := by
  rw [setMessage, store]
  split <;> rename_i h <;> simp only [List.length_append, List.length_cons] at h
  · simp only [Option.isSome_some, true_iff]
    omega
  · simp only [Option.isSome_none, Bool.false_eq_true, false_iff]
    omega

theorem messageFits_iff_length (B : Build) {vs : List CliVlanInfoConf} (hne : vs ≠ [])
    (hlen : vs.length ≤ VLAN_MAX_CNT) (h : ∀ v ∈ vs, Configured v) :
    MessageFits B vs ↔ (listText B 0 vs).length ≤ 4483 := by
  have hname : (text "vlan_fwd_config").length = 15 := by decide
  have hres := vlanFowdResult_eq B hne h (hlen.trans (by decide))
  simp only [MessageFits, hres, Option.some.injEq, exists_eq_left', setMessage_isSome, hname]
  omega

/-- The widths of the fields alone decide whether the message fits: the record numbers,
the ids, the names, the two port lists and five separators for each VLAN. -/
theorem vlan_message_fits_iff (B : Build) {vs : List CliVlanInfoConf} (hne : vs ≠ [])
    (hlen : vs.length ≤ VLAN_MAX_CNT) (h : ∀ v ∈ vs, Configured v) :
    MessageFits B vs ↔ listWidth B 0 vs ≤ 4483 := by
  rw [messageFits_iff_length B hne hlen h, length_listText B 0 h]

theorem vlan_message_fits_iff_one :
    MessageFits ⟨8, 0, 0, by decide, by decide⟩ [⟨1, text "Default", 0x1fe, 0x1fe⟩] ↔
      listWidth ⟨8, 0, 0, by decide, by decide⟩ 0 [⟨1, text "Default", 0x1fe, 0x1fe⟩] ≤ 4483 := by
  apply vlan_message_fits_iff _ (by simp) (by decide)
  intro v hv
  rw [List.mem_singleton] at hv
  subst hv
  exact ⟨by decide, by decide, by decide⟩

/-- All 4094 ids, without names and ports. -/
def allVlans : List CliVlanInfoConf :=
  (List.range 4094).map fun (i : ℕ) => ⟨(i : ℤ) + 1, [], 0, 0⟩

theorem configured_allVlans : ∀ v ∈ allVlans, Configured v := by
  intro v hv
  rw [allVlans] at hv
  obtain ⟨i, hi, rfl⟩ := List.mem_map.mp hv
  have := List.mem_range.mp hi
  exact ⟨by simp only; omega, by simp only; omega, by simp⟩

theorem length_allVlans : allVlans.length = 4094 := by
  rw [allVlans, List.length_map, List.length_range]

/-- An admitted list whose message does not fit. -/
theorem vlan_message_overflow :
    (allVlans ≠ [] ∧ allVlans.length ≤ VLAN_MAX_CNT ∧ ∀ v ∈ allVlans, Configured v) ∧
      ¬ MessageFits ⟨28, 0, 0, by decide, by decide⟩ allVlans := by
  have hne : allVlans ≠ [] := by
    intro h
    have := length_allVlans
    simp [h] at this
  have hlen : allVlans.length ≤ VLAN_MAX_CNT := by
    rw [length_allVlans]
    decide
  refine ⟨⟨hne, hlen, configured_allVlans⟩, ?_⟩
  rw [messageFits_iff_length _ hne hlen configured_allVlans,
    length_listText _ 0 configured_allVlans]
  have := seven_mul_le_listWidth ⟨28, 0, 0, by decide, by decide⟩ 0 allVlans
  rw [length_allVlans] at this
  omega

/-- Up to 28 VLANs always fit. -/
theorem messageFits_of_length_le (B : Build) {vs : List CliVlanInfoConf} (hne : vs ≠ [])
    (hlen : vs.length ≤ 28) (h : ∀ v ∈ vs, Configured v) : MessageFits B vs := by
  have hmax : 28 ≤ VLAN_MAX_CNT := by decide
  have hwidth : ∀ (ws : List CliVlanInfoConf) (i : ℕ), (∀ v ∈ ws, Configured v) →
      i + ws.length ≤ 28 → listWidth B i ws ≤ 160 * ws.length := by
    intro ws
    induction ws with
    | nil => simp [listWidth]
    | cons w ws ih =>
        intro i hw hi
        simp only [List.length_cons] at hi
        have hrest := ih (i + 1) (fun v hv => hw v (by simp [hv])) (by omega)
        have hindex := length_printNat_le (n := i) (k := 2) (by omega) (by omega)
        have hid := (hw w (by simp)).vlanid_le
        have hvlanid := length_printNat_le (n := w.vlanid.toNat) (k := 4) (by omega) (by omega)
        have hname := (hw w (by simp)).name_length
        have hforward := length_bit2str_le B w.forward
        have huntag := length_bit2str_le B w.untag
        rw [length_printNat] at hindex hvlanid
        rw [length_bit2str] at hforward huntag
        rw [listWidth_cons, recordWidth, List.length_cons]
        omega
  rw [messageFits_iff_length B hne (hlen.trans hmax) h, length_listText B 0 h]
  have := hwidth vs 0 h (by omega)
  omega

/-- More than 640 VLANs never fit. -/
theorem not_messageFits_of_lt_length (B : Build) {vs : List CliVlanInfoConf}
    (hlen : 640 < vs.length) (hmax : vs.length ≤ VLAN_MAX_CNT) (h : ∀ v ∈ vs, Configured v) :
    ¬ MessageFits B vs := by
  have hne : vs ≠ [] := by
    rintro rfl
    simp at hlen
  rw [messageFits_iff_length B hne hmax h, length_listText B 0 h]
  have := seven_mul_le_listWidth B 0 vs
  omega

end BcmUtils.VlanForward
