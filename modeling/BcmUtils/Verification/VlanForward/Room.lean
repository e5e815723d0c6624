import BcmUtils.Verification.VlanForward.Encoding

/-! # Room for the texts of a VLAN list

The block of the whole string, the array of its pieces, and the blocks of the port lists. -/

namespace BcmUtils.VlanForward

open CLib PortList

/-! ## The block of a port list -/

/-- A round of `bit2str` only appends. -/
theorem portstr_isPrefix (B : Build) (m : PortMap) (n i : ℕ) (st : Bit2strState) :
    st.portstr <+: (bit2strLoop B m n i st).portstr := by
  induction n generalizing i st with
  | zero => exact List.prefix_refl _
  | succ n ih =>
      unfold bit2strLoop
      split
      · split
        · refine List.IsPrefix.trans ?_ (ih (i + 1) _)
          exact List.prefix_append _ _
        · split
          · exact List.prefix_append _ _
          · exact ih (i + 1) { st with lastis := true, tcount := st.tcount + 1, count := st.count + 1 }
      · refine List.IsPrefix.trans ?_ (ih (i + 1) _)
        split
        · exact List.prefix_append _ _
        · exact List.prefix_refl _

/-- What the block holds behind some rounds is the beginning of what it holds behind more. -/
theorem bit2strLoop_isPrefix (B : Build) (m : PortMap) {n k : ℕ} (h : n ≤ k) (i : ℕ)
    (st : Bit2strState) :
    (bit2strLoop B m n i st).portstr <+: (bit2strLoop B m k i st).portstr := by
  induction n generalizing k i st with
  | zero => exact portstr_isPrefix B m k i st
  | succ n ih =>
      obtain ⟨k, rfl⟩ := Nat.exists_eq_add_of_le' (Nat.one_le_of_lt h)
      have hle : n ≤ k := Nat.le_of_succ_le_succ h
      unfold bit2strLoop
      split
      · split
        · exact ih hle (i + 1) _
        · split
          · exact List.prefix_refl _
          · exact ih hle (i + 1) _
      · exact ih hle (i + 1) _

/-- At no time does the block hold more than the longest port list. -/
theorem length_portstr_lt (B : Build) (m : PortMap) {n : ℕ} (hn : n ≤ B.PNUM) :
    (bit2strLoop B m n 0 {}).portstr.length < 64 := by
  have hlist := length_bit2str_le B m
  have hle := (bit2strLoop_isPrefix B m hn 0 {}).length_le
  rw [bit2str] at hlist
  omega

/-! ## The pieces of a record -/

/-- The pieces that go through `tmp` for the record number `i`. -/
def pieces (B : Build) (i : ℕ) (v : CliVlanInfoConf) : List CStr :=
  [printNat i ++ chr ':' :: (printInt v.vlanid ++ chr ':' :: (v.name ++ [chr ':'])),
    bit2str B v.forward ++ [chr ':'], bit2str B v.untag ++ [chr ';']]

theorem flatten_pieces (B : Build) (i : ℕ) (v : CliVlanInfoConf) :
    (pieces B i v).flatten = recordText B i v ++ [chr ';'] := by
  simp [pieces, recordText]

theorem length_piece_lt (B : Build) {i : ℕ} (hi : i < 10000) {v : CliVlanInfoConf}
    (h : Configured v) {x : CStr} (hx : x ∈ pieces B i v) : x.length < 140 := by
  have hindex := length_printNat_le (n := i) (k := 4) (by omega) (by omega)
  have hid := h.vlanid_le
  have hpos := h.one_le
  have hvlanid := length_printInt_le (v := v.vlanid)
    ⟨by simp only [intMin]; omega, by simp only [intMax]; omega⟩
  have hname := h.name_length
  have hforward := length_bit2str_le B v.forward
  have huntag := length_bit2str_le B v.untag
  simp only [pieces, List.mem_cons, List.not_mem_nil, or_false] at hx
  rcases hx with rfl | rfl | rfl <;>
    simp only [List.length_append, List.length_cons, List.length_nil] <;> omega

/-! ## The whole string -/

/-- The string fits the block that is allocated for it, each piece fits `tmp`, and a port list fits
its block at all times and the array of the driver's reader in the end. -/
structure TextsFit (B : Build) (vs : List CliVlanInfoConf) : Prop where
  result : ∃ result, vlanFowdResult B ⟨vs.length, vs⟩ = some result ∧
    result = (vs.zipIdx.map fun q => (pieces B q.2 q.1).flatten).flatten ∧
    result.length + 1 ≤ VLAN_STRUCT_LEN B * vs.length
  tmp : ∀ q ∈ vs.zipIdx, ∀ x ∈ pieces B q.2 q.1, x.length + 1 ≤ 128 + 12
  portstr : ∀ (m : PortMap), ∀ n ≤ B.PNUM, (bit2strLoop B m n 0 {}).portstr.length + 1 ≤ 256
  entry_tmp : ∀ m : PortMap, (bit2str B m).length + 1 ≤ 64

/-- All texts of a VLAN list fit. -/
theorem vlan_list_texts_fit (B : Build) {vs : List CliVlanInfoConf} (hne : vs ≠ [])
    (hlen : vs.length ≤ VLAN_MAX_CNT) (h : ∀ v ∈ vs, Configured v) : TextsFit B vs where
  result := by
    have hmax : vs.length ≤ 4096 := hlen
    have hpos := List.length_pos_of_ne_nil hne
    have hwidth := listWidth_le B 0 h (by omega)
    refine ⟨listText B 0 vs, vlanFowdResult_eq B hne h (by omega), ?_, ?_⟩
    · simp only [flatten_pieces]
      rfl
    · rw [length_listText B 0 h]
      omega
  tmp := by
    intro q hq x hx
    have hmax : vs.length ≤ 4096 := hlen
    have hindex := List.mem_zipIdx hq
    exact length_piece_lt B (by omega) (h q.1 (List.fst_mem_of_mem_zipIdx hq)) hx
  portstr := by
    intro m n hn
    have := length_portstr_lt B m hn
    omega
  entry_tmp := by
    intro m
    have := length_bit2str_le B m
    omega

theorem vlan_list_texts_fit_one :
    TextsFit ⟨8, 0, 0, by decide, by decide⟩ [⟨1, text "Default", 0x1fe, 0x1fe⟩] := by
  apply vlan_list_texts_fit ⟨8, 0, 0, by decide, by decide⟩ (by simp) (by decide)
  intro v hv
  rw [List.mem_singleton] at hv
  subst hv
  exact ⟨by decide, by decide, by decide⟩

end BcmUtils.VlanForward
