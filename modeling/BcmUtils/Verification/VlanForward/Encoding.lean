import BcmUtils.Model.VlanForward
import BcmUtils.Verification.PortList.Bounds
import BcmUtils.Verification.PortList.RoundTrip

/-! # The string written for a VLAN list -/

namespace BcmUtils.VlanForward

open CLib PortList

/-- The records that the configuration admits: an id in range, and a name that its array
holds. -/
structure Configured (v : CliVlanInfoConf) : Prop where
  one_le : 1 ≤ v.vlanid
  vlanid_le : v.vlanid ≤ 4094
  name_length : v.name.length ≤ 35

/-- A record whose name does not clash with the separators of the stored string. -/
structure Admitted (v : CliVlanInfoConf) : Prop extends Configured v where
  name_colon : chr ':' ∉ v.name
  name_semicolon : chr ';' ∉ v.name
  name_nul : (0 : Byte) ∉ v.name

/-- The fields of the record number `i`. -/
def recordText (B : Build) (i : ℕ) (v : CliVlanInfoConf) : CStr :=
  printNat i ++ chr ':' :: (printInt v.vlanid ++ chr ':' ::
    (v.name ++ chr ':' :: (bit2str B v.forward ++ chr ':' :: bit2str B v.untag)))

/-- The records of a VLAN list, numbered from `i` on. -/
def listText (B : Build) (i : ℕ) (vs : List CliVlanInfoConf) : CStr :=
  (vs.zipIdx i).flatMap fun q => recordText B q.2 q.1 ++ [chr ';']

@[simp] theorem listText_nil (B : Build) (i : ℕ) : listText B i [] = [] := rfl

theorem listText_cons (B : Build) (i : ℕ) (v : CliVlanInfoConf) (vs : List CliVlanInfoConf) :
    listText B i (v :: vs) = recordText B i v ++ chr ';' :: listText B (i + 1) vs := by
  simp [listText]

theorem listText_ne_nil (B : Build) (i : ℕ) {vs : List CliVlanInfoConf} (h : vs ≠ []) :
    listText B i vs ≠ [] := by
  obtain ⟨v, vs, rfl⟩ := List.exists_cons_of_ne_nil h
  simp [listText_cons]

/-! ## Widths -/

/-- The width of a record with its terminator. -/
def recordWidth (B : Build) (i : ℕ) (v : CliVlanInfoConf) : ℕ :=
  decimalWidth i + decimalWidth v.vlanid.toNat + v.name.length + portListWidth B v.forward +
    portListWidth B v.untag + 5

theorem length_printInt_of_nonneg {z : ℤ} (h : 0 ≤ z) :
    (printInt z).length = decimalWidth z.toNat := by
  obtain ⟨n, rfl⟩ := Int.eq_ofNat_of_zero_le h
  exact length_printNat n

theorem length_recordText (B : Build) (i : ℕ) {v : CliVlanInfoConf} (h : 0 ≤ v.vlanid) :
    (recordText B i v).length + 1 = recordWidth B i v := by
  simp only [recordText, List.length_append, List.length_cons, length_printNat,
    length_printInt_of_nonneg h, length_bit2str, recordWidth]
  omega

/-- The width of the records of a VLAN list, numbered from `i` on. -/
def listWidth (B : Build) (i : ℕ) (vs : List CliVlanInfoConf) : ℕ :=
  ((vs.zipIdx i).map fun q => recordWidth B q.2 q.1).sum

theorem listWidth_cons (B : Build) (i : ℕ) (v : CliVlanInfoConf) (vs : List CliVlanInfoConf) :
    listWidth B i (v :: vs) = recordWidth B i v + listWidth B (i + 1) vs := by
  simp [listWidth]

theorem length_listText (B : Build) (i : ℕ) {vs : List CliVlanInfoConf}
    (h : ∀ v ∈ vs, Configured v) : (listText B i vs).length = listWidth B i vs := by
  induction vs generalizing i with
  | nil => rfl
  | cons v vs ih =>
      have hv := (h v (by simp)).one_le
      have hrec := length_recordText B i (v := v) (by omega)
      rw [listText_cons, listWidth_cons, List.length_append, List.length_cons,
        ih (i + 1) fun w hw => h w (by simp [hw])]
      omega

/-- Every record takes at least seven characters. -/
theorem seven_mul_le_listWidth (B : Build) (i : ℕ) (vs : List CliVlanInfoConf) :
    7 * vs.length ≤ listWidth B i vs := by
  induction vs generalizing i with
  | nil => simp [listWidth]
  | cons v vs ih =>
      have := ih (i + 1)
      simp only [listWidth_cons, recordWidth, decimalWidth, List.length_cons]
      omega

/-- A record numbered with at most four digits leaves a byte of its room unused. -/
theorem recordWidth_lt (B : Build) {i : ℕ} (hi : i < 10000) {v : CliVlanInfoConf}
    (h : Configured v) : recordWidth B i v < VLAN_STRUCT_LEN B := by
  have hindex := length_printNat_le (n := i) (k := 4) (by omega) (by omega)
  have hid := h.vlanid_le
  have hvlanid := length_printNat_le (n := v.vlanid.toNat) (k := 4) (by omega) (by omega)
  rw [length_printNat] at hindex hvlanid
  have hname := h.name_length
  have hforward := portListWidth_le B v.forward
  have huntag := portListWidth_le B v.untag
  have hB := B.one_le
  unfold recordWidth VLAN_STRUCT_LEN
  by_cases hsmall : B.PNUM < 10
  · have := portListWidth_le_of_lt_ten B v.forward hsmall
    have := portListWidth_le_of_lt_ten B v.untag hsmall
    omega
  · omega

theorem listWidth_le (B : Build) (i : ℕ) {vs : List CliVlanInfoConf} (h : ∀ v ∈ vs, Configured v)
    (hi : i + vs.length ≤ 10000) :
    listWidth B i vs + vs.length ≤ VLAN_STRUCT_LEN B * vs.length := by
  induction vs generalizing i with
  | nil => simp [listWidth]
  | cons v vs ih =>
      simp only [List.length_cons] at hi
      have hrest := ih (i + 1) (fun w hw => h w (by simp [hw])) (by omega)
      have hv := recordWidth_lt B (i := i) (by omega) (h v (by simp))
      rw [listWidth_cons, List.length_cons, Nat.mul_add]
      omega

/-! ## The encoder -/

theorem vlanFowdLoop_eq (B : Build) {cap i : ℕ} {vs : List CliVlanInfoConf} {result : CStr}
    (h : ∀ v ∈ vs, Configured v) (hi : i + vs.length ≤ 10000)
    (hcap : (result ++ listText B i vs).length < cap) :
    vlanFowdLoop B cap i vs result = some (result ++ listText B i vs) := by
  induction vs generalizing i result with
  | nil => simp [vlanFowdLoop]
  | cons v vs ih =>
      have hv := h v (by simp)
      simp only [List.length_cons] at hi
      have hindex := length_printNat_le (n := i) (k := 4) (by omega) (by omega)
      have hvlanid := length_printInt_le (v := v.vlanid)
        ⟨by have := hv.one_le; simp only [intMin]; omega,
          by have := hv.vlanid_le; simp only [intMax]; omega⟩
      have hname := hv.name_length
      have hforward := length_bit2str_le B v.forward
      have huntag := length_bit2str_le B v.untag
      rw [listText_cons] at hcap ⊢
      simp only [recordText, List.length_append, List.length_cons] at hcap
      rw [vlanFowdLoop]
      simp only [Option.bind_eq_bind]
      rw [store_of_lt (by simp only [List.length_append, List.length_cons, List.length_nil]; omega),
        Option.bind_some, strcat_of_lt (by
          simp only [List.length_append, List.length_cons, List.length_nil]; omega),
        Option.bind_some, store_of_lt (by
          simp only [List.length_append, List.length_cons, List.length_nil]; omega),
        Option.bind_some, strcat_of_lt (by
          simp only [List.length_append, List.length_cons, List.length_nil]; omega),
        Option.bind_some, store_of_lt (by
          simp only [List.length_append, List.length_cons, List.length_nil]; omega),
        Option.bind_some, strcat_of_lt (by
          simp only [List.length_append, List.length_cons, List.length_nil]; omega),
        Option.bind_some]
      have htext : ((result ++ (printNat i ++ chr ':' :: (printInt v.vlanid ++
          chr ':' :: (v.name ++ [chr ':'])))) ++ (bit2str B v.forward ++ [chr ':'])) ++
          (bit2str B v.untag ++ [chr ';']) = result ++ (recordText B i v ++ [chr ';']) := by
        simp [recordText, List.append_assoc]
      rw [htext, ih (fun w hw => h w (by simp [hw])) (by omega) (by
        simp only [recordText, List.length_append, List.length_cons, List.length_nil]; omega)]
      simp [List.append_assoc]

/-- The encoder never outgrows the block allocated for a list of at most 10000 VLANs. -/
theorem vlanFowdResult_eq (B : Build) {vs : List CliVlanInfoConf} (hne : vs ≠ [])
    (h : ∀ v ∈ vs, Configured v) (hlen : vs.length ≤ 10000) :
    vlanFowdResult B ⟨vs.length, vs⟩ = some (listText B 0 vs) := by
  have hcap : (VLAN_STRUCT_LEN B * (vs.length : ℤ)).toNat = VLAN_STRUCT_LEN B * vs.length := by
    rw [← Int.natCast_mul, Int.toNat_natCast]
  have hwidth := listWidth_le B 0 h (by omega)
  have hpos := List.length_pos_of_ne_nil hne
  have hfit : (listText B 0 vs).length < VLAN_STRUCT_LEN B * vs.length := by
    rw [length_listText B 0 h]
    omega
  simp only [vlanFowdResult, hcap, Option.bind_eq_bind]
  rw [store_of_lt (by simp only [List.length_nil]; omega), Option.bind_some,
    vlanFowdLoop_eq B h (by omega) (by simpa using hfit)]
  rfl

end BcmUtils.VlanForward
