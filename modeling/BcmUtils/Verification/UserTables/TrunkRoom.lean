import BcmUtils.Verification.PortList.Widest
import BcmUtils.Verification.UserTables.TrunkRoundTrip

/-! # Room for the trunk list

`cli_nvram_conf_set` asks for three bytes a port and group. -/

namespace BcmUtils.UserTables

open CLib PortList

/-- The values that a group may be configured with. -/
structure TrunkConfigured (g : CliTrunkList) : Prop where
  name : ∃ i : ℕ, 1 ≤ i ∧ i ≤ 8 ∧ g.name = text "Trunk-" ++ printNat i
  mode : 1 ≤ g.mode ∧ g.mode ≤ 3
  key : 0 ≤ g.key ∧ g.key ≤ 65535

/-- The width of a record: twelve characters besides the key and the port list. -/
def trunkWidth (B : Build) (g : CliTrunkList) : ℕ :=
  12 + decimalWidth g.key.toNat + portListWidth B g.portInt

/-- The string is built within the block that is allocated for it. -/
def TrunkListFits (B : Build) (e : Endian) (t : UserTable CLI_TRUNK_GROUP sizeofCliTrunkList) :
    Prop := ∃ result, trunkListResult B e t = some result

namespace TrunkConfigured

variable {g : CliTrunkList}

theorem length_name (h : TrunkConfigured g) : g.name.length = 7 := by
  obtain ⟨i, hone, height, hname⟩ := h.name
  have htrunk : (text "Trunk-").length = 6 := by decide
  have hpos := length_printNat_pos i
  have hle := length_printNat_le (n := i) (k := 1) le_rfl (by omega)
  rw [hname, List.length_append]
  omega

theorem numbered (h : TrunkConfigured g) : Numbered g where
  name_eq := by
    obtain ⟨i, hone, height, hname⟩ := h.name
    obtain ⟨hne, hdigits, hvalue⟩ := numeral_printNat i
    refine ⟨printNat i, hname, hne, hdigits, ?_⟩
    rw [hvalue]
    simp only [IsInt, intMin, intMax]
    omega
  length_lt := by
    have := h.length_name
    omega
  mode := by
    have := h.mode
    simp only [IsInt, intMin, intMax]
    omega
  key := by
    have := h.key
    simp only [IsInt, intMin, intMax]
    omega

theorem length_record (h : TrunkConfigured g) (B : Build) :
    (trunkRecord B g ++ [chr ';']).length = trunkWidth B g := by
  obtain ⟨hone, hthree⟩ := h.mode
  have hmode : (printInt g.mode).length = 1 := by
    obtain ⟨n, hn⟩ := Int.eq_ofNat_of_zero_le (by omega : 0 ≤ g.mode)
    rw [hn] at hone hthree ⊢
    have hpos := length_printNat_pos n
    have hle := length_printNat_le (n := n) (k := 1) le_rfl (by omega)
    change (printNat n).length = 1
    omega
  have hkey : (printInt g.key).length = decimalWidth g.key.toNat := by
    obtain ⟨n, hn⟩ := Int.eq_ofNat_of_zero_le h.key.1
    rw [hn]
    exact length_printNat n
  simp only [trunkRecord, List.length_append, List.length_cons, List.length_nil, h.length_name,
    hmode, hkey, length_bit2str, trunkWidth]
  omega

end TrunkConfigured

theorem length_trunkListText {B : Build} {gs : List CliTrunkList}
    (h : ∀ g ∈ gs, TrunkConfigured g) :
    (trunkListText B gs).length = (gs.map (trunkWidth B)).sum := by
  induction gs with
  | nil => rfl
  | cons g gs ih =>
      rw [trunkListText, List.flatMap_cons, List.length_append,
        (h g List.mem_cons_self).length_record, List.map_cons, List.sum_cons,
        ← ih fun x hx => h x (List.mem_cons_of_mem _ hx), trunkListText]

/-- The set function stores this string, when `malloc` gives no more than it is asked for. -/
theorem cliNvramConfSetTrunkList_eq (B : Build) (e : Endian)
    (t : UserTable CLI_TRUNK_GROUP sizeofCliTrunkList) (nv : Nvram) :
    cliNvramConfSetTrunkList B e 0 t nv = do
      let result ← trunkListResult B e t
      let nv ← scfgmgrSet (text "trunk_list") result nv
      return (CLI_SUCCESS, nv) := by
  rw [cliNvramConfSetTrunkList, trunkListResult, Nat.add_zero]
  cases store (PORT_STR_LEN B * t.count.toInt).toNat [] with
  | none => rfl
  | some result => rfl

/-! ## The bounds for all configurations -/

theorem thirteen_mul_le (B : Build) (gs : List CliTrunkList) :
    13 * gs.length ≤ (gs.map (trunkWidth B)).sum := by
  induction gs with
  | nil => exact le_rfl
  | cons g gs ih =>
      rw [List.length_cons, List.map_cons, List.sum_cons, trunkWidth, decimalWidth]
      omega

/-- From twelve ports on, each record leaves a byte of its room unused. -/
theorem trunkWidth_lt {B : Build} (hB : 12 ≤ B.PNUM) {g : CliTrunkList} (h : TrunkConfigured g) :
    trunkWidth B g < PORT_STR_LEN B := by
  have hwidest : ∀ n < 29, 12 ≤ n → 16 + (widest (n + 1)).1 < 3 * n := by decide
  have hphy := B.le_phy
  have hroom := hwidest B.PNUM (by omega) hB
  have hports := portListWidth_le_widest B g.portInt
  have hkey := length_printNat_le (n := g.key.toNat) (k := 5) (by omega) (by
    have := h.key.2
    omega)
  rw [length_printNat] at hkey
  unfold trunkWidth PORT_STR_LEN
  omega

theorem sum_trunkWidth_le {B : Build} (hB : 12 ≤ B.PNUM) {gs : List CliTrunkList}
    (h : ∀ g ∈ gs, TrunkConfigured g) :
    (gs.map (trunkWidth B)).sum + gs.length ≤ PORT_STR_LEN B * gs.length := by
  induction gs with
  | nil => exact le_rfl
  | cons g gs ih =>
      have hg := trunkWidth_lt hB (h g List.mem_cons_self)
      have hrest := ih fun x hx => h x (List.mem_cons_of_mem _ hx)
      rw [List.map_cons, List.sum_cons, List.length_cons, Nat.mul_add]
      omega

/-! ## The exact condition -/

section

variable {B : Build} {e : Endian} {t : UserTable CLI_TRUNK_GROUP sizeofCliTrunkList}
  {gs : List CliTrunkList}

theorem trunkListResult_eq (hcount : t.count.toNat ≤ CLI_TRUNK_GROUP)
    (hread : (List.range t.count.toNat).mapM
      (fun (i : ℕ) => readTrunkList e t.memory.1 (i * sizeofCliTrunkList)) = some gs)
    (h : ∀ g ∈ gs, TrunkConfigured g) :
    trunkListResult B e t =
      if (gs.map (trunkWidth B)).sum < PORT_STR_LEN B * gs.length then some (trunkListText B gs)
      else none := by
  have hmax : CLI_TRUNK_GROUP = 8 := rfl
  have hlen : gs.length = t.count.toNat := by
    rw [length_of_mapM hread, List.length_range]
  have hsigned : t.count.toInt = t.count.toNat := BitVec.toInt_eq_toNat_of_lt (by omega)
  have hcap : (PORT_STR_LEN B * t.count.toInt).toNat = PORT_STR_LEN B * gs.length := by
    rw [hsigned, hlen, ← Int.natCast_mul, Int.toNat_natCast]
  simp only [trunkListResult, hcap]
  rw [hsigned, Int.toNat_natCast]
  by_cases hempty : PORT_STR_LEN B * gs.length = 0
  · rw [hempty, if_neg (Nat.not_lt_zero _)]
    rfl
  · have hpos : 0 < PORT_STR_LEN B * gs.length := Nat.pos_of_ne_zero hempty
    have hloop := @setTrunkListLoop_eq B e _ _ _ _ [] hread (fun g hg => (h g hg).numbered) hpos
    rw [List.nil_append, length_trunkListText h] at hloop
    rw [bind_of_eq (store_of_lt hpos), hloop]

end

/-- The string fits exactly if the widths of the records are less than three bytes a port and
group: never without a group or with four ports and less, always with a group and twelve ports
and more. -/
theorem trunk_list_fits_iff (B : Build) (e : Endian)
    (t : UserTable CLI_TRUNK_GROUP sizeofCliTrunkList) (hcount : t.count.toNat ≤ CLI_TRUNK_GROUP)
    {gs : List CliTrunkList}
    (hread : (List.range t.count.toNat).mapM
      (fun (i : ℕ) => readTrunkList e t.memory.1 (i * sizeofCliTrunkList)) = some gs)
    (h : ∀ g ∈ gs, TrunkConfigured g) :
    (TrunkListFits B e t ↔ (gs.map (trunkWidth B)).sum < PORT_STR_LEN B * gs.length) ∧
      (gs = [] ∨ B.PNUM ≤ 4 → ¬ TrunkListFits B e t) ∧
      (gs ≠ [] ∧ 12 ≤ B.PNUM → TrunkListFits B e t) := by
  have hiff : TrunkListFits B e t ↔ (gs.map (trunkWidth B)).sum < PORT_STR_LEN B * gs.length := by
    rw [TrunkListFits, trunkListResult_eq hcount hread h]
    split
    · rename_i hfits
      simp [hfits]
    · rename_i hfull
      simp [hfull]
  refine ⟨hiff, ?_, ?_⟩
  · intro hsmall
    rw [hiff, PORT_STR_LEN]
    have hmin := thirteen_mul_le B gs
    cases hsmall with
    | inl hnil => simp [hnil]
    | inr hfour =>
        have hroom : B.PNUM * 3 * gs.length ≤ 4 * 3 * gs.length :=
          Nat.mul_le_mul_right _ (Nat.mul_le_mul_right 3 hfour)
        omega
  · intro hlarge
    have hpos := List.length_pos_of_ne_nil hlarge.1
    have hmax := sum_trunkWidth_le hlarge.2 h
    rw [hiff]
    omega

/-- One group of a build with twelve ports. -/
theorem trunk_list_fits_iff_one :
    let B : Build := ⟨12, 0, 0, by decide, by decide⟩
    let gs : List CliTrunkList := [⟨0, text "Trunk-1", 1, 1000, 0x1a⟩]
    let t : UserTable CLI_TRUNK_GROUP sizeofCliTrunkList :=
      ⟨1, (gs ++ List.replicate 7 (⟨0, [], 0, 0, 0⟩ : CliTrunkList)).flatMap
        (trunkSlotBytes .little), by decide +kernel⟩
    (TrunkListFits B .little t ↔ (gs.map (trunkWidth B)).sum < PORT_STR_LEN B * gs.length) ∧
      (gs = [] ∨ B.PNUM ≤ 4 → ¬ TrunkListFits B .little t) ∧
      (gs ≠ [] ∧ 12 ≤ B.PNUM → TrunkListFits B .little t) := by
  intro B gs t
  refine trunk_list_fits_iff B .little t (by decide) (by decide +kernel) ?_
  intro g hg
  obtain rfl := List.mem_singleton.mp hg
  exact ⟨⟨1, by decide, by decide, by decide⟩, by decide, by decide⟩

/-- The record `Trunk-1|1|1000|1-2,4-5,7-8;` of a build with eight ports does not fit 24 bytes. -/
theorem trunk_list_overflow :
    let B : Build := ⟨8, 0, 0, by decide, by decide⟩
    let gs : List CliTrunkList := [⟨0, text "Trunk-1", 1, 1000, 0x1b6⟩]
    let t : UserTable CLI_TRUNK_GROUP sizeofCliTrunkList :=
      ⟨1, (gs ++ List.replicate 7 (⟨0, [], 0, 0, 0⟩ : CliTrunkList)).flatMap
        (trunkSlotBytes .little), by decide +kernel⟩
    (List.range t.count.toNat).mapM
        (fun (i : ℕ) => readTrunkList .little t.memory.1 (i * sizeofCliTrunkList)) = some gs ∧
      (∀ g ∈ gs, TrunkConfigured g) ∧ ¬ TrunkListFits B .little t := by
  intro B gs t
  have hread : (List.range t.count.toNat).mapM
      (fun (i : ℕ) => readTrunkList .little t.memory.1 (i * sizeofCliTrunkList)) = some gs := by
    decide +kernel
  have hgs : ∀ g ∈ gs, TrunkConfigured g := by
    intro g hg
    obtain rfl := List.mem_singleton.mp hg
    exact ⟨⟨1, by decide, by decide, by decide⟩, by decide, by decide⟩
  refine ⟨hread, hgs, ?_⟩
  rw [TrunkListFits, trunkListResult_eq (by decide) hread hgs, if_neg]
  · simp
  · rw [← length_trunkListText hgs]
    decide +kernel

end BcmUtils.UserTables
