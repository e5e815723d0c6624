import BcmUtils.Verification.PortList.Bounds
import BcmUtils.Verification.UserTables.Filling
import BcmUtils.Verification.VlanForward.RoundTrip

/-! # Round trip of the trunk groups

The get takes the number of a group from the seventh character of its name on. -/

namespace BcmUtils.UserTables

open CLib PortList

/-- A group that is named by its number. -/
structure Numbered (g : CliTrunkList) : Prop where
  name_eq : ∃ digits, g.name = text "Trunk-" ++ digits ∧ digits ≠ [] ∧
    (∀ b ∈ digits, isDigit b = true) ∧ IsInt (readDigits 0 digits)
  length_lt : g.name.length < 36
  mode : IsInt g.mode
  key : IsInt g.key

/-- The number in the name of a group. -/
def nameNumber (name : CStr) : ℕ := readDigits 0 (name.drop 6)

/-- What the get makes of a group. -/
def restored (B : Build) (g : CliTrunkList) : CliTrunkList :=
  { g with groupNo := nameNumber g.name, portInt := restrictPorts B g.portInt }

/-- The record of a group without its terminator. -/
def trunkRecord (B : Build) (g : CliTrunkList) : CStr :=
  g.name ++ chr '|' :: (printInt g.mode ++ chr '|' :: (printInt g.key ++ chr '|' ::
    bit2str B g.portInt))

/-- The fields of the slot at `base`. -/
def trunkFields (B : Build) (e : Endian) (base : ℕ) (g : CliTrunkList) : List Field :=
  [⟨base, 4, bytesOf e (BitVec.ofInt 32 (nameNumber g.name))⟩, ⟨base + 4, 36, g.name⟩,
    ⟨base + 40, 4, bytesOf e (BitVec.ofInt 32 g.mode)⟩,
    ⟨base + 44, 4, bytesOf e (BitVec.ofInt 32 g.key)⟩,
    ⟨base + 48, 8, bytesOf64 e (restrictPorts B g.portInt)⟩]

theorem layout_trunkFields (B : Build) (e : Endian) :
    Layout (trunkFields B e) sizeofCliTrunkList :=
  layout_of_widths [(0, 4), (4, 36), (40, 4), (44, 4), (48, 8)] (fun _ _ => rfl) (by decide)
    (by decide)

theorem toInt_ofInt {v : ℤ} (h : IsInt v) : (BitVec.ofInt 32 v).toInt = v := by
  obtain ⟨h₁, h₂⟩ := h
  simp only [intMin, intMax] at h₁ h₂
  rw [BitVec.toInt_ofInt]
  exact Int.bmod_eq_of_le (by omega) (by omega)

namespace Numbered

variable {g : CliTrunkList}

theorem not_mem_name (h : Numbered g) {c : Byte} (hc : isDigit c = false)
    (htext : c ∉ text "Trunk-") : c ∉ g.name := by
  obtain ⟨digits, hname, -, hdigits, -⟩ := h.name_eq
  rw [hname, List.mem_append]
  rintro (hmem | hmem)
  · exact htext hmem
  · simp [hdigits c hmem] at hc

theorem isInt_nameNumber (h : Numbered g) : IsInt (nameNumber g.name) := by
  obtain ⟨digits, hname, -, -, hint⟩ := h.name_eq
  rw [nameNumber, hname, List.drop_left' (by decide)]
  exact hint

theorem atoi_name (h : Numbered g) (t : CStr) :
    ∃ p, skip 6 (g.name ++ chr '|' :: t) = some p ∧ atoi p = nameNumber g.name := by
  obtain ⟨digits, hname, hne, hdigits, hint⟩ := h.name_eq
  refine ⟨digits ++ chr '|' :: t, ?_, ?_⟩
  · rw [skip, hname, List.append_assoc, List.drop_left' (by decide), if_pos]
    rw [List.length_append, show (text "Trunk-").length = 6 from by decide]
    omega
  · rw [atoi_digits_cons hne hdigits hint (by decide), nameNumber, hname,
      List.drop_left' (by decide)]

theorem fits (h : Numbered g) (B : Build) (e : Endian) (base : ℕ) :
    ∀ f ∈ trunkFields B e base g, f.Fits := by
  intro f hf
  have hname := h.length_lt
  simp only [trunkFields, List.mem_cons, List.not_mem_nil, or_false] at hf
  rcases hf with rfl | rfl | rfl | rfl | rfl <;>
    simp only [Field.Fits, length_bytesOf, length_bytesOf64] <;> omega

theorem readsBack (h : Numbered g) (B : Build) (e : Endian) :
    ReadsBack (trunkListStores B e) (trunkRecord B) (trunkFields B e) g := by
  have hbar : ∀ v : ℤ, chr '|' ∉ printInt v := not_mem_printInt (by decide) (by decide)
  constructor
  · have hsemi : ∀ v : ℤ, chr ';' ∉ printInt v := not_mem_printInt (by decide) (by decide)
    have hlist : chr ';' ∉ bit2str B g.portInt :=
      VlanForward.not_mem_bit2str B _ (by decide) (by decide) (by decide)
    have hne : chr ';' ≠ chr '|' := by decide
    simp only [trunkRecord, List.mem_append, List.mem_cons, not_or]
    exact ⟨h.not_mem_name (by decide) (by decide), hne, hsemi _, hne, hsemi _, hne, hlist⟩
  · intro base t
    have htext : trunkRecord B g ++ chr ';' :: t = g.name ++ chr '|' :: (printInt g.mode ++
        chr '|' :: (printInt g.key ++ chr '|' :: (bit2str B g.portInt ++ chr ';' :: t))) := by
      simp [trunkRecord]
    obtain ⟨p, hskip, hnumber⟩ := h.atoi_name (printInt g.mode ++
        chr '|' :: (printInt g.key ++ chr '|' :: (bit2str B g.portInt ++ chr ';' :: t)))
    have hfree : chr '|' ∉ g.name := h.not_mem_name (by decide) (by decide)
    have hname := nextField_append hfree (printInt g.mode ++
        chr '|' :: (printInt g.key ++ chr '|' :: (bit2str B g.portInt ++ chr ';' :: t)))
    have htmp : (between (bit2str B g.portInt ++ chr ';' :: t) (chr ';' :: t)).bind (store 128) =
        some (bit2str B g.portInt) := by
      have hlen := length_bit2str_le B g.portInt
      exact between_append_bind (store_of_lt (by omega))
    rw [htext, trunkListStores, bind_of_eq hskip, bind_of_eq hname]
    simp only
    rw [bind_of_eq (strchr_append_cons (hbar g.mode) _), bind_of_eq (incr_cons _ _),
      bind_of_eq (strchr_append_cons (hbar g.key) _), bind_of_eq (incr_cons _ _),
      bind_of_eq htmp, bind_of_eq (str2bit_bit2str_eq B g.portInt), hnumber,
      atoi_printInt_cons h.mode (by decide), atoi_printInt_cons h.key (by decide)]
    rfl

/-- A slot whose fields hold a group is read as this group. -/
theorem readTrunkList_of_window (h : Numbered g) {B : Build} {e : Endian} {memory : List Byte}
    {base : ℕ} (hzero : (0 : Byte) ∉ g.name)
    (hw : ∀ f ∈ trunkFields B e base g, f.Window memory) :
    readTrunkList e memory base = some (restored B g) := by
  simp only [trunkFields, List.mem_cons, List.not_mem_nil, or_false, forall_eq_or_imp,
    forall_eq] at hw
  obtain ⟨hno, hname, hmode, hkey, hports⟩ := hw
  rw [readTrunkList, bind_of_eq (readStr_of_window hzero h.length_lt hname),
    take_of_window (length_bytesOf _ _) hno, take_of_window (length_bytesOf _ _) hmode,
    take_of_window (length_bytesOf _ _) hkey, take_of_window (length_bytesOf64 _ _) hports,
    wordOf_bytesOf, wordOf_bytesOf, wordOf_bytesOf, wordOf64_bytesOf64,
    toInt_ofInt h.isInt_nameNumber, toInt_ofInt h.mode, toInt_ofInt h.key]
  rfl

theorem length_le (h : Numbered g) (B : Build) : (trunkRecord B g).length ≤ 117 := by
  have hname := h.length_lt
  have hmode := length_printInt_le h.mode
  have hkey := length_printInt_le h.key
  have hports := length_bit2str_le B g.portInt
  simp only [trunkRecord, List.length_append, List.length_cons]
  omega

end Numbered

/-- The records of all groups. -/
def trunkListText (B : Build) (gs : List CliTrunkList) : CStr :=
  gs.flatMap fun g => trunkRecord B g ++ [chr ';']

/-- The two texts that go through `tmp` for a group. -/
def trunkPieces (B : Build) (g : CliTrunkList) : List CStr :=
  [g.name ++ chr '|' :: (printInt g.mode ++ chr '|' :: (printInt g.key ++ [chr '|'])),
    bit2str B g.portInt ++ [chr ';']]

theorem flatten_trunkPieces (B : Build) (gs : List CliTrunkList) :
    (gs.flatMap (trunkPieces B)).flatten = trunkListText B gs := by
  induction gs with
  | nil => rfl
  | cons g gs ih =>
      rw [List.flatMap_cons, List.flatten_append, ih]
      simp [trunkListText, trunkPieces, trunkRecord]

theorem setTrunkListLoop_eq_appendTexts (B : Build) (e : Endian) {memory : List Byte} {cap : ℕ}
    {slots : List ℕ} {gs : List CliTrunkList} (result : CStr)
    (hread : slots.mapM (fun i => readTrunkList e memory (i * sizeofCliTrunkList)) = some gs) :
    setTrunkListLoop B e memory cap slots result =
      appendTexts 140 cap (gs.flatMap (trunkPieces B)) result := by
  induction slots generalizing gs result with
  | nil =>
      obtain rfl : [] = gs := by simpa using hread
      rfl
  | cons i slots ih =>
      obtain ⟨g, rest, hg, hrest, rfl⟩ := mapM_cons_eq_some.mp hread
      rw [setTrunkListLoop, bind_of_eq hg, List.flatMap_cons, trunkPieces, List.cons_append,
        List.cons_append, List.nil_append, appendTexts]
      simp only [appendTexts, ih _ hrest]

theorem Numbered.length_trunkPiece_lt {g : CliTrunkList} (h : Numbered g) (B : Build) {x : CStr}
    (hx : x ∈ trunkPieces B g) : x.length < 140 := by
  have hname := h.length_lt
  have hmode := length_printInt_le h.mode
  have hkey := length_printInt_le h.key
  have hports := length_bit2str_le B g.portInt
  simp only [trunkPieces, List.mem_cons, List.not_mem_nil, or_false] at hx
  rcases hx with rfl | rfl <;>
    simp only [List.length_append, List.length_cons, List.length_nil] <;> omega

/-- The records of the groups are appended exactly if the block has room for all of them. -/
theorem setTrunkListLoop_eq (B : Build) (e : Endian) {memory : List Byte} {cap : ℕ}
    {slots : List ℕ} {gs : List CliTrunkList} {result : CStr}
    (hread : slots.mapM (fun i => readTrunkList e memory (i * sizeofCliTrunkList)) = some gs)
    (h : ∀ g ∈ gs, Numbered g) (hresult : result.length < cap) :
    setTrunkListLoop B e memory cap slots result =
      if (result ++ trunkListText B gs).length < cap then some (result ++ trunkListText B gs)
      else none := by
  have hpieces : ∀ x ∈ gs.flatMap (trunkPieces B), x.length < 140 := by
    intro x hx
    obtain ⟨g, hg, hx⟩ := List.mem_flatMap.mp hx
    exact (h g hg).length_trunkPiece_lt B hx
  rw [setTrunkListLoop_eq_appendTexts B e result hread, appendTexts_eq hpieces hresult,
    flatten_trunkPieces]

theorem length_trunkListText_le {B : Build} {gs : List CliTrunkList} (h : ∀ g ∈ gs, Numbered g) :
    (trunkListText B gs).length ≤ 118 * gs.length := by
  apply length_flatMap_le
  intro g hg
  rw [List.length_append, List.length_singleton]
  exact Nat.succ_le_succ ((h g hg).length_le B)

/-- Groups named by their numbers are read back from a zeroed table with these numbers, and with
the maps reduced to the ports of the build. -/
theorem trunk_list_round_trip (B : Build) (e : Endian) (extra : ℕ)
    (t : UserTable CLI_TRUNK_GROUP sizeofCliTrunkList)
    (hcount : t.count.toNat ≤ CLI_TRUNK_GROUP) {gs : List CliTrunkList}
    (hread : (List.range t.count.toNat).mapM
      (fun (i : ℕ) => readTrunkList e t.memory.1 (i * sizeofCliTrunkList)) = some gs)
    (h : ∀ g ∈ gs, Numbered g)
    (hfit : (trunkListText B gs).length < PORT_STR_LEN B * gs.length + extra) (nv : Nvram) :
    ∃ nv' t', cliNvramConfSetTrunkList B e extra t nv = some (CLI_SUCCESS, nv') ∧
      cliNvramConfGetTrunkList B e (nv' (text "trunk_list")) (zeroed _ _) = some t' ∧
      t'.count = t.count ∧
      (List.range t'.count.toNat).mapM
        (fun (i : ℕ) => readTrunkList e t'.memory.1 (i * sizeofCliTrunkList)) =
          some (gs.map (restored B)) := by
  have hmax : CLI_TRUNK_GROUP = 8 := rfl
  have hlen : gs.length = t.count.toNat := by
    rw [length_of_mapM hread, List.length_range]
  have hsigned : t.count.toInt = t.count.toNat := BitVec.toInt_eq_toNat_of_lt (by omega)
  have hcap : (PORT_STR_LEN B * t.count.toInt).toNat = PORT_STR_LEN B * gs.length := by
    rw [hsigned, hlen, ← Int.natCast_mul, Int.toNat_natCast]
  have hset := @setTrunkListLoop_eq B e _ (PORT_STR_LEN B * gs.length + extra) _ _ [] hread h
    (by rw [List.length_nil]; omega)
  rw [List.nil_append, if_pos hfit] at hset
  have hinit : store (PORT_STR_LEN B * gs.length + extra) [] = some [] :=
    store_of_lt (by rw [List.length_nil]; omega)
  have htext := @length_trunkListText_le B gs h
  have hname : (text "trunk_list").length = 10 := by decide
  have hstore := @scfgmgrSet_of_lt (text "trunk_list") (trunkListText B gs) nv (by
    rw [List.length_append, List.length_cons]
    omega)
  have hzero : ∀ g ∈ gs, (0 : Byte) ∉ g.name := fun g hg =>
    (h g hg).not_mem_name (by decide) (by decide)
  obtain ⟨t', hget, hfilled⟩ := @fillTable_flatMap _ CLI_TRUNK_GROUP _ _ _ _
    (TableType.storesBehind B e .trunkList) (layout_trunkFields B e) gs
    (fun g hg => (h g hg).readsBack B e) (fun g hg base => (h g hg).fits B e base) (by omega)
  have hcount' : t'.count = t.count := by
    rw [hfilled.count, hlen, BitVec.ofNat_toNat, BitVec.setWidth_eq]
  refine ⟨Function.update nv (text "trunk_list") (trunkListText B gs), t', ?_, ?_, hcount', ?_⟩
  · simp only [cliNvramConfSetTrunkList, hcap]
    rw [bind_of_eq hinit, hsigned, Int.toNat_natCast, bind_of_eq hset, bind_of_eq hstore]
    rfl
  · rw [Function.update_self]
    exact hget
  · rw [hcount', ← hlen]
    exact hfilled.mapM_read fun g hg _ => (h g hg).readTrunkList_of_window (hzero g hg)

/-- A slot with zeros behind its name. -/
def trunkSlotBytes (e : Endian) (g : CliTrunkList) : List Byte :=
  bytesOf e (BitVec.ofInt 32 g.groupNo) ++ (padRow 36 g.name ++
    (bytesOf e (BitVec.ofInt 32 g.mode) ++ (bytesOf e (BitVec.ofInt 32 g.key) ++
      bytesOf64 e g.portInt)))

/-- Two groups with negative numbers and a map that leaves the ports of the build. -/
theorem trunk_list_round_trip_two :
    let B : Build := ⟨8, 0, 0, by decide, by decide⟩
    let gs : List CliTrunkList := [⟨0, text "Trunk-1", 1, -1000, 0x2d4⟩,
      ⟨7, text "Trunk-012", -3, 0, 0⟩]
    let t : UserTable CLI_TRUNK_GROUP sizeofCliTrunkList :=
      ⟨2, (gs ++ List.replicate 6 (⟨0, [], 0, 0, 0⟩ : CliTrunkList)).flatMap
        (trunkSlotBytes .little), by decide +kernel⟩
    ∃ nv' t', cliNvramConfSetTrunkList B .little 0 t (fun _ => []) = some (CLI_SUCCESS, nv') ∧
      cliNvramConfGetTrunkList B .little (nv' (text "trunk_list")) (zeroed _ _) = some t' ∧
      t'.count = t.count ∧
      (List.range t'.count.toNat).mapM
        (fun (i : ℕ) => readTrunkList .little t'.memory.1 (i * sizeofCliTrunkList)) =
          some (gs.map (restored B)) := by
  intro B gs t
  refine trunk_list_round_trip B .little 0 t (by decide) (by decide +kernel) ?_
    (by decide +kernel) (fun _ => [])
  intro g hg
  simp only [gs, List.mem_cons, List.not_mem_nil, or_false] at hg
  rcases hg with rfl | rfl
  · exact ⟨⟨text "1", by decide, by decide, List.all_eq_true.mp (by decide), by decide⟩,
      by decide, by decide, by decide⟩
  · exact ⟨⟨text "012", by decide, by decide, List.all_eq_true.mp (by decide), by decide⟩,
      by decide, by decide, by decide⟩

end BcmUtils.UserTables
