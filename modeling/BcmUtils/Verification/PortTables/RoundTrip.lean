import BcmUtils.Foundation.Records
import BcmUtils.Model.PortTables
import BcmUtils.Verification.PoeNames.Slots

/-! # Round trips of the tables with a record for each port

The readers advance port by port, to the next `;` or to the next `,`. -/

namespace BcmUtils.PortTables

open CLib PoeNames

/-- The texts fit the arrays that they are printed to and appended in. -/
def TextsFit (tmpCap cap : ℕ) (xs : List CStr) : Prop :=
  (∀ x ∈ xs, x.length < tmpCap) ∧ xs.flatten.length < cap

instance (tmpCap cap : ℕ) (xs : List CStr) : Decidable (TextsFit tmpCap cap xs) :=
  inferInstanceAs (Decidable (_ ∧ _))

theorem TextsFit.append_eq {tmpCap cap : ℕ} {xs : List CStr} (h : TextsFit tmpCap cap xs) :
    appendTexts tmpCap cap xs [] = some xs.flatten := by
  have hcap : 0 < cap := (Nat.zero_le _).trans_lt h.2
  rw [appendTexts_eq h.1 hcap, List.nil_append, if_pos h.2]

theorem scfgmgrSet_flatten {name : CStr} {xs : List CStr} (hname : name.length ≤ 13)
    (h : xs.flatten.length < 1024) (nv : Nvram) :
    scfgmgrSet name xs.flatten nv = some (Function.update nv name xs.flatten) := by
  apply scfgmgrSet_of_lt
  rw [List.length_append, List.length_cons]
  omega

/-! ## Records of three numbers -/

theorem readTriple_append {a b c : ℤ} (ha : IsInt a) (hb : IsInt b) (hc : IsInt c) (t : CStr) :
    readTriple (tripleText a b c ++ t) = some (a, b, c, printInt c ++ chr ';' :: t) := by
  have hcomma : ∀ v : ℤ, chr ',' ∉ printInt v := not_mem_printInt (by decide) (by decide)
  have htext : tripleText a b c ++ t = printInt a ++ chr ',' :: (printInt b ++ chr ',' ::
      (printInt c ++ chr ';' :: t)) := by
    simp [tripleText]
  rw [htext, readTriple, bind_of_eq (strchr_append_cons (hcomma a) _), bind_of_eq (incr_cons _ _),
    bind_of_eq (strchr_append_cons (hcomma b) _), bind_of_eq (incr_cons _ _),
    atoi_printInt_cons ha (by decide), atoi_printInt_cons hb (by decide),
    atoi_printInt_cons hc (by decide)]
  rfl

/-- A record ends with its only semicolon. -/
theorem strchr_tripleText_append (a b c : ℤ) (t : CStr) :
    strchr (chr ';') (tripleText a b c ++ t) = some (chr ';' :: t) := by
  have hsemi : ∀ v : ℤ, chr ';' ∉ printInt v := not_mem_printInt (by decide) (by decide)
  have hskip : ∀ (v : ℤ) (s : CStr), strchr (chr ';') (printInt v ++ chr ',' :: s) =
      strchr (chr ';') s := by
    intro v s
    rw [strchr_append (hsemi v), strchr_cons_of_ne (by decide)]
  have htext : tripleText a b c ++ t = printInt a ++ chr ',' :: (printInt b ++ chr ',' ::
      (printInt c ++ chr ';' :: t)) := by
    simp [tripleText]
  rw [htext, hskip, hskip, strchr_append_cons (hsemi c)]

/-! ## 802.1X -/

/-- The fields that are stored are 32-bit integers. -/
structure Dot1xInts (c : CliDot1xConf) : Prop where
  authMode : IsInt c.authMode
  ctrlType : IsInt c.ctrlType
  maxUser : IsInt c.maxUser

/-- The texts of the ports. -/
def dot1xTexts (cs : List CliDot1xConf) : List CStr :=
  cs.map fun c => tripleText c.authMode c.ctrlType c.maxUser

/-- The fields that are stored. -/
def dot1xStored (c : CliDot1xConf) : ℤ × ℤ × ℤ := (c.authMode, c.ctrlType, c.maxUser)

theorem getDot1xLoop_spec {cs old : List CliDot1xConf} (h : ∀ c ∈ cs, Dot1xInts c)
    (hold : old.length = cs.length) :
    ∃ cs', getDot1xLoop old (dot1xTexts cs).flatten = some cs' ∧
      cs'.map dot1xStored = cs.map dot1xStored := by
  induction cs generalizing old with
  | nil =>
      obtain rfl := List.eq_nil_of_length_eq_zero hold
      exact ⟨[], rfl, rfl⟩
  | cons c cs ih =>
      obtain ⟨o, old, rfl⟩ := List.exists_cons_of_length_eq_add_one hold
      obtain ⟨cs', hcs', hsame⟩ := ih (fun d hd => h d (List.mem_cons_of_mem _ hd))
        (by simpa using hold)
      have hc := h c List.mem_cons_self
      refine ⟨{ o with authMode := c.authMode, ctrlType := c.ctrlType, maxUser := c.maxUser } :: cs',
        ?_, ?_⟩
      · rw [dot1xTexts, List.map_cons, List.flatten_cons, ← dot1xTexts, getDot1xLoop,
          strchr_tripleText_append]
        simp only
        rw [bind_of_eq (readTriple_append hc.authMode hc.ctrlType hc.maxUser _)]
        simp only
        rw [bind_of_eq (incr_cons _ _), bind_of_eq hcs']
        rfl
      · rw [List.map_cons, List.map_cons, hsame]
        rfl

/-- The stored fields of every port are read back into any struct. -/
theorem dot1x_read_back (B : Build) (cs : PortArray B CliDot1xConf) (h : ∀ c ∈ cs.1, Dot1xInts c)
    (hfit : TextsFit 140 (16 * B.PNUM) (dot1xTexts cs.1)) (nv : Nvram) :
    ∃ nv', cliNvramConfSetDot1x B cs nv = some (CLI_SUCCESS, nv') ∧
      ∀ old, ∃ cs', cliNvramConfGetDot1x B nv' old = some (CLI_SUCCESS, cs', nv') ∧
        cs'.map dot1xStored = cs.1.map dot1xStored := by
  have hphy := B.le_phy
  have hlen := hfit.2
  have hstore := @scfgmgrSet_flatten (text "dot1x_config") _ (by decide)
    (by omega : (dot1xTexts cs.1).flatten.length < 1024) nv
  refine ⟨Function.update nv (text "dot1x_config") (dot1xTexts cs.1).flatten, ?_, fun old => ?_⟩
  · rw [cliNvramConfSetDot1x, ← dot1xTexts, bind_of_eq hfit.append_eq, bind_of_eq hstore]
    rfl
  · obtain ⟨cs', hcs', hsame⟩ := getDot1xLoop_spec h (old.2.trans cs.2.symm)
    refine ⟨cs', ?_, hsame⟩
    rw [cliNvramConfGetDot1x, Function.update_self, bind_of_eq hcs']
    rfl

/-! ## Power over Ethernet -/

/-- A record of 32-bit integers. -/
structure PoeInts (c : PoeConf) : Prop where
  enable : IsInt c.enable
  maxPower : IsInt c.maxPower
  priority : IsInt c.priority

/-- The texts of the ports. -/
def poeTexts (cs : List PoeConf) : List CStr :=
  cs.map fun c => tripleText c.enable c.maxPower c.priority

theorem poeNvramPraseLoop_eq {cs old : List PoeConf} (h : ∀ c ∈ cs, PoeInts c)
    (hold : old.length = cs.length) :
    poeNvramPraseLoop old (poeTexts cs).flatten = some cs := by
  induction cs generalizing old with
  | nil =>
      obtain rfl := List.eq_nil_of_length_eq_zero hold
      rfl
  | cons c cs ih =>
      obtain ⟨o, old, rfl⟩ := List.exists_cons_of_length_eq_add_one hold
      have hc := h c List.mem_cons_self
      have hsemi : chr ';' ∉ printInt c.priority := not_mem_printInt (by decide) (by decide) _
      rw [poeTexts, List.map_cons, List.flatten_cons, ← poeTexts, poeNvramPraseLoop,
        bind_of_eq (readTriple_append hc.enable hc.maxPower hc.priority _)]
      simp only
      rw [bind_of_eq (strchr_append_cons hsemi _), bind_of_eq (incr_cons _ _),
        bind_of_eq (ih (fun d hd => h d (List.mem_cons_of_mem _ hd)) (by simpa using hold))]
      rfl

/-- The settings of every PoE port are read back into any struct. -/
theorem poe_conf_read_back (B : Build) (hpos : 1 ≤ B.PoE_NUM) (cs : PoeArray B PoeConf)
    (h : ∀ c ∈ cs.1, PoeInts c) (hfit : TextsFit 32 512 (poeTexts cs.1)) (nv : Nvram) :
    ∃ nv', cliPoeConfStoreToNvram B cs nv = some nv' ∧
      ∀ old, cliPoeNvramPrase B nv' old = some (cs.1, nv') := by
  have hlen := hfit.2
  have hstore := @scfgmgrSet_flatten (text "poe_port_conf") _ (by decide)
    (by omega : (poeTexts cs.1).flatten.length < 1024) nv
  have hne : (poeTexts cs.1).flatten ≠ [] := by
    obtain ⟨c, rest, hcs⟩ := List.exists_cons_of_length_pos (by rw [cs.2]; omega)
    simp [poeTexts, hcs, tripleText]
  refine ⟨Function.update nv (text "poe_port_conf") (poeTexts cs.1).flatten, ?_, fun old => ?_⟩
  · rw [cliPoeConfStoreToNvram, ← poeTexts, bind_of_eq hfit.append_eq]
    exact hstore
  · have hread := poeNvramPraseLoop_eq h (old.2.trans cs.2.symm)
    unfold cliPoeNvramPrase
    apply (bind_of_eq (cliNvramSafeGet_update B .poePort hne (text "poe_port_conf") nv) _).trans
    apply (bind_of_eq hread _).trans
    rfl

/-! ## Names -/

/-- The names of the ports up to the last one are separated by commas. -/
theorem flatten_poeDespTexts (B : Build) {portid : ℕ} {xs : List CStr}
    (h : portid + xs.length = B.PoE_NUM + 1) :
    (poeDespTexts B portid xs).flatten = [chr ','].intercalate xs := by
  induction xs generalizing portid with
  | nil => rfl
  | cons x xs ih =>
      rw [List.length_cons] at h
      rw [poeDespTexts, List.zipIdx_cons, List.map_cons, List.flatten_cons, ← poeDespTexts,
        ih (by omega)]
      cases xs with
      | nil =>
          rw [List.length_nil] at h
          simp only
          rw [if_neg (by omega)]
          simp [List.intercalate]
      | cons y xs =>
          rw [List.length_cons] at h
          simp only
          rw [if_pos (by omega)]
          simp [List.intercalate]

theorem mapM_loadName_of_holds {B : Build} {c : PoeNames B} {xs : List CStr} (h : Holds c xs)
    (hlen : xs.length = B.PoE_NUM) : c.poeNames.mapM (loadName c.heap) = some xs := by
  obtain ⟨as, m, hpointers, hcells⟩ := h
  have hm : m = 0 := by
    have hcount := congrArg List.length hpointers
    rw [c.length_eq, pointers, List.length_append, List.length_map, List.length_replicate,
      hcells.length_eq, hlen] at hcount
    omega
  rw [hpointers, hm, pointers, List.replicate_zero, List.append_nil]
  clear hpointers hlen
  induction hcells with
  | nil => rfl
  | cons hcell _ ih => exact mapM_cons_eq_some.mpr ⟨_, _, hcell, ih, rfl⟩

/-- The names of all PoE ports are read back into any struct. -/
theorem poe_names_read_back (B : Build) (hpos : 2 ≤ B.PoE_NUM) {c : PoeNames B} {xs : List CStr}
    (hlen : xs.length = B.PoE_NUM) (hholds : Holds c xs) (hfree : ∀ x ∈ xs, chr ',' ∉ x)
    (hfit : TextsFit 64 1024 (poeDespTexts B 1 xs)) (nv : Nvram) :
    ∃ nv', cliPoeDespStoreToNvram B c nv = some nv' ∧
      ∀ old, ∃ c', cliPoeDespNvramPrase B (fun _ => true) nv' old = some (c', nv') ∧
        Holds c' xs := by
  have hxs : xs ≠ [] := List.ne_nil_of_length_pos (by omega)
  have htext := flatten_poeDespTexts B (by omega : 1 + xs.length = B.PoE_NUM + 1)
  have hstore := @scfgmgrSet_flatten (text "port_desps") _ (by decide) hfit.2 nv
  have hsplit : ([chr ','].intercalate xs).splitOn (chr ',') = xs :=
    List.splitOn_intercalate _ hfree hxs
  have hnames : names B ([chr ','].intercalate xs) = xs := by
    rw [names, hsplit, List.take_of_length_le (by omega)]
  -- the string of two names or more is not empty, so that no default takes its place
  have hne : [chr ','].intercalate xs ≠ [] := by
    intro hnil
    rw [hnil] at hsplit
    have := congrArg List.length hsplit
    simp only [List.splitOn_nil, List.length_singleton] at this
    omega
  refine ⟨Function.update nv (text "port_desps") (poeDespTexts B 1 xs).flatten, ?_, fun old => ?_⟩
  · rw [cliPoeDespStoreToNvram, bind_of_eq (mapM_loadName_of_holds hholds hlen),
      bind_of_eq hfit.append_eq]
    exact hstore
  · have hget := cliNvramSafeGet_update B .poeDesp hne (text "port_desps") nv
    rw [htext]
    obtain ⟨c', hc', hholds', -⟩ := @cliPoeDespNvramPrase_spec B (fun _ => true) _ _ _ hget old
      (fun _ _ => rfl) (by
        intro i p hp hi
        have hlt := (List.getElem?_eq_some_iff.mp hp).1
        rw [hnames, hlen] at hi
        rw [old.length_eq] at hlt
        omega)
    rw [hnames] at hholds'
    exact ⟨c', hc', hholds'⟩

/-! ## All tables -/

/-- What the tables of any build store is read back in every port. -/
theorem port_tables_read_back (B : Build) (nv : Nvram) :
    (∀ cs : PortArray B CliDot1xConf, (∀ c ∈ cs.1, Dot1xInts c) →
      TextsFit 140 (16 * B.PNUM) (dot1xTexts cs.1) →
      ∃ nv', cliNvramConfSetDot1x B cs nv = some (CLI_SUCCESS, nv') ∧
        ∀ old, ∃ cs', cliNvramConfGetDot1x B nv' old = some (CLI_SUCCESS, cs', nv') ∧
          cs'.map dot1xStored = cs.1.map dot1xStored) ∧
    (∀ cs : PoeArray B PoeConf, 1 ≤ B.PoE_NUM → (∀ c ∈ cs.1, PoeInts c) →
      TextsFit 32 512 (poeTexts cs.1) →
      ∃ nv', cliPoeConfStoreToNvram B cs nv = some nv' ∧
        ∀ old, cliPoeNvramPrase B nv' old = some (cs.1, nv')) ∧
    (∀ (c : PoeNames B) (xs : List CStr), 2 ≤ B.PoE_NUM → xs.length = B.PoE_NUM → Holds c xs →
      (∀ x ∈ xs, chr ',' ∉ x) → TextsFit 64 1024 (poeDespTexts B 1 xs) →
      ∃ nv', cliPoeDespStoreToNvram B c nv = some nv' ∧
        ∀ old, ∃ c', cliPoeDespNvramPrase B (fun _ => true) nv' old = some (c', nv') ∧
          Holds c' xs) :=
  ⟨fun cs h hfit => dot1x_read_back B cs h hfit nv,
    fun cs hpos h hfit => poe_conf_read_back B hpos cs h hfit nv,
    fun _ _ hpos hlen hholds hfree hfit => poe_names_read_back B hpos hlen hholds hfree hfit nv⟩

/-- A build with two ports, one of them with an empty name. -/
theorem port_tables_read_back_two :
    let B : Build := ⟨2, 2, 46, by decide, by decide⟩
    (∃ nv', cliNvramConfSetDot1x B ⟨[⟨1, 0, 7, 4096⟩, ⟨-2, 5, 0, 1⟩], rfl⟩ (fun _ => []) =
        some (CLI_SUCCESS, nv') ∧
      ∀ old, ∃ cs', cliNvramConfGetDot1x B nv' old = some (CLI_SUCCESS, cs', nv') ∧
        cs'.map dot1xStored = [(1, 0, 4096), (-2, 5, 1)]) ∧
    (∃ nv', cliPoeConfStoreToNvram B ⟨[⟨1, 46, 0⟩, ⟨0, -15, 3⟩], rfl⟩ (fun _ => []) = some nv' ∧
      ∀ old, cliPoeNvramPrase B nv' old = some ([⟨1, 46, 0⟩, ⟨0, -15, 3⟩], nv')) ∧
    (∃ nv', cliPoeDespStoreToNvram B
        ⟨((Heap.empty.alloc []).2.alloc (text "cam;1")).2, [.block 0, .block 1], rfl⟩
        (fun _ => []) = some nv' ∧
      ∀ old, ∃ c', cliPoeDespNvramPrase B (fun _ => true) nv' old = some (c', nv') ∧
        Holds c' [[], text "cam;1"]) := by
  intro B
  obtain ⟨hdot1x, hpoe, hnames⟩ := port_tables_read_back B (fun _ => [])
  refine ⟨?_, ?_, ?_⟩
  · refine hdot1x ⟨[⟨1, 0, 7, 4096⟩, ⟨-2, 5, 0, 1⟩], rfl⟩ ?_ (by decide)
    intro c hc
    simp only [List.mem_cons, List.not_mem_nil, or_false] at hc
    rcases hc with rfl | rfl <;> exact ⟨by decide, by decide, by decide⟩
  · refine hpoe ⟨[⟨1, 46, 0⟩, ⟨0, -15, 3⟩], rfl⟩ (by decide) ?_ (by decide)
    intro c hc
    simp only [List.mem_cons, List.not_mem_nil, or_false] at hc
    rcases hc with rfl | rfl <;> exact ⟨by decide, by decide, by decide⟩
  · refine hnames _ [[], text "cam;1"] (by decide) rfl ⟨[0, 1], 0, rfl, ?_⟩ (by decide) (by decide)
    exact .cons rfl (.cons rfl .nil)

end BcmUtils.PortTables
