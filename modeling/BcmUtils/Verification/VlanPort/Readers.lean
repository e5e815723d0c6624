import BcmUtils.Verification.VlanPort.Encoding

/-! # Reading the port VLAN settings back

`cli_nvram_conf_get` and `vlan_port_get` read every stored list of ids.
`bcm_get_pvid_from_entry` takes a list of single-digit ids for the default. -/

namespace BcmUtils.VlanPort

open CLib

/-! ## Items -/

/-- Where a reader stands after an id: before the next one, or nowhere. -/
def pvidRest : List ℤ → Option CStr
  | [] => none
  | v :: vs => some (pvidText (v :: vs))

theorem pvidRest_cons (v : ℤ) (vs : List ℤ) :
    pvidRest (v :: vs) = some (pvidText (v :: vs)) := rfl

theorem pvidItem_pvidText {v : ℤ} (hv : IsInt v) (vs : List ℤ) :
    pvidItem (pvidText (v :: vs)) = (v, pvidRest vs) := by
  have hcomma : chr ',' ∉ printInt v := not_mem_printInt (by decide) (by decide) v
  cases vs with
  | nil =>
      have hnone : strchr (chr ',') (pvidText [v]) = none :=
        strchr_eq_none.mpr (by simpa [pvidText] using hcomma)
      rw [pvidItem, hnone]
      simp [pvidText, pvidRest, atoi_printInt hv]
  | cons w ws =>
      have hread := atoi_printInt_cons hv (by decide : isDigit (chr ',') = false)
        (pvidText (w :: ws))
      have hsome := strchr_append_cons hcomma (pvidText (w :: ws))
      have htext : pvidText (v :: w :: ws) = printInt v ++ chr ',' :: pvidText (w :: ws) := by
        simp [pvidText]
      rw [pvidItem, htext, hread, hsome]
      rfl

theorem trunkItem_append {portid : ℤ} {list : CStr} (h : TrunkFits portid list) (t : CStr) :
    trunkItem (trunkItemText portid list ++ t) = some (list, t) := by
  have htext : trunkItemText portid list ++ t =
      printInt portid ++ chr ':' :: (list ++ chr ';' :: t) := by
    simp [trunkItemText]
  have hcolon : strchr (chr ':') (printInt portid ++ chr ':' :: (list ++ chr ';' :: t)) =
      some (chr ':' :: (list ++ chr ';' :: t)) :=
    strchr_append_cons (not_mem_printInt (by decide) (by decide) portid) _
  have hsemicolon : strchr (chr ';') (printInt portid ++ chr ':' :: (list ++ chr ';' :: t)) =
      some (chr ';' :: t) := by
    have hpid : chr ';' ∉ printInt portid := not_mem_printInt (by decide) (by decide) portid
    rw [strchr_append hpid, strchr_cons_of_ne (by decide), strchr_append_cons h.semicolon]
  rw [trunkItem, htext, bind_of_eq hcolon, bind_of_eq (incr_cons _ _), bind_of_eq hsemicolon,
    bind_of_eq (between_append _ _)]
  rfl

/-! ## Loops -/

/-- The records as they are read: numbered from `portid` on. -/
def renumber (portid : ℕ) (cs : List CliPortConf) : List CliPortConf :=
  (cs.zipIdx portid).map fun q => { q.1 with portid := q.2 }

theorem map_pvid_renumber (portid : ℕ) (cs : List CliPortConf) :
    (renumber portid cs).map (·.pvid) = cs.map (·.pvid) := by
  rw [renumber, List.map_map]
  conv_rhs => rw [← List.zipIdx_map_fst portid cs, List.map_map]
  rfl

theorem getVlanPortLoop_eq {cs old : List CliPortConf} (h : ∀ c ∈ cs, Admitted c)
    (hold : old.length = cs.length) (pre : CStr) :
    getVlanPortLoop (fun _ => true) (pre ++ cs.map (·.mode)) (pre.length + 1) old
        (pvidRest (cs.map (·.pvid))) (trunkText (·.allow) cs) (trunkText (·.untag) cs) =
      some (CLI_SUCCESS, renumber (pre.length + 1) cs) := by
  induction cs generalizing pre old with
  | nil =>
      obtain rfl := List.eq_nil_of_length_eq_zero hold
      rfl
  | cons c cs ih =>
      obtain ⟨d, old, rfl⟩ := List.exists_cons_of_length_eq_add_one hold
      have hc := h c (by simp)
      obtain ⟨allow, hallow, hallowFits⟩ := hc.allow
      obtain ⟨untag, huntag, huntagFits⟩ := hc.untag
      have hmode := charAt_append pre c.mode (cs.map (·.mode))
      have hpvid := pvidItem_pvidText hc.isInt (cs.map (·.pvid))
      have hnext := ih (fun e he => h e (by simp [he])) (by simpa using hold) (pre ++ [c.mode])
      simp only [List.append_assoc, List.singleton_append, List.length_append,
        List.length_singleton] at hnext
      simp only [List.map_cons, trunkText_cons, hallow, huntag, Option.getD_some, pvidRest_cons,
        getVlanPortLoop, Nat.add_sub_cancel, hmode, hpvid, trunkItem_append hallowFits,
        trunkItem_append huntagFits, hnext, Option.bind_eq_bind, Option.bind_some, ite_true]
      simp [renumber, List.zipIdx_cons, ← hallow, ← huntag]

/-- What `vlan_port_get` makes of a record and the entry it finds. -/
structure Overwritten (r : CliPortConf × PortConfEntry) (e : PortConfEntry) : Prop where
  pvid : e.pvid = r.1.pvid
  mode : e.mode = r.1.mode.toInt8.toInt - 48
  allow : ∃ list, r.1.allow = some list ∧ e.allow.1 = splice 0 list r.2.allow.1
  untag : ∃ list, r.1.untag = some list ∧ e.untag.1 = splice 0 list r.2.untag.1

theorem vlanPortGetLoop_spec {cs : List CliPortConf} {old : List PortConfEntry}
    (h : ∀ c ∈ cs, Admitted c) (hold : old.length = cs.length) (pre : CStr) :
    ∃ es, vlanPortGetLoop (pre ++ cs.map (·.mode)) (pre.length + 1) old
        (pvidRest (cs.map (·.pvid))) (trunkText (·.allow) cs) (trunkText (·.untag) cs) = some es ∧
      List.Forall₂ Overwritten (cs.zip old) es := by
  induction cs generalizing pre old with
  | nil =>
      obtain rfl := List.eq_nil_of_length_eq_zero hold
      exact ⟨[], rfl, List.Forall₂.nil⟩
  | cons c cs ih =>
      obtain ⟨d, old, rfl⟩ := List.exists_cons_of_length_eq_add_one hold
      have hc := h c (by simp)
      obtain ⟨allow, hallow, hallowFits⟩ := hc.allow
      obtain ⟨untag, huntag, huntagFits⟩ := hc.untag
      have hcopy : ∀ (b : Block 256) (list : CStr), TrunkFits c.portid list →
          ∃ b', b.copy 0 list = some b' ∧ b'.1 = splice 0 list b.1 := by
        intro b list hfits
        have := hfits.length_lt
        exact Block.copy_of_le (by omega)
      obtain ⟨a, ha, hsplice⟩ := hcopy d.allow allow hallowFits
      obtain ⟨u, hu, hsplice'⟩ := hcopy d.untag untag huntagFits
      have hmode := charAt_append pre c.mode (cs.map (·.mode))
      have hpvid := pvidItem_pvidText hc.isInt (cs.map (·.pvid))
      obtain ⟨es, hes, hrest⟩ := ih (fun e he => h e (by simp [he])) (by simpa using hold)
        (pre ++ [c.mode])
      simp only [List.append_assoc, List.singleton_append, List.length_append,
        List.length_singleton] at hes
      have hentry : Overwritten (c, d) ⟨c.pvid, c.mode.toInt8.toInt - 48, a, u⟩ :=
        ⟨rfl, rfl, ⟨allow, hallow, hsplice⟩, ⟨untag, huntag, hsplice'⟩⟩
      refine ⟨⟨c.pvid, c.mode.toInt8.toInt - 48, a, u⟩ :: es, ?_, List.Forall₂.cons hentry hrest⟩
      simp only [List.map_cons, trunkText_cons, hallow, huntag, Option.getD_some, pvidRest_cons,
        vlanPortGetLoop, Nat.add_sub_cancel, hmode, hpvid, trunkItem_append hallowFits,
        trunkItem_append huntagFits, ha, hu, hes, Option.bind_eq_bind, Option.bind_some]
      rfl

theorem map_pvid_of_overwritten {cs : List CliPortConf} {old es : List PortConfEntry}
    (hold : old.length = cs.length) (h : List.Forall₂ Overwritten (cs.zip old) es) :
    es.map (·.pvid) = cs.map (·.pvid) := by
  induction cs generalizing old es with
  | nil =>
      cases h
      rfl
  | cons c cs ih =>
      obtain ⟨d, old, rfl⟩ := List.exists_cons_of_length_eq_add_one hold
      cases h with
      | cons hentry hrest =>
          rw [List.map_cons, List.map_cons, hentry.pvid, ih (by simpa using hold) hrest]

theorem pvidEntryLoop_eq {vs : List ℤ} (h : ∀ v ∈ vs, IsInt v ∧ v ≠ 0) :
    pvidEntryLoop vs.length (pvidRest vs) = some vs := by
  induction vs with
  | nil => rfl
  | cons v vs ih =>
      obtain ⟨hv, hne⟩ := h v (by simp)
      have hitem := pvidItem_pvidText hv vs
      rw [pvidItem, Prod.mk.injEq] at hitem
      obtain ⟨hread, hrest⟩ := hitem
      rw [pvidRest, List.length_cons, pvidEntryLoop, hread, hrest, if_neg hne,
        bind_of_eq (ih fun w hw => h w (by simp [hw]))]
      rfl

/-! ## The length of the list -/

theorem one_lt_length_printInt {v : ℤ} (h : 1 ≤ v) : 1 < (printInt v).length ↔ 10 ≤ v := by
  obtain ⟨n, rfl⟩ := Int.eq_ofNat_of_zero_le (by omega : 0 ≤ v)
  change 1 < (printNat n).length ↔ _
  constructor
  · intro hlen
    by_contra hn
    have := length_printNat_le (n := n) (k := 1) le_rfl (by omega)
    omega
  · intro hn
    exact lt_length_printNat (by omega)

/-- The list of `n` ids is longer than `n` digits and `n - 1` commas if one id is. -/
theorem two_mul_le_length_pvidText {vs : List ℤ} (hne : vs ≠ []) (h : ∀ v ∈ vs, 1 ≤ v) :
    2 * vs.length ≤ (pvidText vs).length ↔ ∃ v ∈ vs, 10 ≤ v := by
  have hrest : ∀ ws : List ℤ, (∀ w ∈ ws, 1 ≤ w) →
      2 * ws.length ≤ (ws.flatMap fun w => chr ',' :: printInt w).length ∧
      (2 * ws.length < (ws.flatMap fun w => chr ',' :: printInt w).length ↔
        ∃ w ∈ ws, 10 ≤ w) := by
    intro ws hws
    induction ws with
    | nil => simp
    | cons w ws ih =>
        obtain ⟨hle, hlt⟩ := ih fun x hx => hws x (by simp [hx])
        have hw := one_lt_length_printInt (hws w (by simp))
        have hpos := List.length_pos_of_ne_nil (printInt_ne_nil w)
        simp only [List.flatMap_cons, List.length_append, List.length_cons, List.mem_cons,
          exists_eq_or_imp, ← hw, ← hlt]
        omega
  obtain ⟨v, vs, rfl⟩ := List.exists_cons_of_ne_nil hne
  obtain ⟨hle, hlt⟩ := hrest vs fun w hw => h w (by simp [hw])
  have hv := one_lt_length_printInt (h v (by simp))
  have hpos := List.length_pos_of_ne_nil (printInt_ne_nil v)
  simp only [pvidText, List.length_append, List.length_cons, List.mem_cons, exists_eq_or_imp,
    ← hv, ← hlt]
  omega

/-! ## The readers -/

/-- Each of the three readers finds these ids in the store. -/
structure ReadBack (B : Build) (pvids : List ℤ) (nv : Nvram) : Prop where
  conf_get : ∀ old, ∃ cs, cliNvramConfGetVlanPort B (fun _ => true) nv old =
    some (CLI_SUCCESS, cs, nv) ∧ cs.map (·.pvid) = pvids
  port_get : ∀ old, ∃ es, vlanPortGet B nv old = some (0, es) ∧ es.map (·.pvid) = pvids
  from_entry : bcmGetPvidFromEntry B.PNUM (nv (text "pvid_config")) = some (0, pvids)

section

variable {B : Build} {cs : PortArray B CliPortConf} {nv : Nvram}

theorem pvidRest_map (h : cs.1 ≠ []) :
    pvidRest (cs.1.map (·.pvid)) = some (pvidText (cs.1.map (·.pvid))) := by
  obtain ⟨c, rest, hcs⟩ := List.exists_cons_of_ne_nil h
  rw [hcs, List.map_cons, pvidRest]

theorem ne_nil (cs : PortArray B CliPortConf) : cs.1 ≠ [] := by
  have := B.one_le
  rw [← List.length_pos_iff, cs.2]
  omega

theorem cliNvramConfGetVlanPort_eq (h : ∀ c ∈ cs.1, Admitted c) (hst : Stored cs.1 nv)
    (old : PortArray B CliPortConf) :
    cliNvramConfGetVlanPort B (fun _ => true) nv old = some (CLI_SUCCESS, renumber 1 cs.1, nv) := by
  have hloop := getVlanPortLoop_eq h (old.2.trans cs.2.symm) []
  rw [pvidRest_map (ne_nil cs), List.nil_append, List.length_nil, Nat.zero_add] at hloop
  obtain ⟨c, rest, hcs⟩ := List.exists_cons_of_ne_nil (ne_nil cs)
  have hlink : nv (text "vlan_link_type") ≠ [] := by simp [hst.link_type, hcs]
  have hpvid : nv (text "pvid_config") ≠ [] := by
    simp [hst.pvid, hcs, pvidText, printInt_ne_nil]
  have hallow : nv (text "trunk_vlan_allowed") ≠ [] := by
    simp [hst.allow, hcs, trunkText_cons, trunkItemText]
  have huntag : nv (text "trunk_vlan_untagged") ≠ [] := by
    simp [hst.untag, hcs, trunkText_cons, trunkItemText]
  unfold cliNvramConfGetVlanPort
  apply (bind_of_eq (cliNvramSafeGet_of_ne_nil B _ hlink) _).trans
  apply (bind_of_eq (cliNvramSafeGet_of_ne_nil B _ hpvid) _).trans
  apply (bind_of_eq (cliNvramSafeGet_of_ne_nil B _ hallow) _).trans
  apply (bind_of_eq (cliNvramSafeGet_of_ne_nil B _ huntag) _).trans
  simp only [hst.link_type, hst.pvid, hst.allow, hst.untag]
  rw [bind_of_eq hloop]
  rfl

theorem vlanPortGet_spec (h : ∀ c ∈ cs.1, Admitted c) (hst : Stored cs.1 nv)
    (old : PortArray B PortConfEntry) :
    ∃ es, vlanPortGet B nv old = some (0, es) ∧
      List.Forall₂ Overwritten (cs.1.zip old.1) es := by
  obtain ⟨es, hes, hrest⟩ := vlanPortGetLoop_spec h (old.2.trans cs.2.symm) []
  rw [pvidRest_map (ne_nil cs), List.nil_append, List.length_nil, Nat.zero_add] at hes
  refine ⟨es, ?_, hrest⟩
  rw [vlanPortGet, hst.link_type, hst.pvid, hst.allow, hst.untag, bind_of_eq hes]
  rfl

theorem bcmGetPvidFromEntry_eq_iff (h : ∀ c ∈ cs.1, Admitted c) :
    bcmGetPvidFromEntry B.PNUM (pvidText (cs.1.map (·.pvid))) = some (0, cs.1.map (·.pvid)) ↔
      ∃ c ∈ cs.1, 10 ≤ c.pvid := by
  have hne : cs.1.map (·.pvid) ≠ [] := by simpa using ne_nil cs
  have hpos : ∀ v ∈ cs.1.map (·.pvid), 1 ≤ v := by
    intro v hv
    obtain ⟨c, hc, rfl⟩ := List.mem_map.mp hv
    exact (h c hc).one_le
  have hlength := two_mul_le_length_pvidText hne hpos
  rw [List.length_map, cs.2] at hlength
  have hloop := @pvidEntryLoop_eq (cs.1.map (·.pvid)) (by
    intro v hv
    obtain ⟨c, hc, rfl⟩ := List.mem_map.mp hv
    have := (h c hc).one_le
    exact ⟨(h c hc).isInt, by omega⟩)
  rw [List.length_map, cs.2, pvidRest_map (ne_nil cs)] at hloop
  have hexists : (∃ v ∈ cs.1.map (·.pvid), 10 ≤ v) ↔ ∃ c ∈ cs.1, 10 ≤ c.pvid := by simp
  rw [← hexists, ← hlength, bcmGetPvidFromEntry]
  split
  · rename_i hshort
    constructor
    · intro heq
      simp at heq
    · omega
  · rename_i hlong
    rw [bind_of_eq hloop]
    simpa using hlong

end

/-- What the set function stores is read back by all three readers exactly if some id
has two digits. -/
theorem vlan_port_read_back_iff (B : Build) (cs : PortArray B CliPortConf)
    (h : ∀ c ∈ cs.1, Admitted c) (nv : Nvram) :
    (∃ nv', cliNvramConfSetVlanPort B cs nv = some (CLI_SUCCESS, nv') ∧
      ReadBack B (cs.1.map (·.pvid)) nv') ↔ ∃ c ∈ cs.1, 10 ≤ c.pvid := by
  obtain ⟨nv', hset, hst⟩ := cliNvramConfSetVlanPort_spec B cs h nv
  rw [← bcmGetPvidFromEntry_eq_iff h]
  constructor
  · rintro ⟨nv'', hset', hback⟩
    obtain rfl : nv' = nv'' := by simpa [hset] using hset'
    rw [← hst.pvid]
    exact hback.from_entry
  · intro hentry
    refine ⟨nv', hset, ?_, ?_, ?_⟩
    · intro old
      exact ⟨_, cliNvramConfGetVlanPort_eq h hst old, map_pvid_renumber 1 cs.1⟩
    · intro old
      obtain ⟨es, hes, hrest⟩ := vlanPortGet_spec h hst old
      exact ⟨es, hes, map_pvid_of_overwritten (old.2.trans cs.2.symm) hrest⟩
    · rw [hst.pvid]
      exact hentry

/-- Two ports with the ids 2 and 4094. -/
theorem vlan_port_read_back_iff_two :
    (∃ nv', cliNvramConfSetVlanPort ⟨2, 0, 0, by decide, by decide⟩
        ⟨[⟨1, 2, chr '1', some [], some []⟩, ⟨2, 4094, chr '3', some (text "1-8"), some []⟩], rfl⟩
        (fun _ => []) = some (CLI_SUCCESS, nv') ∧
      ReadBack ⟨2, 0, 0, by decide, by decide⟩ [2, 4094] nv') ↔
    ∃ c ∈ [(⟨1, 2, chr '1', some [], some []⟩ : CliPortConf),
      ⟨2, 4094, chr '3', some (text "1-8"), some []⟩], 10 ≤ c.pvid := by
  refine vlan_port_read_back_iff ⟨2, 0, 0, by decide, by decide⟩
    ⟨[⟨1, 2, chr '1', some [], some []⟩, ⟨2, 4094, chr '3', some (text "1-8"), some []⟩], rfl⟩
    ?_ (fun _ => [])
  intro c hc
  simp only [List.mem_cons, List.not_mem_nil, or_false] at hc
  rcases hc with rfl | rfl <;>
    exact ⟨by decide, by decide, by decide, ⟨_, rfl, by decide, by decide⟩,
      ⟨_, rfl, by decide, by decide⟩⟩

/-- Eight ports that all have the id 2. -/
def allTwo : PortArray ⟨8, 0, 0, by decide, by decide⟩ CliPortConf :=
  ⟨(List.range 8).map fun (i : ℕ) => ⟨(i : ℤ) + 1, 2, chr '1', some [], some []⟩, rfl⟩

theorem admitted_allTwo : ∀ c ∈ allTwo.1, Admitted c := by
  intro c hc
  obtain ⟨i, hi, rfl⟩ := List.mem_map.mp hc
  have hi := List.mem_range.mp hi
  have hwidth := length_printNat_le (n := i + 1) (k := 1) le_rfl (by omega)
  have hfits : TrunkFits ((i : ℤ) + 1) [] := by
    refine ⟨by simp, ?_⟩
    change (printNat (i + 1)).length + 0 + 2 < 140
    omega
  exact ⟨(by decide : (1 : ℤ) ≤ 2), (by decide : (2 : ℤ) ≤ 4094), (by decide : chr '1' ≠ 0),
    ⟨[], rfl, hfits⟩, ⟨[], rfl, hfits⟩⟩

/-- Their entry is taken for the default and read as eight times the id 1. -/
theorem pvid_from_entry_all_two :
    ∃ nv, cliNvramConfSetVlanPort _ allTwo (fun _ => []) = some (CLI_SUCCESS, nv) ∧
      bcmGetPvidFromEntry 8 (nv (text "pvid_config")) =
        some (-1, List.replicate 8 1) ∧
      ¬ ReadBack ⟨8, 0, 0, by decide, by decide⟩ (allTwo.1.map (·.pvid)) nv := by
  obtain ⟨nv, hset, hst⟩ := cliNvramConfSetVlanPort_spec _ allTwo admitted_allTwo (fun _ => [])
  have hentry : bcmGetPvidFromEntry 8 (nv (text "pvid_config")) =
      some (-1, List.replicate 8 1) := by
    rw [hst.pvid]
    decide
  refine ⟨nv, hset, hentry, ?_⟩
  intro hback
  have := hentry.symm.trans hback.from_entry
  simp at this

end BcmUtils.VlanPort
