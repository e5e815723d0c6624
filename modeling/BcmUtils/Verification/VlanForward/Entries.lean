import BcmUtils.Verification.VlanForward.RoundTrip

/-! # VLAN entries of the driver

`bcm_vlanfwd_entry` agrees with `cli_nvram_conf_get` on every stored list but for the size of
the name: `VLAN_ENTRY` has 32 bytes where `cli_vlan_info_conf` has 36. -/

namespace BcmUtils.VlanForward

open CLib PortList ConfLists

/-! ## What the set function writes -/

theorem eq_of_store {cap : ℕ} {s t : CStr} (h : store cap s = some t) : t = s := by
  rw [store] at h
  split at h
  · exact (Option.some.inj h).symm
  · exact absurd h (by simp)

/-- Whatever room the block has, the loop writes nothing but the records. -/
theorem eq_of_vlanFowdLoop {B : Build} {cap i : ℕ} {vs : List CliVlanInfoConf} {result s : CStr}
    (h : vlanFowdLoop B cap i vs result = some s) : s = result ++ listText B i vs := by
  induction vs generalizing i result with
  | nil =>
      obtain rfl := Option.some.inj h
      simp
  | cons v vs ih =>
      simp only [vlanFowdLoop, Option.bind_eq_bind, Option.bind_eq_some_iff] at h
      obtain ⟨_, h₁, _, h₂, _, h₃, _, h₄, _, h₅, _, h₆, hrest⟩ := h
      rw [ih hrest, eq_of_store h₆, eq_of_store h₅, eq_of_store h₄, eq_of_store h₃,
        eq_of_store h₂, eq_of_store h₁, listText_cons, recordText]
      simp

theorem stored_of_cliNvramConfSetVlanFowd {B : Build} {c : CliVlanConf} {nv nv' : Nvram} {ret : ℤ}
    (h : cliNvramConfSetVlanFowd B c nv = some (ret, nv')) :
    nv' (text "vlan_fwd_config") = listText B 0 c.curVlanInfo := by
  simp only [cliNvramConfSetVlanFowd, vlanFowdResult, scfgmgrSet, Option.bind_eq_bind,
    Option.bind_eq_some_iff, Option.map_eq_some_iff, Option.pure_def, Option.some.injEq,
    Prod.mk.injEq] at h
  obtain ⟨s, ⟨result, hstart, hloop⟩, nv'', ⟨_, -, hupdate⟩, -, rfl⟩ := h
  rw [← hupdate, Function.update_self, eq_of_vlanFowdLoop hloop, eq_of_store hstart,
    List.nil_append]

/-! ## Entries -/

/-- An entry that holds a record, with the name as a C string in its array. -/
structure Agrees (v : CliVlanInfoConf) (e : VlanEntry) : Prop where
  vlanid : e.vlanid = v.vlanid
  name : readStr 0 e.name.1 = some v.name
  forward : e.forward = v.forward
  untag : e.untag = v.untag

theorem length_name_of_agrees {vs : List CliVlanInfoConf} {es : List VlanEntry}
    (h : List.Forall₂ Agrees vs es) : ∀ v ∈ vs, v.name.length ≤ 31 := by
  induction h with
  | nil => simp
  | cons hagree _ ih =>
      rename_i v e vs es hrest
      intro w hw
      rcases List.mem_cons.mp hw with rfl | hw
      · have hlt := length_lt_of_readStr hagree.name
        rw [e.name.2] at hlt
        omega
      · exact ih w hw

theorem vlanfwdEntry_recordText (B : Build) (i : ℕ) {v : CliVlanInfoConf} (h : Storable v)
    (hname : v.name.length ≤ 31) (t : CStr) :
    ∃ e, vlanfwdEntry B (recordText B i v ++ chr ';' :: t) (chr ';' :: t) .zeroed = some e ∧
      Agrees (restrictMaps B v) e := by
  obtain ⟨b, hb, hsplice⟩ := @Block.copy_of_le 32 0 v.name VlanEntry.zeroed.name (by omega)
  have hforward := length_bit2str_le B v.forward
  have huntag := length_bit2str_le B v.untag
  refine ⟨⟨v.vlanid, b, restrictPorts B v.forward, restrictPorts B v.untag⟩, ?_, ?_⟩
  · rw [vlanfwdEntry, bind_of_eq (vlanFields_recordText B i h t)]
    simp only
    rw [bind_of_eq hb, bind_of_eq (store_of_lt (by omega)), bind_of_eq (str2bit_bit2str_eq B _),
      bind_of_eq (store_of_lt (by omega)), bind_of_eq (str2bit_bit2str_eq B _)]
    rfl
  · refine ⟨rfl, ?_, rfl, rfl⟩
    rw [hsplice]
    exact Block.readStr_splice_zeroed h.name_nul (Nat.lt_succ_of_le hname)

theorem spans_listText_cons (B : Build) (i : ℕ) {v : CliVlanInfoConf} (h : Storable v)
    (vs : List CliVlanInfoConf) :
    spans (chr ';') (listText B i (v :: vs)) =
      (recordText B i v ++ chr ';' :: listText B (i + 1) vs, chr ';' :: listText B (i + 1) vs) ::
        spans (chr ';') (listText B (i + 1) vs) := by
  rw [listText_cons, spans_append_cons (not_mem_recordText B i h)]

/-- One round of the loop for each record. -/
theorem vlanfwdEntryLoop_listText (B : Build) (i : ℕ) {vs : List CliVlanInfoConf}
    (h : ∀ v ∈ vs, Storable v) (hname : ∀ v ∈ vs, v.name.length ≤ 31) :
    ∃ es, vlanfwdEntryLoop B (spans (chr ';') (listText B i vs))
        (List.replicate vs.length .zeroed) = some es ∧
      List.Forall₂ Agrees (vs.map (restrictMaps B)) es := by
  induction vs generalizing i with
  | nil => exact ⟨[], rfl, List.Forall₂.nil⟩
  | cons v vs ih =>
      obtain ⟨e, he, hagrees⟩ := vlanfwdEntry_recordText B i (h v List.mem_cons_self)
        (hname v List.mem_cons_self) (listText B (i + 1) vs)
      obtain ⟨es, hes, hrest⟩ := ih (i + 1) (fun w hw => h w (List.mem_cons_of_mem _ hw))
        (fun w hw => hname w (List.mem_cons_of_mem _ hw))
      refine ⟨e :: es, ?_, List.Forall₂.cons hagrees hrest⟩
      rw [spans_listText_cons B i (h v List.mem_cons_self), List.length_cons, List.replicate_succ,
        vlanfwdEntryLoop, bind_of_eq he, bind_of_eq hes]
      rfl

theorem bcmGetEntryNumber_listText (B : Build) (i : ℕ) {vs : List CliVlanInfoConf}
    (h : ∀ v ∈ vs, Storable v) : bcmGetEntryNumber (listText B i vs) = vs.length := by
  induction vs generalizing i with
  | nil => rfl
  | cons v vs ih =>
      have hrest := ih (i + 1) fun w hw => h w (List.mem_cons_of_mem _ hw)
      rw [bcmGetEntryNumber] at hrest ⊢
      rw [spans_listText_cons B i (h v List.mem_cons_self), List.length_cons, List.length_cons,
        hrest]

/-! ## Both readers -/

/-- The entry number is that of the list that `cli_nvram_conf_get` builds, and as many zeroed
entries are filled with it. -/
def EntriesAgree (B : Build) (nv : Nvram) (heap : Heap (Node CliVlanInfoConf)) : Prop :=
  ∃ c xs es, cliNvramConfGetVlanFowd B (fun _ => true) nv (.zeroed heap) =
      some (CLI_SUCCESS, c, nv) ∧ Holds c xs ∧
    bcmGetEntryNumber (nv (text "vlan_fwd_config")) = xs.length ∧
    bcmVlanfwdEntry B (nv (text "vlan_fwd_config")) (List.replicate xs.length .zeroed) =
      some (0, es) ∧
    List.Forall₂ Agrees xs es

/-- On what the set function stored, the readers agree exactly if every name leaves room for its
terminator in the 32 bytes of an entry. -/
theorem vlan_entries_agree_iff (B : Build) {conf : CliVlanConf} (hne : conf.curVlanInfo ≠ [])
    (h : ∀ v ∈ conf.curVlanInfo, Storable v) {nv nv' : Nvram}
    (hset : cliNvramConfSetVlanFowd B conf nv = some (CLI_SUCCESS, nv'))
    (heap : Heap (Node CliVlanInfoConf)) :
    EntriesAgree B nv' heap ↔ ∀ v ∈ conf.curVlanInfo, v.name.length ≤ 31 := by
  have hstored := stored_of_cliNvramConfSetVlanFowd hset
  have hnonempty : nv' (text "vlan_fwd_config") ≠ [] := by
    rw [hstored]
    exact listText_ne_nil B 0 hne
  obtain ⟨ret, c, zs, hfill, hholds, hret⟩ := fillList_empty (fun _ => true)
    (mapM_vlanRecord_listText B h) heap
  obtain rfl : ret = CLI_SUCCESS := (fillList_ret hfill).mpr fun _ _ => rfl
  obtain rfl := hret rfl
  have hget : cliNvramConfGetVlanFowd B (fun _ => true) nv' (.zeroed heap) =
      some (CLI_SUCCESS, c, nv') := by
    unfold cliNvramConfGetVlanFowd
    apply (bind_of_eq (cliNvramSafeGet_of_ne_nil B .vlanForward hnonempty) _).trans
    simp only [hstored]
    apply (bind_of_eq hfill _).trans
    rfl
  constructor
  · rintro ⟨c', xs, es, hget', hholds', -, -, hagree⟩ v hv
    rw [hget, Option.some.injEq, Prod.mk.injEq, Prod.mk.injEq] at hget'
    obtain ⟨-, rfl, -⟩ := hget'
    obtain ⟨⟨as, hchain⟩, -⟩ := hholds
    obtain ⟨⟨bs, hchain'⟩, -⟩ := hholds'
    obtain rfl := hchain.unique hchain'
    exact length_name_of_agrees hagree (restrictMaps B v) (List.mem_map.mpr ⟨v, hv, rfl⟩)
  · intro hname
    obtain ⟨es, hes, hagree⟩ := vlanfwdEntryLoop_listText B 0 h hname
    refine ⟨c, conf.curVlanInfo.map (restrictMaps B), es, hget, hholds, ?_, ?_, hagree⟩
    · rw [hstored, bcmGetEntryNumber_listText B 0 h, List.length_map]
    · rw [hstored, List.length_map, bcmVlanfwdEntry, bind_of_eq hes]
      rfl

/-- A list with an empty name, and a map that leaves the ports of the build. -/
theorem vlan_entries_agree_iff_two :
    let B : Build := ⟨8, 0, 0, by decide, by decide⟩
    let vs : List CliVlanInfoConf := [⟨1, text "Default", 0x1fe, 0x1fe⟩, ⟨4094, [], 0x201, 0⟩]
    EntriesAgree B (Function.update (fun _ => []) (text "vlan_fwd_config") (listText B 0 vs))
        Heap.empty ↔
      ∀ v ∈ vs, v.name.length ≤ 31 := by
  intro B vs
  have hset : cliNvramConfSetVlanFowd B ⟨2, vs⟩ (fun _ => []) = some (CLI_SUCCESS,
      Function.update (fun _ => []) (text "vlan_fwd_config") (listText B 0 vs)) := by
    have hresult : vlanFowdResult B ⟨2, vs⟩ = some (listText B 0 vs) := by decide
    rw [cliNvramConfSetVlanFowd, bind_of_eq hresult,
      bind_of_eq (scfgmgrSet_of_lt _ (by decide))]
    rfl
  refine @vlan_entries_agree_iff B ⟨2, vs⟩ (by simp [vs]) ?_ _ _ hset Heap.empty
  intro v hv
  simp only [vs, List.mem_cons, List.not_mem_nil, or_false] at hv
  rcases hv with rfl | rfl <;>
    exact ⟨by decide, by decide, by decide, by decide, by decide⟩

/-- A name of 33 bytes, which the set function stores and `cli_nvram_conf_get` reads, is copied
past the end of its array. -/
theorem vlan_entry_name_overflow :
    let B : Build := ⟨8, 0, 0, by decide, by decide⟩
    let v : CliVlanInfoConf := ⟨2, List.replicate 33 (chr 'n'), 0x6, 0x2⟩
    Storable v ∧ vlanFowdResult B ⟨1, [v]⟩ = some (listText B 0 [v]) ∧
      vlanRecord B (listText B 0 [v]) (chr ';' :: []) = some v ∧
      bcmVlanfwdEntry B (listText B 0 [v]) [.zeroed] = none := by
  refine ⟨⟨by decide, by decide, by decide, by decide, by decide⟩, by decide, by decide +kernel, ?_⟩
  decide +kernel

end BcmUtils.VlanForward
