import BcmUtils.Model.VlanEntries
import BcmUtils.Verification.ConfLists.Filling
import BcmUtils.Verification.VlanForward.Encoding

/-! # Reading a VLAN list back -/

namespace BcmUtils.VlanForward

open CLib PortList ConfLists

/-- A record with its maps reduced to the ports of the build. -/
def restrictMaps (B : Build) (v : CliVlanInfoConf) : CliVlanInfoConf :=
  { v with forward := restrictPorts B v.forward, untag := restrictPorts B v.untag }

/-- A record that can be taken apart again: any id, and a name without separators. -/
structure Storable (v : CliVlanInfoConf) : Prop where
  vlanid : IsInt v.vlanid
  name_length : v.name.length ≤ 35
  name_colon : chr ':' ∉ v.name
  name_semicolon : chr ';' ∉ v.name
  name_nul : (0 : Byte) ∉ v.name

theorem Admitted.storable {v : CliVlanInfoConf} (h : Admitted v) : Storable v := by
  have h₁ := h.one_le
  have h₂ := h.vlanid_le
  have hvlanid : IsInt v.vlanid := by
    simp only [IsInt, intMin, intMax]
    omega
  exact ⟨hvlanid, h.name_length, h.name_colon, h.name_semicolon, h.name_nul⟩

theorem not_mem_bit2str (B : Build) (m : PortMap) {c : Byte} (hc : isDigit c = false)
    (hm : c ≠ chr '-') (hs : c ≠ chr ',') : c ∉ bit2str B m := by
  rw [bit2str_eq]
  exact not_mem_renderRuns hc hm hs _

theorem not_mem_recordText (B : Build) (i : ℕ) {v : CliVlanInfoConf} (h : Storable v) :
    chr ';' ∉ recordText B i v := by
  have hd : isDigit (chr ';') = false := by decide
  simp only [recordText, List.mem_append, List.mem_cons, not_or]
  exact ⟨not_mem_printNat hd _, by decide, not_mem_printInt hd (by decide) _, by decide,
    h.name_semicolon, by decide, not_mem_bit2str B _ hd (by decide) (by decide), by decide,
    not_mem_bit2str B _ hd (by decide) (by decide)⟩

/-- The chain of pointers finds the fields of a written record. -/
theorem vlanFields_recordText (B : Build) (i : ℕ) {v : CliVlanInfoConf} (h : Storable v)
    (t : CStr) :
    vlanFields (recordText B i v ++ chr ';' :: t) (chr ';' :: t) =
      some (v.vlanid, v.name, bit2str B v.forward, bit2str B v.untag) := by
  have hd : isDigit (chr ':') = false := by decide
  obtain ⟨b, ds, hds⟩ := List.exists_cons_of_ne_nil (printInt_ne_nil v.vlanid)
  have hnotmem : chr ':' ∉ ds := fun hm =>
    not_mem_printInt hd (by decide) v.vlanid (by rw [hds]; exact List.mem_cons_of_mem _ hm)
  have hatoi : ∀ s, atoi (b :: (ds ++ chr ':' :: s)) = v.vlanid := by
    intro s
    rw [← List.cons_append, ← hds]
    exact atoi_printInt_append h.vlanid (by simp [hd])
  have hfwd := not_mem_bit2str B v.forward hd (by decide) (by decide)
  have htext : recordText B i v ++ chr ';' :: t = printNat i ++ chr ':' :: (b :: (ds ++ chr ':' ::
      (v.name ++ chr ':' :: (bit2str B v.forward ++ chr ':' ::
        (bit2str B v.untag ++ chr ';' :: t))))) := by
    simp [recordText, hds, List.append_assoc]
  rw [htext]
  -- the record number, then the id, which is read and stepped over from its second digit on
  apply (bind_of_eq (strchr_append_cons (not_mem_printNat hd i) _) _).trans
  apply (bind_of_eq (incr_cons _ _) _).trans
  apply (bind_of_eq (incr_cons _ _) _).trans
  apply (bind_of_eq (strchr_append_cons hnotmem _) _).trans
  apply (bind_of_eq (incr_cons _ _) _).trans
  -- the name
  apply (bind_of_eq (strchr_append_cons h.name_colon _) _).trans
  apply (bind_of_eq (between_append _ _) _).trans
  -- the two port lists
  apply (bind_of_eq (strchr_cons_self _ _) _).trans
  apply (bind_of_eq (incr_cons _ _) _).trans
  apply (bind_of_eq (strchr_append_cons hfwd _) _).trans
  apply (bind_of_eq (between_append _ _) _).trans
  apply (bind_of_eq (strchr_cons_self _ _) _).trans
  apply (bind_of_eq (incr_cons _ _) _).trans
  apply (bind_of_eq (between_append _ _) _).trans
  change some (atoi _, v.name, _, _) = _
  rw [hatoi]

/-- The loop body of `cli_nvram_conf_get` takes the same pointers. -/
theorem vlanRecord_of_vlanFields {B : Build} {p p3 name forward untag : CStr} {vlanid : ℤ}
    {f u : PortMap} (h : vlanFields p p3 = some (vlanid, name, forward, untag))
    (hname : name.length ≤ 36) (hforward : (store 128 forward).bind (str2bit B) = some f)
    (huntag : (store 128 untag).bind (str2bit B) = some u) :
    vlanRecord B p p3 = some ⟨vlanid, name, f, u⟩ := by
  simp only [vlanFields, Option.bind_eq_bind, Option.bind_eq_some_iff, Option.pure_def,
    Option.some.injEq, Prod.mk.injEq] at h
  obtain ⟨a, ha, b, hb, c, hc, d, hd, e, he, g, hg, name', hcopied, i, hi, j, hj, k, hk, _, hprinted,
    l, hl, m, hm, _, hprinted', rfl, rfl, rfl, rfl⟩ := h
  have hcopy : (between e g).bind (copyField 36) = some name' := by
    rw [hcopied, Option.bind_some, copyField, if_pos hname]
  have hstore : ∀ {x : Option CStr} {y : CStr} {w : PortMap}, x = some y →
      (store 128 y).bind (str2bit B) = some w →
      ∃ z, x.bind (store 128) = some z ∧ str2bit B z = some w := by
    intro x y w hx hw
    obtain ⟨z, hz, hbit⟩ := Option.bind_eq_some_iff.mp hw
    exact ⟨z, by rw [hx, Option.bind_some, hz], hbit⟩
  obtain ⟨z, hz, hbit⟩ := hstore hprinted hforward
  obtain ⟨z', hz', hbit'⟩ := hstore hprinted' huntag
  rw [vlanRecord, bind_of_eq ha, bind_of_eq hb, bind_of_eq hc, bind_of_eq hd, bind_of_eq he,
    bind_of_eq hg, bind_of_eq hcopy, bind_of_eq hi, bind_of_eq hj, bind_of_eq hk, bind_of_eq hz,
    bind_of_eq hbit, bind_of_eq hl, bind_of_eq hm, bind_of_eq hz', bind_of_eq hbit']
  rfl

/-- The loop body of `cli_nvram_conf_get` reads a written record back. -/
theorem vlanRecord_recordText (B : Build) (i : ℕ) {v : CliVlanInfoConf} (h : Storable v)
    (t : CStr) :
    vlanRecord B (recordText B i v ++ chr ';' :: t) (chr ';' :: t) = some (restrictMaps B v) := by
  have hports : ∀ m : PortMap, (store 128 (bit2str B m)).bind (str2bit B) =
      some (restrictPorts B m) := by
    intro m
    have hlen := length_bit2str_le B m
    rw [store_of_lt (by omega), Option.bind_some, str2bit_bit2str_eq]
  exact vlanRecord_of_vlanFields (vlanFields_recordText B i h t)
    (h.name_length.trans (by omega)) (hports _) (hports _)

/-- All records of a written list are read back in order. -/
theorem mapM_vlanRecord_listText (B : Build) {vs : List CliVlanInfoConf}
    (h : ∀ v ∈ vs, Storable v) :
    (spans (chr ';') (listText B 0 vs)).mapM (fun r => vlanRecord B r.1 r.2) =
      some (vs.map (restrictMaps B)) := by
  have hmem : ∀ q ∈ vs.zipIdx 0, Storable q.1 := fun q hq => h q.1 (List.fst_mem_of_mem_zipIdx hq)
  have hbody : ∀ q ∈ vs.zipIdx 0, ∀ t, vlanRecord B (recordText B q.2 q.1 ++ chr ';' :: t)
      (chr ';' :: t) = some (restrictMaps B q.1) :=
    fun q hq t => vlanRecord_recordText B q.2 (hmem q hq) t
  rw [listText, mapM_spans_flatMap (fun q hq => not_mem_recordText B q.2 (hmem q hq)) hbody]
  congr 1
  rw [show (fun q : CliVlanInfoConf × ℕ => restrictMaps B q.1) = restrictMaps B ∘ Prod.fst from rfl,
    ← List.map_map, List.zipIdx_map_fst]

/-- Storing a VLAN list and reading it into a zeroed struct gives the same VLANs in
the same order, with the maps reduced to the ports of the build. -/
theorem vlan_fowd_round_trip (B : Build) {vs : List CliVlanInfoConf} (hne : vs ≠ [])
    (h : ∀ v ∈ vs, Admitted v)
    (hfit : (text "vlan_fwd_config" ++ chr '=' :: listText B 0 vs).length < 4500)
    (nv : Nvram) (heap : Heap (Node CliVlanInfoConf)) :
    ∃ nv' c, cliNvramConfSetVlanFowd B ⟨vs.length, vs⟩ nv = some (CLI_SUCCESS, nv') ∧
      cliNvramConfGetVlanFowd B (fun _ => true) nv' (.zeroed heap) = some (CLI_SUCCESS, c, nv') ∧
      Holds c (vs.map (restrictMaps B)) := by
  have hconf : ∀ v ∈ vs, Configured v := fun v hv => (h v hv).toConfigured
  have hlen : vs.length ≤ 10000 := by
    have hseven := seven_mul_le_listWidth B 0 vs
    simp only [List.length_append, List.length_cons, length_listText B 0 hconf] at hfit
    omega
  have hset : cliNvramConfSetVlanFowd B ⟨vs.length, vs⟩ nv = some (CLI_SUCCESS,
      Function.update nv (text "vlan_fwd_config") (listText B 0 vs)) := by
    simp only [cliNvramConfSetVlanFowd, vlanFowdResult_eq B hne hconf hlen, scfgmgrSet_of_lt nv hfit,
      Option.bind_eq_bind, Option.bind_some]
    rfl
  obtain ⟨ret, c, zs, hfill, hholds, hret⟩ := fillList_empty (fun _ => true)
    (mapM_vlanRecord_listText B fun v hv => (h v hv).storable) heap
  obtain rfl : ret = CLI_SUCCESS := (fillList_ret hfill).mpr fun _ _ => rfl
  obtain rfl : zs = vs.map (restrictMaps B) := hret rfl
  refine ⟨_, c, hset, ?_, hholds⟩
  have hstored := cliNvramSafeGet_update B .vlanForward (listText_ne_nil B 0 hne)
    (text "vlan_fwd_config") nv
  simp only [cliNvramConfGetVlanFowd, hstored, ListConf.zeroed, Option.bind_eq_bind,
    Option.bind_some, hfill]
  rfl

/-- A list with an empty name, empty maps and maps that leave the ports of the build. -/
theorem vlan_fowd_round_trip_three :
    ∃ nv' c, cliNvramConfSetVlanFowd ⟨8, 0, 0, by decide, by decide⟩
        ⟨3, [⟨1, text "Default", 0x1fe, 0x1fe⟩, ⟨4094, [], 0, 0⟩, ⟨20, text "a-b", 0x2d4, 0x10⟩]⟩
        (fun _ => []) = some (CLI_SUCCESS, nv') ∧
      cliNvramConfGetVlanFowd ⟨8, 0, 0, by decide, by decide⟩ (fun _ => true) nv'
        (.zeroed Heap.empty) = some (CLI_SUCCESS, c, nv') ∧
      Holds c [⟨1, text "Default", 0x1fe, 0x1fe⟩, ⟨4094, [], 0, 0⟩,
        ⟨20, text "a-b", 0xd4, 0x10⟩] := by
  refine @vlan_fowd_round_trip ⟨8, 0, 0, by decide, by decide⟩
    [⟨1, text "Default", 0x1fe, 0x1fe⟩, ⟨4094, [], 0, 0⟩, ⟨20, text "a-b", 0x2d4, 0x10⟩]
    (by simp) ?_ (by decide) (fun _ => []) Heap.empty
  intro v hv
  simp only [List.mem_cons, List.not_mem_nil, or_false] at hv
  rcases hv with rfl | rfl | rfl <;>
    exact ⟨⟨by decide, by decide, by decide⟩, by decide, by decide, by decide⟩

end BcmUtils.VlanForward
