import BcmUtils.Model.VlanPort
import Mathlib.Data.List.TakeWhile

/-! # The strings written for the port VLAN settings -/

namespace BcmUtils.VlanPort

open CLib

/-- A list of VLANs that the array `tmp` of the set function holds with its port id. -/
structure TrunkFits (portid : ℤ) (list : CStr) : Prop where
  semicolon : chr ';' ∉ list
  length_lt : (printInt portid).length + list.length + 2 < 140

/-- A record with an id in range, a mode, and two lists of VLANs. -/
structure Admitted (c : CliPortConf) : Prop where
  one_le : 1 ≤ c.pvid
  pvid_le : c.pvid ≤ 4094
  mode_ne : c.mode ≠ 0
  allow : ∃ list, c.allow = some list ∧ TrunkFits c.portid list
  untag : ∃ list, c.untag = some list ∧ TrunkFits c.portid list

theorem Admitted.isInt {c : CliPortConf} (h : Admitted c) : IsInt c.pvid := by
  have h₁ := h.one_le
  have h₂ := h.pvid_le
  constructor <;> simp only [intMin, intMax] <;> omega

/-! ## The texts -/

/-- The ids, separated by commas. -/
def pvidText : List ℤ → CStr
  | [] => []
  | v :: vs => printInt v ++ vs.flatMap fun w => chr ',' :: printInt w

/-- What the loop appends for the ports from `portid` on. -/
def pvidPieces : ℕ → List ℤ → CStr
  | _, [] => []
  | portid, v :: vs =>
      (if portid = 1 then printInt v else chr ',' :: printInt v) ++ pvidPieces (portid + 1) vs

theorem pvidPieces_of_one_lt {portid : ℕ} (h : 1 < portid) (vs : List ℤ) :
    pvidPieces portid vs = vs.flatMap fun w => chr ',' :: printInt w := by
  induction vs generalizing portid with
  | nil => rfl
  | cons v vs ih =>
      rw [pvidPieces, if_neg (by omega), ih (by omega), List.flatMap_cons]

theorem pvidPieces_one (vs : List ℤ) : pvidPieces 1 vs = pvidText vs := by
  cases vs with
  | nil => rfl
  | cons v vs => rw [pvidPieces, if_pos rfl, pvidPieces_of_one_lt (by omega), pvidText]

/-- The item of one port in a list of VLAN lists. -/
def trunkItemText (portid : ℤ) (list : CStr) : CStr :=
  printInt portid ++ chr ':' :: (list ++ [chr ';'])

/-- The items of all ports. -/
def trunkText (field : CliPortConf → Option CStr) (cs : List CliPortConf) : CStr :=
  cs.flatMap fun c => trunkItemText c.portid ((field c).getD [])

theorem trunkText_cons (field : CliPortConf → Option CStr) (c : CliPortConf)
    (cs : List CliPortConf) : trunkText field (c :: cs) =
      trunkItemText c.portid ((field c).getD []) ++ trunkText field cs := by
  rw [trunkText, List.flatMap_cons, trunkText]

theorem length_trunkItemText_le {portid : ℤ} {list : CStr} (h : TrunkFits portid list) :
    (trunkItemText portid list).length ≤ 139 := by
  have := h.length_lt
  simp only [trunkItemText, List.length_append, List.length_cons, List.length_nil]
  omega

theorem length_trunkText_le {field : CliPortConf → Option CStr} {cs : List CliPortConf}
    (h : ∀ c ∈ cs, ∃ list, field c = some list ∧ TrunkFits c.portid list) :
    (trunkText field cs).length ≤ 139 * cs.length := by
  apply length_flatMap_le
  intro c hc
  obtain ⟨list, hlist, hfits⟩ := h c hc
  rw [hlist, Option.getD_some]
  exact length_trunkItemText_le hfits

theorem length_printInt_le_four {v : ℤ} (h : 1 ≤ v ∧ v ≤ 4094) : (printInt v).length ≤ 4 := by
  obtain ⟨n, rfl⟩ := Int.eq_ofNat_of_zero_le (by omega : 0 ≤ v)
  exact length_printNat_le (by omega) (by omega)

/-- Four digits and a comma for each id, and no comma in front of the first. -/
theorem length_pvidText_lt {vs : List ℤ} (hne : vs ≠ []) (h : ∀ v ∈ vs, 1 ≤ v ∧ v ≤ 4094) :
    (pvidText vs).length < 5 * vs.length := by
  obtain ⟨v, vs, rfl⟩ := List.exists_cons_of_ne_nil hne
  have hv := length_printInt_le_four (h v List.mem_cons_self)
  have hrest : (vs.flatMap fun w => chr ',' :: printInt w).length ≤ 5 * vs.length := by
    apply length_flatMap_le
    intro w hw
    have hlen := length_printInt_le_four (h w (List.mem_cons_of_mem _ hw))
    rw [List.length_cons]
    omega
  rw [pvidText, List.length_append, List.length_cons]
  omega

/-! ## The writer -/

/-- The piece of one port in the list of ids. -/
def pvidPiece (portid : ℕ) (v : ℤ) : CStr :=
  if portid = 1 then printInt v else chr ',' :: printInt v

/-- What the loop does with the array `pvid`. -/
def pvidLoop (B : Build) : ℕ → List CliPortConf → CStr → Option CStr
  | _, [], pvid => some pvid
  | portid, c :: cs, pvid => do
      let tmp ← store 140 (pvidPiece portid c.pvid)
      let pvid ← strcat (4 * B.PNUM + B.PNUM) pvid tmp
      pvidLoop B (portid + 1) cs pvid

/-- What the loop does with the array `allow` or `untag`. -/
def trunkLoop (B : Build) (field : CliPortConf → Option CStr) :
    List CliPortConf → CStr → Option CStr
  | [], dst => some dst
  | c :: cs, dst => do
      let dst ← appendTrunkItem B c.portid (field c) dst
      trunkLoop B field cs dst

/-- The loop is one loop for each of its arrays. -/
theorem setVlanPortLoop_eq_loops (B : Build) (portid : ℕ) (cs : List CliPortConf)
    (t : VlanPortTexts) :
    setVlanPortLoop B portid cs t = do
      let pvid ← pvidLoop B portid cs t.pvid
      let allow ← trunkLoop B (·.allow) cs t.allow
      let untag ← trunkLoop B (·.untag) cs t.untag
      return ⟨t.linkType ++ cs.map (·.mode), pvid, allow, untag⟩ := by
  induction cs generalizing portid t with
  | nil => simp [setVlanPortLoop, pvidLoop, trunkLoop]
  | cons c cs ih =>
      rw [setVlanPortLoop, pvidLoop, trunkLoop, trunkLoop, pvidPiece]
      cases store 140 (if portid = 1 then printInt c.pvid else chr ',' :: printInt c.pvid) with
      | none => rfl
      | some tmp =>
          simp only [Option.bind_eq_bind, Option.bind_some]
          cases strcat (4 * B.PNUM + B.PNUM) t.pvid tmp with
          | none => rfl
          | some pvid =>
              simp only [Option.bind_some]
              cases appendTrunkItem B c.portid c.allow t.allow with
              | none => simp
              | some allow =>
                  simp only [Option.bind_some]
                  cases appendTrunkItem B c.portid c.untag t.untag with
                  | none => simp
                  | some untag =>
                      rw [Option.bind_some, ih]
                      simp

theorem length_pvidPiece_le (portid : ℕ) {v : ℤ} (h : 1 ≤ v ∧ v ≤ 4094) :
    (pvidPiece portid v).length ≤ if portid = 1 then 4 else 5 := by
  have hwidth := length_printInt_le_four h
  unfold pvidPiece
  split
  · exact hwidth
  · exact Nat.succ_le_succ hwidth

/-- The array of the ids has exactly the room that the longest ids need. -/
theorem pvidLoop_eq (B : Build) {portid : ℕ} {cs : List CliPortConf} {pvid : CStr}
    (h : ∀ c ∈ cs, 1 ≤ c.pvid ∧ c.pvid ≤ 4094) (hp : 1 ≤ portid)
    (hroom : pvid.length + 5 * cs.length + (if portid = 1 then 0 else 1) ≤ 5 * B.PNUM) :
    pvidLoop B portid cs pvid = some (pvid ++ pvidPieces portid (cs.map (·.pvid))) := by
  induction cs generalizing portid pvid with
  | nil => simp [pvidLoop, pvidPieces]
  | cons c cs ih =>
      have hpiece := length_pvidPiece_le portid (h c List.mem_cons_self)
      rw [List.length_cons] at hroom
      have hnext : (pvid ++ pvidPiece portid c.pvid).length + 5 * cs.length + 1 ≤ 5 * B.PNUM := by
        rw [List.length_append]
        split at hpiece
        · rename_i hfirst
          rw [if_pos hfirst] at hroom
          omega
        · rename_i hlater
          rw [if_neg hlater] at hroom
          omega
      have htmp : store 140 (pvidPiece portid c.pvid) = some (pvidPiece portid c.pvid) := by
        apply store_of_lt
        split at hpiece <;> omega
      have hpvid : strcat (4 * B.PNUM + B.PNUM) pvid (pvidPiece portid c.pvid) =
          some (pvid ++ pvidPiece portid c.pvid) := strcat_of_lt (by omega)
      have hsecond : portid + 1 ≠ 1 := by omega
      have hroom' : (pvid ++ pvidPiece portid c.pvid).length + 5 * cs.length +
          (if portid + 1 = 1 then 0 else 1) ≤ 5 * B.PNUM := by rwa [if_neg hsecond]
      have hrest := ih (fun d hd => h d (List.mem_cons_of_mem _ hd)) (by omega) hroom'
      rw [pvidLoop, bind_of_eq htmp, bind_of_eq hpvid, hrest, List.append_assoc]
      rfl

theorem appendTrunkItem_eq (B : Build) {portid : ℤ} {list dst : CStr} {n : ℕ}
    (h : TrunkFits portid list) (hroom : dst.length + 139 * (n + 1) ≤ 139 * B.PNUM) :
    appendTrunkItem B portid (some list) dst = some (dst ++ trunkItemText portid list) := by
  have hitem := length_trunkItemText_le h
  have htmp : store 140 (trunkItemText portid list) = some (trunkItemText portid list) :=
    store_of_lt (by omega)
  have hdst : strcat (VLAN_ALLOW_UNTAG_LEN B) dst (trunkItemText portid list) =
      some (dst ++ trunkItemText portid list) := by
    apply strcat_of_lt
    have := B.one_le
    rw [List.length_append, VLAN_ALLOW_UNTAG_LEN]
    omega
  rw [trunkItemText] at htmp
  rw [appendTrunkItem, bind_of_eq rfl, bind_of_eq htmp]
  exact hdst

theorem trunkLoop_eq (B : Build) {field : CliPortConf → Option CStr} {cs : List CliPortConf}
    {dst : CStr} (h : ∀ c ∈ cs, ∃ list, field c = some list ∧ TrunkFits c.portid list)
    (hroom : dst.length + 139 * cs.length ≤ 139 * B.PNUM) :
    trunkLoop B field cs dst = some (dst ++ trunkText field cs) := by
  induction cs generalizing dst with
  | nil => simp [trunkLoop, trunkText]
  | cons c cs ih =>
      obtain ⟨list, hlist, hfits⟩ := h c List.mem_cons_self
      have hitem := length_trunkItemText_le hfits
      rw [List.length_cons] at hroom
      have hnext : (dst ++ trunkItemText c.portid list).length + 139 * cs.length ≤
          139 * B.PNUM := by
        rw [List.length_append]
        omega
      have hrest := ih (fun d hd => h d (List.mem_cons_of_mem _ hd)) hnext
      rw [trunkLoop, hlist, bind_of_eq (appendTrunkItem_eq B hfits hroom), hrest, trunkText_cons,
        hlist, Option.getD_some, List.append_assoc]

theorem setVlanPortLoop_eq (B : Build) {cs : List CliPortConf} (h : ∀ c ∈ cs, Admitted c)
    (hlen : cs.length = B.PNUM) :
    setVlanPortLoop B 1 cs {} = some
      ⟨cs.map (·.mode), pvidText (cs.map (·.pvid)), trunkText (·.allow) cs,
        trunkText (·.untag) cs⟩ := by
  have hpvid := @pvidLoop_eq B 1 cs [] (fun c hc => ⟨(h c hc).one_le, (h c hc).pvid_le⟩) le_rfl
    (by simp [hlen])
  have hallow := @trunkLoop_eq B (·.allow) cs [] (fun c hc => (h c hc).allow) (by simp [hlen])
  have huntag := @trunkLoop_eq B (·.untag) cs [] (fun c hc => (h c hc).untag) (by simp [hlen])
  rw [setVlanPortLoop_eq_loops, bind_of_eq hpvid, bind_of_eq hallow, bind_of_eq huntag,
    pvidPieces_one]
  rfl

/-- The strings that the set function stores. -/
structure Stored (cs : List CliPortConf) (nv : Nvram) : Prop where
  link_type : nv (text "vlan_link_type") = cs.map (·.mode)
  pvid : nv (text "pvid_config") = pvidText (cs.map (·.pvid))
  allow : nv (text "trunk_vlan_allowed") = trunkText (·.allow) cs
  untag : nv (text "trunk_vlan_untagged") = trunkText (·.untag) cs

/-- The store after the set function. -/
def storedNvram (cs : List CliPortConf) (nv : Nvram) : Nvram :=
  let nv := Function.update nv (text "vlan_link_type") (cs.map (·.mode))
  let nv := Function.update nv (text "pvid_config") (pvidText (cs.map (·.pvid)))
  let nv := Function.update nv (text "trunk_vlan_allowed") (trunkText (·.allow) cs)
  Function.update nv (text "trunk_vlan_untagged") (trunkText (·.untag) cs)

theorem stored_storedNvram (cs : List CliPortConf) (nv : Nvram) :
    Stored cs (storedNvram cs nv) := by
  have hne : ∀ {a b : CStr} {v : CStr} {nv : Nvram}, a ≠ b → Function.update nv b v a = nv a :=
    fun h => Function.update_of_ne h _ _
  constructor <;> rw [storedNvram]
  · rw [hne (by decide), hne (by decide), hne (by decide), Function.update_self]
  · rw [hne (by decide), hne (by decide), Function.update_self]
  · rw [hne (by decide), Function.update_self]
  · rw [Function.update_self]

theorem cliNvramConfSetVlanPort_spec (B : Build) (cs : PortArray B CliPortConf)
    (h : ∀ c ∈ cs.1, Admitted c) (nv : Nvram) :
    ∃ nv', cliNvramConfSetVlanPort B cs nv = some (CLI_SUCCESS, nv') ∧ Stored cs.1 nv' := by
  have hlen := cs.2
  have hphy := B.le_phy
  have hloop := setVlanPortLoop_eq B h hlen
  have hmodes : (cs.1.map (·.mode)).takeWhile (· ≠ 0) = cs.1.map (·.mode) := by
    rw [List.takeWhile_eq_self_iff]
    intro m hm
    obtain ⟨c, hc, rfl⟩ := List.mem_map.mp hm
    simpa using (h c hc).mode_ne
  have hrange : ∀ v ∈ cs.1.map (·.pvid), 1 ≤ v ∧ v ≤ 4094 := by
    intro v hv
    obtain ⟨c, hc, rfl⟩ := List.mem_map.mp hv
    exact ⟨(h c hc).one_le, (h c hc).pvid_le⟩
  have hne : cs.1.map (·.pvid) ≠ [] := by
    have hone := B.one_le
    rw [← List.length_pos_iff, List.length_map]
    omega
  have hpvid := length_pvidText_lt hne hrange
  have hallow : (trunkText (·.allow) cs.1).length ≤ _ :=
    length_trunkText_le fun c hc => (h c hc).allow
  have huntag : (trunkText (·.untag) cs.1).length ≤ _ :=
    length_trunkText_le fun c hc => (h c hc).untag
  rw [List.length_map] at hpvid
  have hstore : ∀ (name data : CStr) (nv : Nvram), name.length ≤ 19 → data.length ≤ 3892 →
      scfgmgrSet name data nv = some (Function.update nv name data) := by
    intro name data nv hname hdata
    apply scfgmgrSet_of_lt nv
    rw [List.length_append, List.length_cons]
    omega
  have hset : cliNvramConfSetVlanPort B cs nv = some (CLI_SUCCESS, storedNvram cs.1 nv) := by
    rw [cliNvramConfSetVlanPort, bind_of_eq hloop, hmodes,
      bind_of_eq (hstore _ _ _ (by decide) (by rw [List.length_map]; omega)),
      bind_of_eq (hstore _ _ _ (by decide) (by simp only; omega)),
      bind_of_eq (hstore _ _ _ (by decide) (by simp only; omega)),
      bind_of_eq (hstore _ _ _ (by decide) (by simp only; omega))]
    rfl
  exact ⟨_, hset, stored_storedNvram cs.1 nv⟩

end BcmUtils.VlanPort
