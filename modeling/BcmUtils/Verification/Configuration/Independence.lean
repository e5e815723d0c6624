import BcmUtils.Foundation.Groups
import BcmUtils.Model.Configuration

/-! # The configuration types do not disturb each other

Each type has its own parameters in the configuration store. A getter reads all of them, with the
defaults filled in, and a setter replaces all of them, or fails and leaves them. -/

namespace BcmUtils.Configuration

open CLib

variable {B : Build} {e : Endian}

/-! ## Parameters -/

/-- The text that `cli_nvram_safe_get` returns and leaves in the store. -/
def fillText (B : Build) (type : CliNvramType) (param value : CStr) : Option CStr :=
  if value.length = 0 then do
    let buff ← store 512 (defaultText B type)
    let _ ← setMessage param buff
    return buff
  else some value

theorem fillText_fillText {type : CliNvramType} {param value value' : CStr}
    (h : fillText B type param value = some value') :
    fillText B type param value' = some value' := by
  by_cases hempty : value.length = 0
  · by_cases hempty' : value'.length = 0
    · rw [fillText, if_pos hempty] at h
      rw [fillText, if_pos hempty', h]
    · rw [fillText, if_neg hempty']
  · rw [fillText, if_neg hempty] at h
    obtain rfl := Option.some.inj h
    rw [fillText, if_neg hempty]

theorem cliNvramSafeGet_eq (type : CliNvramType) (param : CStr) (nv : Nvram) :
    cliNvramSafeGet B type param nv =
      (fillText B type param (nv param)).map fun v => (v, Function.update nv param v) := by
  by_cases hempty : (nv param).length = 0
  · rw [cliNvramSafeGet, fillText, if_pos hempty, if_pos hempty]
    cases hbuff : store 512 (defaultText B type) with
    | none => rfl
    | some buff =>
        simp only [Option.bind_eq_bind, Option.bind_some, scfgmgrSet]
        cases hmessage : setMessage param buff with
        | none => rfl
        | some message => simp
  · rw [cliNvramSafeGet, fillText, if_neg hempty, if_neg hempty]
    simp

/-- The parameters of each type. -/
def params : ConfType → List CStr
  | .vlanFowd => [text "vlan_fwd_config"]
  | .vlanPort =>
      [text "vlan_link_type", text "pvid_config", text "trunk_vlan_allowed",
        text "trunk_vlan_untagged"]
  | .sourceBinding => [text "source_binding"]
  | .rstpPort => [text "rstp_config"]
  | .snmpUser => [text "snmp_user"]
  | .accessUser => [text "user"]
  | .dot1xConf => [text "dot1x_config"]
  | .trunkList => [text "trunk_list"]
  | .staticArp => [text "static_arp_list"]
  | .rateStorm =>
      [text "rate_ingress", text "rate_egress", text "storm_bro", text "storm_mul",
        text "storm_uni"]
  | .poeConf => [text "poe_port_conf"]
  | .poeNames => [text "port_desps"]

/-- The type of the default of a parameter, if it has one. -/
def defaultType : ConfType → CStr → Option CliNvramType
  | .vlanFowd, _ => some .vlanForward
  | .vlanPort, param =>
      if param = text "vlan_link_type" then some .allOne
      else if param = text "pvid_config" then some .commaOne
      else some .trunkVlan
  | .rstpPort, _ => some .rstpConfig
  | .rateStorm, _ => some .commaZero
  | .poeConf, _ => some .poePort
  | .poeNames, _ => some .poeDesp
  | _, _ => none

/-- The parameters of a type, with their defaults. -/
def names (B : Build) (type : ConfType) : Names CStr CStr where
  keys := params type
  nodup := by cases type <;> decide
  fill param value :=
    match defaultType type param with
    | some default => fillText B default param value
    | none => some value
  fill_fill param value value' h := by
    cases hdefault : defaultType type param with
    | none => rfl
    | some default =>
        rw [hdefault] at h
        exact fillText_fillText h

/-- The type whose parameter a name is. -/
def owner (param : CStr) : Option ConfType :=
  [ConfType.vlanFowd, .vlanPort, .sourceBinding, .rstpPort, .snmpUser, .accessUser, .dot1xConf,
    .trunkList, .staticArp, .rateStorm, .poeConf, .poeNames].find? fun type => param ∈ params type

theorem owner_of_mem {type : ConfType} {param : CStr} (h : param ∈ params type) :
    owner param = some type := by
  revert param
  cases type <;> decide

/-! ## Setters -/

section Setters

variable {N : Names CStr CStr} {param : CStr} {data : Option CStr} {mallocOk : Bool}
  {nv nv' : Nvram} {r : ℤ × Option (Conf B)}

/-- What a setter with one parameter does with the text that it builds. -/
def setOne (B : Build) (param : CStr) (data : Option CStr) : GroupCall CStr (ℤ × Option (Conf B)) :=
  .set (data.bind fun data => (setMessage param data).map fun _ => ((CLI_SUCCESS, none), [data]))

/-- What it does if it allocates a block for the text first. -/
def setAllocated (B : Build) (mallocOk : Bool) (param : CStr) (data : Option CStr) :
    GroupCall CStr (ℤ × Option (Conf B)) :=
  if mallocOk then setOne B param data else .fail (CLI_FAILED, none)

theorem setOne_complete (hN : N.keys = [param]) : (setOne B param data).Complete N := by
  intro b vs h
  obtain ⟨text, -, h⟩ := Option.bind_eq_some_iff.mp h
  obtain ⟨message, -, h⟩ := Option.map_eq_some_iff.mp h
  cases h
  rw [hN]
  rfl

theorem setAllocated_complete (hN : N.keys = [param]) :
    (setAllocated B mallocOk param data).Complete N := by
  cases mallocOk with
  | false => trivial
  | true => exact setOne_complete hN

theorem setOne_succeeds (h : (setOne B param data).run N nv = some (r, nv')) :
    r.1 = CLI_SUCCESS := by
  obtain ⟨vs, hvs, -⟩ := GroupCall.run_set.mp h
  obtain ⟨text, -, hvs⟩ := Option.bind_eq_some_iff.mp hvs
  obtain ⟨message, -, hvs⟩ := Option.map_eq_some_iff.mp hvs
  cases hvs
  rfl

/-- The return value tells whether the text was stored. -/
theorem setAllocated_replaces_iff
    (h : (setAllocated B mallocOk param data).run N nv = some (r, nv')) :
    (setAllocated B mallocOk param data).Replaces ↔ r.1 = CLI_SUCCESS := by
  cases mallocOk with
  | false =>
      obtain ⟨rfl, -⟩ := GroupCall.run_fail.mp h
      exact iff_of_false id Int.one_ne_zero
  | true => exact iff_of_true trivial (setOne_succeeds h)

theorem setOne_run (hN : N.keys = [param]) :
    (setOne B param data).run N nv =
      (data.bind fun data => (scfgmgrSet param data nv).bind fun nv => some (CLI_SUCCESS, nv)).map
        fun r => ((r.1, none), r.2) := by
  rw [setOne, GroupCall.run, hN]
  cases data with
  | none => rfl
  | some data =>
      simp only [Option.bind_some, scfgmgrSet]
      cases setMessage param data <;> rfl

/-- The text may be built in two parts. -/
theorem setOne_bind_run {data : Option CStr} {f : CStr → Option CStr} (hN : N.keys = [param]) :
    (setOne B param (data.bind f)).run N nv =
      (data.bind fun data => (f data).bind fun data =>
        (scfgmgrSet param data nv).bind fun nv => some (CLI_SUCCESS, nv)).map
          fun r => ((r.1, none), r.2) := by
  rw [setOne_run hN, Option.bind_assoc]

end Setters

/-- What the setters do with the texts that they build. -/
def setCall (B : Build) (e : Endian) : SetConf B → GroupCall CStr (ℤ × Option (Conf B))
  | .vlanFowd mallocOk cVlan =>
      setAllocated B mallocOk (text "vlan_fwd_config") (vlanFowdResult B cVlan)
  | .vlanPort cPort => .set do
      let t ← setVlanPortLoop B 1 cPort.1 {}
      let linkType := t.linkType.takeWhile (· ≠ 0)
      let _ ← setMessage (text "vlan_link_type") linkType
      let _ ← setMessage (text "pvid_config") t.pvid
      let _ ← setMessage (text "trunk_vlan_allowed") t.allow
      let _ ← setMessage (text "trunk_vlan_untagged") t.untag
      return ((CLI_SUCCESS, none), [linkType, t.pvid, t.allow, t.untag])
  | .sourceBinding mallocOk cSource =>
      let cap := (SOURCE_STRUCT_LEN * cSource.sourceCount).toNat
      setAllocated B mallocOk (text "source_binding")
        ((store cap []).bind (appendTexts 140 cap (cSource.curSourceInfo.flatMap sourceTexts)))
  | .rstpPort rRstp => setOne B (text "rstp_config") (setRstpLoop B rRstp.1 [])
  | .snmpUser sSnmp =>
      setOne B (text "snmp_user")
        (setSnmpUserLoop e sSnmp.memory.1 (List.range sSnmp.count.toInt.toNat) [])
  | .accessUser sUser =>
      setOne B (text "user") (setAccessUserLoop e sUser.memory.1 (List.range MAX_ACCESS_USER) [])
  | .dot1xConf cDot1x =>
      setOne B (text "dot1x_config") (appendTexts 140 (16 * B.PNUM)
        (cDot1x.1.map fun c => tripleText c.authMode c.ctrlType c.maxUser) [])
  | .trunkList mallocOk extra cTrunk =>
      let cap := (PORT_STR_LEN B * cTrunk.count.toInt).toNat + extra
      setAllocated B mallocOk (text "trunk_list") ((store cap []).bind
        (setTrunkListLoop B e cTrunk.memory.1 cap (List.range cTrunk.count.toInt.toNat)))
  | .staticArp mallocOk staticArp =>
      let cap := (STATIC_ARP_LEN * staticArp.arpInfoCount).toNat
      setAllocated B mallocOk (text "static_arp_list")
        ((store cap []).bind (appendTexts 140 cap (staticArp.staticArpList.flatMap staticArpTexts)))
  | .poeConf cPoe =>
      setOne B (text "poe_port_conf") (appendTexts 32 512
        (cPoe.1.map fun c => tripleText c.enable c.maxPower c.priority) [])
  | .poeNames cPoe =>
      setOne B (text "port_desps") ((cPoe.poeNames.mapM (loadName cPoe.heap)).bind fun names =>
        appendTexts 64 1024 (poeDespTexts B 1 names) [])

theorem setCall_complete (conf : SetConf B) :
    (setCall B e conf).Complete (names B (ConfCall.set conf).type) := by
  cases conf with
  | vlanPort cPort =>
      intro b vs h
      simp only [Option.bind_eq_bind, Option.bind_eq_some_iff, Option.pure_def, Option.some.injEq,
        Prod.mk.injEq] at h
      obtain ⟨t, -, -, -, -, -, -, -, -, -, -, rfl⟩ := h
      rfl
  | vlanFowd mallocOk cVlan => exact setAllocated_complete rfl
  | sourceBinding mallocOk cSource => exact setAllocated_complete rfl
  | trunkList mallocOk extra cTrunk => exact setAllocated_complete rfl
  | staticArp mallocOk staticArp => exact setAllocated_complete rfl
  | _ => exact setOne_complete rfl

theorem setCall_run (conf : SetConf B) (nv : Nvram) :
    confCall B e (.set conf) nv = (setCall B e conf).run (names B (ConfCall.set conf).type) nv := by
  cases conf with
  | vlanPort cPort =>
      simp only [confCall, cliNvramConfSet, cliNvramConfSetVlanPort, setCall, GroupCall.run,
        Option.bind_eq_bind, Option.bind_assoc, Option.map_bind, scfgmgrSet, Function.comp_def]
      congr 1
      funext t
      rcases setMessage (text "vlan_link_type") (t.linkType.takeWhile (· ≠ 0)) with _ | _
      · rfl
      rcases setMessage (text "pvid_config") t.pvid with _ | _
      · rfl
      rcases setMessage (text "trunk_vlan_allowed") t.allow with _ | _
      · rfl
      rcases setMessage (text "trunk_vlan_untagged") t.untag with _ | _ <;> rfl
  | vlanFowd mallocOk cVlan =>
      cases mallocOk with
      | false => rfl
      | true => exact (setOne_run rfl).symm
  | sourceBinding mallocOk cSource =>
      cases mallocOk with
      | false => rfl
      | true => exact (setOne_bind_run rfl).symm
  | trunkList mallocOk extra cTrunk =>
      cases mallocOk with
      | false => rfl
      | true => exact (setOne_bind_run rfl).symm
  | staticArp mallocOk staticArp =>
      cases mallocOk with
      | false => rfl
      | true => exact (setOne_bind_run rfl).symm
  | poeConf cPoe =>
      rw [setCall, setOne_run rfl]
      simp only [confCall, cliNvramConfSet, cliPoeConfStoreToNvram, Option.bind_eq_bind,
        Option.bind_assoc, Option.pure_def]
  | poeNames cPoe =>
      rw [setCall, setOne_run rfl]
      simp only [confCall, cliNvramConfSet, cliPoeDespStoreToNvram, Option.bind_eq_bind,
        Option.bind_assoc, Option.pure_def]
  | _ => exact (setOne_run rfl).symm

/-- The return value of a setter tells whether its texts were stored. -/
theorem setCall_replaces_iff {conf : SetConf B} {nv nv' : Nvram} {r : ℤ × Option (Conf B)}
    (h : confCall B e (.set conf) nv = some (r, nv')) :
    (setCall B e conf).Replaces ↔ r.1 = CLI_SUCCESS := by
  rw [setCall_run] at h
  cases conf with
  | vlanFowd mallocOk cVlan => exact setAllocated_replaces_iff h
  | sourceBinding mallocOk cSource => exact setAllocated_replaces_iff h
  | trunkList mallocOk extra cTrunk => exact setAllocated_replaces_iff h
  | staticArp mallocOk staticArp => exact setAllocated_replaces_iff h
  | vlanPort cPort =>
      obtain ⟨vs, hvs, -⟩ := GroupCall.run_set.mp h
      simp only [Option.bind_eq_bind, Option.bind_eq_some_iff, Option.pure_def, Option.some.injEq,
        Prod.mk.injEq] at hvs
      obtain ⟨t, -, -, -, -, -, -, -, -, -, rfl, -⟩ := hvs
      exact iff_of_true trivial rfl
  | _ => exact iff_of_true trivial (setOne_succeeds h)

/-! ## Getters -/

section Getters

variable {N : Names CStr CStr} {param : CStr} {parse : CStr → Option (ℤ × Conf B)} {nv : Nvram}

/-- What a getter with one parameter does with its text. -/
def getOne (parse : CStr → Option (ℤ × Conf B)) : GroupCall CStr (ℤ × Option (Conf B)) :=
  .get fun
    | [value] => (parse value).map fun r => (r.1, some r.2)
    | _ => none

theorem getOne_run (hN : N.keys = [param]) :
    (getOne parse).run N nv =
      (N.fill param (nv param)).bind fun value => (parse value).map fun r =>
        ((r.1, some r.2), Function.update nv param value) := by
  rw [getOne, GroupCall.run, Names.find, hN, List.mapM_cons]
  cases N.fill param (nv param) with
  | none => rfl
  | some value =>
      simp only [List.mapM_nil, Option.bind_eq_bind, Option.bind_some, Option.pure_def]
      cases parse value <;> rfl

/-- A getter that fills in a default. -/
theorem getOne_default_run {t : CliNvramType} (hN : N.keys = [param])
    (hfill : ∀ value, N.fill param value = fillText B t param value) :
    (getOne parse).run N nv =
      ((cliNvramSafeGet B t param nv).bind fun r => (parse r.1).bind fun c =>
        some (c, r.2)).map fun r => ((r.1.1, some r.1.2), r.2) := by
  rw [getOne_run hN, hfill, cliNvramSafeGet_eq]
  cases fillText B t param (nv param) with
  | none => rfl
  | some value =>
      simp only [Option.bind_some, Option.map_some]
      cases parse value <;> rfl

/-- A getter that takes its text as it is. -/
theorem getOne_plain_run (hN : N.keys = [param]) (hfill : ∀ value, N.fill param value = some value) :
    (getOne parse).run N nv =
      ((parse (nv param)).bind fun c => some (c, nv)).map fun r => ((r.1.1, some r.1.2), r.2) := by
  rw [getOne_run hN, hfill, Option.bind_some, Function.update_eq_self]
  cases parse (nv param) <;> rfl

end Getters

/-- What the getters make of their texts. -/
def getCall (B : Build) (e : Endian) : GetConf B → GroupCall CStr (ℤ × Option (Conf B))
  | .vlanFowd mallocOk cVlan => getOne fun forwardVlan =>
      (fillList (vlanRecord B) mallocOk (spans (chr ';') forwardVlan) 0 cVlan.head
        { cVlan with count := 0 }).map fun r => (r.1, .vlanFowd r.2)
  | .vlanPort mallocOk cPort => .get fun
      | [linkType, pvid, allow, untag] =>
          (getVlanPortLoop mallocOk linkType 1 cPort.1 (some pvid) allow untag).map fun r =>
            (r.1, some (.vlanPort r.2))
      | _ => none
  | .sourceBinding mallocOk cSource => getOne fun source =>
      (fillList sourceRecord mallocOk (spans (chr ';') source) 0 cSource.head
        { cSource with count := 0 }).map fun r => (r.1, .sourceBinding r.2)
  | .rstpPort rRstp => getOne fun rstpConfig =>
      (getRstpLoop rRstp.1 rstpConfig).map fun r => (r.1, .rstpPort r.2)
  | .snmpUser sSnmp => getOne fun snmpUser =>
      (cliNvramConfGetSnmpUser e snmpUser sSnmp).map fun sSnmp => (CLI_SUCCESS, .snmpUser sSnmp)
  | .accessUser sUser => getOne fun accessUser =>
      (cliNvramConfGetAccessUser e accessUser sUser).map fun sUser =>
        (CLI_SUCCESS, .accessUser sUser)
  | .dot1xConf cDot1x => getOne fun dot1xConfig =>
      (getDot1xLoop cDot1x.1 dot1xConfig).map fun cDot1x => (CLI_SUCCESS, .dot1xConf cDot1x)
  | .trunkList cTrunk => getOne fun trunkList =>
      (cliNvramConfGetTrunkList B e trunkList cTrunk).map fun cTrunk =>
        (CLI_SUCCESS, .trunkList cTrunk)
  | .staticArp mallocOk staticArp => getOne fun staticArpInfoList =>
      (fillList staticArpRecord mallocOk (spans (chr ';') staticArpInfoList) 0 none
        { staticArp with count := 0, head := none }).map fun r => (r.1, .staticArp r.2)
  | .rateStorm => .get fun
      | [rateIngress, rateEgress, stormBro, stormMul, stormUni] =>
          (rateStormLoop B.PNUM (some rateIngress) (some rateEgress) (some stormBro)
            (some stormMul) (some stormUni)).map fun cRate =>
              (CLI_SUCCESS, some (.rateStorm cRate))
      | _ => none
  | .poeConf cPoe => getOne fun poePortConf =>
      (poeNvramPraseLoop cPoe.1 poePortConf).map fun cPoe => (CLI_SUCCESS, .poeConf cPoe)
  | .poeNames mallocOk cPoe => getOne fun poePortNames =>
      (fillNames mallocOk 0 poePortNames (cPoe.poeNames.mapIdx (clearPtr B.PoE_NUM)) cPoe.heap).map
        fun r => (CLI_SUCCESS, .poeNames ⟨r.2, r.1.1, by
          rw [r.1.2, List.length_mapIdx, cPoe.length_eq]⟩)

theorem getCall_complete (conf : GetConf B) (N : Names CStr CStr) :
    (getCall B e conf).Complete N := by
  cases conf <;> trivial

theorem getCall_not_replaces (conf : GetConf B) : ¬ (getCall B e conf).Replaces := by
  cases conf <;> exact id

theorem getCall_run (conf : GetConf B) (nv : Nvram) :
    confCall B e (.get conf) nv = (getCall B e conf).run (names B (ConfCall.get conf).type) nv := by
  cases conf with
  | vlanFowd mallocOk cVlan =>
      rw [getCall, getOne_default_run (t := .vlanForward) rfl fun _ => rfl]
      simp only [confCall, cliNvramConfGet, cliNvramConfGetVlanFowd, Option.bind_eq_bind,
        Option.bind_assoc, Option.pure_def, Option.bind_some, Option.bind_map, Function.comp_def]
  | rstpPort rRstp =>
      rw [getCall, getOne_default_run (t := .rstpConfig) rfl fun _ => rfl]
      simp only [confCall, cliNvramConfGet, cliNvramConfGetRstp, Option.bind_eq_bind,
        Option.bind_assoc, Option.pure_def, Option.bind_some, Option.bind_map, Function.comp_def]
  | poeConf cPoe =>
      rw [getCall, getOne_default_run (t := .poePort) rfl fun _ => rfl]
      simp only [confCall, cliNvramConfGet, cliPoeNvramPrase, Option.bind_eq_bind,
        Option.bind_assoc, Option.pure_def, Option.bind_some, Option.bind_map, Function.comp_def]
  | poeNames mallocOk cPoe =>
      rw [getCall, getOne_default_run (t := .poeDesp) rfl fun _ => rfl]
      simp only [confCall, cliNvramConfGet, cliPoeDespNvramPrase, Option.bind_eq_bind,
        Option.bind_assoc, Option.pure_def, Option.bind_some, Option.bind_map, Function.comp_def]
  | sourceBinding mallocOk cSource =>
      rw [getCall, getOne_plain_run rfl fun _ => rfl]
      simp only [confCall, cliNvramConfGet, cliNvramConfGetSourceBinding, Option.bind_eq_bind,
        Option.bind_assoc, Option.pure_def, Option.bind_some, Option.bind_map, Function.comp_def]
  | snmpUser sSnmp =>
      rw [getCall, getOne_plain_run rfl fun _ => rfl]
      simp only [confCall, cliNvramConfGet, Option.bind_eq_bind, Option.pure_def, Option.bind_map,
        Function.comp_def]
  | accessUser sUser =>
      rw [getCall, getOne_plain_run rfl fun _ => rfl]
      simp only [confCall, cliNvramConfGet, Option.bind_eq_bind, Option.pure_def, Option.bind_map,
        Function.comp_def]
  | dot1xConf cDot1x =>
      rw [getCall, getOne_plain_run rfl fun _ => rfl]
      simp only [confCall, cliNvramConfGet, cliNvramConfGetDot1x, Option.bind_eq_bind,
        Option.bind_assoc, Option.pure_def, Option.bind_some, Option.bind_map, Function.comp_def]
  | trunkList cTrunk =>
      rw [getCall, getOne_plain_run rfl fun _ => rfl]
      simp only [confCall, cliNvramConfGet, Option.bind_eq_bind, Option.pure_def, Option.bind_map,
        Function.comp_def]
  | staticArp mallocOk staticArp =>
      rw [getCall, getOne_plain_run rfl fun _ => rfl]
      simp only [confCall, cliNvramConfGet, cliNvramConfGetStaticArp, Option.bind_eq_bind,
        Option.bind_assoc, Option.pure_def, Option.bind_some, Option.bind_map, Function.comp_def]
  | vlanPort mallocOk cPort =>
      simp +decide only [confCall, cliNvramConfGet, cliNvramConfGetVlanPort, cliNvramSafeGet_eq,
        Option.bind_eq_bind, Option.pure_def, Option.bind_map, Option.bind_assoc, Option.bind_some,
        Option.map_bind, Option.map_some, Function.comp_def, Function.update_apply, if_true,
        if_false, getCall, GroupCall.run, Names.find, names, params, defaultType, List.mapM_cons,
        List.mapM_nil, storeAll, ConfCall.type]
  | rateStorm =>
      simp +decide only [confCall, cliNvramConfGet, cliRateStormGet, cliNvramSafeGet_eq,
        Option.bind_eq_bind, Option.pure_def, Option.bind_map, Option.bind_assoc, Option.bind_some,
        Option.map_bind, Option.map_some, Function.comp_def, Function.update_apply, if_false,
        getCall, GroupCall.run, Names.find, names, params, defaultType, List.mapM_cons,
        List.mapM_nil, storeAll, ConfCall.type]

/-! ## Main results -/

/-- What a call does with the texts of its type. -/
def groupCall (B : Build) (e : Endian) : ConfCall B → GroupCall CStr (ℤ × Option (Conf B))
  | .set conf => setCall B e conf
  | .get conf => getCall B e conf

theorem confCall_grouped (B : Build) (e : Endian) :
    Grouped (names B) ConfCall.type (groupCall B e) (confCall B e) where
  step_eq
    | .set conf, nv => setCall_run conf nv
    | .get conf, nv => getCall_run conf nv
  complete
    | .set conf => setCall_complete conf
    | .get conf => getCall_complete conf _
  disjoint _ _ _ h h' :=
    Option.some.inj ((owner_of_mem h).symm.trans (owner_of_mem h'))

variable {nv nv' : Nvram} {log : List (ConfCall B × (ℤ × Option (Conf B)))}

/-- In any run of calls of all types, the calls of one type have the same results, and leave the
same texts in its parameters, as without the calls of the other types. -/
theorem conf_types_independent (type : ConfType) (calls : List (ConfCall B))
    (h : runAll (confCall B e) calls nv = some (log, nv')) :
    ∃ nv₁, runAll (confCall B e) (calls.filter (·.type = type)) nv =
        some (log.filter (·.1.type = type), nv₁) ∧
      ∀ param ∈ params type, nv' param = nv₁ param :=
  (confCall_grouped B e).project h fun _ _ => rfl

/-- In any run of calls of all types, a getter returns what it returns in any store right behind
the last setter of its type that has succeeded. -/
theorem conf_get_last_set {calls : List (ConfCall B)} {x : SetConf B} {y : GetConf B}
    {log₁ log₂ : List (ConfCall B × (ℤ × Option (Conf B)))} {r₀ r : ℤ × Option (Conf B)}
    (h : runAll (confCall B e) calls nv =
      some (log₁ ++ (.set x, r₀) :: (log₂ ++ [(.get y, r)]), nv'))
    (hxy : (ConfCall.get y).type = (ConfCall.set x).type) (hx : r₀.1 = CLI_SUCCESS)
    (hlast : ∀ x' r', (.set x', r') ∈ log₂ → (ConfCall.set x').type = (ConfCall.set x).type →
      r'.1 ≠ CLI_SUCCESS)
    (nv₀ : Nvram) :
    ∃ nv₁, runAll (confCall B e) [.set x, .get y] nv₀ =
      some ([(.set x, r₀), (.get y, r)], nv₁) := by
  refine (confCall_grouped B e).last (d := .get y) ?_ (getCall_not_replaces y) hxy ?_ h nv₀
  · obtain ⟨nv₁, nv₂, hset⟩ := runAll_mem h (r := (.set x, r₀)) (by simp)
    exact (setCall_replaces_iff hset).mpr hx
  · rintro ⟨x' | y', r'⟩ hmem htype
    · obtain ⟨nv₁, nv₂, hset⟩ := runAll_mem h (r := (.set x', r')) (by simp [hmem])
      exact fun hreplaces => hlast x' r' hmem htype ((setCall_replaces_iff hset).mp hreplaces)
    · exact getCall_not_replaces y'

/-- A device with one port. -/
def oneOnly : Build where
  PNUM := 1
  one_le := le_refl 1
  le_phy := by decide

def fastPort : CliRstpConf := ⟨19, 64, 1, 1, 0, 0, 0, 0⟩

def emptyPort : CliRstpConf := ⟨0, 0, 0, 0, 0, 0, 0, 0⟩

/-- The RSTP settings are stored and read with calls of other types in between. -/
def mixedCalls : List (ConfCall oneOnly) :=
  [.get (.rstpPort ⟨[emptyPort], rfl⟩), .set (.rstpPort ⟨[fastPort], rfl⟩), .get .rateStorm,
    .set (.dot1xConf ⟨[⟨1, 0, 0, 16⟩], rfl⟩), .get (.rstpPort ⟨[emptyPort], rfl⟩)]

theorem conf_types_independent_mixed :
    ∃ log nv' nv₁, runAll (confCall oneOnly .little) mixedCalls (fun _ => []) = some (log, nv') ∧
      runAll (confCall oneOnly .little) [.set (.dot1xConf ⟨[⟨1, 0, 0, 16⟩], rfl⟩)] (fun _ => []) =
        some (log.filter (·.1.type = .dot1xConf), nv₁) ∧
      nv' (text "dot1x_config") = nv₁ (text "dot1x_config") := by
  have hrun : (runAll (confCall oneOnly .little) mixedCalls fun _ => []).isSome = true := by
    decide +kernel
  obtain ⟨nv₁, hproject, hagree⟩ := conf_types_independent .dot1xConf mixedCalls
    (Option.some_get hrun).symm
  exact ⟨_, _, nv₁, (Option.some_get hrun).symm, hproject, hagree _ (by decide)⟩

def arpTable : SetConf oneOnly :=
  .staticArp true ⟨1, [⟨text "10.0.0.1", text "00:00:00:00:00:01", 0, 0⟩]⟩

def arpRead : GetConf oneOnly := .staticArp (fun _ => true) (.zeroed Heap.empty)

/-- A table of one address is stored, and read after a setter that has got no block. -/
def refusedCalls : List (ConfCall oneOnly) :=
  [.set arpTable, .get .rateStorm, .set (.staticArp false ⟨0, []⟩), .get arpRead]

theorem conf_get_last_set_refused :
    ∃ r₀ r₁ r nv' nv₁,
      runAll (confCall oneOnly .little) refusedCalls (fun _ => []) =
        some ([(.set arpTable, r₀), (.get .rateStorm, r₁),
          (.set (.staticArp false ⟨0, []⟩), (CLI_FAILED, none)), (.get arpRead, r)], nv') ∧
      r₀.1 = CLI_SUCCESS ∧
      runAll (confCall oneOnly .little) [.set arpTable, .get arpRead] (fun _ => text "none") =
        some ([(.set arpTable, r₀), (.get arpRead, r)], nv₁) := by
  have hrun : (runAll (confCall oneOnly .little) refusedCalls fun _ => []).isSome = true := by
    decide +kernel
  obtain ⟨⟨log, nv'⟩, h⟩ := Option.isSome_iff_exists.mp hrun
  obtain ⟨r₀, nv₂, log₂, hset, h₂, rfl⟩ := runAll_cons.mp h
  obtain ⟨r₁, nv₃, log₃, -, h₃, rfl⟩ := runAll_cons.mp h₂
  obtain ⟨r₂, nv₄, log₄, hrefused, h₄, rfl⟩ := runAll_cons.mp h₃
  obtain ⟨r, nv₅, log₅, -, h₅, rfl⟩ := runAll_cons.mp h₄
  cases h₅
  cases hrefused
  have hsucceeds : r₀.1 = CLI_SUCCESS := (setCall_replaces_iff hset).mp trivial
  have hlog : runAll (confCall oneOnly .little) refusedCalls (fun _ => []) =
      some ([] ++ (.set arpTable, r₀) :: ([(.get .rateStorm, r₁),
        (.set (.staticArp false ⟨0, []⟩), (CLI_FAILED, none))] ++ [(.get arpRead, r)]), nv') := h
  obtain ⟨nv₁, hlast⟩ := conf_get_last_set hlog rfl hsucceeds (by
    intro x' r' hmem _
    simp only [List.mem_cons, Prod.mk.injEq, reduceCtorEq, ConfCall.set.injEq, false_and,
      List.not_mem_nil, or_false, false_or] at hmem
    rw [hmem.2]
    exact Int.one_ne_zero) fun _ => text "none"
  exact ⟨r₀, r₁, r, nv', nv₁, h, hsucceeds, hlast⟩

end BcmUtils.Configuration
