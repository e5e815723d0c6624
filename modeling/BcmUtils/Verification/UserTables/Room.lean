import BcmUtils.Verification.UserTables.AccessRoundTrip
import BcmUtils.Verification.UserTables.SnmpRoundTrip
import BcmUtils.Verification.VlanPort.Encoding

/-! # Room on the stack

The arrays in which `cli_nvram_conf_set` builds the texts of the users and the list of port VLAN
ids. -/

namespace BcmUtils.UserTables

open CLib VlanPort

/-- The text of the SNMP users fits `snmp_user`, and each record fits `tmp`. -/
structure SnmpTextFits (e : Endian) (t : UserTable MAX_SNMP_USER sizeofCliSnmpUserInfo)
    (users : List CliSnmpUserInfo) : Prop where
  snmp_user : setSnmpUserLoop e t.memory.1 (List.range t.count.toInt.toNat) [] =
      some (users.flatMap snmpUserText) ∧
    (users.flatMap snmpUserText).length + 1 ≤ 130 * MAX_SNMP_USER
  tmp : ∀ u ∈ users, (snmpUserText u).length + 1 ≤ 128 + 12

/-- The text of the access users fits `buff`, and each record fits `tmp`. -/
structure AccessTextFits (e : Endian) (t : UserTable MAX_ACCESS_USER sizeofCliAccessUserInfo)
    (users : List CliAccessUserInfo) : Prop where
  buff : setAccessUserLoop e t.memory.1 (List.range MAX_ACCESS_USER) [] =
      some (users.flatMap accessUserText) ∧
    (users.flatMap accessUserText).length + 1 ≤ 256
  tmp : ∀ u ∈ users, (accessUserText u).length + 1 ≤ 128 + 12

/-- The list of the ids fits `pvid`, and each piece fits `tmp`. The rest of the loop is about the
other arrays. -/
structure PvidTextFits (B : Build) (cs : List CliPortConf) : Prop where
  pvid : setVlanPortLoop B 1 cs {} = (do
      let allow ← trunkLoop B (·.allow) cs []
      let untag ← trunkLoop B (·.untag) cs []
      return ⟨cs.map (·.mode), pvidText (cs.map (·.pvid)), allow, untag⟩) ∧
    (pvidText (cs.map (·.pvid))).length + 1 ≤ 4 * B.PNUM + B.PNUM
  tmp : ∀ portid, ∀ c ∈ cs, (pvidPiece portid c.pvid).length + 1 ≤ 128 + 12

theorem snmpTextFits (e : Endian) {t : UserTable MAX_SNMP_USER sizeofCliSnmpUserInfo}
    (hcount : t.count.toInt ≤ MAX_SNMP_USER) {users : List CliSnmpUserInfo}
    (hread : (List.range t.count.toInt.toNat).mapM
      (fun (i : ℕ) => readSnmpUser e t.memory.1 (i * sizeofCliSnmpUserInfo)) = some users)
    (h : ∀ u ∈ users, SnmpShort u) : SnmpTextFits e t users where
  snmp_user := by
    have hmax : MAX_SNMP_USER = 5 := rfl
    have hlen : users.length = t.count.toInt.toNat := by
      rw [length_of_mapM hread, List.length_range]
    have hset := @setSnmpUserLoop_eq e _ _ _ [] hread h (by simp only [List.length_nil]; omega)
    have htext : (users.flatMap snmpUserText).length ≤ 126 * users.length :=
      length_flatMap_le fun u hu => (h u hu).length_le
    rw [List.nil_append] at hset
    exact ⟨hset, by omega⟩
  tmp := by
    intro u hu
    have := (h u hu).length_le
    omega

theorem accessTextFits (e : Endian) {t : UserTable MAX_ACCESS_USER sizeofCliAccessUserInfo}
    {users : List CliAccessUserInfo}
    (hread : (List.range MAX_ACCESS_USER).mapM
      (fun (i : ℕ) => readAccessUser e t.memory.1 (i * sizeofCliAccessUserInfo)) = some users)
    (h : ∀ u ∈ users, Short u) : AccessTextFits e t users := by
  have hmax : MAX_ACCESS_USER = 3 := rfl
  have hlen : users.length = MAX_ACCESS_USER := by
    rw [length_of_mapM hread, List.length_range]
  have hmode : ∀ u ∈ users, IsInt u.mode := by
    intro u hu
    obtain ⟨i, -, hi⟩ := exists_of_mem_mapM hread hu
    obtain ⟨-, -, w, hw⟩ := zero_not_mem_of_readAccessUser hi
    rw [hw]
    exact isInt_toInt w
  constructor
  · have hset := @setAccessUserLoop_eq e _ _ _ [] hread (fun u hu => ⟨h u hu, hmode u hu⟩)
      (by simp only [List.length_nil]; omega)
    have htext : (users.flatMap accessUserText).length ≤ 84 * users.length :=
      length_flatMap_le fun u hu => length_accessUserText_le (h u hu) (hmode u hu)
    rw [List.nil_append] at hset
    exact ⟨hset, by omega⟩
  · intro u hu
    have := length_accessUserText_le (h u hu) (hmode u hu)
    omega

theorem pvidTextFits (B : Build) (cPort : PortArray B CliPortConf)
    (h : ∀ c ∈ cPort.1, 1 ≤ c.pvid ∧ c.pvid ≤ 4094) : PvidTextFits B cPort.1 := by
  have hlen := cPort.2
  have hone := B.one_le
  constructor
  · have hloop := @pvidLoop_eq B 1 cPort.1 [] h le_rfl (by simp [hlen])
    have hrange : ∀ v ∈ cPort.1.map (·.pvid), 1 ≤ v ∧ v ≤ 4094 := by
      intro v hv
      obtain ⟨c, hc, rfl⟩ := List.mem_map.mp hv
      exact h c hc
    have hne : cPort.1.map (·.pvid) ≠ [] := by
      rw [← List.length_pos_iff, List.length_map]
      omega
    have htext := length_pvidText_lt hne hrange
    rw [List.length_map] at htext
    refine ⟨?_, by omega⟩
    rw [setVlanPortLoop_eq_loops, bind_of_eq hloop, pvidPieces_one]
    rfl
  · intro portid c hc
    have hpiece := length_pvidPiece_le portid (h c hc)
    split at hpiece <;> omega

/-- The texts of the users and of the port VLAN ids fit the arrays on the stack. -/
theorem stack_texts_fit (B : Build) (e : Endian)
    (snmp : UserTable MAX_SNMP_USER sizeofCliSnmpUserInfo)
    (hcount : snmp.count.toInt ≤ MAX_SNMP_USER) (snmpUsers : List CliSnmpUserInfo)
    (hsnmp : (List.range snmp.count.toInt.toNat).mapM
      (fun (i : ℕ) => readSnmpUser e snmp.memory.1 (i * sizeofCliSnmpUserInfo)) = some snmpUsers)
    (hsnmpShort : ∀ u ∈ snmpUsers, SnmpShort u)
    (access : UserTable MAX_ACCESS_USER sizeofCliAccessUserInfo)
    (accessUsers : List CliAccessUserInfo)
    (haccess : (List.range MAX_ACCESS_USER).mapM
      (fun (i : ℕ) => readAccessUser e access.memory.1 (i * sizeofCliAccessUserInfo)) =
        some accessUsers)
    (haccessShort : ∀ u ∈ accessUsers, Short u)
    (cPort : PortArray B CliPortConf) (hpvid : ∀ c ∈ cPort.1, 1 ≤ c.pvid ∧ c.pvid ≤ 4094) :
    SnmpTextFits e snmp snmpUsers ∧ AccessTextFits e access accessUsers ∧
      PvidTextFits B cPort.1 :=
  ⟨snmpTextFits e hcount hsnmp hsnmpShort, accessTextFits e haccess haccessShort,
    pvidTextFits B cPort hpvid⟩

/-- One SNMP user, three access users and two ports. -/
theorem stack_texts_fit_some :
    let snmpUsers : List CliSnmpUserInfo := [⟨text "u;1", text "MD5", text "p:1", [], text "x", 1⟩]
    let snmp : UserTable MAX_SNMP_USER sizeofCliSnmpUserInfo :=
      ⟨1, (snmpUsers ++ List.replicate 4 (⟨[], [], [], [], [], 0⟩ : CliSnmpUserInfo)).flatMap
        (snmpSlotBytes .little), by decide +kernel⟩
    let accessUsers : List CliAccessUserInfo :=
      [⟨text "admin", text "a1", 1⟩, ⟨text "guest", text "b:2", -2147483648⟩, ⟨[], [], 0⟩]
    let access : UserTable MAX_ACCESS_USER sizeofCliAccessUserInfo :=
      ⟨2, accessUsers.flatMap (slotBytes .little), by decide +kernel⟩
    let B : Build := ⟨2, 0, 0, by decide, by decide⟩
    let cPort : PortArray B CliPortConf :=
      ⟨[⟨1, 2, chr '1', some [], some []⟩, ⟨2, 4094, chr '3', none, some []⟩], rfl⟩
    SnmpTextFits .little snmp snmpUsers ∧ AccessTextFits .little access accessUsers ∧
      PvidTextFits B cPort.1 := by
  intro snmpUsers snmp accessUsers access B cPort
  refine stack_texts_fit B .little snmp (by decide) snmpUsers (by decide +kernel) ?_ access
    accessUsers (by decide +kernel) ?_ cPort ?_
  · intro u hu
    obtain rfl := List.mem_singleton.mp hu
    exact ⟨by decide, by decide, by decide, by decide, by decide, by decide⟩
  · intro u hu
    simp only [accessUsers, List.mem_cons, List.not_mem_nil, or_false] at hu
    rcases hu with rfl | rfl | rfl <;> exact ⟨by decide, by decide⟩
  · intro c hc
    simp only [cPort, List.mem_cons, List.not_mem_nil, or_false] at hc
    rcases hc with rfl | rfl <;> decide

end BcmUtils.UserTables
