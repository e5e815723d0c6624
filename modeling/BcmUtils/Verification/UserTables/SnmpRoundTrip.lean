import BcmUtils.Verification.UserTables.Filling

/-! # Round trip of the SNMP users

The five texts of a user are cut by a chain of searches, each from where the last one ended, so
an empty text is as good as any other. -/

namespace BcmUtils.UserTables

open CLib

/-- A user whose texts and mode fit the struct. -/
structure SnmpShort (u : CliSnmpUserInfo) : Prop where
  name : u.name.length ≤ 35
  auth : u.auth.length ≤ 7
  authPasswd : u.authPasswd.length ≤ 35
  priv : u.priv.length ≤ 7
  privPasswd : u.privPasswd.length ≤ 35
  mode : u.mode = CLI_SNMP_RONLY ∨ u.mode = CLI_SNMP_RWRITE

theorem SnmpShort.length_le {u : CliSnmpUserInfo} (h : SnmpShort u) :
    (snmpUserText u).length ≤ 126 := by
  have h₁ := h.name
  have h₂ := h.auth
  have h₃ := h.authPasswd
  have h₄ := h.priv
  have h₅ := h.privPasswd
  have hmode : (printInt u.mode).length = 1 := by
    cases h.mode with
    | inl hm =>
        rw [hm]
        decide
    | inr hm =>
        rw [hm]
        decide
  simp only [snmpUserText, List.length_append, List.length_cons, List.length_nil, hmode]
  omega

/-- A text without separators that leaves room for a terminator in its array. -/
structure SnmpText (size : ℕ) (s : CStr) : Prop where
  length_lt : s.length < size
  colon : chr ':' ∉ s
  semicolon : chr ';' ∉ s
  zero : (0 : Byte) ∉ s

/-- A user that may be configured. -/
structure SnmpAdmitted (u : CliSnmpUserInfo) : Prop where
  name : SnmpText 36 u.name
  auth : SnmpText 8 u.auth
  authPasswd : SnmpText 36 u.authPasswd
  priv : SnmpText 8 u.priv
  privPasswd : SnmpText 36 u.privPasswd
  mode : u.mode = CLI_SNMP_RONLY ∨ u.mode = CLI_SNMP_RWRITE

/-- The record of a user without its terminator. -/
def snmpRecord (u : CliSnmpUserInfo) : CStr :=
  u.name ++ chr ':' :: (u.auth ++ chr ':' :: (u.authPasswd ++ chr ':' :: (u.priv ++ chr ':' ::
    (u.privPasswd ++ chr ':' :: printInt u.mode))))

theorem snmpUserText_eq (u : CliSnmpUserInfo) : snmpUserText u = snmpRecord u ++ [chr ';'] := by
  simp [snmpUserText, snmpRecord]

/-- The fields of the slot at `base`. -/
def snmpFields (e : Endian) (base : ℕ) (u : CliSnmpUserInfo) : List Field :=
  [⟨base + 4, 36, u.name⟩, ⟨base + 40, 8, u.auth⟩, ⟨base + 48, 36, u.authPasswd⟩,
    ⟨base + 84, 8, u.priv⟩, ⟨base + 92, 36, u.privPasswd⟩,
    ⟨base + 128, 4, bytesOf e (BitVec.ofInt 32 u.mode)⟩]

theorem layout_snmpFields (e : Endian) : Layout (snmpFields e) sizeofCliSnmpUserInfo :=
  layout_of_widths [(4, 36), (40, 8), (48, 36), (84, 8), (92, 36), (128, 4)] (fun _ _ => rfl) (by decide)
    (by decide)

namespace SnmpAdmitted

variable {u : CliSnmpUserInfo}

theorem isInt_mode (h : SnmpAdmitted u) : IsInt u.mode := by
  rcases h.mode with hm | hm <;> rw [hm] <;> decide

theorem fits (h : SnmpAdmitted u) (e : Endian) (base : ℕ) : ∀ f ∈ snmpFields e base u, f.Fits := by
  intro f hf
  have h₁ := h.name.length_lt
  have h₂ := h.auth.length_lt
  have h₃ := h.authPasswd.length_lt
  have h₄ := h.priv.length_lt
  have h₅ := h.privPasswd.length_lt
  simp only [snmpFields, List.mem_cons, List.not_mem_nil, or_false] at hf
  rcases hf with rfl | rfl | rfl | rfl | rfl | rfl <;> simp only [Field.Fits, length_bytesOf] <;>
    omega

theorem short (h : SnmpAdmitted u) : SnmpShort u where
  name := Nat.le_of_lt_succ h.name.length_lt
  auth := Nat.le_of_lt_succ h.auth.length_lt
  authPasswd := Nat.le_of_lt_succ h.authPasswd.length_lt
  priv := Nat.le_of_lt_succ h.priv.length_lt
  privPasswd := Nat.le_of_lt_succ h.privPasswd.length_lt
  mode := h.mode

theorem readsBack (h : SnmpAdmitted u) (e : Endian) :
    ReadsBack (snmpUserStores e) snmpRecord (snmpFields e) u := by
  constructor
  · have hmode : chr ';' ∉ printInt u.mode := not_mem_printInt (by decide) (by decide) _
    have hcolon : chr ';' ≠ chr ':' := by decide
    simp only [snmpRecord, List.mem_append, List.mem_cons, not_or]
    exact ⟨h.name.semicolon, hcolon, h.auth.semicolon, hcolon, h.authPasswd.semicolon, hcolon,
      h.priv.semicolon, hcolon, h.privPasswd.semicolon, hcolon, hmode⟩
  · intro base t
    have hread : (if CLI_SNMP_RONLY = atoi (printInt u.mode ++ chr ';' :: t) then CLI_SNMP_RONLY
        else CLI_SNMP_RWRITE) = u.mode := by
      rw [atoi_printInt_cons h.isInt_mode (by decide)]
      rcases h.mode with hm | hm <;> rw [hm] <;> decide
    have htext : snmpRecord u ++ chr ';' :: t = u.name ++ chr ':' :: (u.auth ++ chr ':' ::
        (u.authPasswd ++ chr ':' :: (u.priv ++ chr ':' :: (u.privPasswd ++ chr ':' ::
          (printInt u.mode ++ chr ';' :: t))))) := by
      simp [snmpRecord]
    rw [htext, snmpUserStores, bind_of_eq (nextField_append h.name.colon _)]
    simp only
    rw [bind_of_eq (nextField_append h.auth.colon _)]
    simp only
    rw [bind_of_eq (nextField_append h.authPasswd.colon _)]
    simp only
    rw [bind_of_eq (nextField_append h.priv.colon _)]
    simp only
    rw [bind_of_eq (nextField_append h.privPasswd.colon _)]
    simp only [hread]
    rfl

/-- A slot whose fields hold a user is read as this user. -/
theorem readSnmpUser_of_window (h : SnmpAdmitted u) {e : Endian} {memory : List Byte} {base : ℕ}
    (hw : ∀ f ∈ snmpFields e base u, f.Window memory) :
    readSnmpUser e memory base = some u := by
  simp only [snmpFields, List.mem_cons, List.not_mem_nil, or_false, forall_eq_or_imp,
    forall_eq] at hw
  obtain ⟨hname, hauth, hauthPasswd, hpriv, hprivPasswd, hmode⟩ := hw
  have hbytes := take_of_window (length_bytesOf _ _) hmode
  have hword : (BitVec.ofInt 32 u.mode).toInt = u.mode := by
    rcases h.mode with hm | hm <;> rw [hm] <;> decide
  rw [readSnmpUser, bind_of_eq (readStr_of_window h.name.zero h.name.length_lt hname),
    bind_of_eq (readStr_of_window h.auth.zero h.auth.length_lt hauth),
    bind_of_eq (readStr_of_window h.authPasswd.zero h.authPasswd.length_lt hauthPasswd),
    bind_of_eq (readStr_of_window h.priv.zero h.priv.length_lt hpriv),
    bind_of_eq (readStr_of_window h.privPasswd.zero h.privPasswd.length_lt hprivPasswd), hbytes,
    wordOf_bytesOf, hword]
  rfl

end SnmpAdmitted

theorem setSnmpUserLoop_eq (e : Endian) {memory : List Byte} {slots : List ℕ}
    {users : List CliSnmpUserInfo} {snmpUser : CStr}
    (hread : slots.mapM (fun i => readSnmpUser e memory (i * sizeofCliSnmpUserInfo)) = some users)
    (h : ∀ u ∈ users, SnmpShort u) (hfit : snmpUser.length + 126 * users.length < 650) :
    setSnmpUserLoop e memory slots snmpUser = some (snmpUser ++ users.flatMap snmpUserText) := by
  induction slots generalizing users snmpUser with
  | nil =>
      obtain rfl : [] = users := by simpa using hread
      simp [setSnmpUserLoop]
  | cons i slots ih =>
      obtain ⟨u, rest, hu, hrest, rfl⟩ := mapM_cons_eq_some.mp hread
      have hlen := (h u List.mem_cons_self).length_le
      rw [List.length_cons] at hfit
      have hcat : strcat (130 * MAX_SNMP_USER) snmpUser (snmpUserText u) =
          some (snmpUser ++ snmpUserText u) := by
        apply strcat_of_lt
        rw [List.length_append, MAX_SNMP_USER]
        omega
      rw [setSnmpUserLoop, bind_of_eq hu, bind_of_eq (store_of_lt (by omega)), bind_of_eq hcat,
        ih hrest (fun v hv => h v (List.mem_cons_of_mem _ hv))
          (by rw [List.length_append]; omega),
        List.flatMap_cons, List.append_assoc]

/-- Up to five users with texts free of separators are read back from a zeroed table. -/
theorem snmp_user_round_trip (e : Endian) (t : UserTable MAX_SNMP_USER sizeofCliSnmpUserInfo)
    (hcount : t.count.toNat ≤ MAX_SNMP_USER) {users : List CliSnmpUserInfo}
    (hread : (List.range t.count.toNat).mapM
      (fun (i : ℕ) => readSnmpUser e t.memory.1 (i * sizeofCliSnmpUserInfo)) = some users)
    (h : ∀ u ∈ users, SnmpAdmitted u) (nv : Nvram) :
    ∃ nv' t', cliNvramConfSetSnmpUser e t nv = some (CLI_SUCCESS, nv') ∧
      cliNvramConfGetSnmpUser e (nv' (text "snmp_user")) (zeroed _ _) = some t' ∧
      t'.count = t.count ∧
      (List.range t'.count.toNat).mapM
        (fun (i : ℕ) => readSnmpUser e t'.memory.1 (i * sizeofCliSnmpUserInfo)) = some users := by
  have hmax : MAX_SNMP_USER = 5 := rfl
  have hlen : users.length = t.count.toNat := by
    rw [length_of_mapM hread, List.length_range]
  have hsigned : t.count.toInt.toNat = t.count.toNat := by
    rw [BitVec.toInt_eq_toNat_of_lt (by omega), Int.toNat_natCast]
  have hset := @setSnmpUserLoop_eq e _ _ _ [] hread (fun u hu => (h u hu).short)
    (by simp only [List.length_nil]; omega)
  rw [List.nil_append] at hset
  have htext : (users.flatMap snmpUserText).length ≤ 126 * users.length :=
    length_flatMap_le fun u hu => (h u hu).short.length_le
  have hname : (text "snmp_user").length = 9 := by decide
  have hstore := @scfgmgrSet_of_lt (text "snmp_user") (users.flatMap snmpUserText) nv (by
    rw [List.length_append, List.length_cons]
    omega)
  obtain ⟨t', hget, hfilled⟩ := @fillTable_flatMap _ MAX_SNMP_USER _ _ _ _
    (TableType.storesBehind ⟨1, 0, 0, le_rfl, by decide⟩ e .snmpUser) (layout_snmpFields e) users
    (fun u hu => (h u hu).readsBack e) (fun u hu base => (h u hu).fits e base) (by omega)
  have hcount' : t'.count = t.count := by
    rw [hfilled.count, hlen, BitVec.ofNat_toNat, BitVec.setWidth_eq]
  refine ⟨Function.update nv (text "snmp_user") (users.flatMap snmpUserText), t', ?_, ?_, hcount',
    ?_⟩
  · rw [cliNvramConfSetSnmpUser, hsigned, bind_of_eq hset, bind_of_eq hstore]
    rfl
  · rw [Function.update_self]
    rw [funext snmpUserText_eq]
    exact hget
  · rw [hcount', ← hlen]
    have hback := @Filled.mapM_read _ _ _ _ _ _ _ hfilled (readSnmpUser e) id
      fun u hu _ => (h u hu).readSnmpUser_of_window
    rwa [List.map_id] at hback

/-- A slot with zeros behind its texts. -/
def snmpSlotBytes (e : Endian) (u : CliSnmpUserInfo) : List Byte :=
  List.replicate 4 0 ++ (padRow 36 u.name ++ (padRow 8 u.auth ++ (padRow 36 u.authPasswd ++
    (padRow 8 u.priv ++ (padRow 36 u.privPasswd ++ bytesOf e (BitVec.ofInt 32 u.mode))))))

/-- Two users, one of them without any text. -/
theorem snmp_user_round_trip_two :
    let users : List CliSnmpUserInfo := [⟨text "u1", text "MD5", text "p,1", [], text "x", 1⟩,
      ⟨[], [], [], [], [], 0⟩]
    let t : UserTable MAX_SNMP_USER sizeofCliSnmpUserInfo :=
      ⟨2, (users ++ List.replicate 3 (⟨[], [], [], [], [], 0⟩ : CliSnmpUserInfo)).flatMap (snmpSlotBytes .big),
        by decide +kernel⟩
    ∃ nv' t', cliNvramConfSetSnmpUser .big t (fun _ => []) = some (CLI_SUCCESS, nv') ∧
      cliNvramConfGetSnmpUser .big (nv' (text "snmp_user")) (zeroed _ _) = some t' ∧
      t'.count = t.count ∧
      (List.range t'.count.toNat).mapM
        (fun (i : ℕ) => readSnmpUser .big t'.memory.1 (i * sizeofCliSnmpUserInfo)) =
          some users := by
  intro users t
  refine snmp_user_round_trip .big t (by decide) (by decide +kernel) ?_ (fun _ => [])
  intro u hu
  simp only [users, List.mem_cons, List.not_mem_nil, or_false] at hu
  rcases hu with rfl | rfl <;>
    exact ⟨⟨by decide, by decide, by decide, by decide⟩, ⟨by decide, by decide, by decide, by decide⟩,
      ⟨by decide, by decide, by decide, by decide⟩, ⟨by decide, by decide, by decide, by decide⟩,
      ⟨by decide, by decide, by decide, by decide⟩, by decide⟩

end BcmUtils.UserTables
