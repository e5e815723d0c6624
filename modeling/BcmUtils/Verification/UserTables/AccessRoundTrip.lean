import BcmUtils.Foundation.Fields
import BcmUtils.Verification.UserTables.StaleBytes

/-! # Round trip of the access users

The get looks for `:` without regard to the end of the record, so a `:` in a text garbles its
own slot and a `;` moves the slots behind it. -/

namespace BcmUtils.UserTables

open CLib

/-! ## One field, one record -/

/-- Whatever a text holds, the field read at it is no longer, and is the text itself if the
separator does not occur in it. -/
theorem nextField_append_cons (c : Byte) (s t : CStr) :
    ∃ field s', nextField c (s ++ c :: t) = some (field, s') ∧ field.length ≤ s.length ∧
      (c ∉ s → field = s ∧ s' = t) ∧ (c ∈ s → ∃ v, v.length ≤ s.length ∧ s' = v ++ c :: t) := by
  by_cases hc : c ∈ s
  · obtain ⟨u, v, rfl, hu⟩ := List.eq_append_cons_of_mem hc
    refine ⟨u, v ++ c :: t, ?_, by simp, fun h => absurd hc h, fun _ => ⟨v, ?_, rfl⟩⟩
    · rw [List.append_assoc, List.cons_append]
      exact nextField_append hu _
    · simp only [List.length_append, List.length_cons]
      omega
  · exact ⟨s, t, nextField_append hc t, le_rfl, fun _ => ⟨rfl, rfl⟩, fun h => absurd h hc⟩

/-- Name and password leave room for a terminator. -/
def Short (u : CliAccessUserInfo) : Prop := u.name.length ≤ 35 ∧ u.passwd.length ≤ 35

/-- Neither text holds the separator. -/
def Free (c : Byte) (u : CliAccessUserInfo) : Prop := c ∉ u.name ∧ c ∉ u.passwd

/-- The stores of a record that was read as `u`. -/
def slotStores (e : Endian) (user : ℕ) (u : CliAccessUserInfo) : List (ℕ × List Byte) :=
  [(user + 4, u.name), (user + 40, u.passwd), (user + 76, bytesOf e (BitVec.ofInt 32 u.mode))]

theorem accessUserStores_eq (e : Endian) {p p' p'' name passwd : CStr}
    (hname : nextField (chr ':') p = some (name, p'))
    (hpasswd : nextField (chr ':') p' = some (passwd, p'')) (p3 : CStr) (user : ℕ) :
    accessUserStores e p p3 user = some (slotStores e user ⟨name, passwd, atoi p''⟩) := by
  simp only [accessUserStores, hname, hpasswd, Option.bind_eq_bind, Option.bind_some]
  rfl

theorem accessUserText_append (u : CliAccessUserInfo) (t : CStr) :
    accessUserText u ++ t =
      u.name ++ chr ':' :: (u.passwd ++ chr ':' :: (printInt u.mode ++ chr ';' :: t)) := by
  simp [accessUserText]

/-- A record is read as short texts, and as what was written if no text holds a `:`. -/
theorem accessUserStores_append (e : Endian) {u : CliAccessUserInfo} (hshort : Short u)
    (hmode : IsInt u.mode) (t p3 : CStr) (user : ℕ) :
    ∃ v, accessUserStores e (accessUserText u ++ t) p3 user = some (slotStores e user v) ∧
      Short v ∧ (Free (chr ':') u → v = u) := by
  rw [accessUserText_append]
  obtain ⟨name, p, hname, hlen, hfree, hmoved⟩ := nextField_append_cons (chr ':') u.name
    (u.passwd ++ chr ':' :: (printInt u.mode ++ chr ';' :: t))
  by_cases hc : chr ':' ∈ u.name
  · obtain ⟨w, hw, rfl⟩ := hmoved hc
    obtain ⟨passwd, p, hpasswd, hlen', -⟩ := nextField_append_cons (chr ':') w
      (u.passwd ++ chr ':' :: (printInt u.mode ++ chr ';' :: t))
    have hlen'' : passwd.length ≤ 35 := (hlen'.trans hw).trans hshort.1
    exact ⟨⟨name, passwd, atoi p⟩, accessUserStores_eq e hname hpasswd p3 user,
      ⟨hlen.trans hshort.1, hlen''⟩, fun h => absurd hc h.1⟩
  · obtain ⟨rfl, rfl⟩ := hfree hc
    obtain ⟨passwd, p, hpasswd, hlen', hfree', -⟩ := nextField_append_cons (chr ':') u.passwd
      (printInt u.mode ++ chr ';' :: t)
    refine ⟨⟨u.name, passwd, atoi p⟩, accessUserStores_eq e hname hpasswd p3 user,
      ⟨hshort.1, hlen'.trans hshort.2⟩, fun h => ?_⟩
    obtain ⟨rfl, rfl⟩ := hfree' h.2
    rw [atoi_printInt_cons hmode (by decide)]

theorem length_accessUserText_le {u : CliAccessUserInfo} (hshort : Short u) (hmode : IsInt u.mode) :
    (accessUserText u).length ≤ 84 := by
  have h₁ := hshort.1
  have h₂ := hshort.2
  have h₃ := length_printInt_le hmode
  simp only [accessUserText, List.length_append, List.length_cons, List.length_nil]
  omega

/-- A record without `;` in its texts is one round of the loop. -/
theorem spans_accessUserText_append {u : CliAccessUserInfo} (h : Free (chr ';') u) (t : CStr) :
    ∃ q, spans (chr ';') (accessUserText u ++ t) =
      (accessUserText u ++ t, q) :: spans (chr ';') t := by
  have hmode : chr ';' ∉ printInt u.mode := not_mem_printInt (by decide) (by decide) _
  have hrecord : accessUserText u ++ t =
      (u.name ++ chr ':' :: (u.passwd ++ chr ':' :: printInt u.mode)) ++ chr ';' :: t := by
    rw [accessUserText_append]
    simp
  have hnot : chr ';' ∉ u.name ++ chr ':' :: (u.passwd ++ chr ':' :: printInt u.mode) := by
    simp only [List.mem_append, List.mem_cons, not_or]
    exact ⟨h.1, by decide, h.2, by decide, hmode⟩
  refine ⟨chr ';' :: t, ?_⟩
  rw [hrecord]
  exact spans_append_cons hnot t

/-- The last record is a round of the loop wherever its first `;` stands. -/
theorem spans_accessUserText (u : CliAccessUserInfo) :
    ∃ q rest, spans (chr ';') (accessUserText u) = (accessUserText u, q) :: rest := by
  have hmem : chr ';' ∈ accessUserText u := by simp [accessUserText]
  rw [spans_eq]
  cases hs : strchr (chr ';') (accessUserText u) with
  | none => exact absurd hmem (strchr_eq_none.mp hs)
  | some q => exact ⟨q, _, rfl⟩

/-! ## Reading a slot back -/

theorem zero_not_mem_of_readAccessUser {e : Endian} {memory : List Byte} {user : ℕ}
    {u : CliAccessUserInfo} (h : readAccessUser e memory user = some u) :
    (0 : Byte) ∉ u.name ∧ (0 : Byte) ∉ u.passwd ∧ ∃ w : BitVec 32, u.mode = w.toInt := by
  simp only [readAccessUser, Option.bind_eq_bind, Option.bind_eq_some_iff, Option.pure_def,
    Option.some.injEq] at h
  obtain ⟨name, hname, passwd, hpasswd, rfl⟩ := h
  exact ⟨zero_not_mem_of_readStr hname, zero_not_mem_of_readStr hpasswd, _, rfl⟩

/-- The fields of the slot at `base`. -/
def accessFields (e : Endian) (base : ℕ) (u : CliAccessUserInfo) : List Field :=
  [⟨base + 4, 36, u.name⟩, ⟨base + 40, 36, u.passwd⟩,
    ⟨base + 76, 4, bytesOf e (BitVec.ofInt 32 u.mode)⟩]

theorem layout_accessFields (e : Endian) : Layout (accessFields e) sizeofCliAccessUserInfo :=
  layout_of_widths [(4, 36), (40, 36), (76, 4)] (fun _ _ => rfl) (by decide)
    (by decide)

theorem Short.fits {u : CliAccessUserInfo} (h : Short u) (e : Endian) (base : ℕ) :
    ∀ f ∈ accessFields e base u, f.Fits := by
  intro f hf
  obtain ⟨hn, hp⟩ := h
  simp only [accessFields, List.mem_cons, List.not_mem_nil, or_false] at hf
  rcases hf with rfl | rfl | rfl <;> simp only [Field.Fits, length_bytesOf] <;> omega

/-- A slot whose fields hold a user is read as this user. -/
theorem readAccessUser_of_window {e : Endian} {user : ℕ} {u : CliAccessUserInfo}
    {memory : List Byte} (hshort : Short u) (hname : (0 : Byte) ∉ u.name)
    (hpasswd : (0 : Byte) ∉ u.passwd) {w : BitVec 32} (hmode : u.mode = w.toInt)
    (hw : ∀ f ∈ accessFields e user u, f.Window memory) :
    readAccessUser e memory user = some u := by
  obtain ⟨hn, hp⟩ := hshort
  simp only [accessFields, List.mem_cons, List.not_mem_nil, or_false, forall_eq_or_imp,
    forall_eq] at hw
  obtain ⟨hwname, hwpasswd, hwmode⟩ := hw
  rw [readAccessUser, bind_of_eq (readStr_of_window hname (by omega) hwname),
    bind_of_eq (readStr_of_window hpasswd (by omega) hwpasswd),
    take_of_window (length_bytesOf _ _) hwmode, wordOf_bytesOf, hmode, BitVec.ofInt_toInt, ← hmode]
  rfl

/-! ## All slots -/

theorem setAccessUserLoop_eq (e : Endian) {memory : List Byte} {slots : List ℕ}
    {users : List CliAccessUserInfo} {buff : CStr}
    (hread : slots.mapM (fun i => readAccessUser e memory (i * sizeofCliAccessUserInfo)) = some users)
    (hshort : ∀ u ∈ users, Short u ∧ IsInt u.mode) (hfit : buff.length + 84 * users.length < 256) :
    setAccessUserLoop e memory slots buff = some (buff ++ users.flatMap accessUserText) := by
  induction slots generalizing users buff with
  | nil =>
      obtain rfl : [] = users := by simpa using hread
      simp [setAccessUserLoop]
  | cons i slots ih =>
      obtain ⟨u, rest, hu, hrest, rfl⟩ := mapM_cons_eq_some.mp hread
      have hlen := length_accessUserText_le (hshort u (by simp)).1 (hshort u (by simp)).2
      rw [List.length_cons] at hfit
      have hcat : strcat 256 buff (accessUserText u) = some (buff ++ accessUserText u) := by
        apply strcat_of_lt
        rw [List.length_append]
        omega
      rw [setAccessUserLoop, bind_of_eq hu, bind_of_eq (store_of_lt (by omega)), bind_of_eq hcat,
        ih hrest (fun v hv => hshort v (by simp [hv])) (by rw [List.length_append]; omega),
        List.flatMap_cons, List.append_assoc]

/-- The stores of the records from slot `i` on. -/
def slotsStores (e : Endian) : ℕ → List CliAccessUserInfo → List (ℕ × List Byte)
  | _, [] => []
  | i, u :: us => slotStores e (i * 80) u ++ slotsStores e (i + 1) us

theorem slotsStores_eq (e : Endian) (i : ℕ) (us : List CliAccessUserInfo) :
    slotsStores e i us =
      (tableFields (accessFields e) sizeofCliAccessUserInfo i us).map Field.store := by
  induction us generalizing i with
  | nil => rfl
  | cons u us ih =>
      rw [slotsStores, tableFields, List.map_append, ih]
      rfl

/-- The fields of all slots, which fill the slots from `i` on. -/
theorem bounds_of_mem_tableFields {e : Endian} {i : ℕ} {us : List CliAccessUserInfo}
    (h : ∀ u ∈ us, Short u) {f : Field}
    (hf : f ∈ tableFields (accessFields e) sizeofCliAccessUserInfo i us) :
    f.Fits ∧ f.off + f.width ≤ (i + us.length) * sizeofCliAccessUserInfo := by
  obtain ⟨u, hu, k, -, -, hfu⟩ := mem_tableFields hf
  exact ⟨(h u hu).fits e _ f hfu, ((layout_accessFields e).bounds hf).2⟩

/-- The get of records, all but the last without `;`, stores what was read of them into their
slots. -/
theorem allStores_accessUserText (e : Endian) (i : ℕ) {us : List CliAccessUserInfo}
    (hsemi : ∀ u ∈ us.dropLast, Free (chr ';') u) (hshort : ∀ u ∈ us, Short u ∧ IsInt u.mode) :
    ∃ vs, (∀ v ∈ vs, Short v) ∧ vs.length = us.length ∧
      (∀ (k : ℕ) (u : CliAccessUserInfo), us[k]? = some u → Free (chr ':') u → vs[k]? = some u) ∧
      allStores (accessUserStores e) sizeofCliAccessUserInfo
        ((spans (chr ';') (us.flatMap accessUserText)).take us.length) i =
          some (slotsStores e i vs) := by
  induction us generalizing i with
  | nil => exact ⟨[], by simp, rfl, by simp, rfl⟩
  | cons u us ih =>
      obtain ⟨hu, hmode⟩ := hshort u List.mem_cons_self
      have hrest : ∀ v ∈ us, Short v ∧ IsInt v.mode := fun v hv =>
        hshort v (List.mem_cons_of_mem _ hv)
      -- the text of the record is one round of the loop
      obtain ⟨q, tl, hspans, vs, hvs, hlen, hsame, hstores⟩ : ∃ q tl,
          spans (chr ';') (accessUserText u ++ us.flatMap accessUserText) =
            (accessUserText u ++ us.flatMap accessUserText, q) :: tl ∧
          ∃ vs, (∀ v ∈ vs, Short v) ∧ vs.length = us.length ∧
            (∀ (k : ℕ) (v : CliAccessUserInfo),
              us[k]? = some v → Free (chr ':') v → vs[k]? = some v) ∧
            allStores (accessUserStores e) sizeofCliAccessUserInfo (tl.take us.length) (i + 1) =
              some (slotsStores e (i + 1) vs) := by
        cases us with
        | nil =>
            obtain ⟨q, tl, hspans⟩ := spans_accessUserText u
            exact ⟨q, tl, by simpa using hspans, [], by simp, rfl, by simp, rfl⟩
        | cons u' us =>
            rw [List.dropLast_cons_cons] at hsemi
            obtain ⟨q, hspans⟩ := spans_accessUserText_append (hsemi u List.mem_cons_self)
              ((u' :: us).flatMap accessUserText)
            exact ⟨q, _, hspans, ih (i + 1) (fun v hv => hsemi v (List.mem_cons_of_mem _ hv)) hrest⟩
      obtain ⟨v, hv, hshortv, hsamev⟩ := accessUserStores_append e hu hmode
        (us.flatMap accessUserText) q (i * 80)
      refine ⟨v :: vs, List.forall_mem_cons.mpr ⟨hshortv, hvs⟩, by simp [hlen], ?_, ?_⟩
      · intro k w hw hfree
        cases k with
        | zero =>
            obtain rfl : u = w := Option.some.inj hw
            rw [List.getElem?_cons_zero, hsamev hfree]
        | succ k => exact hsame k w hw hfree
      · rw [List.flatMap_cons, hspans, List.length_cons, List.take_succ_cons]
        exact (bind_of_eq hv _).trans (bind_of_eq hstores _)

/-- Every slot is read back from a zeroed table whatever is stored into the other slots. -/
theorem readAccessUser_of_slotsStores {e : Endian} {memory old : List Byte} {i : ℕ}
    {us : List CliAccessUserInfo} (hshort : ∀ u ∈ us, Short u)
    (hold : ∀ j : ℕ, j < (i + us.length) * sizeofCliAccessUserInfo → old[j]? = some 0)
    (hget : ∀ j : ℕ, memory[j]? = (covered (slotsStores e i us) j).or old[j]?) {k : ℕ}
    {u : CliAccessUserInfo} (hu : us[k]? = some u) (hname : (0 : Byte) ∉ u.name)
    (hpasswd : (0 : Byte) ∉ u.passwd) {w : BitVec 32} (hmode : u.mode = w.toInt) :
    readAccessUser e memory ((i + k) * sizeofCliAccessUserInfo) = some u := by
  apply readAccessUser_of_window (hshort u (List.mem_of_getElem? hu)) hname hpasswd hmode
  intro f hf
  have hmem := mem_tableFields_of_getElem? hu hf
  refine window_of_fields ((layout_accessFields e).pairwise i us)
    (fun g hg => (bounds_of_mem_tableFields hshort hg).1) (fun j hj => ?_) hmem
    (bounds_of_mem_tableFields hshort hmem).2
  rw [hget, slotsStores_eq, hold j hj]

/-- Three users whose texts are short and, in the first two slots, without `;` are stored, and
every slot without `:` is read back as it was, whatever the other slots hold. -/
theorem access_user_round_trip (e : Endian) (t : UserTable MAX_ACCESS_USER sizeofCliAccessUserInfo)
    {users : List CliAccessUserInfo}
    (hread : (List.range MAX_ACCESS_USER).mapM
      (fun (i : ℕ) => readAccessUser e t.memory.1 (i * sizeofCliAccessUserInfo)) = some users)
    (hshort : ∀ u ∈ users, Short u) (hsemi : ∀ u ∈ users.take 2, Free (chr ';') u) (nv : Nvram) :
    ∃ nv' t', cliNvramConfSetAccessUser e t nv = some (CLI_SUCCESS, nv') ∧
      cliNvramConfGetAccessUser e (nv' (text "user")) (zeroed _ _) = some t' ∧
      ∀ (i : ℕ) (u : CliAccessUserInfo), users[i]? = some u → Free (chr ':') u →
        readAccessUser e t'.memory.1 (i * sizeofCliAccessUserInfo) = some u := by
  have hslot : ∀ u ∈ users, (0 : Byte) ∉ u.name ∧ (0 : Byte) ∉ u.passwd ∧
      ∃ w : BitVec 32, u.mode = w.toInt := by
    intro u hu
    obtain ⟨i, -, hi⟩ := exists_of_mem_mapM hread hu
    exact zero_not_mem_of_readAccessUser hi
  have hints : ∀ u ∈ users, Short u ∧ IsInt u.mode := by
    intro u hu
    obtain ⟨-, -, w, hw⟩ := hslot u hu
    exact ⟨hshort u hu, hw ▸ isInt_toInt w⟩
  have hlen : users.length = 3 := by
    rw [length_of_mapM hread]
    rfl
  have hset := @setAccessUserLoop_eq e _ _ _ [] hread hints (by simp [hlen])
  rw [List.nil_append] at hset
  have hname : (text "user").length = 4 := by decide
  have htext : (users.flatMap accessUserText).length ≤ 84 * users.length :=
    length_flatMap_le fun u hu => length_accessUserText_le (hints u hu).1 (hints u hu).2
  have hstore := @scfgmgrSet_of_lt (text "user") (users.flatMap accessUserText) nv (by
    rw [List.length_append, List.length_cons]
    omega)
  rw [← show users.length - 1 = 2 by rw [hlen], ← List.dropLast_eq_take] at hsemi
  obtain ⟨vs, hvs, hlenvs, hsame, hstores⟩ := allStores_accessUserText e 0 hsemi hints
  have hfits : Fits (MAX_ACCESS_USER * sizeofCliAccessUserInfo) (slotsStores e 0 vs) := by
    intro w hw
    rw [slotsStores_eq] at hw
    obtain ⟨f, hf, rfl⟩ := List.mem_map.mp hw
    obtain ⟨hbytes, hend⟩ := bounds_of_mem_tableFields hvs hf
    rw [Nat.zero_add, hlenvs, hlen] at hend
    exact (Nat.add_le_add_left hbytes f.off).trans hend
  rw [hlen] at hstores
  obtain ⟨t', ht', hget, -⟩ := fillTable_spec (TableType.storesBehind_accessUser e)
    (TableType.countedLocally .accessUser) hstores hfits (zeroed _ _)
  refine ⟨Function.update nv (text "user") (users.flatMap accessUserText), t', ?_, ?_, ?_⟩
  · rw [cliNvramConfSetAccessUser, bind_of_eq hset, bind_of_eq hstore]
    rfl
  · rw [Function.update_self]
    exact ht'
  · intro i u hu hcolon
    obtain ⟨hn, hp, w, hw⟩ := hslot u (List.mem_of_getElem? hu)
    have hzero : ∀ j : ℕ, j < (0 + vs.length) * sizeofCliAccessUserInfo →
        (zeroed MAX_ACCESS_USER sizeofCliAccessUserInfo).memory.1[j]? = some 0 := by
      intro j hj
      rw [Nat.zero_add, hlenvs, hlen] at hj
      exact List.getElem?_replicate.trans (if_pos hj)
    have hread' := @readAccessUser_of_slotsStores e _ _ 0 vs hvs hzero hget i u
      (hsame i u hu hcolon) hn hp w hw
    rwa [Nat.zero_add] at hread'

/-- A slot with zeros behind its texts. -/
def slotBytes (e : Endian) (u : CliAccessUserInfo) : List Byte :=
  List.replicate 4 0 ++ (padRow 36 u.name ++ (padRow 36 u.passwd ++
    bytesOf e (BitVec.ofInt 32 u.mode)))

theorem access_user_round_trip_plain :
    let users : List CliAccessUserInfo :=
      [⟨text "admin", text "a1", 1⟩, ⟨text "guest", text "b:2", 0⟩, ⟨text "oper;", [], -3⟩]
    let t : UserTable MAX_ACCESS_USER sizeofCliAccessUserInfo :=
      ⟨2, users.flatMap (slotBytes .big), by decide +kernel⟩
    ∃ nv' t', cliNvramConfSetAccessUser .big t (fun _ => []) = some (CLI_SUCCESS, nv') ∧
      cliNvramConfGetAccessUser .big (nv' (text "user")) (zeroed _ _) = some t' ∧
      ∀ (i : ℕ) (u : CliAccessUserInfo), users[i]? = some u → Free (chr ':') u →
        readAccessUser .big t'.memory.1 (i * sizeofCliAccessUserInfo) = some u := by
  intro users t
  have hread : (List.range MAX_ACCESS_USER).mapM
      (fun (i : ℕ) => readAccessUser .big t.memory.1 (i * sizeofCliAccessUserInfo)) = some users := by
    decide +kernel
  refine access_user_round_trip .big t hread ?_ ?_ (fun _ => [])
  · intro u hu
    simp only [users, List.mem_cons, List.not_mem_nil, or_false] at hu
    rcases hu with rfl | rfl | rfl <;> exact ⟨by decide, by decide⟩
  · intro u hu
    simp only [users, List.take_succ_cons, List.take_zero, List.mem_cons, List.not_mem_nil,
      or_false] at hu
    rcases hu with rfl | rfl <;> exact ⟨by decide, by decide⟩

/-- A password of the first slot that brings its own record into the second slot. -/
theorem access_user_record_injected :
    let users : List CliAccessUserInfo :=
      [⟨text "guest", text ";root:pw:1;", 0⟩, ⟨text "oper", text "op", 0⟩, ⟨text "x", text "y", 0⟩]
    let t : UserTable MAX_ACCESS_USER sizeofCliAccessUserInfo :=
      ⟨3, users.flatMap (slotBytes .little), by decide +kernel⟩
    ((List.range MAX_ACCESS_USER).mapM fun (i : ℕ) =>
        readAccessUser .little t.memory.1 (i * sizeofCliAccessUserInfo)) = some users ∧
      (∀ u ∈ users, Short u) ∧
      ((cliNvramConfSetAccessUser .little t fun _ => []).bind fun r =>
        (cliNvramConfGetAccessUser .little (r.2 (text "user")) (zeroed _ _)).bind fun t' =>
          readAccessUser .little t'.memory.1 sizeofCliAccessUserInfo) =
        some ⟨text "root", text "pw", 1⟩ := by
  refine ⟨by decide +kernel, ?_, by decide +kernel⟩
  intro u hu
  simp only [List.mem_cons, List.not_mem_nil, or_false] at hu
  rcases hu with rfl | rfl | rfl <;> exact ⟨by decide, by decide⟩

end BcmUtils.UserTables
