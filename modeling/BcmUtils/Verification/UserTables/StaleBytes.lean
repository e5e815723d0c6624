import BcmUtils.Model.UserTables

/-! # What is left of the old table

A get fills the slots of a table through stores that the string alone determines. The count
and the texts depend on the old struct where no store resets them. -/

namespace BcmUtils.UserTables

open CLib

/-! ## Filling any table -/

section

variable {slots size : ℕ} {body : CStr → CStr → ℕ → Option (List (ℕ × List Byte))}
  {counted : ℕ → List Byte → Bool}

/-- All stores of the loop, from slot `i` on. -/
def allStores (body : CStr → CStr → ℕ → Option (List (ℕ × List Byte))) (size : ℕ) :
    List (CStr × CStr) → ℕ → Option (List (ℕ × List Byte))
  | [], _ => some []
  | (p, p3) :: rest, i => do
      let ws ← body p p3 (i * size)
      let vs ← allStores body size rest (i + 1)
      return ws ++ vs

/-- The stores of a record start in its slot. -/
def StoresBehind (body : CStr → CStr → ℕ → Option (List (ℕ × List Byte))) : Prop :=
  ∀ p p3 slot ws, body p p3 slot = some ws → ∀ w ∈ ws, slot ≤ w.1

/-- Whether a record counts is seen from the bytes up to the end of its slot. -/
def CountedLocally (counted : ℕ → List Byte → Bool) (size : ℕ) : Prop :=
  ∀ (slot : ℕ) (m m' : List Byte), (∀ j : ℕ, j < slot + size → m[j]? = m'[j]?) →
    counted slot m = counted slot m'

theorem le_of_mem_allStores (hbody : StoresBehind body) {sp : List (CStr × CStr)} {i : ℕ}
    {ws : List (ℕ × List Byte)} (h : allStores body size sp i = some ws) :
    ∀ w ∈ ws, i * size ≤ w.1 := by
  induction sp generalizing i ws with
  | nil =>
      obtain rfl : [] = ws := by simpa [allStores] using h
      simp
  | cons r sp ih =>
      simp only [allStores, Option.bind_eq_bind, Option.bind_eq_some_iff, Option.pure_def,
        Option.some.injEq] at h
      obtain ⟨us, hus, vs, hvs, rfl⟩ := h
      intro w hw
      rcases List.mem_append.mp hw with hw | hw
      · exact hbody _ _ _ _ hus w hw
      · exact (Nat.mul_le_mul_right size (Nat.le_succ i)).trans (ih hvs w hw)

/-- A get is undefined if the string has no stores or they leave the table. -/
theorem fillTable_eq_none {sp : List (CStr × CStr)} {i : ℕ} {t : UserTable slots size}
    (h : ∀ ws, allStores body size sp i = some ws → ¬ Fits (slots * size) ws) :
    fillTable body counted sp i t = none := by
  induction sp generalizing i t with
  | nil => exact absurd (by simp [Fits]) (h [] rfl)
  | cons r sp ih =>
      cases hws : body r.1 r.2 (i * size) with
      | none => simp [fillTable, hws]
      | some ws =>
          by_cases hfits : Fits (slots * size) ws
          · obtain ⟨m, hm, -⟩ := copyAll_spec hfits t.memory
            simp only [fillTable, hws, hm, Option.bind_eq_bind, Option.bind_some]
            refine ih fun vs hvs hfits' => h (ws ++ vs) (by simp [allStores, hws, hvs]) ?_
            intro w hw
            rcases List.mem_append.mp hw with hw | hw
            · exact hfits w hw
            · exact hfits' w hw
          · simp [fillTable, hws, copyAll_of_not_fits hfits t.memory]

/-- A get leaves the stored bytes over the old ones, and counts by what the finished table
holds. -/
theorem fillTable_spec (hbody : StoresBehind body) (hcounted : CountedLocally counted size)
    {sp : List (CStr × CStr)} {i : ℕ} {ws : List (ℕ × List Byte)}
    (hws : allStores body size sp i = some ws) (hfits : Fits (slots * size) ws)
    (t : UserTable slots size) :
    ∃ t', fillTable body counted sp i t = some t' ∧
      (∀ j : ℕ, t'.memory.1[j]? = (covered ws j).or t.memory.1[j]?) ∧
      t'.count = t.count + BitVec.ofNat 32
        ((List.range sp.length).countP fun k => counted ((i + k) * size) t'.memory.1) := by
  induction sp generalizing i ws t with
  | nil =>
      obtain rfl : [] = ws := by simpa [allStores] using hws
      exact ⟨t, rfl, fun j => by simp [covered], by simp⟩
  | cons r sp ih =>
      simp only [allStores, Option.bind_eq_bind, Option.bind_eq_some_iff, Option.pure_def,
        Option.some.injEq] at hws
      obtain ⟨us, hus, vs, hvs, rfl⟩ := hws
      obtain ⟨m, hm, hget⟩ := copyAll_spec (fun w hw => hfits w (List.mem_append_left _ hw)) t.memory
      obtain ⟨t', ht', hget', hcount⟩ := ih hvs (fun w hw => hfits w (List.mem_append_right _ hw))
        ⟨if counted (i * size) m.1 then t.count + 1 else t.count, m⟩
      -- later records leave the slot alone
      have hslot : counted (i * size) m.1 = counted (i * size) t'.memory.1 := by
        refine hcounted _ _ _ fun j hj => ?_
        have hnone : covered vs j = none := by
          refine covered_of_lt fun w hw => ?_
          have := le_of_mem_allStores hbody hvs w hw
          rw [Nat.add_mul, Nat.one_mul] at this
          omega
        rw [hget', hnone, Option.none_or]
      refine ⟨t', ?_, fun j => ?_, ?_⟩
      · simp only [fillTable, hus, hm, Option.bind_eq_bind, Option.bind_some]
        exact ht'
      · rw [hget', hget, covered_append, Option.or_assoc]
      · rw [hcount, List.length_cons, List.range_succ_eq_map, List.countP_cons, List.countP_map,
          Nat.add_zero, hslot]
        have hshift : ∀ k, (i + 1 + k) * size = (i + (k + 1)) * size := by
          intro k
          rw [Nat.add_right_comm, Nat.add_assoc]
        simp only [Function.comp_def, Nat.succ_eq_add_one, hshift]
        cases counted (i * size) t'.memory.1 <;>
          simp [BitVec.ofNat_add, BitVec.add_assoc, BitVec.add_comm]

/-! ## Comparing with a zeroed struct -/

/-- A struct of zero bytes. -/
def zeroed (slots size : ℕ) : UserTable slots size := ⟨0, Block.zeroed _⟩

/-- The count, and the strings at these offsets. -/
def view (fields : List ℕ) (t : UserTable slots size) : BitVec 32 × List (Option CStr) :=
  (t.count, fields.map fun f => readStr f t.memory.1)

/-- Whether a record counts is seen from the strings of the table. -/
def CountedByStrings (counted : ℕ → List Byte → Bool) (slots size : ℕ) (fields : List ℕ) : Prop :=
  ∀ (i : ℕ) (m m' : List Byte), i < slots → (∀ f ∈ fields, readStr f m = readStr f m') →
    counted (i * size) m = counted (i * size) m'

/-- A get gives the same as on a zeroed struct exactly if the old count is zero and every
string ends before the old bytes show. -/
theorem view_fillTable_eq_iff (hbody : StoresBehind body) (hcounted : CountedLocally counted size)
    {fields : List ℕ} (hstrings : CountedByStrings counted slots size fields)
    {sp : List (CStr × CStr)} (hsp : sp.length ≤ slots) (t : UserTable slots size) :
    (fillTable body counted sp 0 t).map (view fields) =
        (fillTable body counted sp 0 (zeroed slots size)).map (view fields) ↔
      ∀ ws, allStores body size sp 0 = some ws → Fits (slots * size) ws →
        t.count = 0 ∧ ∀ f ∈ fields, Terminated ws t.memory.1 f := by
  by_cases hdef : ∃ ws, allStores body size sp 0 = some ws ∧ Fits (slots * size) ws
  · obtain ⟨ws, hws, hfits⟩ := hdef
    obtain ⟨t', ht', hget, hcount⟩ := fillTable_spec hbody hcounted hws hfits t
    obtain ⟨z', hz', hgetz, hcountz⟩ := fillTable_spec hbody hcounted hws hfits (zeroed slots size)
    have hfield : ∀ f, readStr f t'.memory.1 = readStr f z'.memory.1 ↔
        Terminated ws t.memory.1 f := readStr_stores_eq_iff hget hgetz
    have hviews : (fields.map (fun f => readStr f t'.memory.1) =
        fields.map fun f => readStr f z'.memory.1) ↔ ∀ f ∈ fields, Terminated ws t.memory.1 f := by
      rw [List.map_inj_left]
      exact forall₂_congr fun f _ => hfield f
    have hsame : (∀ f ∈ fields, Terminated ws t.memory.1 f) → (t'.count = z'.count ↔ t.count = 0) := by
      intro hterm
      have hk : ∀ k ∈ List.range sp.length,
          counted ((0 + k) * size) t'.memory.1 = counted ((0 + k) * size) z'.memory.1 := by
        intro k hk
        have hk := List.mem_range.mp hk
        exact hstrings _ _ _ (by omega) fun f hf => (hfield f).mpr (hterm f hf)
      rw [hcount, hcountz, List.countP_congr fun k hk' => by rw [hk k hk']]
      simp [zeroed]
    rw [ht', hz', Option.map_some, Option.map_some, Option.some.injEq, view, view, Prod.mk.injEq,
      hviews]
    constructor
    · rintro ⟨hc, hterm⟩ vs hvs -
      obtain rfl : ws = vs := by simpa [hws] using hvs
      exact ⟨(hsame hterm).mp hc, hterm⟩
    · intro h
      obtain ⟨hc, hterm⟩ := h ws hws hfits
      exact ⟨(hsame hterm).mpr hc, hterm⟩
  · have hnone : ∀ t : UserTable slots size, fillTable body counted sp 0 t = none :=
      fun t => fillTable_eq_none fun ws hws hfits => hdef ⟨ws, hws, hfits⟩
    rw [hnone, hnone]
    exact iff_of_true rfl fun ws hws hfits => absurd ⟨ws, hws, hfits⟩ hdef

end

/-! ## The three tables -/

theorem readStr_eq_nil_iff (f : ℕ) (m : List Byte) : readStr f m = some [] ↔ m[f]? = some 0 := by
  rw [show m[f]? = (m.drop f)[0]? by rw [List.getElem?_drop, Nat.add_zero], readStr]
  cases m.drop f with
  | nil => simp
  | cons b m' =>
      by_cases hb : b = 0
      · simp [hb]
      · by_cases hm : (0 : Byte) ∈ m' <;> simp [hb, Ne.symm hb, hm]

/-- The types of `cli_nvram_conf_get` that fill a table. -/
inductive TableType
  | snmpUser | accessUser | trunkList
  deriving DecidableEq, Repr

namespace TableType

def slots : TableType → ℕ
  | .snmpUser => MAX_SNMP_USER
  | .accessUser => MAX_ACCESS_USER
  | .trunkList => CLI_TRUNK_GROUP

def size : TableType → ℕ
  | .snmpUser => sizeofCliSnmpUserInfo
  | .accessUser => sizeofCliAccessUserInfo
  | .trunkList => sizeofCliTrunkList

/-- The stores of one record. -/
def stores (B : Build) (e : Endian) : TableType → CStr → CStr → ℕ → Option (List (ℕ × List Byte))
  | .snmpUser => snmpUserStores e
  | .accessUser => accessUserStores e
  | .trunkList => trunkListStores B e

def counted : TableType → ℕ → List Byte → Bool
  | .snmpUser | .trunkList => fun _ _ => true
  | .accessUser => accessUserCounted

/-- The offsets of the texts in a slot. -/
def texts : TableType → List ℕ
  | .snmpUser => [4, 40, 48, 84, 92]
  | .accessUser => [4, 40]
  | .trunkList => [4]

/-- The offsets of the texts of all slots. -/
def fields (type : TableType) : List ℕ :=
  (List.range type.slots).flatMap fun (i : ℕ) => type.texts.map fun off => i * type.size + off

/-- `cli_nvram_conf_get` of the type for a stored string. -/
def get (B : Build) (e : Endian) : (type : TableType) → CStr → UserTable type.slots type.size →
    Option (UserTable type.slots type.size)
  | .snmpUser => cliNvramConfGetSnmpUser e
  | .accessUser => cliNvramConfGetAccessUser e
  | .trunkList => cliNvramConfGetTrunkList B e

/-- All stores of a get. -/
def getStores (B : Build) (e : Endian) (type : TableType) (s : CStr) :
    Option (List (ℕ × List Byte)) :=
  allStores (type.stores B e) type.size ((spans (chr ';') s).take type.slots) 0

theorem get_eq (B : Build) (e : Endian) (type : TableType) (s : CStr)
    (t : UserTable type.slots type.size) :
    type.get B e s t = fillTable (type.stores B e) type.counted
      ((spans (chr ';') s).take type.slots) 0
      ⟨if type = .trunkList then 0 else t.count, t.memory⟩ := by
  cases type <;> rfl

theorem storesBehind_accessUser (e : Endian) : StoresBehind (accessUserStores e) := by
  intro p p3 slot ws h w hw
  simp only [accessUserStores, Option.bind_eq_bind, Option.bind_eq_some_iff, Option.pure_def,
    Option.some.injEq] at h
  obtain ⟨_, _, _, _, rfl⟩ := h
  simp only [List.mem_cons, List.not_mem_nil, or_false] at hw
  rcases hw with rfl | rfl | rfl <;> simp

theorem storesBehind (B : Build) (e : Endian) (type : TableType) :
    StoresBehind (type.stores B e) := by
  intro p p3 slot ws h w hw
  cases type with
  | snmpUser =>
      simp only [stores, snmpUserStores, Option.bind_eq_bind, Option.bind_eq_some_iff,
        Option.pure_def, Option.some.injEq] at h
      obtain ⟨_, _, _, _, _, _, _, _, _, _, rfl⟩ := h
      simp only [List.mem_cons, List.not_mem_nil, or_false] at hw
      rcases hw with rfl | rfl | rfl | rfl | rfl | rfl <;> simp
  | accessUser => exact storesBehind_accessUser e p p3 slot ws h w hw
  | trunkList =>
      simp only [stores, trunkListStores, Option.bind_eq_bind, Option.bind_eq_some_iff,
        Option.pure_def, Option.some.injEq] at h
      obtain ⟨_, _, _, _, _, _, _, _, _, _, _, _, _, _, _, _, rfl⟩ := h
      simp only [List.mem_cons, List.not_mem_nil, or_false] at hw
      rcases hw with rfl | rfl | rfl | rfl | rfl <;> simp

theorem countedLocally (type : TableType) : CountedLocally type.counted type.size := by
  intro slot m m' h
  cases type with
  | snmpUser => rfl
  | trunkList => rfl
  | accessUser =>
      have hsize : accessUser.size = 80 := rfl
      simp only [counted, accessUserCounted, h (slot + 40) (by omega), h (slot + 4) (by omega)]

theorem countedByStrings (type : TableType) :
    CountedByStrings type.counted type.slots type.size type.fields := by
  intro i m m' hi h
  cases type with
  | snmpUser => rfl
  | trunkList => rfl
  | accessUser =>
      have hfield : ∀ off ∈ accessUser.texts,
          (m[i * accessUser.size + off]? = some 0 ↔ m'[i * accessUser.size + off]? = some 0) := by
        intro off hoff
        rw [← readStr_eq_nil_iff, ← readStr_eq_nil_iff, h]
        exact List.mem_flatMap.mpr ⟨i, List.mem_range.mpr hi, List.mem_map.mpr ⟨off, hoff, rfl⟩⟩
      have h4 := hfield 4 (by decide)
      have h40 := hfield 40 (by decide)
      simp only [counted, accessUserCounted, ne_eq, h4, h40]

end TableType

/-- What a get leaves does not depend on the old struct exactly if the old count is zero or
reset, and each text ends before the old bytes show. -/
theorem user_table_get_same_iff (B : Build) (e : Endian) (type : TableType) (s : CStr)
    (t : UserTable type.slots type.size) :
    (type.get B e s t).map (view type.fields) =
        (type.get B e s (zeroed type.slots type.size)).map (view type.fields) ↔
      ∀ ws, type.getStores B e s = some ws → Fits (type.slots * type.size) ws →
        (type = .trunkList ∨ t.count = 0) ∧ ∀ f ∈ type.fields, Terminated ws t.memory.1 f := by
  have hzeroed : (⟨if type = .trunkList then 0 else 0, Block.zeroed _⟩ :
      UserTable type.slots type.size) = zeroed type.slots type.size := by
    rw [ite_self, zeroed]
  have hcount : (if type = .trunkList then 0 else t.count) = 0 ↔ type = .trunkList ∨ t.count = 0 := by
    split <;> simp_all
  have hspans : ((spans (chr ';') s).take type.slots).length ≤ type.slots := by
    rw [List.length_take]
    omega
  have hsame := view_fillTable_eq_iff (type.storesBehind B e) type.countedLocally
    type.countedByStrings hspans ⟨if type = .trunkList then 0 else t.count, t.memory⟩
  rw [hcount] at hsame
  rw [TableType.get_eq, TableType.get_eq, zeroed, hzeroed]
  exact hsame

/-- Getting one SNMP user twice counts two, and a trunk name keeps the end of the longer name
that was there before. -/
theorem user_table_get_twice :
    let B : Build := ⟨8, 0, 0, by decide, by decide⟩
    let getUser := TableType.snmpUser.get B .little (text "a:MD5:p:DES:q:0;")
    let getTrunk := fun s => TableType.trunkList.get B .little (text s)
    ((getUser (zeroed _ _)).map (·.count) = some 1 ∧
      ((getUser (zeroed _ _)).bind getUser).map (·.count) = some 2) ∧
    ((getTrunk "Trunk-2|1|1|1;" (zeroed _ _)).map (fun t => readStr 4 t.memory.1) =
        some (some (text "Trunk-2")) ∧
      ((getTrunk "Trunk-1-up|1|1|1;" (zeroed _ _)).bind (getTrunk "Trunk-2|1|1|1;")).map
        (fun t => readStr 4 t.memory.1) = some (some (text "Trunk-2-up"))) := by
  decide +kernel

end BcmUtils.UserTables
