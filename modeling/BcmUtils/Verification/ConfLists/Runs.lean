import BcmUtils.Model.ConfRuns
import BcmUtils.Verification.ConfLists.Filling
import BcmUtils.Verification.PoeNames.Slots

/-! # Runs of get and free on one struct

The conditions under which a call on a struct that earlier calls have left behind
neither touches released blocks nor mixes old records with new ones. -/

namespace BcmUtils.ConfLists

open CLib

variable {ρ : Type}

/-! ## What is stored and what the struct holds -/

/-- The records of each type. -/
def Record : CliConf → Type
  | .vlanFowd => CliVlanInfoConf
  | .sourceBinding => CliSourceInfoConf
  | .staticArp => CliStaticArpList
  | .poeNames => CStr

/-- The string that a `get` reads, with its default when the store holds none. -/
def storedString (B : Build) (nv : Nvram) : CliConf → Option CStr
  | .vlanFowd => (cliNvramSafeGet B .vlanForward (text "vlan_fwd_config") nv).map Prod.fst
  | .sourceBinding => some (nv (text "source_binding"))
  | .staticArp => some (nv (text "static_arp_list"))
  | .poeNames => (cliNvramSafeGet B .poeDesp (text "port_desps") nv).map Prod.fst

/-- The records of a string, when it is well formed. -/
def recordsOf (B : Build) (s : CStr) : (type : CliConf) → Option (List (Record type))
  | .vlanFowd => (spans (chr ';') s).mapM fun r => vlanRecord B r.1 r.2
  | .sourceBinding => (spans (chr ';') s).mapM fun r => sourceRecord r.1 r.2
  | .staticArp => (spans (chr ';') s).mapM fun r => staticArpRecord r.1 r.2
  | .poeNames => some (PoeNames.names B s)

/-- The records that a `get` should find. -/
def storedRecords (B : Build) (nv : Nvram) (type : CliConf) : Option (List (Record type)) :=
  (storedString B nv type).bind fun s => recordsOf B s type

/-- The struct holds exactly these records. -/
def HoldsRecords (B : Build) : (type : CliConf) → ConfStruct B type → List (Record type) → Prop
  | .vlanFowd, c, xs => Holds (ρ := CliVlanInfoConf) c xs
  | .sourceBinding, c, xs => Holds (ρ := CliSourceInfoConf) c xs
  | .staticArp, c, xs => Holds (ρ := CliStaticArpList) c xs
  | .poeNames, c, xs => PoeNames.Holds c xs

/-- A struct of zero bytes, whatever else has been allocated. -/
def Zeroed (B : Build) : (type : CliConf) → ConfStruct B type → Prop
  | .vlanFowd, c => ∃ heap, c = ListConf.zeroed (ρ := CliVlanInfoConf) heap
  | .sourceBinding, c => ∃ heap, c = ListConf.zeroed (ρ := CliSourceInfoConf) heap
  | .staticArp, c => ∃ heap, c = ListConf.zeroed (ρ := CliStaticArpList) heap
  | .poeNames, c => ∃ heap, c = PoeNames.zeroed heap

/-- The strings that the calls find are well formed. -/
def WellFormed (B : Build) (type : CliConf) : ConfCall → Prop
  | .get _ nv => (storedRecords B nv type).isSome
  | .free => True

/-- A successful `get` leaves exactly the records of the stored string in the struct. -/
def Restored (B : Build) (type : CliConf) (_ : ℤ × ConfStruct B type) :
    ConfCall → ℤ × ConfStruct B type → Prop
  | .get _ nv, s' => s'.1 = CLI_SUCCESS →
      ∀ xs, storedRecords B nv type = some xs → HoldsRecords B type s'.2 xs
  | .free, _ => True

/-! ## When a call is permitted -/

/-- A `get` that keeps the old head finds none, or its node is still allocated and one
of the `n` allocations fails. -/
def KeepsHead (c : ListConf ρ) (mallocOk : ℕ → Bool) (n : ℕ) : Prop :=
  c.head = none ∨
    (∃ a node, c.head = some a ∧ c.heap.cells a = some node) ∧ ∃ j < n, mallocOk j = false

/-- The nodes of the list are all allocated. -/
def Live (c : ListConf ρ) : Prop := ∃ as xs, Chain c.heap c.head as xs

/-- A `get` of `n` records on this struct meets no leftover pointer. -/
def Fillable (B : Build) (mallocOk : ℕ → Bool) (n : ℕ) :
    (type : CliConf) → ConfStruct B type → Prop
  | .vlanFowd, c => KeepsHead (ρ := CliVlanInfoConf) c mallocOk n
  | .sourceBinding, c => KeepsHead (ρ := CliSourceInfoConf) c mallocOk n
  | .staticArp, _ => True
  | .poeNames, c => (∀ j < n, mallocOk j = true) ∧ ∀ i p, c.poeNames[i]? = some p → n ≤ i →
      p = .null ∨ sizeofPoeDesp * (i + 1) ≤ B.PoE_NUM

/-- Every block that a `free` of this struct meets is allocated. -/
def Releasable (B : Build) : (type : CliConf) → ConfStruct B type → Prop
  | .vlanFowd, c => Live (ρ := CliVlanInfoConf) c
  | .sourceBinding, c => Live (ρ := CliSourceInfoConf) c
  | .staticArp, c => Live (ρ := CliStaticArpList) c
  | .poeNames, c => ∀ p ∈ c.poeNames, p = .null ∨ ∃ a x, p = .block a ∧ c.heap.cells a = some x

/-- The state before the call admits it. -/
def Permitted (B : Build) (type : CliConf) (s : ℤ × ConfStruct B type) : ConfCall → Prop
  | .get mallocOk nv => ∀ xs, storedRecords B nv type = some xs →
      Fillable B mallocOk xs.length type s.2
  | .free => Releasable B type s.2

/-- What all calls keep: the pointers of a name table lead to distinct blocks. -/
def Sound (B : Build) : (type : CliConf) → ConfStruct B type → Prop
  | .vlanFowd, _ | .sourceBinding, _ | .staticArp, _ => True
  | .poeNames, c => PoeNames.Distinct c

theorem sound_of_zeroed {B : Build} {type : CliConf} {c : ConfStruct B type}
    (hz : Zeroed B type c) : Sound B type c := by
  cases type with
  | vlanFowd => trivial
  | sourceBinding => trivial
  | staticArp => trivial
  | poeNames =>
      obtain ⟨heap, rfl⟩ := hz
      exact PoeNames.distinct_zeroed heap

/-! ## One call -/

/-- Filling a struct whose count was reset and whose head was kept. -/
theorem fillList_of_keepsHead {body : CStr → CStr → Option ρ} {mallocOk : ℕ → Bool}
    {sp : List (CStr × CStr)} {xs : List ρ} (hbody : sp.mapM (fun r => body r.1 r.2) = some xs)
    {c : ListConf ρ} (hk : KeepsHead c mallocOk xs.length) :
    ∃ ret c', fillList body mallocOk sp 0 c.head { c with count := 0 } = some (ret, c') ∧
      (ret = CLI_SUCCESS → Holds c' xs) := by
  rcases hk with hnone | ⟨⟨a, node, hhead, hcell⟩, j, hj, hfail⟩
  · obtain ⟨ret, c', zs, hfill, hholds, hret⟩ := fillList_empty mallocOk hbody c.heap
    refine ⟨ret, c', by rw [hnone, hfill], fun h => ?_⟩
    rw [← hret h]
    exact hholds
  · rw [length_of_mapM hbody] at hj
    cases sp with
    | nil => simp at hj
    | cons r sp =>
        obtain ⟨ret, c', hfill, -⟩ := fillList_stale mallocOk hbody
          (c := { c with count := 0 }) hhead hcell
        rw [← hhead] at hfill
        refine ⟨ret, c', hfill, fun h => ?_⟩
        have hall := (fillList_ret hfill).mp h j hj
        rw [Nat.zero_add, hfail] at hall
        exact absurd hall (by simp)

theorem cliNvramConfGetVlanFowd_of_fill {B : Build} {mallocOk : ℕ → Bool} {nv nv' : Nvram}
    {str : CStr} {c c' : ListConf CliVlanInfoConf} {ret : ℤ}
    (hget : cliNvramSafeGet B .vlanForward (text "vlan_fwd_config") nv = some (str, nv'))
    (hfill : fillList (vlanRecord B) mallocOk (spans (chr ';') str) 0 c.head
      { c with count := 0 } = some (ret, c')) :
    cliNvramConfGetVlanFowd B mallocOk nv c = some (ret, c', nv') := by
  simp only [cliNvramConfGetVlanFowd, hget, Option.bind_eq_bind, Option.bind_some, hfill]
  rfl

theorem cliNvramConfGetSourceBinding_of_fill {mallocOk : ℕ → Bool} {nv : Nvram}
    {c c' : ListConf CliSourceInfoConf} {ret : ℤ}
    (hfill : fillList sourceRecord mallocOk (spans (chr ';') (nv (text "source_binding"))) 0 c.head
      { c with count := 0 } = some (ret, c')) :
    cliNvramConfGetSourceBinding mallocOk nv c = some (ret, c', nv) := by
  simp only [cliNvramConfGetSourceBinding, hfill, Option.bind_eq_bind, Option.bind_some]
  rfl

theorem cliNvramConfGetStaticArp_of_fill {mallocOk : ℕ → Bool} {nv : Nvram}
    {c c' : ListConf CliStaticArpList} {ret : ℤ}
    (hfill : fillList staticArpRecord mallocOk (spans (chr ';') (nv (text "static_arp_list"))) 0
      none (.zeroed c.heap) = some (ret, c')) :
    cliNvramConfGetStaticArp mallocOk nv c = some (ret, c', nv) := by
  rw [ListConf.zeroed] at hfill
  simp only [cliNvramConfGetStaticArp, hfill, Option.bind_eq_bind, Option.bind_some]
  rfl

theorem cliNvramConfFreeList_of_live {c : ListConf ρ} (hl : Live c) :
    ∃ c', cliNvramConfFreeList c = some c' := by
  obtain ⟨as, xs, hc⟩ := hl
  obtain ⟨heap', hfree⟩ := freeList_of_chain hc
  exact ⟨{ c with heap := heap' }, by rw [cliNvramConfFreeList, hfree]; rfl⟩

/-- A permitted `get` on a well-formed string does what it should. -/
theorem get_step {B : Build} {type : CliConf} {s : ℤ × ConfStruct B type} {mallocOk : ℕ → Bool}
    {nv : Nvram} (hwf : (storedRecords B nv type).isSome)
    (hp : Permitted B type s (.get mallocOk nv)) :
    ∃ s', confStep B type s (.get mallocOk nv) = some s' ∧
      Restored B type s (.get mallocOk nv) s' ∧ Sound B type s'.2 := by
  obtain ⟨xs, hxs⟩ := Option.isSome_iff_exists.mp hwf
  have hfill := hp xs hxs
  have hrestored : ∀ s' : ℤ × ConfStruct B type,
      (s'.1 = CLI_SUCCESS → HoldsRecords B type s'.2 xs) →
      Restored B type s (.get mallocOk nv) s' := by
    intro s' hs' hret ys hys
    rw [hxs, Option.some.injEq] at hys
    rw [← hys]
    exact hs' hret
  obtain ⟨str, hstr, hrec⟩ := Option.bind_eq_some_iff.mp hxs
  cases type with
  | vlanFowd =>
      obtain ⟨⟨str, nv'⟩, hget, rfl⟩ := Option.map_eq_some_iff.mp hstr
      obtain ⟨ret, c', hloop, hholds⟩ := fillList_of_keepsHead hrec hfill
      refine ⟨(ret, c'), ?_, hrestored _ hholds, trivial⟩
      exact congrArg (Option.map _) (cliNvramConfGetVlanFowd_of_fill hget hloop)
  | sourceBinding =>
      cases hstr
      obtain ⟨ret, c', hloop, hholds⟩ := fillList_of_keepsHead hrec hfill
      refine ⟨(ret, c'), ?_, hrestored _ hholds, trivial⟩
      exact congrArg (Option.map _) (cliNvramConfGetSourceBinding_of_fill hloop)
  | staticArp =>
      cases hstr
      obtain ⟨ret, c', zs, hloop, hholds, hret⟩ := fillList_empty mallocOk hrec s.2.heap
      refine ⟨(ret, c'), ?_, hrestored _ fun h => ?_, trivial⟩
      · exact congrArg (Option.map _) (cliNvramConfGetStaticArp_of_fill hloop)
      · rw [← hret h]
        exact hholds
  | poeNames =>
      obtain ⟨⟨str, nv'⟩, hget, rfl⟩ := Option.map_eq_some_iff.mp hstr
      cases hrec
      obtain ⟨c', hprase, hholds, hdistinct⟩ :=
        PoeNames.cliPoeDespNvramPrase_spec hget hfill.1 hfill.2
      refine ⟨(CLI_SUCCESS, c'), ?_, hrestored _ fun _ => hholds, hdistinct⟩
      simp only [confStep, cliNvramConfGet, hprase, Option.bind_eq_bind, Option.bind_some]
      rfl

/-- A permitted `free` releases live blocks only. -/
theorem free_step {B : Build} {type : CliConf} {s : ℤ × ConfStruct B type}
    (hs : Sound B type s.2) (hp : Permitted B type s .free) :
    ∃ s', confStep B type s .free = some s' ∧ Sound B type s'.2 := by
  cases type with
  | poeNames =>
      obtain ⟨c', hfree, hd⟩ := PoeNames.cliNvramConfFreePoeNames_spec hs hp
      exact ⟨(CLI_SUCCESS, c'), congrArg (Option.map _) hfree, hd⟩
  | vlanFowd =>
      obtain ⟨c', hfree⟩ := cliNvramConfFreeList_of_live hp
      exact ⟨(CLI_SUCCESS, c'), congrArg (Option.map _) hfree, trivial⟩
  | sourceBinding =>
      obtain ⟨c', hfree⟩ := cliNvramConfFreeList_of_live hp
      exact ⟨(CLI_SUCCESS, c'), congrArg (Option.map _) hfree, trivial⟩
  | staticArp =>
      obtain ⟨c', hfree⟩ := cliNvramConfFreeList_of_live hp
      exact ⟨(CLI_SUCCESS, c'), congrArg (Option.map _) hfree, trivial⟩

/-! ## Runs -/

/-- From a zeroed struct, a run of permitted calls on well-formed strings touches no
block that is not allocated, and every successful `get` in it leaves exactly the records
of the string that it read. -/
theorem conf_run_safe (B : Build) (type : CliConf) {c : ConfStruct B type}
    (hz : Zeroed B type c) {calls : List ConfCall} (hw : ∀ o ∈ calls, WellFormed B type o)
    (hp : Guarded (confStep B type) (Permitted B type) (CLI_SUCCESS, c) calls) :
    Safe (confStep B type) (Restored B type) (CLI_SUCCESS, c) calls := by
  refine safe_of_guarded (fun s => Sound B type s.2) ?_ (sound_of_zeroed hz)
    (hp.and_of_forall hw)
  intro s o hs ho
  cases o with
  | get mallocOk nv => exact get_step ho.1 ho.2
  | free =>
      obtain ⟨s', hstep, hs'⟩ := free_step hs ho.2
      exact ⟨s', hstep, trivial, hs'⟩

/-- An entry that is read, released and read again. -/
theorem conf_run_safe_static_arp :
    Safe (confStep ⟨8, 8, 30, by decide, by decide⟩ .staticArp)
      (Restored ⟨8, 8, 30, by decide, by decide⟩ .staticArp)
      (CLI_SUCCESS, (ListConf.zeroed Heap.empty : ListConf CliStaticArpList))
      [.get (fun _ => true) (fun _ => text "1.1.1.1|00:00:00:00:00:00;"), .free,
        .get (fun _ => true) (fun _ => text "1.1.1.2|00:00:00:00:00:00;")] := by
  refine conf_run_safe ⟨8, 8, 30, by decide, by decide⟩ .staticArp ⟨Heap.empty, rfl⟩ ?_ ?_
  · intro o ho
    simp only [List.mem_cons, List.not_mem_nil, or_false] at ho
    rcases ho with rfl | rfl | rfl
    · change (storedRecords _ _ .staticArp).isSome = true
      decide +kernel
    · trivial
    · change (storedRecords _ _ .staticArp).isSome = true
      decide +kernel
  · refine ⟨fun _ _ => trivial, fun s' hs' => ⟨?_, fun _ _ => ⟨fun _ _ => trivial, fun _ _ => trivial⟩⟩⟩
    have hget : confStep ⟨8, 8, 30, by decide, by decide⟩ .staticArp
        (CLI_SUCCESS, (ListConf.zeroed Heap.empty : ListConf CliStaticArpList))
        (.get (fun _ => true) (fun _ => text "1.1.1.1|00:00:00:00:00:00;")) =
        some (CLI_SUCCESS, ⟨(Heap.empty.alloc
          ⟨⟨text "1.1.1.1", text "00:00:00:00:00:00", 0, 0⟩, none⟩).2, 1, some 0⟩) := rfl
    rw [hget, Option.some.injEq] at hs'
    rw [← hs']
    exact ⟨_, _, Chain.singleton Heap.empty _⟩

/-- A head that still points to a released node, and names that are released twice. -/
theorem conf_run_released :
    (WellFormed ⟨8, 8, 30, by decide, by decide⟩ .sourceBinding (.get (fun _ => true)
        (fun _ => text "000000000001|192.168.1.100|1|4094|1;")) ∧
      ¬ Safe (confStep ⟨8, 8, 30, by decide, by decide⟩ .sourceBinding)
        (Restored ⟨8, 8, 30, by decide, by decide⟩ .sourceBinding)
        (CLI_SUCCESS, (ListConf.zeroed Heap.empty : ListConf CliSourceInfoConf))
        [.get (fun _ => true) (fun _ => text "000000000001|192.168.1.100|1|4094|1;"), .free,
          .get (fun _ => true) (fun _ => text "000000000001|192.168.1.100|1|4094|1;")]) ∧
    ¬ Safe (confStep ⟨8, 8, 30, by decide, by decide⟩ .poeNames)
      (Restored ⟨8, 8, 30, by decide, by decide⟩ .poeNames)
      (CLI_SUCCESS, (PoeNames.zeroed Heap.empty : PoeNames ⟨8, 8, 30, by decide, by decide⟩))
      [.get (fun _ => true) (fun _ => text "a,b,c"), .free,
        .get (fun _ => true) (fun _ => text "a"), .free] := by
  refine ⟨⟨?_, fun h => ?_⟩, fun h => ?_⟩
  · change (storedRecords _ _ .sourceBinding).isSome = true
    decide +kernel
  · exact absurd h.isSome_foldlM (by decide +kernel)
  · exact absurd h.isSome_foldlM (by decide +kernel)

end BcmUtils.ConfLists
