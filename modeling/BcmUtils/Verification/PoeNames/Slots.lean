import BcmUtils.Model.PoeNames

/-! # The pointers of the name table -/

namespace BcmUtils.PoeNames

open CLib

variable {B : Build}

/-- The names that a stored string gives to the ports. -/
def names (B : Build) (s : CStr) : List CStr := (s.splitOn (chr ',')).take B.PoE_NUM

/-- The table that points to the given blocks and is null behind them. -/
def pointers (as : List ℕ) (m : ℕ) : List Ptr := as.map .block ++ List.replicate m .null

/-- The table points to these names in order and is null behind them. -/
def Holds (c : PoeNames B) (xs : List CStr) : Prop :=
  ∃ as m, c.poeNames = pointers as m ∧
    List.Forall₂ (fun a x => c.heap.cells a = some x) as xs

/-- The table points to distinct blocks, which may have been released. -/
def Distinct (c : PoeNames B) : Prop := ∃ as m, c.poeNames = pointers as m ∧ as.Nodup

theorem distinct_zeroed (heap : Heap CStr) : Distinct (zeroed heap : PoeNames B) :=
  ⟨[], B.PoE_NUM, rfl, List.nodup_nil⟩

/-- The loop stores one new block for each name and no pointer behind them. -/
theorem fillNames_spec (mallocOk : ℕ → Bool) {k : ℕ} {s : CStr} {cPoe : List Ptr}
    (heap : Heap CStr)
    (hm : ∀ j < ((s.splitOn (chr ',')).take cPoe.length).length, mallocOk (k + j) = true) :
    ∃ l heap' as, fillNames mallocOk k s cPoe heap = some (l, heap') ∧
      l.1 = as.map .block ++ cPoe.drop as.length ∧
      List.Forall₂ (fun a x => heap'.cells a = some x) as ((s.splitOn (chr ',')).take cPoe.length) ∧
      as.Nodup ∧ (∀ a ∈ as, heap.next ≤ a) ∧ ∀ q < heap.next, heap'.cells q = heap.cells q := by
  induction cPoe generalizing k s heap with
  | nil => exact ⟨_, heap, [], rfl, rfl, by simp, List.nodup_nil, by simp, fun _ _ => rfl⟩
  | cons slot cPoe ih =>
      have hk : mallocOk k = true := by
        apply hm 0
        rw [splitOn_eq_strchr]
        split <;> simp
      cases hq : strchr (chr ',') s with
      | none =>
          have hsplit : s.splitOn (chr ',') = [s] := by rw [splitOn_eq_strchr, hq]
          rw [hsplit]
          refine ⟨⟨.block heap.next :: cPoe, rfl⟩, (heap.alloc s).2, [heap.next], ?_, rfl, ?_,
            by simp, by simp, ?_⟩
          · simp only [fillNames, hk, ite_true, hq]
            rfl
          · simp
          · intro q hq'
            exact Heap.alloc_cells_of_ne (Nat.ne_of_lt hq')
      | some pEnd =>
          have hsplit : s.splitOn (chr ',') =
              s.take (s.length - pEnd.length) :: pEnd.tail.splitOn (chr ',') := by
            rw [splitOn_eq_strchr, hq]
          rw [hsplit] at hm ⊢
          have hm' : ∀ j < ((pEnd.tail.splitOn (chr ',')).take cPoe.length).length,
              mallocOk (k + 1 + j) = true := by
            intro j hj
            rw [Nat.add_assoc, Nat.add_comm 1]
            exact hm (j + 1) (by simpa using hj)
          obtain ⟨l, heap', as, hfill, hl, hcells, hnodup, hge, hframe⟩ :=
            ih (heap.alloc (s.take (s.length - pEnd.length))).2 hm'
          have hnext : (heap.alloc (s.take (s.length - pEnd.length))).2.next = heap.next + 1 := rfl
          rw [hnext] at hge hframe
          refine ⟨⟨.block heap.next :: l.1, by simp [l.2]⟩, heap', heap.next :: as, ?_, ?_, ?_, ?_,
            ?_, ?_⟩
          · simp only [fillNames, hk, ite_true, hq, Option.bind_eq_bind, hfill, Option.bind_some]
            rfl
          · simp [hl]
          · refine .cons ?_ hcells
            rw [hframe _ (Nat.lt_succ_self _), Heap.alloc_cells_self]
          · refine List.nodup_cons.mpr ⟨fun hmem => ?_, hnodup⟩
            exact absurd (hge _ hmem) (by omega)
          · intro a ha
            rcases List.mem_cons.mp ha with rfl | ha
            · exact Nat.le_refl _
            · exact Nat.le_of_succ_le (hge a ha)
          · intro q hq'
            rw [hframe q (by omega), Heap.alloc_cells_of_ne (Nat.ne_of_lt hq')]

/-- Pointers behind the names are null when `memset` reaches them or they were null. -/
theorem drop_clearPtr {c : PoeNames B} {n : ℕ}
    (h : ∀ i p, c.poeNames[i]? = some p → n ≤ i →
      p = .null ∨ sizeofPoeDesp * (i + 1) ≤ B.PoE_NUM) :
    (c.poeNames.mapIdx (clearPtr B.PoE_NUM)).drop n = List.replicate (B.PoE_NUM - n) .null := by
  refine List.eq_replicate_iff.mpr ⟨by simp [c.length_eq], fun p hp => ?_⟩
  obtain ⟨i, hi, rfl⟩ := List.mem_iff_getElem.mp hp
  rw [List.getElem_drop, List.getElem_mapIdx]
  have hlt : n + i < c.poeNames.length := by
    simp only [List.length_drop, List.length_mapIdx] at hi
    omega
  rcases h (n + i) _ (List.getElem?_eq_getElem hlt) (Nat.le_add_right n i) with hnull | hle
  · simp [clearPtr, hnull]
  · simp [clearPtr, hle]

/-- Reading names over a table whose leftover pointers are null or cleared. -/
theorem cliPoeDespNvramPrase_spec {mallocOk : ℕ → Bool} {nv nv' : Nvram} {s : CStr}
    (hget : cliNvramSafeGet B .poeDesp (text "port_desps") nv = some (s, nv'))
    {c : PoeNames B} (hm : ∀ j < (names B s).length, mallocOk j = true)
    (h : ∀ i p, c.poeNames[i]? = some p → (names B s).length ≤ i →
      p = .null ∨ sizeofPoeDesp * (i + 1) ≤ B.PoE_NUM) :
    ∃ c', cliPoeDespNvramPrase B mallocOk nv c = some (c', nv') ∧ Holds c' (names B s) ∧
      Distinct c' := by
  have hlen : (c.poeNames.mapIdx (clearPtr B.PoE_NUM)).length = B.PoE_NUM := by
    rw [List.length_mapIdx, c.length_eq]
  have hm' : ∀ j < ((s.splitOn (chr ',')).take
      (c.poeNames.mapIdx (clearPtr B.PoE_NUM)).length).length, mallocOk (0 + j) = true := by
    rw [hlen]
    simpa [names] using hm
  obtain ⟨l, heap', as, hfill, hl, hcells, hnodup, -, -⟩ := fillNames_spec mallocOk c.heap hm'
  rw [hlen] at hcells
  have hcount : as.length = (names B s).length := hcells.length_eq
  have hpoint : l.1 = pointers as (B.PoE_NUM - as.length) := by
    rw [hl, pointers, hcount, drop_clearPtr h]
  refine ⟨⟨heap', l.1, by rw [l.2, hlen]⟩, ?_, ⟨as, _, hpoint, hcells⟩, ⟨as, _, hpoint, hnodup⟩⟩
  simp only [cliPoeDespNvramPrase, hget, hfill, Option.bind_eq_bind, Option.bind_some]
  rfl

theorem freeNames_replicate (m : ℕ) (heap : Heap CStr) :
    freeNames (List.replicate m .null) heap = some heap := by
  induction m with
  | zero => rfl
  | succ m ih => exact ih

/-- Distinct live blocks are all released. -/
theorem freeNames_pointers {as : List ℕ} {m : ℕ} {heap : Heap CStr} (hnodup : as.Nodup)
    (hlive : ∀ a ∈ as, ∃ x, heap.cells a = some x) :
    ∃ heap', freeNames (pointers as m) heap = some heap' := by
  induction as generalizing heap with
  | nil => exact ⟨heap, freeNames_replicate m heap⟩
  | cons a as ih =>
      rw [List.nodup_cons] at hnodup
      obtain ⟨x, hx⟩ := hlive a (by simp)
      obtain ⟨heap₁, hfree, -, hsame⟩ := Heap.free_of_live hx
      have hlive₁ : ∀ b ∈ as, ∃ y, heap₁.cells b = some y := by
        intro b hb
        rw [hsame b fun hba => hnodup.1 (hba ▸ hb)]
        exact hlive b (by simp [hb])
      obtain ⟨heap', hrest⟩ := ih hnodup.2 hlive₁
      refine ⟨heap', ?_⟩
      change (heap.free a).bind (freeNames (pointers as m)) = _
      rw [hfree, Option.bind_some, hrest]

/-- A table of distinct blocks can be released while they are all live. -/
theorem cliNvramConfFreePoeNames_spec {c : PoeNames B} (hd : Distinct c)
    (hlive : ∀ p ∈ c.poeNames, p = .null ∨ ∃ a x, p = .block a ∧ c.heap.cells a = some x) :
    ∃ c', cliNvramConfFreePoeNames c = some c' ∧ Distinct c' := by
  obtain ⟨as, m, hp, hnodup⟩ := hd
  have hblocks : ∀ a ∈ as, ∃ x, c.heap.cells a = some x := by
    intro a ha
    have hmem : Ptr.block a ∈ c.poeNames := by
      rw [hp, pointers]
      exact List.mem_append_left _ (List.mem_map_of_mem ha)
    rcases hlive _ hmem with hnull | ⟨b, x, hb, hx⟩
    · exact absurd hnull (by simp)
    · cases hb
      exact ⟨x, hx⟩
  obtain ⟨heap', hfree⟩ := freeNames_pointers (m := m) hnodup hblocks
  refine ⟨{ c with heap := heap' }, ?_, as, m, hp, hnodup⟩
  simp only [cliNvramConfFreePoeNames, hp, hfree, Option.bind_eq_bind, Option.bind_some]
  rfl

end BcmUtils.PoeNames
