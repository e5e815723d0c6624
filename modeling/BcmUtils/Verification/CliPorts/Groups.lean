import BcmUtils.Verification.CliPorts.Lists

/-! # Numbers without a type behind a typed item

A list such as `g0/1,3-4,f0/2` has numbers without a type behind a typed item. They are dropped
if another typed item follows. Behind the last typed item `str2bit` reads them together, as the
ports with these numbers. -/

namespace BcmUtils.CliPorts

open CLib PortList

variable {B : CliBuild}

/-- A typed item and the numbers behind it. -/
structure PortGroup (B : CliBuild) where
  type : PortType
  typed : type = .f ∨ type = .g
  upper : Bool
  head : PortNumbers (type.ports B)
  tail : List (PortNumbers (type.ports B))

namespace PortGroup

variable (group : PortGroup B)

/-- Numbers with the type of the group. -/
def item (r : PortNumbers (group.type.ports B)) : PortItem B := ⟨group.type, group.upper, r⟩

/-- The group with its type written on every item. -/
def items : List (PortItem B) := (group.head :: group.tail).map group.item

/-- The texts between the commas. -/
def pieces : List CStr := (group.item group.head).text :: group.tail.map PortNumbers.text

theorem type_ne_p : group.type ≠ .p := by
  cases group.typed with
  | inl hf => rw [hf]; decide
  | inr hg => rw [hg]; decide

end PortGroup

/-- The groups as a string. -/
def groupText (groups : List (PortGroup B)) : CStr :=
  [chr ','].intercalate (groups.flatMap PortGroup.pieces)

/-! ## The numbers at the end -/

section

variable {n : ℕ} (hn : n ≤ 28) (rs : List (PortNumbers n))

include hn

/-- The last round reads the numbers that follow no other item. -/
theorem loop_numbers (hne : rs ≠ []) (B : CliBuild) (fuel : ℕ) (bmap : PortMap) :
    cliStr2bitmapLoop B (fuel + 1) (some ([chr ','].intercalate (rs.map PortNumbers.text))) bmap =
      if rs.length ≤ B.PNUM then some (bmap ||| numbersMap rs) else none := by
  have hletter : ∀ b ∈ [chr ','].intercalate (rs.map PortNumbers.text), b ∉ portLetters := by
    intro b hb
    cases mem_intercalate hb with
    | inl hcomma => rw [hcomma]; decide
    | inr hpiece =>
        obtain ⟨x, hx, hb⟩ := hpiece
        obtain ⟨r, -, rfl⟩ := List.mem_map.mp hx
        exact fun hletter => r.letter_not_mem_text hletter hb
  rw [loop_untyped B fuel bmap hletter]
  split
  next hle =>
    have hlen := @length_intercalate_le _ (chr ',') (rs.map PortNumbers.text) 5 (by
      intro x hx
      obtain ⟨r, -, rfl⟩ := List.mem_map.mp hx
      exact r.length_text_le hn)
    have hP := B.le_phy
    rw [List.length_map] at hlen
    rw [store_of_lt (by omega), Option.bind_some, str2bit_numbers hn hne, if_pos hle]
    rfl
  next hgt =>
    rw [store]
    split
    · rw [Option.bind_some, str2bit_numbers hn hne, if_neg hgt]
      rfl
    · rfl

end

/-! ## The whole loop -/

/-- The numbers in front of a later typed item are dropped, one in each round. -/
theorem loop_dropped {n : ℕ} (hn : n ≤ 28) (rs : List (PortNumbers n)) {xs : List CStr}
    {item : PortItem B} (hitem : item.text ∈ xs) {bmap : PortMap} {result : Option PortMap}
    (hrest : ∀ fuel, ([chr ','].intercalate xs).length < fuel →
      cliStr2bitmapLoop B fuel (some ([chr ','].intercalate xs)) bmap = result)
    {fuel : ℕ} (hfuel : ([chr ','].intercalate (rs.map PortNumbers.text ++ xs)).length < fuel) :
    cliStr2bitmapLoop B fuel
      (some ([chr ','].intercalate (rs.map PortNumbers.text ++ xs))) bmap = result := by
  induction rs generalizing fuel with
  | nil => exact hrest fuel hfuel
  | cons r rs ih =>
      have hmem : item.text ∈ rs.map PortNumbers.text ++ xs := List.mem_append_right _ hitem
      obtain ⟨b, hb, hletter⟩ := item.exists_letter
      obtain ⟨fuel, rfl⟩ := Nat.exists_eq_add_of_lt hfuel
      rw [List.map_cons, List.cons_append, intercalate_cons (List.ne_nil_of_mem hmem) _] at hfuel ⊢
      rw [loop_numbers_comma B _ bmap r hn (mem_intercalate_of_mem hmem hb) hletter]
      refine ih ?_
      simp only [List.length_append, List.length_cons]
      omega

/-- The head of the last group, and then its tail at once. -/
theorem loop_last_group (last : PortGroup B) {fuel : ℕ}
    (hfuel : ([chr ','].intercalate last.pieces).length < fuel) (bmap : PortMap) :
    cliStr2bitmapLoop B fuel (some ([chr ','].intercalate last.pieces)) bmap =
      if last.tail.length ≤ B.PNUM then
        some (bmap ||| ((last.item last.head).map ||| numbersMap last.tail))
      else none := by
  obtain ⟨fuel, rfl⟩ := Nat.exists_eq_add_of_lt hfuel
  by_cases htail : last.tail = []
  · rw [PortGroup.pieces, htail, List.map_nil, List.intercalate_singleton, loop_item_last,
      numbersMap]
    simp
  · have hpieces : [chr ','].intercalate last.pieces = (last.item last.head).text ++
        chr ',' :: [chr ','].intercalate (last.tail.map PortNumbers.text) :=
      intercalate_cons (by simpa using htail) _
    have hhead : (last.item last.head).type ≠ .p := last.type_ne_p
    rw [hpieces, loop_item_comma, if_neg hhead, List.length_append, List.length_cons,
      ← Nat.add_assoc, Nat.add_right_comm, loop_numbers (last.type.ports_le B) _ htail,
      BitVec.or_assoc]

/-- The heads and the numbers behind the last of them are stored, the other numbers are
dropped. -/
theorem loop_groupText (groups : List (PortGroup B)) (last : PortGroup B) {fuel : ℕ}
    (hfuel : (groupText (groups ++ [last])).length < fuel) (bmap : PortMap) :
    cliStr2bitmapLoop B fuel (some (groupText (groups ++ [last]))) bmap =
      if last.tail.length ≤ B.PNUM then
        some (bmap ||| (unionMap ((groups ++ [last]).map fun g => g.item g.head) |||
          numbersMap last.tail))
      else none := by
  induction groups generalizing fuel bmap with
  | nil =>
      have htext : groupText [last] = [chr ','].intercalate last.pieces := by simp [groupText]
      rw [List.nil_append, htext] at hfuel ⊢
      rw [loop_last_group last hfuel, List.map_singleton]
      simp [unionMap]
  | cons g groups ih =>
      have hmem : (last.item last.head).text ∈ (groups ++ [last]).flatMap PortGroup.pieces := by
        simp [PortGroup.pieces]
      have htext : groupText (g :: groups ++ [last]) = (g.item g.head).text ++ chr ',' ::
          [chr ','].intercalate
            (g.tail.map PortNumbers.text ++ (groups ++ [last]).flatMap PortGroup.pieces) := by
        rw [groupText, List.cons_append, List.flatMap_cons, PortGroup.pieces, List.cons_append]
        exact intercalate_cons (List.ne_nil_of_mem (List.mem_append_right _ hmem)) _
      have hhead : (g.item g.head).type ≠ .p := g.type_ne_p
      have hunion : unionMap ((g :: groups ++ [last]).map fun g => g.item g.head) =
          (g.item g.head).map ||| unionMap ((groups ++ [last]).map fun g => g.item g.head) := rfl
      obtain ⟨fuel, rfl⟩ := Nat.exists_eq_add_of_lt hfuel
      rw [hunion, htext, loop_item_comma, if_neg hhead]
      refine loop_dropped (g.type.ports_le B) g.tail hmem (fun fuel hfuel => ?_) ?_
      · have hrest := ih hfuel (bmap ||| (g.item g.head).map)
        rw [groupText] at hrest
        rw [hrest, BitVec.or_assoc, BitVec.or_assoc]
      · rw [List.length_append, List.length_cons]
        omega

/-! ## Groups and the same items with their types -/

/-- The port is one that the code stores: one of a head, or one of the numbers at the end, read
as they are. -/
def Stored (groups : List (PortGroup B)) (last : PortGroup B) (k : ℕ) : Prop :=
  (∃ g ∈ groups ++ [last], (g.item g.head).Has k) ∨ ∃ r ∈ last.tail, InRange r.bounds k

/-- The port is one that the groups stand for when every number has the type of its group. -/
def Meant (groups : List (PortGroup B)) (k : ℕ) : Prop :=
  ∃ g ∈ groups, ∃ item ∈ g.items, item.Has k

/-- The port numbers of an item, moved up by the offset of its type, are its bits. -/
theorem PortGroup.has_item (g : PortGroup B) (r : PortNumbers (g.type.ports B)) (k : ℕ) :
    (g.item r).Has (k + g.type.offset B) ↔ InRange r.bounds k := by
  simp only [PortGroup.item, PortItem.Has, InRange, PortNumbers.bounds]
  omega

theorem PortGroup.exists_of_has {g : PortGroup B} {r : PortNumbers (g.type.ports B)} {k : ℕ}
    (h : (g.item r).Has k) : ∃ j, k = j + g.type.offset B ∧ InRange r.bounds j := by
  have hlo : r.lo + g.type.offset B ≤ k := h.1
  have hk : k = k - g.type.offset B + g.type.offset B := by omega
  refine ⟨_, hk, (g.has_item r _).mp ?_⟩
  rwa [← hk]

section

variable {groups : List (PortGroup B)} {last : PortGroup B}

theorem meant_of_mem {g : PortGroup B} (hg : g ∈ groups) {r : PortNumbers (g.type.ports B)}
    (hr : r ∈ g.head :: g.tail) {k : ℕ} (hk : (g.item r).Has k) : Meant groups k :=
  ⟨g, hg, g.item r, List.mem_map_of_mem hr, hk⟩

theorem mem_concat_last : last ∈ groups ++ [last] := by simp

/-- The conditions say what each port that is stored only, or meant only, must be. -/
theorem stored_iff_meant_iff :
    (∀ k < 64, Stored groups last k ↔ Meant (groups ++ [last]) k) ↔
      (∀ g ∈ groups, ∀ r ∈ g.tail, ∀ k, (g.item r).Has k → Stored groups last k) ∧
      (last.type = .g → ∀ r ∈ last.tail, ∀ k, InRange r.bounds k →
        Meant (groups ++ [last]) k ∧ Stored groups last (k + B.FNUM)) := by
  have hlast := @mem_concat_last B groups last
  constructor
  · intro h
    refine ⟨fun g hg r hr k hk => ?_, fun htype r hr k hk => ⟨?_, ?_⟩⟩
    · exact (h k ((g.item r).lt_of_has hk)).mpr
        (meant_of_mem (List.mem_append_left _ hg) (List.mem_cons_of_mem _ hr) hk)
    · have hmax := r.le_max.trans (last.type.ports_le B)
      have hle : k ≤ r.hi := hk.2
      exact (h k (by omega)).mp (Or.inr ⟨r, hr, hk⟩)
    · have hbit := (last.has_item r k).mpr hk
      rw [htype] at hbit
      exact (h _ ((last.item r).lt_of_has hbit)).mpr
        (meant_of_mem hlast (List.mem_cons_of_mem _ hr) hbit)
  · rintro ⟨hdropped, hshifted⟩ k _
    have hoffset : last.type = .f → ∀ r j, (last.item r).Has j ↔ InRange r.bounds j := by
      intro htype r j
      have hbit := last.has_item r j
      rwa [show last.type.offset B = 0 by rw [htype]; rfl] at hbit
    constructor
    · intro hk
      cases hk with
      | inl hhead =>
          obtain ⟨g, hg, hk⟩ := hhead
          exact meant_of_mem hg List.mem_cons_self hk
      | inr htail =>
          obtain ⟨r, hr, hk⟩ := htail
          cases last.typed with
          | inl hf =>
              exact meant_of_mem hlast (List.mem_cons_of_mem _ hr) ((hoffset hf r k).mpr hk)
          | inr hg => exact (hshifted hg r hr k hk).1
    · rintro ⟨g, hg, item, hitem, hk⟩
      obtain ⟨r, hr, rfl⟩ := List.mem_map.mp hitem
      cases List.mem_cons.mp hr with
      | inl hhead => exact Or.inl ⟨g, hg, hhead ▸ hk⟩
      | inr hr =>
          cases List.mem_append.mp hg with
          | inl hg => exact hdropped g hg r hr k hk
          | inr hg =>
              obtain rfl := List.mem_singleton.mp hg
              cases g.typed with
              | inl hf => exact Or.inr ⟨r, hr, (hoffset hf r k).mp hk⟩
              | inr hg =>
                  obtain ⟨j, rfl, hj⟩ := PortGroup.exists_of_has hk
                  have hstored := (hshifted hg r hr j hj).2
                  rwa [show g.type.offset B = B.FNUM by rw [hg]; rfl]

end

theorem cliStr2bitmap_groupText (groups : List (PortGroup B)) (last : PortGroup B)
    (value : PortMap) :
    cliStr2bitmap B (some (groupText (groups ++ [last]))) value =
      if last.tail.length ≤ B.PNUM then
        some (0, unionMap ((groups ++ [last]).map fun g => g.item g.head) |||
          numbersMap last.tail)
      else none := by
  have hloop := loop_groupText groups last (Nat.lt_succ_self _) 0
  rw [cliStr2bitmap]
  split at hloop
  next hle =>
    rw [bind_of_eq hloop, if_pos hle]
    simp
  next hgt =>
    rw [hloop, if_neg hgt]
    rfl

/-- With the type written on every item, all items are kept. -/
theorem cliStr2bitmap_typed (groups : List (PortGroup B)) (value : PortMap) :
    cliStr2bitmap B (some (listText (groups.flatMap PortGroup.items))) value =
      some (0, unionMap (groups.flatMap PortGroup.items)) := by
  rw [cliStr2bitmap_listText, (unionMap_kept_iff _).mpr]
  intro item hitem hp
  obtain ⟨g, -, hitem⟩ := List.mem_flatMap.mp hitem
  obtain ⟨r, -, rfl⟩ := List.mem_map.mp hitem
  exact absurd hp g.type_ne_p

theorem maps_eq_iff (groups : List (PortGroup B)) (last : PortGroup B) :
    unionMap ((groups ++ [last]).map fun g => g.item g.head) ||| numbersMap last.tail =
        unionMap ((groups ++ [last]).flatMap PortGroup.items) ↔
      ∀ k < 64, Stored groups last k ↔ Meant (groups ++ [last]) k := by
  have hstored : ∀ k < 64, (unionMap ((groups ++ [last]).map fun g => g.item g.head) |||
      numbersMap last.tail).getLsbD k = true ↔ Stored groups last k := by
    intro k hk
    rw [BitVec.getLsbD_or, getLsbD_unionMap _ hk, getLsbD_numbersMap _ hk, Bool.or_eq_true,
      decide_eq_true_iff, decide_eq_true_iff]
    simp only [List.mem_map, exists_exists_and_eq_and, Stored]
  have hmeant : ∀ k < 64, (unionMap ((groups ++ [last]).flatMap PortGroup.items)).getLsbD k =
      true ↔ Meant (groups ++ [last]) k := by
    intro k hk
    rw [getLsbD_unionMap _ hk, decide_eq_true_iff]
    simp only [List.mem_flatMap, Meant]
    constructor
    · rintro ⟨item, ⟨g, hg, hitem⟩, hk⟩
      exact ⟨g, hg, item, hitem, hk⟩
    · rintro ⟨g, hg, item, hitem, hk⟩
      exact ⟨item, ⟨g, hg, hitem⟩, hk⟩
  constructor
  · intro h k hk
    rw [← hstored k hk, ← hmeant k hk, h]
  · intro h
    apply BitVec.eq_of_getLsbD_eq
    intro k hk
    rw [Bool.eq_iff_iff, hstored k hk, hmeant k hk]
    exact h k hk

/-- A list of groups is read as if its types were written on every item exactly if the numbers
at the end fit into the rows of `str2bit`, the ports of the numbers that are dropped are stored
for another item, and so are those of the numbers at the end if they are read with the wrong
type, which must not add a port. -/
theorem cliStr2bitmap_groups_iff (groups : List (PortGroup B)) (last : PortGroup B)
    (value : PortMap) :
    cliStr2bitmap B (some (groupText (groups ++ [last]))) value =
        cliStr2bitmap B (some (listText ((groups ++ [last]).flatMap PortGroup.items))) value ↔
      last.tail.length ≤ B.PNUM ∧
      (∀ g ∈ groups, ∀ r ∈ g.tail, ∀ k, (g.item r).Has k → Stored groups last k) ∧
      (last.type = .g → ∀ r ∈ last.tail, ∀ k, InRange r.bounds k →
        Meant (groups ++ [last]) k ∧ Stored groups last (k + B.FNUM)) := by
  rw [cliStr2bitmap_groupText, cliStr2bitmap_typed]
  split
  next hle =>
    rw [Option.some.injEq, Prod.mk.injEq, maps_eq_iff, stored_iff_meant_iff]
    simp [hle]
  next hgt => simp [hgt]

/-- The second number of `g0/1,2` is read as port 2, and not as the second gigabit port. -/
theorem cliStr2bitmap_untyped_tail :
    ∃ group : PortGroup tenPorts, groupText [group] = text "g0/1,2" ∧
      listText group.items = text "g0/1,g0/2" ∧
      cliStr2bitmap tenPorts (some (groupText [group])) 0 = some (0, 516) ∧
      cliStr2bitmap tenPorts (some (listText group.items)) 0 = some (0, 1536) := by
  refine ⟨⟨.g, Or.inr rfl, false, ⟨1, 1, ?_, ?_, ?_⟩, [⟨2, 2, ?_, ?_, ?_⟩]⟩, ?_⟩
  all_goals decide

end BcmUtils.CliPorts
