import BcmUtils.Foundation.Memory
import BcmUtils.Model.VlanPort

/-! # Lists with too few ids

`bcm_get_pvid_from_entry` on any string that is long enough, however many items it has. -/

namespace BcmUtils.VlanPort

open CLib

/-- The id of the port with index `i`: that of its item, or 1. -/
def portPvid (items : List CStr) (i : ℕ) : ℤ :=
  match items[i]? with
  | some item => if atoi item = 0 then 1 else atoi item
  | none => 1

theorem map_portPvid_cons (item : CStr) (items : List CStr) (n : ℕ) :
    (List.range (n + 1)).map (portPvid (item :: items)) =
      (if atoi item = 0 then 1 else atoi item) :: (List.range n).map (portPvid items) := by
  rw [List.range_succ_eq_map, List.map_cons, List.map_map]
  rfl

/-- The loop ends well exactly if there is an item for each of the remaining ports. -/
theorem pvidEntryLoop_some (n : ℕ) (s : CStr) :
    pvidEntryLoop n (some s) =
      if n ≤ (s.splitOn (chr ',')).length then
        some ((List.range n).map (portPvid (s.splitOn (chr ','))))
      else none := by
  induction n generalizing s with
  | zero => rfl
  | succ n ih =>
      rw [pvidEntryLoop]
      cases hcomma : strchr (chr ',') s with
      | none =>
          rw [List.splitOn_eq_singleton (strchr_eq_none.mp hcomma)]
          cases n with
          | zero => rfl
          | succ n => rfl
      | some q =>
          obtain ⟨u, rfl, hu, v, rfl⟩ := strchr_eq_some hcomma
          have hread : atoi (u ++ chr ',' :: v) = atoi u :=
            atoi_append_cons (by decide) (by decide) (by decide) (by decide) u v
          rw [List.splitOn_append_cons_self_of_not_mem hu, map_portPvid_cons, hread]
          simp only [Option.map_some, List.tail_cons, ih, List.length_cons,
            Nat.add_le_add_iff_right]
          split <;> rfl

/-- The reader stores the id of each item, and 1 for an item that is 0 or no number, exactly if
no port is without an item. -/
theorem bcmGetPvidFromEntry_items_iff (PNUM : ℕ) (s : CStr) (hs : 2 * PNUM ≤ s.length) :
    bcmGetPvidFromEntry PNUM s =
        some (0, (List.range PNUM).map (portPvid (s.splitOn (chr ',')))) ↔
      PNUM ≤ (s.splitOn (chr ',')).length := by
  rw [bcmGetPvidFromEntry, if_neg (Nat.not_lt.mpr hs), pvidEntryLoop_some]
  by_cases hitems : PNUM ≤ (s.splitOn (chr ',')).length
  · simp [hitems]
  · simp [hitems]

/-- Two ports with the ids 7 and 4094. -/
theorem bcmGetPvidFromEntry_items_iff_two :
    bcmGetPvidFromEntry 2 (text "7,4094") = some (0, [7, 4094]) := by
  have hread := (bcmGetPvidFromEntry_items_iff 2 (text "7,4094") (by decide)).mpr (by decide)
  have hvals : (List.range 2).map (portPvid ((text "7,4094").splitOn (chr ','))) = [7, 4094] := by
    decide
  rwa [hvals] at hread

/-- With one item for two ports the search starts from the null pointer. -/
theorem bcmGetPvidFromEntry_missing_item :
    ¬ ∀ (PNUM : ℕ) (s : CStr), 2 ≤ PNUM → 2 * PNUM ≤ s.length →
      bcmGetPvidFromEntry PNUM s =
        some (0, (List.range PNUM).map (portPvid (s.splitOn (chr ',')))) := by
  intro h
  have hfour := h 2 (text "4094") (by decide) (by decide)
  revert hfour
  decide

end BcmUtils.VlanPort
