import BcmUtils.Foundation.Fields
import BcmUtils.Verification.UserTables.StaleBytes

/-! # Filling a zeroed table

When each record of a text is read back as the fields it was made from, the table holds the
fields of all records. -/

namespace BcmUtils.UserTables

open CLib

variable {α : Type} {slots size : ℕ} {body : CStr → CStr → ℕ → Option (List (ℕ × List Byte))}
  {render : α → CStr} {fields : ℕ → α → List Field}

/-- The round of the loop that reads a record stores the fields of the record. -/
def ReadsBack (body : CStr → CStr → ℕ → Option (List (ℕ × List Byte))) (render : α → CStr)
    (fields : ℕ → α → List Field) (a : α) : Prop :=
  chr ';' ∉ render a ∧ ∀ base t, body (render a ++ chr ';' :: t) (chr ';' :: t) base =
    some ((fields base a).map Field.store)

theorem allStores_flatMap {as : List α} (h : ∀ a ∈ as, ReadsBack body render fields a) (i : ℕ) :
    allStores body size (spans (chr ';') (as.flatMap fun a => render a ++ [chr ';'])) i =
      some ((tableFields fields size i as).map Field.store) := by
  induction as generalizing i with
  | nil => rfl
  | cons a as ih =>
      obtain ⟨hfree, hbody⟩ := h a List.mem_cons_self
      rw [List.flatMap_cons, List.append_assoc, List.singleton_append, spans_append_cons hfree,
        allStores, bind_of_eq (hbody _ _),
        bind_of_eq (ih (fun b hb => h b (List.mem_cons_of_mem _ hb)) (i + 1)), tableFields,
        List.map_append]
      rfl

theorem length_spans_flatMap {as : List α} (h : ∀ a ∈ as, chr ';' ∉ render a) :
    (spans (chr ';') (as.flatMap fun a => render a ++ [chr ';'])).length = as.length := by
  induction as with
  | nil => rfl
  | cons a as ih =>
      rw [List.flatMap_cons, List.append_assoc, List.singleton_append,
        spans_append_cons (h a List.mem_cons_self), List.length_cons, List.length_cons,
        ih fun b hb => h b (List.mem_cons_of_mem _ hb)]

/-- The table that a get makes of the records `as`. -/
structure Filled (fields : ℕ → α → List Field) (as : List α) (t : UserTable slots size) :
    Prop where
  count : t.count = BitVec.ofNat 32 as.length
  window : ∀ (k : ℕ) (a : α), as[k]? = some a → ∀ f ∈ fields (k * size) a,
    f.Window t.memory.1

/-- A get of a text of at most `slots` records fills a zeroed table with them. -/
theorem fillTable_flatMap (hbody : StoresBehind body) (hl : Layout fields size) {as : List α}
    (h : ∀ a ∈ as, ReadsBack body render fields a)
    (hfits : ∀ a ∈ as, ∀ base, ∀ f ∈ fields base a, f.Fits) (hlen : as.length ≤ slots) :
    ∃ t, fillTable body (fun _ _ => true)
        ((spans (chr ';') (as.flatMap fun a => render a ++ [chr ';'])).take slots) 0
        (zeroed slots size) = some t ∧ Filled fields as t := by
  have hspans := length_spans_flatMap fun a ha => (h a ha).1
  have hall : ∀ f ∈ tableFields fields size 0 as, f.Fits ∧ f.off + f.width ≤ slots * size := by
    intro f hf
    obtain ⟨a, ha, k, -, -, hfa⟩ := mem_tableFields hf
    have hend := (hl.bounds hf).2
    rw [Nat.zero_add] at hend
    exact ⟨hfits a ha _ f hfa, hend.trans (Nat.mul_le_mul_right size hlen)⟩
  have hstores : Fits (slots * size) ((tableFields fields size 0 as).map Field.store) := by
    intro w hw
    obtain ⟨f, hf, rfl⟩ := List.mem_map.mp hw
    obtain ⟨hbytes, hend⟩ := hall f hf
    exact (Nat.add_le_add_left hbytes f.off).trans hend
  obtain ⟨t, ht, hget, hcount⟩ := @fillTable_spec slots size body (fun _ _ => true) hbody
    (fun _ _ _ _ => rfl) _ 0 _ (allStores_flatMap h 0) hstores (zeroed slots size)
  refine ⟨t, ?_, ?_, ?_⟩
  · rwa [List.take_of_length_le (by omega)]
  · rw [hcount, List.countP_true, List.length_range, hspans]
    exact BitVec.zero_add _
  · intro k a ha f hf
    have hmem : f ∈ tableFields fields size 0 as :=
      mem_tableFields_of_getElem? ha (by rwa [Nat.zero_add])
    refine window_of_fields (hl.pairwise 0 as) (fun g hg => (hall g hg).1) (fun j hj => ?_) hmem
      (hall f hmem).2
    rw [hget]
    congr 1
    exact List.getElem?_replicate.trans (if_pos hj)

/-- If a slot with the fields of a record is read as `g` of the record, so is the table. -/
theorem Filled.mapM_read {β : Type} {as : List α} {t : UserTable slots size}
    (hfilled : Filled fields as t) {read : List Byte → ℕ → Option β} {g : α → β}
    (hread : ∀ a ∈ as, ∀ base, (∀ f ∈ fields base a, f.Window t.memory.1) →
      read t.memory.1 base = some (g a)) :
    (List.range as.length).mapM (fun (i : ℕ) => read t.memory.1 (i * size)) =
      some (as.map g) := by
  refine mapM_of_getElem? (by simp) fun k i b hi hb => ?_
  obtain rfl : k = i := by
    have := (List.getElem?_eq_some_iff.mp hi).2
    rwa [List.getElem_range] at this
  rw [List.getElem?_map, Option.map_eq_some_iff] at hb
  obtain ⟨a, ha, rfl⟩ := hb
  exact hread a (List.mem_of_getElem? ha) _ (hfilled.window k a ha)

end BcmUtils.UserTables
