import Mathlib.Tactic

/-! # Joined lists

Lists joined by a separator that none of them contains. -/

namespace CLib

variable {α : Type*} {c : α} {xs : List (List α)}

theorem intercalate_cons (h : xs ≠ []) (x : List α) :
    [c].intercalate (x :: xs) = x ++ c :: [c].intercalate xs := by
  obtain ⟨y, ys, rfl⟩ := List.exists_cons_of_ne_nil h
  simp [List.intercalate_cons_cons]

/-- A joined list is its first list, and the separator in front of each of the others. -/
theorem intercalate_cons_eq_flatMap (c : α) (x : List α) (xs : List (List α)) :
    [c].intercalate (x :: xs) = x ++ xs.flatMap (c :: ·) := by
  induction xs generalizing x with
  | nil => simp
  | cons y ys ih =>
      rw [intercalate_cons (by simp), ih]
      simp

/-- A further list stands behind a further separator. -/
theorem intercalate_concat (h : xs ≠ []) (x : List α) :
    [c].intercalate (xs ++ [x]) = [c].intercalate xs ++ c :: x := by
  obtain ⟨y, ys, rfl⟩ := List.exists_cons_of_ne_nil h
  rw [List.cons_append, intercalate_cons_eq_flatMap, intercalate_cons_eq_flatMap,
    List.flatMap_append]
  simp

theorem mem_intercalate {a : α} (h : a ∈ [c].intercalate xs) : a = c ∨ ∃ x ∈ xs, a ∈ x := by
  cases xs with
  | nil => simp at h
  | cons x xs =>
      rw [intercalate_cons_eq_flatMap, List.mem_append, List.mem_flatMap] at h
      cases h with
      | inl hx => exact Or.inr ⟨x, List.mem_cons_self, hx⟩
      | inr hxs =>
          obtain ⟨y, hy, ha⟩ := hxs
          cases List.mem_cons.mp ha with
          | inl hc => exact Or.inl hc
          | inr ha => exact Or.inr ⟨y, List.mem_cons_of_mem _ hy, ha⟩

theorem mem_intercalate_of_mem {a : α} {x : List α} (hx : x ∈ xs) (ha : a ∈ x) :
    a ∈ [c].intercalate xs := by
  cases xs with
  | nil => simp at hx
  | cons y ys =>
      rw [intercalate_cons_eq_flatMap, List.mem_append, List.mem_flatMap]
      cases List.mem_cons.mp hx with
      | inl hxy => exact Or.inl (hxy ▸ ha)
      | inr hx => exact Or.inr ⟨x, hx, List.mem_cons_of_mem _ ha⟩

theorem length_intercalate_le {k : ℕ} (h : ∀ x ∈ xs, x.length ≤ k) :
    ([c].intercalate xs).length ≤ (k + 1) * xs.length := by
  induction xs with
  | nil => simp
  | cons x xs ih =>
      have hx := h x List.mem_cons_self
      have hxs := ih fun y hy => h y (List.mem_cons_of_mem _ hy)
      rw [List.length_cons, Nat.mul_succ]
      by_cases hnil : xs = []
      · rw [hnil, List.intercalate_singleton]
        omega
      · rw [intercalate_cons hnil, List.length_append, List.length_cons]
        omega

/-- The lists are recovered from the joined list. -/
theorem splitOn_intercalate_map [DecidableEq α] {β : Type*} {f : β → List α} {bs : List β}
    (hne : bs ≠ []) (hc : ∀ b ∈ bs, c ∉ f b) :
    ([c].intercalate (bs.map f)).splitOn c = bs.map f := by
  refine List.splitOn_intercalate c ?_ (by simpa using hne)
  intro x hx
  obtain ⟨b, hb, rfl⟩ := List.mem_map.mp hx
  exact hc b hb

/-- The lists in front of the separators are recovered, and behind them the pieces of the
rest. -/
theorem splitOn_terminated [DecidableEq α] {β : Type*} {f : β → List α} {bs : List β}
    (hc : ∀ b ∈ bs, c ∉ f b) (rest : List α) :
    ((bs.flatMap fun b => f b ++ [c]) ++ rest).splitOn c = bs.map f ++ rest.splitOn c := by
  induction bs with
  | nil => rfl
  | cons b bs ih =>
      have hrest := ih fun d hd => hc d (List.mem_cons_of_mem _ hd)
      rw [List.flatMap_cons, List.append_assoc, List.append_assoc, List.singleton_append,
        List.splitOn_append_cons_self_of_not_mem (hc b List.mem_cons_self), hrest, List.map_cons,
        List.cons_append]

/-- Pieces of equal length stand at the multiples of it. -/
theorem getElem?_flatMap {β : Type*} {f : β → List α} {k : ℕ} {bs : List β}
    (h : ∀ b ∈ bs, (f b).length = k) {r j : ℕ} (hj : j < k) :
    (bs.flatMap f)[r * k + j]? = bs[r]?.bind fun b => (f b)[j]? := by
  induction bs generalizing r with
  | nil => simp
  | cons b bs ih =>
      have hb := h b List.mem_cons_self
      have hrest := fun d hd => h d (List.mem_cons_of_mem b hd)
      cases r with
      | zero =>
          rw [List.flatMap_cons, Nat.zero_mul, Nat.zero_add,
            List.getElem?_append_left (by omega)]
          rfl
      | succ r =>
          have hpos : (r + 1) * k + j - (f b).length = r * k + j := by
            rw [hb, Nat.succ_mul]
            omega
          rw [List.flatMap_cons, List.getElem?_append_right (by rw [hb, Nat.succ_mul]; omega), hpos,
            ih hrest, List.getElem?_cons_succ]

end CLib
