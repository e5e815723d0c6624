import BcmUtils.Model.IntLists

/-! # The cells that the integer readers fill -/

namespace BcmUtils.IntLists

open CLib

/-- The numbers of at most `n` pieces between commas. -/
def numbers (n : ℕ) (s : CStr) : List ℤ := ((s.splitOn (chr ',')).take n).map atoi

/-- The cells of at most `outer` rows of at most `inner` numbers. -/
def cells (inner outer : ℕ) (s : CStr) : List ℤ :=
  ((s.splitOn (chr ';')).take outer).flatMap (numbers inner)

/-- The pieces that are left behind the first one. -/
def restPieces (c : Byte) (rest : Option CStr) : List CStr :=
  rest.elim [] fun t => t.splitOn c

/-- `strsep` takes the first piece. -/
theorem exists_strsep (c : Byte) (s : CStr) :
    ∃ tok rest, strsep c (some s) = some (tok, rest) ∧
      s.splitOn c = tok :: restPieces c rest := by
  rw [splitOn_eq_strchr, strsep, Option.map_some]
  cases strchr c s with
  | none => exact ⟨_, none, rfl, rfl⟩
  | some q => exact ⟨_, some q.tail, rfl, rfl⟩

theorem setCell_append (pre : List ℤ) (v w : ℤ) (post : List ℤ) :
    setCell pre.length v (pre ++ w :: post) = some (pre ++ v :: post) := by
  simp [setCell]

theorem clearCells_eq {num : ℕ} {mid : List ℤ} (hmid : mid.length = num) (post : List ℤ) :
    clearCells num (mid ++ post) = some (List.replicate num 0 ++ post) := by
  induction num generalizing mid post with
  | zero =>
      rw [List.eq_nil_of_length_eq_zero hmid]
      rfl
  | succ num ih =>
      cases mid using List.reverseRecOn with
      | nil => simp at hmid
      | append_singleton mid v =>
          have hlen : mid.length = num := by simpa using hmid
          have hfirst := ih hlen (v :: post)
          have hlast := setCell_append (List.replicate num 0) 0 v post
          rw [List.length_replicate] at hlast
          rw [clearCells] at hfirst ⊢
          rw [List.range_succ, List.foldlM_append, List.append_assoc, List.singleton_append,
            hfirst, List.replicate_succ']
          simp [hlast]

/-- The loop stores the numbers of the pieces, as many as the limit allows. -/
theorem commaLoop_spec (left : ℕ) (s : CStr) (pre : List ℤ) {mid : List ℤ}
    (hmid : mid.length = (numbers left s).length) (post : List ℤ) :
    commaLoop left (some s) pre.length (pre ++ (mid ++ post)) =
      some ((pre ++ numbers left s).length, pre ++ (numbers left s ++ post)) := by
  induction left generalizing s pre mid with
  | zero =>
      have hnil : mid = [] := List.eq_nil_of_length_eq_zero hmid
      simp [commaLoop, numbers, hnil]
  | succ left ih =>
      obtain ⟨tok, rest, hsep, hsplit⟩ := exists_strsep (chr ',') s
      have hnumbers : numbers (left + 1) s =
          atoi tok :: ((restPieces (chr ',') rest).take left).map atoi := by
        rw [numbers, hsplit, List.take_succ_cons, List.map_cons]
      cases mid with
      | nil => simp [hnumbers] at hmid
      | cons w mid =>
          rw [hnumbers] at hmid ⊢
          have hcell := setCell_append pre (atoi tok) w (mid ++ post)
          rw [commaLoop, hsep]
          simp only [List.cons_append, hcell, Option.bind_eq_bind, Option.bind_some]
          cases rest with
          | none =>
              have hnil : mid = [] := by simpa [restPieces] using hmid
              simp [commaLoop, restPieces, hnil]
          | some t =>
              have hlen : mid.length = (numbers left t).length := by
                simpa [restPieces, numbers] using hmid
              have hnext := ih t (pre ++ [atoi tok]) hlen
              rw [List.append_assoc, List.length_append, List.length_singleton,
                List.singleton_append] at hnext
              rw [hnext]
              simp [restPieces, numbers]

/-- The outer loop stores the cells of the rows, as many as the limit allows. -/
theorem cfgLoop_spec (inner outer : ℕ) (s : CStr) (pre : List ℤ) {mid : List ℤ}
    (hmid : mid.length = (cells inner outer s).length) (post : List ℤ) :
    cfgLoop inner outer (some s) pre.length (pre ++ (mid ++ post)) =
      some (pre ++ (cells inner outer s ++ post)) := by
  induction outer generalizing s pre mid with
  | zero =>
      have hnil : mid = [] := List.eq_nil_of_length_eq_zero hmid
      simp [cfgLoop, cells, hnil]
  | succ outer ih =>
      obtain ⟨row, rest, hsep, hsplit⟩ := exists_strsep (chr ';') s
      have hcells : cells inner (outer + 1) s =
          numbers inner row ++ ((restPieces (chr ';') rest).take outer).flatMap
            (numbers inner) := by
        rw [cells, hsplit, List.take_succ_cons, List.flatMap_cons]
      rw [hcells] at hmid ⊢
      obtain ⟨mid₁, mid₂, rfl, hmid₁, hmid₂⟩ :
          ∃ mid₁ mid₂, mid = mid₁ ++ mid₂ ∧ mid₁.length = (numbers inner row).length ∧
            mid₂.length = (((restPieces (chr ';') rest).take outer).flatMap
              (numbers inner)).length := by
        rw [List.length_append] at hmid
        refine ⟨mid.take (numbers inner row).length, mid.drop (numbers inner row).length,
          (List.take_append_drop _ _).symm, ?_, ?_⟩
        · rw [List.length_take]
          omega
        · rw [List.length_drop]
          omega
      have hrow := commaLoop_spec inner row pre hmid₁ (mid₂ ++ post)
      rw [cfgLoop, hsep]
      simp only [List.append_assoc, hrow, Option.bind_eq_bind, Option.bind_some]
      cases rest with
      | none =>
          have hnil : mid₂ = [] := by simpa [restPieces] using hmid₂
          simp [cfgLoop, restPieces, hnil]
      | some t =>
          have hlen : mid₂.length = (cells inner outer t).length := by
            simpa [restPieces, cells] using hmid₂
          have hnext := ih t (pre ++ numbers inner row) hlen
          rw [List.append_assoc] at hnext
          rw [hnext]
          simp [restPieces, cells]

end BcmUtils.IntLists
