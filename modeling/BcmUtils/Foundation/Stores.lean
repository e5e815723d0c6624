import BcmUtils.Foundation.Memory

/-! # Sequences of stores

What a sequence of stores leaves of the old contents of an array, and when a string read
from the array does not depend on them. -/

namespace CLib

/-- Carry out the stores `(offset, bytes)` one after the other. -/
def Block.copyAll {n : ℕ} (ws : List (ℕ × List Byte)) (b : Block n) : Option (Block n) :=
  ws.foldlM (fun b w => b.copy w.1 w.2) b

/-- The byte that a store puts at `j`. -/
def putAt (w : ℕ × List Byte) (j : ℕ) : Option Byte := if w.1 ≤ j then w.2[j - w.1]? else none

/-- The byte that a sequence of stores leaves at `j`, unless it leaves the old one. -/
def covered : List (ℕ × List Byte) → ℕ → Option Byte
  | [], _ => none
  | w :: ws, j => (covered ws j).or (putAt w j)

/-- The stores stay within an array of `n` bytes. -/
def Fits (n : ℕ) (ws : List (ℕ × List Byte)) : Prop := ∀ w ∈ ws, w.1 + w.2.length ≤ n

instance (n : ℕ) (ws : List (ℕ × List Byte)) : Decidable (Fits n ws) :=
  inferInstanceAs (Decidable (∀ w ∈ ws, _))

theorem covered_append (ws vs : List (ℕ × List Byte)) (j : ℕ) :
    covered (ws ++ vs) j = (covered vs j).or (covered ws j) := by
  induction ws with
  | nil => simp [covered]
  | cons w ws ih => rw [List.cons_append, covered, covered, ih, Option.or_assoc]

theorem putAt_of_lt {w : ℕ × List Byte} {j : ℕ} (h : j < w.1) : putAt w j = none := by
  rw [putAt, if_neg (by omega)]

theorem putAt_of_le {w : ℕ × List Byte} {j : ℕ} (h : w.1 + w.2.length ≤ j) : putAt w j = none := by
  rw [putAt, if_pos (by omega)]
  exact List.getElem?_eq_none (by omega)

/-- Stores behind `j` leave the byte there. -/
theorem covered_of_lt {ws : List (ℕ × List Byte)} {j : ℕ} (h : ∀ w ∈ ws, j < w.1) :
    covered ws j = none := by
  induction ws with
  | nil => rfl
  | cons w ws ih =>
      have hw := putAt_of_lt (h w (by simp))
      rw [covered, ih fun v hv => h v (by simp [hv]), hw]
      rfl

/-- Stores that end before `j` leave the byte there. -/
theorem covered_of_le {ws : List (ℕ × List Byte)} {j : ℕ} (h : ∀ w ∈ ws, w.1 + w.2.length ≤ j) :
    covered ws j = none := by
  induction ws with
  | nil => rfl
  | cons w ws ih =>
      have hw := putAt_of_le (h w (by simp))
      rw [covered, ih fun v hv => h v (by simp [hv]), hw]
      rfl

@[simp] theorem putAt_add (off : ℕ) (src : List Byte) (k : ℕ) :
    putAt (off, src) (off + k) = src[k]? := by
  simp [putAt]

theorem getElem?_splice {off : ℕ} {src mem : List Byte} (h : off + src.length ≤ mem.length)
    (j : ℕ) : (splice off src mem)[j]? = (putAt (off, src) j).or mem[j]? := by
  have hoff : (mem.take off).length = off := by rw [List.length_take]; omega
  rw [splice, putAt]
  by_cases hlt : off ≤ j
  · rw [if_pos hlt, List.getElem?_append_right (by omega), hoff]
    by_cases hj : j - off < src.length
    · rw [List.getElem?_append_left hj, List.getElem?_eq_getElem hj]
      rfl
    · rw [List.getElem?_append_right (by omega), List.getElem?_eq_none (by omega : src.length ≤ _),
        Option.none_or, List.getElem?_drop]
      congr 1
      omega
  · rw [if_neg hlt, List.getElem?_append_left (by omega), List.getElem?_take_of_lt (by omega)]
    rfl

theorem copyAll_spec {n : ℕ} {ws : List (ℕ × List Byte)} (h : Fits n ws) (b : Block n) :
    ∃ b', b.copyAll ws = some b' ∧ ∀ j, b'.1[j]? = (covered ws j).or b.1[j]? := by
  induction ws generalizing b with
  | nil => exact ⟨b, rfl, fun j => by simp [covered]⟩
  | cons w ws ih =>
      obtain ⟨b₁, hb₁, hmem⟩ := Block.copy_of_le (b := b) (h w (by simp))
      obtain ⟨b₂, hb₂, hget⟩ := ih (fun v hv => h v (by simp [hv])) b₁
      refine ⟨b₂, ?_, fun j => ?_⟩
      · rw [Block.copyAll, List.foldlM_cons, hb₁]
        exact hb₂
      · rw [hget, hmem, getElem?_splice (by rw [b.2]; exact h w (by simp)), covered,
          Option.or_assoc]

theorem copyAll_of_not_fits {n : ℕ} {ws : List (ℕ × List Byte)} (h : ¬ Fits n ws) (b : Block n) :
    b.copyAll ws = none := by
  induction ws generalizing b with
  | nil => exact absurd (by simp [Fits]) h
  | cons w ws ih =>
      rw [Block.copyAll, List.foldlM_cons]
      by_cases hw : w.1 + w.2.length ≤ n
      · obtain ⟨b₁, hb₁, -⟩ := Block.copy_of_le (b := b) hw
        rw [hb₁]
        refine ih (fun hws => h ?_) b₁
        intro v hv
        rcases List.mem_cons.mp hv with rfl | hv
        · exact hw
        · exact hws v hv
      · rw [Block.copy, dif_neg hw]
        rfl

/-! ## Strings over old contents -/

/-- The first byte from `off` on that the stores do not set to a nonzero byte is zero in the
old contents, unless the stores set it to zero. -/
def Terminated (ws : List (ℕ × List Byte)) (old : List Byte) (off : ℕ) : Prop :=
  ∀ j, off ≤ j → j < old.length → covered ws j = none →
    (∀ i, off ≤ i → i < j → ∃ b, covered ws i = some b ∧ b ≠ 0) → old[j]? = some 0

/-- Two memories that agree wherever the second one is not zero hold the same string exactly
if the first one is zero where the second one first is. -/
theorem readStr_zero_eq_iff {a b : List Byte} (h : List.Forall₂ (fun x y => x = y ∨ y = 0) a b) :
    readStr 0 a = readStr 0 b ↔
      ∀ j : ℕ, b[j]? = some 0 → (∀ i : ℕ, i < j → b[i]? ≠ some 0) → a[j]? = some 0 := by
  induction h with
  | nil => simp
  | @cons x y a b hxy hrest ih =>
      have hread : ∀ (z : Byte) (m : List Byte), readStr 0 (z :: m) =
          if z = 0 then some [] else (readStr 0 m).map (z :: ·) := by
        intro z m
        by_cases hz : z = 0
        · simp [readStr, hz]
        · by_cases hm : (0 : Byte) ∈ m <;> simp [readStr, hz, Ne.symm hz, hm]
      by_cases hy : y = 0
      · subst hy
        constructor
        · intro heq j hj hfirst
          cases j with
          | zero =>
              rw [hread, hread, if_pos rfl] at heq
              split at heq
              · simpa
              · cases hm : readStr 0 a <;> simp [hm] at heq
          | succ j => exact absurd rfl (hfirst 0 (by omega))
        · intro hall
          have hx : x = 0 := by simpa using hall 0 rfl (by simp)
          rw [hx, hread, hread, if_pos rfl, if_pos rfl]
      · obtain rfl : x = y := by tauto
        rw [hread, hread, if_neg hy, if_neg hy,
          (Option.map_injective (List.cons_injective (a := x))).eq_iff, ih]
        constructor
        · intro hall j hj hfirst
          cases j with
          | zero => exact absurd (by simpa using hj) hy
          | succ j =>
              refine hall j (by simpa using hj) fun i hi => ?_
              simpa using hfirst (i + 1) (by omega)
        · intro hall j hj hfirst
          refine hall (j + 1) (by simpa using hj) fun i hi => ?_
          cases i with
          | zero => simpa using hy
          | succ i => simpa using hfirst i (by omega)

/-- After the same stores, a string read over old contents is the one read over zeros exactly
if its first byte that the stores do not set is zero. -/
theorem readStr_stores_eq_iff {n : ℕ} {ws : List (ℕ × List Byte)} {old a b : Block n}
    (ha : ∀ j : ℕ, a.1[j]? = (covered ws j).or old.1[j]?)
    (hb : ∀ j : ℕ, b.1[j]? = (covered ws j).or (Block.zeroed n).1[j]?) (off : ℕ) :
    readStr off a.1 = readStr off b.1 ↔ Terminated ws old.1 off := by
  have hzero : ∀ j : ℕ, j < n → (Block.zeroed n).1[j]? = some 0 := by
    intro j hj
    rw [Block.zeroed, List.getElem?_replicate, if_pos hj]
  have hrel : List.Forall₂ (fun x y => x = y ∨ y = 0) (a.1.drop off) (b.1.drop off) := by
    rw [List.forall₂_iff_get]
    refine ⟨by simp only [List.length_drop, a.2, b.2], fun j h₁ h₂ => ?_⟩
    simp only [List.length_drop, b.2] at h₂
    have hja : (a.1.drop off)[j]? = some ((a.1.drop off).get ⟨j, h₁⟩) :=
      List.getElem?_eq_getElem h₁
    have hjb : (b.1.drop off)[j]? = some ((b.1.drop off).get ⟨j, by simpa [b.2] using h₂⟩) :=
      List.getElem?_eq_getElem _
    rw [List.getElem?_drop] at hja hjb
    rw [ha] at hja
    rw [hb] at hjb
    cases hc : covered ws (off + j) with
    | none =>
        rw [hc, Option.none_or, hzero _ (by omega), Option.some.injEq] at hjb
        exact Or.inr hjb.symm
    | some c =>
        rw [hc, Option.some_or, Option.some.injEq] at hja hjb
        exact Or.inl (hja.symm.trans hjb)
  have hdrop : ∀ m : List Byte, readStr off m = readStr 0 (m.drop off) := fun m => rfl
  rw [hdrop, hdrop, readStr_zero_eq_iff hrel]
  simp only [List.getElem?_drop]
  constructor
  · intro hall j hj hlt hnone hbefore
    rw [old.2] at hlt
    obtain ⟨k, rfl⟩ := Nat.exists_eq_add_of_le hj
    have hold := hall k (by rw [hb, hnone, Option.none_or, hzero _ hlt]) (by
      intro i hi
      obtain ⟨c, hc, hne⟩ := hbefore (off + i) (by omega) (by omega)
      rw [hb, hc]
      simpa using hne)
    rwa [ha, hnone, Option.none_or] at hold
  · intro hterm j hj hfirst
    have hlt : off + j < n := by
      have := (List.getElem?_eq_some_iff.mp hj).1
      rwa [b.2] at this
    rw [hb] at hj
    rw [ha]
    cases hc : covered ws (off + j) with
    | some c => simpa [hc] using hj
    | none =>
        rw [Option.none_or]
        refine hterm (off + j) (by omega) (by rwa [old.2]) hc fun i hoff hi => ?_
        obtain ⟨k, rfl⟩ := Nat.exists_eq_add_of_le hoff
        have hk := hfirst k (by omega)
        rw [hb] at hk
        cases hck : covered ws (off + k) with
        | none => exact absurd (by rw [hck, Option.none_or, hzero _ (by omega)]) hk
        | some c => exact ⟨c, rfl, by simpa [hck] using hk⟩

end CLib
