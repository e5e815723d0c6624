import BcmUtils.Foundation.CString
import Mathlib.Data.List.TakeWhile

/-! # Flat memory and row tables

An array is the list of its bytes. A two-dimensional `char` array is one flat
block, so a text that outgrows its row runs on into the next one. -/

namespace CLib

/-- A block with `src` in place of what it held from offset `off` on. -/
def splice (off : ℕ) (src mem : List Byte) : List Byte :=
  mem.take off ++ (src ++ mem.drop (off + src.length))

/-- Copy `src` to offset `off` of a block, which must contain the whole copy. -/
def writeAt (off : ℕ) (src mem : List Byte) : Option (List Byte) :=
  if off + src.length ≤ mem.length then some (splice off src mem) else none

/-- The C string at offset `off`, which must end inside the block. -/
def readStr (off : ℕ) (mem : List Byte) : Option CStr :=
  if 0 ∈ mem.drop off then some ((mem.drop off).takeWhile (· ≠ 0)) else none

theorem length_splice {off : ℕ} {src mem : List Byte} (h : off + src.length ≤ mem.length) :
    (splice off src mem).length = mem.length := by
  simp only [splice, List.length_append, List.length_take, List.length_drop]
  omega

@[simp] theorem splice_nil (off : ℕ) (mem : List Byte) : splice off [] mem = mem := by
  simp [splice]

/-- Storing the byte that stands there already changes nothing. -/
theorem splice_same {off : ℕ} {b : Byte} {mem : List Byte} (h : mem[off]? = some b) :
    splice off [b] mem = mem := by
  obtain ⟨hlt, hb⟩ := List.getElem?_eq_some_iff.mp h
  rw [splice, List.length_singleton, List.singleton_append, ← hb, ← List.drop_eq_getElem_cons hlt,
    List.take_append_drop]

/-- Two copies one behind the other are one copy. -/
theorem splice_splice {off : ℕ} {src mem : List Byte} (h : off ≤ mem.length) (src' : List Byte) :
    splice (off + src.length) src' (splice off src mem) = splice off (src ++ src') mem := by
  have htake : (splice off src mem).take (off + src.length) = mem.take off ++ src := by
    rw [splice, ← List.append_assoc, List.take_left' (by simp [h])]
  have hdrop : (splice off src mem).drop (off + src.length + src'.length) =
      mem.drop (off + (src ++ src').length) := by
    rw [splice, ← List.append_assoc, ← List.drop_drop, List.drop_left' (by simp [h]),
      List.drop_drop, List.length_append, Nat.add_assoc]
  rw [splice, htake, hdrop, splice, List.append_assoc, List.append_assoc]

theorem writeAt_append {pre src mid post : List Byte} (h : src.length = mid.length) :
    writeAt pre.length src (pre ++ (mid ++ post)) = some (pre ++ (src ++ post)) := by
  unfold writeAt splice
  rw [if_pos (by simp only [List.length_append]; omega)]
  simp [h]

theorem readStr_append {pre s post : List Byte} (hs : (0 : Byte) ∉ s) :
    readStr pre.length (pre ++ (s ++ 0 :: post)) = some s := by
  have htake : (s ++ 0 :: post).takeWhile (· ≠ 0) = s := by
    rw [List.takeWhile_append_of_pos]
    · simp
    · intro b hb
      simpa using fun h : b = 0 => hs (h ▸ hb)
  simp only [readStr, List.drop_left, htake]
  simp

theorem zero_not_mem_of_readStr {off : ℕ} {mem : List Byte} {s : CStr}
    (h : readStr off mem = some s) : (0 : Byte) ∉ s := by
  rw [readStr] at h
  split at h
  · rw [← Option.some.inj h]
    intro hmem
    simpa using List.mem_takeWhile_imp hmem
  · exact absurd h (by simp)

/-- A string read from a block ends before the block does. -/
theorem length_lt_of_readStr {mem : List Byte} {s : CStr} (h : readStr 0 mem = some s) :
    s.length < mem.length := by
  rw [readStr, List.drop_zero] at h
  split at h
  · rename_i hmem
    obtain rfl := Option.some.inj h
    refine lt_of_le_of_ne (List.takeWhile_prefix _).length_le fun heq => ?_
    have hall := List.takeWhile_eq_self_iff.mp
      ((@List.takeWhile_prefix _ mem (· ≠ 0)).eq_of_length heq)
    simpa using hall 0 hmem
  · exact absurd h (by simp)

/-- A string is read if its bytes stand at the offset with a terminator behind them. -/
theorem readStr_of_getElem? {off : ℕ} {mem : List Byte} {s : CStr} (hs : (0 : Byte) ∉ s)
    (hbytes : ∀ k : ℕ, k < s.length → mem[off + k]? = s[k]?)
    (hend : mem[off + s.length]? = some 0) : readStr off mem = some s := by
  obtain ⟨hlt, hzero⟩ := List.getElem?_eq_some_iff.mp hend
  have htake : (mem.drop off).take s.length = s := by
    apply List.ext_getElem?
    intro k
    by_cases hk : k < s.length
    · rw [List.getElem?_take_of_lt hk, List.getElem?_drop, hbytes k hk]
    · rw [List.getElem?_eq_none (by rw [List.length_take]; omega),
        List.getElem?_eq_none (by omega)]
  have hdrop : (mem.drop off).drop s.length = 0 :: mem.drop (off + s.length + 1) := by
    rw [List.drop_drop, List.drop_eq_getElem_cons hlt, hzero]
  have hrest := List.take_append_drop s.length (mem.drop off)
  rw [htake, hdrop] at hrest
  have hmem := List.take_append_drop off mem
  rw [← hrest] at hmem
  have hlen : (mem.take off).length = off := by
    rw [List.length_take]
    omega
  have hread := @readStr_append (mem.take off) s (mem.drop (off + s.length + 1)) hs
  rwa [hmem, hlen] at hread

theorem readStr_append_left {s : List Byte} (hs : (0 : Byte) ∉ s) (x : List Byte) :
    readStr 0 (s ++ x) = (readStr 0 x).map (s ++ ·) := by
  have htake : (s ++ x).takeWhile (· ≠ 0) = s ++ x.takeWhile (· ≠ 0) := by
    apply List.takeWhile_append_of_pos
    intro b hb
    simpa using fun h : b = 0 => hs (h ▸ hb)
  rw [readStr, readStr, List.drop_zero, List.drop_zero, htake]
  by_cases hx : (0 : Byte) ∈ x
  · rw [if_pos (List.mem_append_right s hx), if_pos hx, Option.map_some]
  · rw [if_neg (by simp [hs, hx]), if_neg hx, Option.map_none]

/-- A string in a block, with its terminator and what stands behind it. -/
theorem readStr_eq_some_iff {mem : List Byte} {s : CStr} :
    readStr 0 mem = some s ↔ (0 : Byte) ∉ s ∧ ∃ x, mem = s ++ 0 :: x := by
  constructor
  · intro h
    have hmem : (0 : Byte) ∈ mem := by
      by_contra hno
      simp [readStr, hno] at h
    obtain ⟨u, x, rfl, hu⟩ := List.eq_append_cons_of_mem hmem
    obtain rfl : u = s := Option.some.inj ((@readStr_append [] u x hu).symm.trans h)
    exact ⟨hu, x, rfl⟩
  · rintro ⟨hs, x, rfl⟩
    exact @readStr_append [] s x hs

/-! ## Arrays of fixed size -/

/-- An array of `n` bytes. -/
abbrev Block (n : ℕ) := { mem : List Byte // mem.length = n }

namespace Block

variable {n : ℕ}

/-- `memset` to zero. -/
def zeroed (n : ℕ) : Block n := ⟨List.replicate n 0, List.length_replicate⟩

/-- `memcpy` of `src` to offset `off`. -/
def copy (off : ℕ) (src : List Byte) (b : Block n) : Option (Block n) :=
  if h : off + src.length ≤ n then
    some ⟨splice off src b.1, by rw [length_splice (by rwa [b.2]), b.2]⟩
  else none

/-- Bytes received into the start of the array; what does not fit is lost. -/
def overlay (src : List Byte) (b : Block n) : Block n :=
  ⟨src.take n ++ b.1.drop src.length, by
    simp only [List.length_append, List.length_take, List.length_drop, b.2]
    omega⟩

theorem copy_of_le {off : ℕ} {src : List Byte} {b : Block n} (h : off + src.length ≤ n) :
    ∃ b', copy off src b = some b' ∧ b'.1 = splice off src b.1 := by
  rw [copy, dif_pos h]
  exact ⟨_, rfl, rfl⟩

/-- A copy to the end of a first part replaces the start of the rest. -/
theorem copy_append {pre src post : List Byte} {b : Block n} (hb : b.1 = pre ++ post)
    (h : src.length ≤ post.length) :
    ∃ b', copy pre.length src b = some b' ∧ b'.1 = pre ++ (src ++ post.drop src.length) := by
  have hlen := b.2
  rw [hb, List.length_append] at hlen
  obtain ⟨b', hcopy, hb'⟩ := @copy_of_le n pre.length src b (by omega)
  refine ⟨b', hcopy, ?_⟩
  rw [hb', splice, hb, List.take_left, ← List.drop_drop, List.drop_left]

/-- A text copied over zeros is read back. -/
theorem readStr_splice_zeroed {s : CStr} (hs : (0 : Byte) ∉ s) (hlen : s.length < n) :
    readStr 0 (splice 0 s (zeroed n).1) = some s := by
  have hmem : splice 0 s (zeroed n).1 = s ++ 0 :: List.replicate (n - s.length - 1) 0 := by
    rw [splice, zeroed, List.drop_replicate, ← List.replicate_succ]
    simp only [List.take_zero, Nat.zero_add, List.nil_append]
    congr 2
    omega
  rw [hmem]
  exact @readStr_append [] s (List.replicate (n - s.length - 1) 0) hs

end Block

/-! ## Texts split over the rows of a table -/

/-- Write the texts to consecutive rows from row `i` on. -/
def writeRows (width : ℕ) : ℕ → List CStr → List Byte → Option (List Byte)
  | _, [], mem => some mem
  | i, x :: xs, mem => (writeAt (i * width) x mem).bind (writeRows width (i + 1) xs)

/-- Read the rows from row `i` on as strings. -/
def readRows (width : ℕ) (mem : List Byte) : ℕ → ℕ → Option (List CStr)
  | _, 0 => some []
  | i, n + 1 => do
      let x ← readStr (i * width) mem
      let xs ← readRows width mem (i + 1) n
      return x :: xs

/-- The loop that copies the pieces of `s` between separators into the rows of a
zeroed table, and the strings later read back from the rows it used. -/
def splitRows (rows width : ℕ) (c : Byte) (s : CStr) : Option (List CStr) := do
  let items := s.splitOn c
  let mem ← writeRows width 0 items (List.replicate (rows * width) 0)
  readRows width mem 0 items.length

/-- One round of the splitting loop: up to the next separator, or the whole rest. -/
theorem splitOn_eq_strchr (c : Byte) (s : CStr) :
    s.splitOn c =
      match strchr c s with
      | none => [s]
      | some q => s.take (s.length - q.length) :: q.tail.splitOn c := by
  split
  · rename_i h
    exact List.splitOn_eq_singleton (strchr_eq_none.mp h)
  · rename_i q h
    obtain ⟨u, rfl, hu, v, rfl⟩ := strchr_eq_some h
    rw [List.splitOn_append_cons_self_of_not_mem hu]
    simp

/-- A row holding a text and the zeros after it. -/
def padRow (width : ℕ) (x : CStr) : List Byte := x ++ List.replicate (width - x.length) 0

theorem length_padRow {width : ℕ} {x : CStr} (h : x.length < width) :
    (padRow width x).length = width := by
  simp only [padRow, List.length_append, List.length_replicate]
  omega

theorem writeRows_eq {width : ℕ} (xs : List CStr) (hx : ∀ x ∈ xs, x.length < width)
    {i free : ℕ} {pre : List Byte} (hpre : pre.length = i * width) (hfree : xs.length ≤ free) :
    writeRows width i xs (pre ++ List.replicate (free * width) 0) =
      some (pre ++ (xs.flatMap (padRow width) ++
        List.replicate ((free - xs.length) * width) 0)) := by
  induction xs generalizing i free pre with
  | nil => simp [writeRows]
  | cons x xs ih =>
      have hlen : x.length < width := hx x (by simp)
      obtain ⟨free, rfl⟩ : ∃ f, free = f + 1 := ⟨free - 1, by simp at hfree; omega⟩
      have hblock : List.replicate ((free + 1) * width) (0 : Byte) =
          List.replicate x.length 0 ++
            (List.replicate (width - x.length) 0 ++ List.replicate (free * width) 0) := by
        rw [← List.append_assoc, ← List.replicate_add, ← List.replicate_add]
        congr 1
        rw [Nat.add_mul]
        omega
      have hrow : (pre ++ padRow width x).length = (i + 1) * width := by
        rw [List.length_append, length_padRow hlen, hpre, Nat.add_mul, Nat.one_mul]
      rw [writeRows, hblock, ← hpre, writeAt_append (by simp), Option.bind_some]
      have htail : pre ++ (x ++ (List.replicate (width - x.length) 0 ++
          List.replicate (free * width) (0 : Byte))) =
          (pre ++ padRow width x) ++ List.replicate (free * width) 0 := by
        simp [padRow]
      rw [htail, ih (fun y hy => hx y (by simp [hy])) hrow (by simp at hfree; omega)]
      simp [List.append_assoc]

theorem readStr_padRow {width : ℕ} {x : CStr} (hlen : x.length < width) (hz : (0 : Byte) ∉ x)
    (pre post : List Byte) : readStr pre.length (pre ++ (padRow width x ++ post)) = some x := by
  have hpad : List.replicate (width - x.length) (0 : Byte) =
      0 :: List.replicate (width - x.length - 1) 0 := by
    rw [← List.replicate_succ]
    congr 1
    omega
  rw [padRow, hpad, List.append_assoc, List.cons_append]
  exact readStr_append hz

theorem readRows_eq {width : ℕ} (xs : List CStr)
    (hx : ∀ x ∈ xs, x.length < width ∧ (0 : Byte) ∉ x)
    {i : ℕ} {pre : List Byte} (hpre : pre.length = i * width) (post : List Byte) :
    readRows width (pre ++ (xs.flatMap (padRow width) ++ post)) i xs.length = some xs := by
  induction xs generalizing i pre with
  | nil => rfl
  | cons x xs ih =>
      obtain ⟨hlen, hz⟩ := hx x (by simp)
      have hread := readStr_padRow hlen hz pre (xs.flatMap (padRow width) ++ post)
      have hrow : (pre ++ padRow width x).length = (i + 1) * width := by
        rw [List.length_append, length_padRow hlen, hpre, Nat.add_mul, Nat.one_mul]
      have htail : pre ++ (padRow width x ++ (xs.flatMap (padRow width) ++ post)) =
          (pre ++ padRow width x) ++ (xs.flatMap (padRow width) ++ post) := by
        rw [List.append_assoc]
      have hnext := ih (fun y hy => hx y (by simp [hy])) hrow
      rw [← htail] at hnext
      rw [hpre] at hread
      rw [List.length_cons, readRows, List.flatMap_cons, List.append_assoc, hread, hnext]
      rfl

/-- Texts shorter than a row and no more than the rows come back unchanged. -/
theorem splitRows_eq {rows width : ℕ} {c : Byte} {s : CStr}
    (hrows : (s.splitOn c).length ≤ rows)
    (hx : ∀ x ∈ s.splitOn c, x.length < width ∧ (0 : Byte) ∉ x) :
    splitRows rows width c s = some (s.splitOn c) := by
  have hstart : ([] : List Byte).length = 0 * width := by simp
  have hw := writeRows_eq (s.splitOn c) (fun x h => (hx x h).1) hstart hrows
  have hr := readRows_eq (s.splitOn c) hx hstart
    (List.replicate ((rows - (s.splitOn c).length) * width) 0)
  rw [List.nil_append] at hw hr
  simp only [splitRows, hw]
  simpa using hr

end CLib
