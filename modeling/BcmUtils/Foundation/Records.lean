import BcmUtils.Foundation.CString

/-! # Strings of terminated records

The iterations of `while ((q = strchr(p, c)) != NULL) { ...; p = q + 1; }`. -/

namespace CLib

/-- Scan `s` for the terminator of the record that started at `p`. -/
def spansFrom (c : Byte) (p : CStr) : CStr → List (CStr × CStr)
  | [] => []
  | b :: s => if b = c then (p, b :: s) :: spansFrom c s s else spansFrom c p s

/-- The pairs `(p, q)` that the loop body sees, in order. -/
def spans (c : Byte) (p : CStr) : List (CStr × CStr) := spansFrom c p p

theorem spansFrom_eq (c : Byte) (p s : CStr) :
    spansFrom c p s =
      match strchr c s with
      | none => []
      | some q => (p, q) :: spans c q.tail := by
  induction s with
  | nil => rfl
  | cons b s ih =>
      by_cases h : b = c
      · simp [spansFrom, strchr, h, spans]
      · simp [spansFrom, strchr, h, ih]

/-- One round of the loop. -/
theorem spans_eq (c : Byte) (p : CStr) :
    spans c p =
      match strchr c p with
      | none => []
      | some q => (p, q) :: spans c q.tail :=
  spansFrom_eq c p p

/-- The first record of a string is the text before the first terminator. -/
theorem spans_append_cons {c : Byte} {s : CStr} (h : c ∉ s) (t : CStr) :
    spans c (s ++ c :: t) = (s ++ c :: t, c :: t) :: spans c t := by
  rw [spans_eq, strchr_append_cons h]
  rfl

theorem mapM_cons_eq_some {α β : Type*} {f : α → Option β} {a : α} {as : List α} {bs : List β} :
    (a :: as).mapM f = some bs ↔
      ∃ b rest, f a = some b ∧ as.mapM f = some rest ∧ b :: rest = bs := by
  simp only [List.mapM_cons, Option.bind_eq_bind, Option.bind_eq_some_iff, Option.pure_def,
    Option.some.injEq]
  constructor
  · rintro ⟨b, hb, rest, hrest, rfl⟩
    exact ⟨b, rest, hb, hrest, rfl⟩
  · rintro ⟨b, rest, hb, hrest, rfl⟩
    exact ⟨b, hb, rest, hrest, rfl⟩

theorem length_of_mapM {α β : Type*} {f : α → Option β} {as : List α} {bs : List β}
    (h : as.mapM f = some bs) : bs.length = as.length := by
  induction as generalizing bs with
  | nil =>
      obtain rfl : bs = [] := by simpa using h.symm
      rfl
  | cons a as ih =>
      obtain ⟨b, rest, -, hrest, rfl⟩ := mapM_cons_eq_some.mp h
      rw [List.length_cons, List.length_cons, ih hrest]

theorem exists_of_mem_mapM {α β : Type*} {f : α → Option β} {as : List α} {bs : List β}
    (h : as.mapM f = some bs) {b : β} (hb : b ∈ bs) : ∃ a ∈ as, f a = some b := by
  induction as generalizing bs with
  | nil =>
      obtain rfl : bs = [] := by simpa using h.symm
      simp at hb
  | cons a as ih =>
      obtain ⟨c, rest, hc, hrest, rfl⟩ := mapM_cons_eq_some.mp h
      rcases List.mem_cons.mp hb with rfl | hb
      · exact ⟨a, by simp, hc⟩
      · obtain ⟨a', ha', heq⟩ := ih hrest hb
        exact ⟨a', by simp [ha'], heq⟩

theorem exists_of_mapM {α β : Type*} {f : α → Option β} {as : List α} {bs : List β}
    (h : as.mapM f = some bs) {a : α} (ha : a ∈ as) : ∃ b, f a = some b := by
  induction as generalizing bs with
  | nil => cases ha
  | cons a' as ih =>
      obtain ⟨c, rest, hc, hrest, rfl⟩ := mapM_cons_eq_some.mp h
      cases ha with
      | head => exact ⟨c, hc⟩
      | tail _ ha => exact ih hrest ha

theorem mapM_of_getElem? {α β : Type*} {f : α → Option β} {as : List α} {bs : List β}
    (hlen : as.length = bs.length)
    (h : ∀ (k : ℕ) (a : α) (b : β), as[k]? = some a → bs[k]? = some b → f a = some b) :
    as.mapM f = some bs := by
  induction as generalizing bs with
  | nil =>
      obtain rfl := List.eq_nil_of_length_eq_zero hlen.symm
      rfl
  | cons a as ih =>
      obtain ⟨b, bs, rfl⟩ := List.exists_cons_of_length_eq_add_one hlen.symm
      refine mapM_cons_eq_some.mpr ⟨b, bs, h 0 a b rfl rfl, ?_, rfl⟩
      exact ih (by simpa using hlen) fun k a' b' ha hb => h (k + 1) a' b' ha hb

/-- Reading a concatenation of records one by one, when each is written by
`render`, closed by `c`, and read back by `body` whatever follows it. -/
theorem mapM_spans_flatMap {α β : Type*} {c : Byte} {render : α → CStr}
    {body : CStr → CStr → Option β} {f : α → β} {as : List α}
    (hc : ∀ a ∈ as, c ∉ render a)
    (hb : ∀ a ∈ as, ∀ t, body (render a ++ c :: t) (c :: t) = some (f a)) :
    (spans c (as.flatMap fun a => render a ++ [c])).mapM (fun r => body r.1 r.2) =
      some (as.map f) := by
  induction as with
  | nil => rfl
  | cons a as ih =>
      have hrest := ih (fun b h => hc b (by simp [h])) (fun b h => hb b (by simp [h]))
      rw [List.flatMap_cons, List.append_assoc, List.singleton_append,
        spans_append_cons (hc a (by simp)), List.mapM_cons, hb a (by simp), hrest]
      rfl

end CLib
