import BcmUtils.Model.Scfgmgr

/-! # The payload of a reply

The loop of `socket_read` asks for the whole payload in every round. What it makes of a
stream is decided by the sizes that the reads hand over. -/

namespace BcmUtils.Socket

open CLib

/-! ## The sizes of reads -/

/-- The sizes that successive reads of `n` bytes hand over with `left` bytes on the stream;
`none` stands for a failure, and after the last of them nothing follows. -/
def handed (n : ℕ) : ℕ → List (Option ℕ) → List (Option ℕ)
  | left, [] => [some (min n left)]
  | left, none :: chunks => none :: handed n left chunks
  | left, some k :: chunks =>
      some (min (min n (k + 1)) left) :: handed n (left - min (min n (k + 1)) left) chunks

/-- The first reads hand over `r` bytes together. -/
def ReadsExactly (r : ℕ) (reads : List (Option ℕ)) : Prop :=
  ∃ (sizes : List ℕ) (rest : List (Option ℕ)), reads = sizes.map some ++ rest ∧ sizes.sum = r

/-- A read fails after fewer than `r` bytes. -/
def FailsBefore (r : ℕ) (reads : List (Option ℕ)) : Prop :=
  ∃ (sizes : List ℕ) (rest : List (Option ℕ)), reads = sizes.map some ++ none :: rest ∧ sizes.sum < r

/-- A loop that waits for `r` bytes: whether it gets them before a failure. -/
def settle : ℕ → List (Option ℕ) → Except Fault Bool
  | 0, _ => .ok true
  | _ + 1, [] => .error .blocked
  | _ + 1, none :: _ => .ok false
  | r + 1, some n :: reads => if r + 1 < n then .error .overrun else settle (r + 1 - n) reads

/-- Reads of at most `r` bytes together leave the loop waiting for the rest. -/
theorem settle_map_append {r : ℕ} {sizes : List ℕ} (h : sizes.sum ≤ r)
    (rest : List (Option ℕ)) :
    settle r (sizes.map some ++ rest) = settle (r - sizes.sum) rest := by
  induction sizes generalizing r with
  | nil => rfl
  | cons n sizes ih =>
      rw [List.sum_cons] at h ⊢
      cases r with
      | zero =>
          rw [Nat.zero_sub, settle, settle]
      | succ r =>
          rw [List.map_cons, List.cons_append, settle, if_neg (by omega), ih (by omega),
            Nat.sub_sub]

/-- The loop ends with all of the bytes, or at a failure before that. -/
theorem exists_of_settle {r : ℕ} {reads : List (Option ℕ)} {ok : Bool}
    (h : settle r reads = .ok ok) :
    ∃ (sizes : List ℕ) (rest : List (Option ℕ)), reads = sizes.map some ++ rest ∧
      (ok = true ∧ sizes.sum = r ∨ ok = false ∧ sizes.sum < r ∧ rest.head? = some none) := by
  induction reads generalizing r with
  | nil =>
      cases r with
      | zero =>
          cases h
          exact ⟨[], [], rfl, Or.inl ⟨rfl, rfl⟩⟩
      | succ r => cases h
  | cons read reads ih =>
      cases r with
      | zero =>
          cases h
          exact ⟨[], read :: reads, rfl, Or.inl ⟨rfl, rfl⟩⟩
      | succ r =>
          cases read with
          | none =>
              cases h
              exact ⟨[], none :: reads, rfl, Or.inr ⟨rfl, by simp, rfl⟩⟩
          | some n =>
              rw [settle] at h
              split at h
              · cases h
              · obtain ⟨sizes, rest, hreads, hend⟩ := ih h
                refine ⟨n :: sizes, rest, by rw [hreads]; rfl, ?_⟩
                rw [List.sum_cons]
                cases hend with
                | inl hall => exact Or.inl ⟨hall.1, by omega⟩
                | inr hfail => exact Or.inr ⟨hfail.1, by omega, hfail.2.2⟩

theorem settle_eq_true {r : ℕ} {reads : List (Option ℕ)} :
    settle r reads = .ok true ↔ ReadsExactly r reads := by
  constructor
  · intro h
    obtain ⟨sizes, rest, hreads, hend⟩ := exists_of_settle h
    cases hend with
    | inl hall => exact ⟨sizes, rest, hreads, hall.2⟩
    | inr hfail => cases hfail.1
  · intro h
    obtain ⟨sizes, rest, rfl, hsum⟩ := h
    rw [settle_map_append hsum.le, hsum, Nat.sub_self, settle]

theorem settle_eq_false {r : ℕ} {reads : List (Option ℕ)} :
    settle r reads = .ok false ↔ FailsBefore r reads := by
  constructor
  · intro h
    obtain ⟨sizes, rest, hreads, hend⟩ := exists_of_settle h
    cases hend with
    | inl hall => cases hall.1
    | inr hfail =>
        obtain ⟨tail, rfl⟩ := List.head?_eq_some_iff.mp hfail.2.2
        exact ⟨sizes, tail, hreads, hfail.2.1⟩
  · intro h
    obtain ⟨sizes, rest, rfl, hsum⟩ := h
    obtain ⟨n, hn⟩ := Nat.exists_eq_add_of_lt hsum
    rw [settle_map_append hsum.le, show r - sizes.sum = n + 1 by omega, settle]

theorem not_failsBefore {r : ℕ} {reads : List (Option ℕ)} (h : ReadsExactly r reads) :
    ¬ FailsBefore r reads := by
  rw [← settle_eq_false, settle_eq_true.mpr h]
  simp

/-! ## The payload -/

/-- No more bytes are handed over than there are. -/
theorem le_of_readsExactly {n left r : ℕ} {chunks : List (Option ℕ)}
    (h : ReadsExactly r (handed n left chunks)) : r ≤ left := by
  induction chunks generalizing left r with
  | nil =>
      obtain ⟨sizes, rest, heq, rfl⟩ := h
      cases sizes with
      | nil => simp
      | cons size sizes =>
          cases sizes with
          | nil =>
              simp only [handed, List.map_cons, List.cons_append, List.cons.injEq,
                Option.some.injEq] at heq
              rw [← heq.1, List.sum_cons, List.sum_nil]
              omega
          | cons size' sizes => simp [handed] at heq
  | cons chunk chunks ih =>
      obtain ⟨sizes, rest, heq, rfl⟩ := h
      cases sizes with
      | nil => simp
      | cons size sizes =>
          cases chunk with
          | none => simp [handed] at heq
          | some k =>
              simp only [handed, List.map_cons, List.cons_append, List.cons.injEq,
                Option.some.injEq] at heq
              have hrest := ih ⟨sizes, rest, heq.2, rfl⟩
              rw [List.sum_cons, ← heq.1]
              omega

theorem readPayload_full {len : ℕ} {stored : List Byte} (h : stored.length = len) (c : Conn) :
    readPayload len stored c = .ok (some stored) := by
  rw [readPayload, dif_neg (by omega)]

theorem readPayload_drained {len : ℕ} {stored : List Byte} (h : stored.length < len) :
    readPayload len stored ⟨[], []⟩ = .error .blocked := by
  rw [readPayload, dif_pos h, dif_pos ⟨rfl, rfl⟩]

/-- A round that gets bytes. -/
theorem readPayload_round {len : ℕ} {stored bs : List Byte} {c next : Conn}
    (hlen : stored.length < len) (hc : ¬ (c.stream = [] ∧ c.chunks = []))
    (hread : c.read len = (some bs, next)) :
    readPayload len stored c =
      if len < stored.length + bs.length then .error .overrun
      else readPayload len (stored ++ bs) next := by
  rw [readPayload, dif_pos hlen, dif_neg hc]
  split
  · rename_i heq
    rw [hread] at heq
    cases heq
  · rename_i heq
    rw [hread] at heq
    cases heq
    rfl

/-- The loop gets what the reads hand over, and stores the bytes that come first. -/
def Settles (len : ℕ) (stored stream : List Byte) (chunks : List (Option ℕ)) : Prop :=
  readPayload len stored ⟨stream, chunks⟩ =
    (settle (len - stored.length) (handed len stream.length chunks)).map fun ok =>
      if ok then some (stored ++ stream.take (len - stored.length)) else none

/-- The payload is complete. -/
theorem settles_full {len : ℕ} {stored : List Byte} (hfull : stored.length = len)
    (stream : List Byte) (chunks : List (Option ℕ)) : Settles len stored stream chunks := by
  rw [Settles, readPayload_full hfull, hfull, Nat.sub_self, settle]
  simp [Except.map]

/-- The last read takes what the stream still holds. -/
theorem settles_last {len : ℕ} {stored : List Byte} (hlen : stored.length < len)
    (stream : List Byte) : Settles len stored stream [] := by
  obtain ⟨r, hr⟩ := Nat.exists_eq_add_of_lt hlen
  have hleft : len - stored.length = r + 1 := by omega
  rw [Settles, hleft, handed, settle]
  by_cases hstream : stream = []
  · rw [hstream, readPayload_drained (by omega), List.length_nil, Nat.min_zero, if_neg (by omega)]
    rfl
  · have hread : Conn.read len ⟨stream, []⟩ =
      (some (stream.take len), ⟨stream.drop len, []⟩) := rfl
    rw [readPayload_round (by omega) (fun h => hstream h.1) hread, List.length_take]
    by_cases hover : r + 1 < min len stream.length
    · rw [if_pos hover, if_pos (by omega)]
      rfl
    · rw [if_neg hover, if_neg (by omega)]
      by_cases hall : min len stream.length = r + 1
      · rw [readPayload_full (by rw [List.length_append, List.length_take]; omega), hall,
          Nat.sub_self, settle]
        have htake : stream.take len = stream.take (r + 1) := by
          rw [List.take_eq_take_iff]
          omega
        rw [htake]
        rfl
      · -- All of a stream that is too short is read, and nothing follows.
        have hrest : stream.drop len = [] := List.drop_eq_nil_of_le (by omega)
        rw [hrest, readPayload_drained (by rw [List.length_append, List.length_take]; omega)]
        obtain ⟨m, hm⟩ := Nat.exists_eq_add_of_lt (by omega : min len stream.length < r + 1)
        rw [hm, Nat.add_assoc, Nat.add_sub_cancel_left, settle]
        rfl

/-- A read of `k + 1` bytes leaves the loop to the reads behind it. -/
theorem settles_round {len k : ℕ} {stored stream : List Byte} {chunks : List (Option ℕ)}
    (hlen : stored.length < len)
    (ih : stored.length + min (min len (k + 1)) stream.length ≤ len →
      Settles len (stored ++ stream.take (min len (k + 1))) (stream.drop (min len (k + 1)))
        chunks) :
    Settles len stored stream (some k :: chunks) := by
  obtain ⟨r, hr⟩ := Nat.exists_eq_add_of_lt hlen
  have hleft : len - stored.length = r + 1 := by omega
  have hread : Conn.read len ⟨stream, some k :: chunks⟩ =
      (some (stream.take (min len (k + 1))), ⟨stream.drop (min len (k + 1)), chunks⟩) := rfl
  rw [Settles, readPayload_round (by omega) (by simp) hread, hleft, handed, settle,
    List.length_take]
  by_cases hover : r + 1 < min (min len (k + 1)) stream.length
  · rw [if_pos hover, if_pos (by omega)]
    rfl
  · have hstored : len - (stored ++ stream.take (min len (k + 1))).length =
        r + 1 - min (min len (k + 1)) stream.length := by
      rw [List.length_append, List.length_take]
      omega
    have hdrop : (stream.drop (min len (k + 1))).length =
        stream.length - min (min len (k + 1)) stream.length := by
      rw [List.length_drop]
      omega
    have htake : stream.take (min len (k + 1)) ++ (stream.drop (min len (k + 1))).take
        (r + 1 - min (min len (k + 1)) stream.length) = stream.take (r + 1) := by
      rw [← List.take_add, List.take_eq_take_iff]
      omega
    rw [if_neg hover, if_neg (by omega), ih (by omega), hstored, hdrop, List.append_assoc, htake]

/-- The loop settles, whatever the reads hand over. -/
theorem readPayload_settle {len : ℕ} (chunks : List (Option ℕ)) (stored stream : List Byte)
    (hlen : stored.length ≤ len) : Settles len stored stream chunks := by
  induction chunks generalizing stored stream with
  | nil =>
      cases Nat.lt_or_eq_of_le hlen with
      | inl hlt => exact settles_last hlt stream
      | inr hfull => exact settles_full hfull stream []
  | cons chunk chunks ih =>
      cases Nat.lt_or_eq_of_le hlen with
      | inl hlt =>
          cases chunk with
          | none =>
              obtain ⟨r, hr⟩ := Nat.exists_eq_add_of_lt hlt
              have hleft : len - stored.length = r + 1 := by omega
              rw [Settles, hleft, handed, settle, readPayload, dif_pos (by omega),
                dif_neg (by simp)]
              rfl
          | some k =>
              refine settles_round hlt fun hround => ih _ _ ?_
              rwa [List.length_append, List.length_take]
      | inr hfull => exact settles_full hfull stream _

theorem readPayload_eq_some_iff {len : ℕ} {stream data : List Byte} {chunks : List (Option ℕ)} :
    readPayload len [] ⟨stream, chunks⟩ = .ok (some data) ↔
      ReadsExactly len (handed len stream.length chunks) ∧ data = stream.take len := by
  rw [readPayload_settle chunks [] stream (Nat.zero_le _), List.length_nil, Nat.sub_zero,
    ← settle_eq_true]
  cases settle len (handed len stream.length chunks) with
  | error fault => simp [Except.map]
  | ok done =>
      cases done with
      | false => simp [Except.map]
      | true => simp [Except.map, eq_comm]

theorem readPayload_eq_none_iff {len : ℕ} {stream : List Byte} {chunks : List (Option ℕ)} :
    readPayload len [] ⟨stream, chunks⟩ = .ok none ↔
      FailsBefore len (handed len stream.length chunks) := by
  rw [readPayload_settle chunks [] stream (Nat.zero_le _), List.length_nil, Nat.sub_zero,
    ← settle_eq_false]
  cases settle len (handed len stream.length chunks) with
  | error fault => simp [Except.map]
  | ok done =>
      cases done with
      | false => simp [Except.map]
      | true => simp [Except.map]

/-! ## A stream that holds no more than the payload -/

/-- The first `n` bytes are handed over before a read fails. -/
def readsAll : ℕ → List (Option ℕ) → Bool
  | 0, _ => true
  | _ + 1, [] => true
  | _ + 1, none :: _ => false
  | n + 1, some k :: chunks => readsAll (n - k) chunks

/-- A loop that waits for `r` bytes gets them if they are there and no read fails before, and
ends without them only at a failure. -/
theorem settle_handed {n left r : ℕ} (chunks : List (Option ℕ)) (hleft : left ≤ r) (hr : r ≤ n) :
    settle r (handed n left chunks) =
      if left = r ∧ readsAll r chunks = true then .ok true
      else if none ∈ chunks then .ok false
      else .error .blocked := by
  induction chunks generalizing left r with
  | nil =>
      cases r with
      | zero => simp [settle, readsAll, Nat.le_zero.mp hleft]
      | succ r =>
          rw [handed, settle, Nat.min_eq_right (by omega), if_neg (by omega)]
          by_cases hall : left = r + 1
          · simp [hall, settle, readsAll]
          · obtain ⟨m, hm⟩ := Nat.exists_eq_add_of_lt (Nat.lt_of_le_of_ne hleft hall)
            rw [show r + 1 - left = m + 1 by omega, settle]
            simp [hall]
  | cons chunk chunks ih =>
      cases r with
      | zero => simp [settle, readsAll, Nat.le_zero.mp hleft]
      | succ r =>
          cases chunk with
          | none => simp [handed, settle, readsAll]
          | some k =>
              rw [handed, settle, if_neg (by omega), ih (by omega) (by omega), readsAll]
              by_cases hall : left = r + 1
              · have hbehind : r + 1 - min (min n (k + 1)) left = r - k := by omega
                simp [hall, ← hbehind]
              · have hmissing : left - min (min n (k + 1)) left ≠
                    r + 1 - min (min n (k + 1)) left := by omega
                simp only [hmissing, hall, false_and, if_false, List.mem_cons, reduceCtorEq,
                  false_or]

theorem readsExactly_handed_iff {n left r : ℕ} {chunks : List (Option ℕ)} (hleft : left ≤ r)
    (hr : r ≤ n) :
    ReadsExactly r (handed n left chunks) ↔ left = r ∧ readsAll r chunks = true := by
  rw [← settle_eq_true, settle_handed chunks hleft hr]
  split
  · rename_i hall
    exact iff_of_true rfl hall
  · rename_i hall
    refine iff_of_false ?_ hall
    split <;> simp

theorem failsBefore_handed_iff {n left r : ℕ} {chunks : List (Option ℕ)} (hleft : left ≤ r)
    (hr : r ≤ n) :
    FailsBefore r (handed n left chunks) ↔
      ¬ (left = r ∧ readsAll r chunks = true) ∧ none ∈ chunks := by
  rw [← settle_eq_false, settle_handed chunks hleft hr]
  split
  · rename_i hall
    exact iff_of_false (by simp) fun h => h.1 hall
  · rename_i hall
    split
    · rename_i hfails
      exact iff_of_true rfl ⟨hall, hfails⟩
    · rename_i hfails
      exact iff_of_false (by simp) fun h => hfails h.2

end BcmUtils.Socket
