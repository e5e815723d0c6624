import BcmUtils.Model.Ipmc

/-! # Counting records

Two of the three counters search behind the first byte only. The filler takes one entry for each
terminator. -/

namespace BcmUtils.Ipmc

open CLib

/-! ## The counters -/

/-- The search begins behind the first byte, so that the terminators behind it are counted. -/
theorem countBehindLoop_cons {fuel : ℕ} (b : Byte) {s : CStr} (h : s.length < fuel) (num : ℕ) :
    countBehindLoop fuel (b :: s) num = some (num + s.count (chr ';')) := by
  induction fuel generalizing b s num with
  | zero => omega
  | succ fuel ih =>
      rw [countBehindLoop, bind_of_eq (incr_cons b s)]
      cases hsearch : strchr (chr ';') s with
      | none =>
          have hcount := List.count_eq_zero.mpr (strchr_eq_none.mp hsearch)
          rw [hcount]
          rfl
      | some q =>
          obtain ⟨u, rfl, hu, v, rfl⟩ := strchr_eq_some hsearch
          simp only [List.length_append, List.length_cons] at h
          simp only
          rw [ih (chr ';') (by omega), List.count_append, List.count_eq_zero.mpr hu,
            List.count_cons_self]
          congr 1
          omega

theorem countBehindLoop_nil (fuel num : ℕ) : countBehindLoop fuel [] num = none := by
  cases fuel with
  | zero => rfl
  | succ fuel => rfl

/-- The entry number is right for every string. -/
theorem bcmGetEntryNumber_eq_count (s : CStr) : bcmGetEntryNumber s = s.count (chr ';') := by
  have hfrom : ∀ p : CStr, (spansFrom (chr ';') p s).length = s.count (chr ';') := by
    induction s with
    | nil => exact fun _ => rfl
    | cons b s ih =>
        intro p
        by_cases hb : b = chr ';'
        · rw [spansFrom, if_pos hb, List.length_cons, ih, hb, List.count_cons_self]
        · rw [spansFrom, if_neg hb, ih, List.count_cons_of_ne hb]
  exact hfrom s

/-- The two other counters are right if there is a first byte and it is no terminator. -/
theorem countBehindLoop_eq_count_iff (s : CStr) :
    countBehindLoop (s.length + 1) s 0 = some (s.count (chr ';')) ↔
      ∃ b t, s = b :: t ∧ b ≠ chr ';' := by
  cases s with
  | nil => simp [countBehindLoop_nil]
  | cons b t =>
      rw [countBehindLoop_cons b (by simp), Nat.zero_add, Option.some.injEq]
      constructor
      · intro hcount
        refine ⟨b, t, rfl, ?_⟩
        intro hb
        rw [hb, List.count_cons_self] at hcount
        omega
      · intro hfirst
        obtain ⟨b', t', heq, hb⟩ := hfirst
        rw [List.cons.injEq] at heq
        obtain ⟨rfl, rfl⟩ := heq
        rw [List.count_cons_of_ne hb]

/-! ## The filler -/

/-- The texts of a record. -/
structure IpmcRecord where
  vlan : CStr
  version : CStr
  query : CStr
  timeout : CStr

namespace IpmcRecord

/-- `vlan,version,query,timeout`. -/
def text (r : IpmcRecord) : CStr :=
  r.vlan ++ chr ',' :: (r.version ++ chr ',' :: (r.query ++ chr ',' :: r.timeout))

/-- The separators stand between the fields only. -/
structure WellFormed (r : IpmcRecord) : Prop where
  vlan : chr ',' ∉ r.vlan ∧ chr ';' ∉ r.vlan
  version : chr ',' ∉ r.version ∧ chr ';' ∉ r.version
  query : chr ',' ∉ r.query ∧ chr ';' ∉ r.query
  timeout : chr ',' ∉ r.timeout ∧ chr ';' ∉ r.timeout

/-- The entry that the record stands for. -/
def entry (r : IpmcRecord) : IpmcEntry :=
  ⟨atoi r.vlan, atoi r.version, atoi r.query, atoi r.timeout⟩

variable {r : IpmcRecord}

theorem not_mem_text (h : r.WellFormed) : chr ';' ∉ r.text := by
  simp [text, h.vlan.2, h.version.2, h.query.2, h.timeout.2, (by decide : chr ';' ≠ chr ',')]

theorem ipmcEntry_text (h : r.WellFormed) (t : CStr) :
    ipmcEntry (r.text ++ chr ';' :: t) = some r.entry := by
  have hcomma : ∀ x y : CStr, atoi (x ++ chr ',' :: y) = atoi x :=
    atoi_append_cons (by decide) (by decide) (by decide) (by decide)
  have hsemicolon : ∀ x y : CStr, atoi (x ++ chr ';' :: y) = atoi x :=
    atoi_append_cons (by decide) (by decide) (by decide) (by decide)
  have htext : r.text ++ chr ';' :: t = r.vlan ++ chr ',' :: (r.version ++ chr ',' ::
      (r.query ++ chr ',' :: (r.timeout ++ chr ';' :: t))) := by simp [text]
  rw [htext, ipmcEntry, bind_of_eq (strchr_append_cons h.vlan.1 _), bind_of_eq (incr_cons _ _)]
  simp only
  rw [bind_of_eq (strchr_append_cons h.version.1 _), bind_of_eq (incr_cons _ _),
    bind_of_eq (strchr_append_cons h.query.1 _), bind_of_eq (incr_cons _ _), hcomma, hcomma,
    hcomma, hsemicolon]
  rfl

end IpmcRecord

/-- The stored string of some records. -/
def configText (rs : List IpmcRecord) : CStr := rs.flatMap fun r => r.text ++ [chr ';']

theorem spans_configText_cons {r : IpmcRecord} (h : r.WellFormed) (rs : List IpmcRecord) :
    spans (chr ';') (configText (r :: rs)) =
      (r.text ++ chr ';' :: configText rs, chr ';' :: configText rs) ::
        spans (chr ';') (configText rs) := by
  rw [configText, List.flatMap_cons, List.append_assoc, List.singleton_append,
    spans_append_cons (IpmcRecord.not_mem_text h)]
  rfl

theorem length_spans_configText {rs : List IpmcRecord} (h : ∀ r ∈ rs, r.WellFormed) :
    (spans (chr ';') (configText rs)).length = rs.length := by
  induction rs with
  | nil => rfl
  | cons r rs ih =>
      rw [spans_configText_cons (h r List.mem_cons_self), List.length_cons, List.length_cons,
        ih fun x hx => h x (List.mem_cons_of_mem _ hx)]

/-- The filler takes the first entries for the records and leaves the others as they are. -/
theorem ipmcEntryLoop_configText {rs : List IpmcRecord} (h : ∀ r ∈ rs, r.WellFormed)
    (es : List IpmcEntry) :
    ipmcEntryLoop (spans (chr ';') (configText rs)) es =
      if rs.length ≤ es.length then some (rs.map IpmcRecord.entry ++ es.drop rs.length)
      else none := by
  induction rs generalizing es with
  | nil => rfl
  | cons r rs ih =>
      have hr := h r List.mem_cons_self
      have hrest := ih fun x hx => h x (List.mem_cons_of_mem _ hx)
      rw [spans_configText_cons hr]
      cases es with
      | nil => rfl
      | cons e es =>
          rw [ipmcEntryLoop, bind_of_eq (IpmcRecord.ipmcEntry_text hr _), hrest es]
          simp only [List.length_cons, Nat.add_le_add_iff_right, List.map_cons, List.drop_succ_cons,
            List.cons_append]
          split <;> rfl

/-! ## Agreement -/

/-- The three counters give the number of terminators, and the filler fills as many entries. -/
structure CountersAgree (s : CStr) : Prop where
  ipmc_number : bcmGetIpmcNumber s = some (s.count (chr ';'))
  no_PNUM_entry_number : bcmGetNoPNUMEntryNumber s = some (s.count (chr ';'))
  entry_number : bcmGetEntryNumber s = s.count (chr ';')
  ipmc_entry : ∀ rs : List IpmcRecord, (∀ r ∈ rs, r.WellFormed) → s = configText rs →
    rs.length = s.count (chr ';') ∧
    ∀ es, bcmGetIpmcEntry s es =
      if rs.length ≤ es.length then some (0, rs.map IpmcRecord.entry ++ es.drop rs.length)
      else none

theorem bcmGetIpmcEntry_configText {rs : List IpmcRecord} (h : ∀ r ∈ rs, r.WellFormed)
    (es : List IpmcEntry) :
    bcmGetIpmcEntry (configText rs) es =
      if rs.length ≤ es.length then some (0, rs.map IpmcRecord.entry ++ es.drop rs.length)
      else none := by
  rw [bcmGetIpmcEntry, ipmcEntryLoop_configText h]
  split <;> rfl

/-- The counters agree on a string exactly if it has a first byte and that is no terminator. -/
theorem ipmc_counters_agree_iff (s : CStr) :
    CountersAgree s ↔ ∃ b t, s = b :: t ∧ b ≠ chr ';' := by
  constructor
  · intro h
    exact (countBehindLoop_eq_count_iff s).mp h.ipmc_number
  · intro hfirst
    have hcount := (countBehindLoop_eq_count_iff s).mpr hfirst
    refine ⟨hcount, hcount, bcmGetEntryNumber_eq_count s, ?_⟩
    intro rs hrs hs
    rw [← bcmGetEntryNumber_eq_count, hs]
    exact ⟨(length_spans_configText hrs).symm, bcmGetIpmcEntry_configText hrs⟩

/-- On the empty string the search begins behind the terminator. -/
theorem ipmc_counters_empty : ¬ ∀ s, CountersAgree s := by
  intro h
  have hnumber := (h []).ipmc_number
  revert hnumber
  decide

end BcmUtils.Ipmc
