import BcmUtils.Model.PortVlans

/-! # The places where port numbers are read

The cursor of the inner loop moves by the length of the port behind the next comma. The cursor
stands in front of this comma, and by this length it does not pass the comma behind the port. -/

namespace BcmUtils.PortVlans

open CLib

/-! ## The places -/

/-- The inner loop, which keeps the places where it calls `atoi` instead of the map. -/
def laterPortReads (pc : CStr) : ℕ → CStr → Option (List CStr)
  | 0, _ => none
  | fuel + 1, pk =>
      match strchr (chr ',') pk with
      | none => some []
      | some comma =>
          let pe := comma.tail
          if pe.length < pc.length then some []
          else
            match strchr (chr ',') pe with
            | some pd => do
                let pk ← advance (pe.length - pd.length + 1) pk
                let reads ← laterPortReads pc fuel pk
                return pe :: reads
            | none => do
                let pk ← advance 1 pk
                let reads ← laterPortReads pc fuel pk
                return pe :: reads

/-- The pointers of the outer loop at a record, and the places where it reads a port number. -/
structure RecordReads where
  pc : CStr
  pt : CStr
  first : CStr
  later : List CStr

/-- The outer loop, which keeps these places instead of the entries. -/
def portBasedVlanReads : ℕ → CStr → Option (List RecordReads)
  | 0, _ => none
  | fuel + 1, ps =>
      match strchr (chr ';') ps, strchr (chr ':') ps with
      | some pt, some pc =>
          if pc.length < pt.length then some []
          else do
            let later ← laterPortReads pc (ps.length + 1) ps
            let records ← portBasedVlanReads fuel pt.tail
            return ⟨pc, pt, ps, later⟩ :: records
      | _, _ => some []

namespace RecordReads

/-- The ports read at these places are stored in the entry, with the description. -/
def store (B : Build) (r : RecordReads) (entry : PortBasedV) : Option PortBasedV := do
  let pbmap ← setPort B.PNUM r.first entry.pbmap
  let pbmap ← r.later.foldlM (fun pbmap pe => setPort 28 pe pbmap) pbmap
  let text ← between r.pc.tail r.pt
  let desc ← entry.desc.copy 0 (text.take 31)
  let desc ← desc.copy 31 [0]
  return ⟨pbmap, desc⟩

/-- Every record is stored in its own entry. -/
def storeAll (B : Build) : List RecordReads → List PortBasedV → Option (List PortBasedV)
  | [], entries => some entries
  | _ :: _, [] => none
  | r :: records, entry :: entries => do
      let entry ← r.store B entry
      let entries ← storeAll B records entries
      return entry :: entries

end RecordReads

/-! ## One round of the inner loop -/

/-- How far the cursor moves, with `pe` behind the next comma. -/
def cursorMove (pe : CStr) : ℕ :=
  match strchr (chr ',') pe with
  | some pd => pe.length - pd.length + 1
  | none => 1

section

variable {pc u pe : CStr} (fuel : ℕ)

theorem laterPortsLoop_round (hu : chr ',' ∉ u) (pbmap : BitVec 32) :
    laterPortsLoop pc (fuel + 1) (u ++ chr ',' :: pe) pbmap =
      if pe.length < pc.length then some pbmap
      else (do
        let pbmap ← setPort 28 pe pbmap
        let pk ← advance (cursorMove pe) (u ++ chr ',' :: pe)
        laterPortsLoop pc fuel pk pbmap) := by
  rw [laterPortsLoop, strchr_append_cons hu, cursorMove]
  simp only [List.tail_cons]
  cases strchr (chr ',') pe <;> rfl

theorem laterPortReads_round (hu : chr ',' ∉ u) :
    laterPortReads pc (fuel + 1) (u ++ chr ',' :: pe) =
      if pe.length < pc.length then some []
      else (do
        let pk ← advance (cursorMove pe) (u ++ chr ',' :: pe)
        let reads ← laterPortReads pc fuel pk
        return pe :: reads) := by
  rw [laterPortReads, strchr_append_cons hu, cursorMove]
  simp only [List.tail_cons]
  cases strchr (chr ',') pe <;> rfl

variable {pk : CStr} (hpk : chr ',' ∉ pk)

include hpk

theorem laterPortsLoop_no_comma_left (pbmap : BitVec 32) :
    laterPortsLoop pc (fuel + 1) pk pbmap = some pbmap := by
  rw [laterPortsLoop, strchr_eq_none.mpr hpk]

theorem laterPortReads_no_comma_left : laterPortReads pc (fuel + 1) pk = some [] := by
  rw [laterPortReads, strchr_eq_none.mpr hpk]

end

theorem one_le_cursorMove (pe : CStr) : 1 ≤ cursorMove pe := by
  rw [cursorMove]
  split <;> omega

theorem cursorMove_le (pe : CStr) : cursorMove pe ≤ pe.length + 1 := by
  rw [cursorMove]
  split <;> omega

/-- Either no comma is left, or there is a first one. -/
theorem comma_cases (pk : CStr) :
    chr ',' ∉ pk ∨ ∃ u pe, pk = u ++ chr ',' :: pe ∧ chr ',' ∉ u := by
  cases hcomma : strchr (chr ',') pk with
  | none => exact Or.inl (strchr_eq_none.mp hcomma)
  | some comma =>
      obtain ⟨u, rfl, hu, pe, rfl⟩ := strchr_eq_some hcomma
      exact Or.inr ⟨u, pe, rfl, hu⟩

/-- The inner loop stores the ports that it reads at these places. -/
theorem laterPortsLoop_eq_reads {pc pk : CStr} {fuel : ℕ} {reads : List CStr}
    (h : laterPortReads pc fuel pk = some reads) (pbmap : BitVec 32) :
    laterPortsLoop pc fuel pk pbmap = reads.foldlM (fun pbmap pe => setPort 28 pe pbmap) pbmap := by
  induction fuel generalizing pk reads pbmap with
  | zero => cases h
  | succ fuel ih =>
      cases comma_cases pk with
      | inl hnone =>
          rw [laterPortReads_no_comma_left fuel hnone, Option.some.injEq] at h
          rw [laterPortsLoop_no_comma_left fuel hnone, ← h]
          rfl
      | inr hcomma =>
          obtain ⟨u, pe, rfl, hu⟩ := hcomma
          rw [laterPortReads_round fuel hu] at h
          rw [laterPortsLoop_round fuel hu]
          by_cases hbehind : pe.length < pc.length
          · rw [if_pos hbehind, Option.some.injEq] at h
            rw [if_pos hbehind, ← h]
            rfl
          · rw [if_neg hbehind] at h ⊢
            simp only [Option.bind_eq_bind, Option.bind_eq_some_iff] at h
            obtain ⟨pk', hpk', reads', hreads', hcons⟩ := h
            cases hcons
            rw [hpk', List.foldlM_cons]
            congr 1
            funext pbmap
            exact ih hreads' pbmap

/-! ## Every comma in front of the colon -/

theorem advance_of_le {n : ℕ} {p : CStr} (h : n ≤ p.length) : advance n p = some (p.drop n) :=
  if_pos h

section

variable {u pe q : CStr}

/-- Behind a text without commas, the next place behind a comma comes first. -/
theorem comma_suffix_iff (hu : chr ',' ∉ u) :
    chr ',' :: q <:+ u ++ chr ',' :: pe ↔ q = pe ∨ chr ',' :: q <:+ pe := by
  induction u with
  | nil => rw [List.nil_append, List.suffix_cons_iff, List.cons.injEq, eq_self_iff_true, true_and]
  | cons b u ih =>
      simp only [List.mem_cons, not_or] at hu
      rw [List.cons_append, List.suffix_cons_iff, ih hu.2, List.cons.injEq]
      simp [hu.1]

/-- The cursor does not pass the comma behind the port that was read. -/
theorem comma_suffix_drop (h : chr ',' :: q <:+ pe) :
    chr ',' :: q <:+ (u ++ chr ',' :: pe).drop (cursorMove pe) := by
  have hwhole : chr ',' :: q <:+ u ++ chr ',' :: pe :=
    h.trans ((List.suffix_cons _ _).trans (List.suffix_append _ _))
  refine List.suffix_of_suffix_length_le hwhole (List.drop_suffix _ _) ?_
  cases comma_cases pe with
  | inl hnone => exact absurd (h.subset List.mem_cons_self) hnone
  | inr hcomma =>
      obtain ⟨x, w, rfl, hx⟩ := hcomma
      have hle : q.length ≤ w.length := by
        cases (comma_suffix_iff hx).mp h with
        | inl heq => rw [heq]
        | inr hlater => exact (Nat.le_succ _).trans hlater.length_le
      rw [cursorMove, strchr_append_cons hx]
      simp only [List.length_drop, List.length_append, List.length_cons]
      omega

end

/-- The places are those behind the commas from `pk` on that stand in front of `pc`. -/
def BehindCommas (pc pk : CStr) (reads : List CStr) : Prop :=
  ∀ q, q ∈ reads ↔ pc.length ≤ q.length ∧ chr ',' :: q <:+ pk

theorem behindCommas_no_comma {pc pk : CStr} (hpk : chr ',' ∉ pk) : BehindCommas pc pk [] := by
  intro q
  simp only [List.not_mem_nil, false_iff, not_and]
  intro _ hq
  exact hpk (hq.subset List.mem_cons_self)

section

variable {pc u pe : CStr} (hu : chr ',' ∉ u)

include hu

/-- The loop stops when the next comma stands behind `pc`. -/
theorem behindCommas_stop (hbehind : pe.length < pc.length) :
    BehindCommas pc (u ++ chr ',' :: pe) [] := by
  intro q
  simp only [List.not_mem_nil, false_iff, not_and, comma_suffix_iff hu]
  intro hlen hq
  cases hq with
  | inl heq =>
      rw [heq] at hlen
      omega
  | inr hlater =>
      have hle := hlater.length_le
      rw [List.length_cons] at hle
      omega

/-- One round reads the next place, and the cursor passes no comma behind it. -/
theorem behindCommas_round {reads : List CStr} (hfront : pc.length ≤ pe.length)
    (hreads : BehindCommas pc ((u ++ chr ',' :: pe).drop (cursorMove pe)) reads) :
    BehindCommas pc (u ++ chr ',' :: pe) (pe :: reads) := by
  intro q
  rw [List.mem_cons, hreads]
  constructor
  · intro h
    cases h with
    | inl hq => exact ⟨hq ▸ hfront, (comma_suffix_iff hu).mpr (Or.inl hq)⟩
    | inr hq => exact ⟨hq.1, hq.2.trans (List.drop_suffix _ _)⟩
  · intro h
    cases (comma_suffix_iff hu).mp h.2 with
    | inl hq => exact Or.inl hq
    | inr hq => exact Or.inr ⟨h.1, comma_suffix_drop hq⟩

end

/-- The inner loop reads behind the commas that stand in front of `pc`, and nowhere else. -/
theorem laterPortReads_spec (pc : CStr) {fuel : ℕ} {pk : CStr} (hfuel : pk.length < fuel) :
    ∃ reads, laterPortReads pc fuel pk = some reads ∧ BehindCommas pc pk reads := by
  induction fuel generalizing pk with
  | zero => omega
  | succ fuel ih =>
      cases comma_cases pk with
      | inl hnone =>
          exact ⟨[], laterPortReads_no_comma_left fuel hnone, behindCommas_no_comma hnone⟩
      | inr hcomma =>
          obtain ⟨u, pe, rfl, hu⟩ := hcomma
          rw [laterPortReads_round fuel hu]
          by_cases hbehind : pe.length < pc.length
          · rw [if_pos hbehind]
            exact ⟨[], rfl, behindCommas_stop hu hbehind⟩
          · rw [if_neg hbehind]
            -- the cursor moves, and stays in the string
            have hpos := one_le_cursorMove pe
            have hle : cursorMove pe ≤ (u ++ chr ',' :: pe).length := by
              have hmove := cursorMove_le pe
              rw [List.length_append, List.length_cons]
              omega
            have hshort : ((u ++ chr ',' :: pe).drop (cursorMove pe)).length < fuel := by
              rw [List.length_drop]
              omega
            obtain ⟨reads, hrun, hreads⟩ := ih hshort
            refine ⟨pe :: reads, ?_, behindCommas_round hu (Nat.le_of_not_lt hbehind) hreads⟩
            rw [bind_of_eq (advance_of_le hle), bind_of_eq hrun]
            rfl

example : (laterPortReads (text ":d;") 10 (text "1,22,3:d;")).map (·.map atoi) =
    some [22, 3, 3] := by decide

/-! ## One round of the outer loop -/

/-- No record such as `1,3:desc;` starts here. -/
def NoRecord (s : CStr) : Prop :=
  ∀ x y rest, chr ':' ∉ x → chr ';' ∉ x → chr ';' ∉ y →
    s ≠ x ++ chr ':' :: (y ++ chr ';' :: rest)

theorem record_cases (s : CStr) :
    NoRecord s ∨ ∃ x y rest, s = x ++ chr ':' :: (y ++ chr ';' :: rest) ∧
      chr ':' ∉ x ∧ chr ';' ∉ x ∧ chr ';' ∉ y := by
  by_cases h : NoRecord s
  · exact Or.inl h
  · simp only [NoRecord, not_forall, not_not] at h
    obtain ⟨x, y, rest, hx, hx', hy, hs⟩ := h
    exact Or.inr ⟨x, y, rest, hs, hx, hx', hy⟩

/-- Without a record the first colon stands behind the first semicolon. -/
theorem NoRecord.order {ps pt pc : CStr} (h : NoRecord ps) (hpt : strchr (chr ';') ps = some pt)
    (hpc : strchr (chr ':') ps = some pc) : pc.length < pt.length := by
  by_contra horder
  obtain ⟨u, hu, hsemicolon, rest, rfl⟩ := strchr_eq_some hpt
  obtain ⟨x, hx, hcolon, v, rfl⟩ := strchr_eq_some hpc
  have hne : chr ';' ≠ chr ':' := by decide
  cases List.append_eq_append_iff.mp (hu.symm.trans hx) with
  | inl hfront =>
      obtain ⟨a, -, ha⟩ := hfront
      have hlen := congrArg List.length ha
      rw [List.length_append] at hlen
      have hnil : a = [] := List.eq_nil_of_length_eq_zero (by omega)
      rw [hnil, List.nil_append, List.cons.injEq] at ha
      exact hne ha.1
  | inr hbehind =>
      obtain ⟨a, rfl, ha⟩ := hbehind
      cases a with
      | nil =>
          rw [List.nil_append, List.cons.injEq] at ha
          exact hne ha.1.symm
      | cons b y =>
          rw [List.cons_append, List.cons.injEq] at ha
          obtain ⟨-, rfl⟩ := ha
          simp only [List.mem_append, List.mem_cons, not_or] at hsemicolon
          exact h x y rest hcolon hsemicolon.1 hsemicolon.2.2 hx

section

variable {B : Build} {voiceConfig : CStr} (fuel : ℕ) (entries : List PortBasedV)

theorem portBasedVlanReads_of_noRecord {ps : CStr} (h : NoRecord ps) :
    portBasedVlanReads (fuel + 1) ps = some [] := by
  rw [portBasedVlanReads]
  cases hpt : strchr (chr ';') ps with
  | none => rfl
  | some pt =>
      cases hpc : strchr (chr ':') ps with
      | none => rfl
      | some pc => exact if_pos (h.order hpt hpc)

theorem portBasedVlanLoop_of_noRecord {ps : CStr} (h : NoRecord ps) :
    portBasedVlanLoop B voiceConfig (fuel + 1) ps entries =
      some (if ps.length = voiceConfig.length then -1 else 0, entries) := by
  rw [portBasedVlanLoop]
  cases hpt : strchr (chr ';') ps with
  | none => rfl
  | some pt =>
      cases hpc : strchr (chr ':') ps with
      | none => rfl
      | some pc => exact if_pos (h.order hpt hpc)

variable {x y rest : CStr} (hx : chr ':' ∉ x) (hx' : chr ';' ∉ x) (hy : chr ';' ∉ y)

include hx' hy in
theorem strchr_semicolon_record :
    strchr (chr ';') (x ++ chr ':' :: (y ++ chr ';' :: rest)) = some (chr ';' :: rest) := by
  have hne : chr ':' ≠ chr ';' := by decide
  rw [strchr_append hx', strchr_cons_of_ne hne, strchr_append_cons hy]

theorem not_colon_behind_semicolon :
    ¬ (chr ':' :: (y ++ chr ';' :: rest)).length < (chr ';' :: rest).length := by
  simp only [List.length_cons, List.length_append]
  omega

include hx hx' hy

theorem portBasedVlanReads_round :
    portBasedVlanReads (fuel + 1) (x ++ chr ':' :: (y ++ chr ';' :: rest)) = (do
      let later ← laterPortReads (chr ':' :: (y ++ chr ';' :: rest))
        ((x ++ chr ':' :: (y ++ chr ';' :: rest)).length + 1)
        (x ++ chr ':' :: (y ++ chr ';' :: rest))
      let records ← portBasedVlanReads fuel rest
      return ⟨chr ':' :: (y ++ chr ';' :: rest), chr ';' :: rest,
        x ++ chr ':' :: (y ++ chr ';' :: rest), later⟩ :: records) := by
  rw [portBasedVlanReads, strchr_semicolon_record hx' hy, strchr_append_cons hx]
  exact if_neg not_colon_behind_semicolon

/-- With the places of the inner loop known, one round stores the record in the first entry. -/
theorem portBasedVlanLoop_round {later : List CStr}
    (hlater : laterPortReads (chr ':' :: (y ++ chr ';' :: rest))
      ((x ++ chr ':' :: (y ++ chr ';' :: rest)).length + 1)
      (x ++ chr ':' :: (y ++ chr ';' :: rest)) = some later) (entry : PortBasedV) :
    portBasedVlanLoop B voiceConfig (fuel + 1) (x ++ chr ':' :: (y ++ chr ';' :: rest))
        (entry :: entries) = (do
      let entry ← RecordReads.store B ⟨chr ':' :: (y ++ chr ';' :: rest), chr ';' :: rest,
        x ++ chr ':' :: (y ++ chr ';' :: rest), later⟩ entry
      let (ret, entries) ← portBasedVlanLoop B voiceConfig fuel rest entries
      return (ret, entry :: entries)) := by
  simp only [portBasedVlanLoop, strchr_semicolon_record hx' hy, strchr_append_cons hx,
    if_neg not_colon_behind_semicolon, laterPortsLoop_eq_reads hlater, RecordReads.store,
    List.head?_cons, List.tail_cons, Option.bind_eq_bind, Option.bind_some, Option.bind_assoc]
  rfl

end

/-- The outer loop stores the records, and returns -1 if it has not moved at all. -/
theorem portBasedVlanLoop_eq_reads {B : Build} {voiceConfig ps : CStr} {fuel : ℕ}
    {records : List RecordReads} (h : portBasedVlanReads fuel ps = some records)
    (hps : ps.length ≤ voiceConfig.length) {entries : List PortBasedV}
    (hroom : records.length ≤ entries.length) :
    portBasedVlanLoop B voiceConfig fuel ps entries =
      (RecordReads.storeAll B records entries).map fun entries =>
        (if records.length = 0 ∧ ps.length = voiceConfig.length then -1 else 0, entries) := by
  induction fuel generalizing ps records entries with
  | zero => cases h
  | succ fuel ih =>
      cases record_cases ps with
      | inl hnone =>
          rw [portBasedVlanReads_of_noRecord fuel hnone, Option.some.injEq] at h
          subst h
          rw [portBasedVlanLoop_of_noRecord fuel entries hnone]
          simp [RecordReads.storeAll]
      | inr hrecord =>
          obtain ⟨x, y, rest, rfl, hx, hx', hy⟩ := hrecord
          rw [portBasedVlanReads_round fuel hx hx' hy] at h
          simp only [Option.bind_eq_bind, Option.bind_eq_some_iff] at h
          obtain ⟨later, hlater, records', hrecords', hcons⟩ := h
          cases hcons
          cases entries with
          | nil => simp at hroom
          | cons entry entries =>
              have hshort : rest.length < voiceConfig.length := by
                simp only [List.length_append, List.length_cons] at hps
                omega
              have hloop := ih hrecords' hshort.le (Nat.le_of_succ_le_succ hroom)
              have hret : ¬ (records'.length = 0 ∧ rest.length = voiceConfig.length) := by omega
              simp only [if_neg hret] at hloop
              rw [portBasedVlanLoop_round fuel entries hx hx' hy hlater, hloop]
              simp [RecordReads.storeAll, Option.map_bind, Option.bind_map]

/-! ## All records -/

/-- The string splits into records up to the first place where none starts. In each of them a port
number is read at its start, and at the places behind the commas in front of its colon. -/
inductive ReadsRecords : CStr → List RecordReads → Prop
  | done {s : CStr} (hs : NoRecord s) : ReadsRecords s []
  | record {x y rest : CStr} {later : List CStr} {records : List RecordReads}
      (hx : chr ':' ∉ x) (hx' : chr ';' ∉ x) (hy : chr ';' ∉ y)
      (hlater : ∀ q, q ∈ later ↔ ∃ a w, x = a ++ chr ',' :: w ∧
        q = w ++ chr ':' :: (y ++ chr ';' :: rest))
      (hrest : ReadsRecords rest records) :
      ReadsRecords (x ++ chr ':' :: (y ++ chr ';' :: rest))
        (⟨chr ':' :: (y ++ chr ';' :: rest), chr ';' :: rest,
          x ++ chr ':' :: (y ++ chr ';' :: rest), later⟩ :: records)

/-- A place behind a comma in front of the colon is one in the port list. -/
theorem suffix_behind_comma_iff {x pc q : CStr} :
    pc.length ≤ q.length ∧ chr ',' :: q <:+ x ++ pc ↔
      ∃ a w, x = a ++ chr ',' :: w ∧ q = w ++ pc := by
  constructor
  · intro h
    have hq : q <:+ x ++ pc := (List.suffix_cons _ _).trans h.2
    obtain ⟨w, rfl⟩ := List.suffix_of_suffix_length_le (List.suffix_append x pc) hq h.1
    have hw : chr ',' :: w <:+ x := List.suffix_append_self_iff.mp h.2
    obtain ⟨a, ha⟩ := hw
    exact ⟨a, w, ha.symm, rfl⟩
  · intro h
    obtain ⟨a, w, rfl, rfl⟩ := h
    constructor
    · rw [List.length_append]
      omega
    · exact List.suffix_append_self_iff.mpr (List.suffix_append a (chr ',' :: w))

/-- The outer loop ends, with the places at which the records are read. -/
theorem portBasedVlanReads_spec {fuel : ℕ} {ps : CStr} (hfuel : ps.length < fuel) :
    ∃ records, portBasedVlanReads fuel ps = some records ∧ ReadsRecords ps records := by
  induction fuel generalizing ps with
  | zero => omega
  | succ fuel ih =>
      cases record_cases ps with
      | inl hnone => exact ⟨[], portBasedVlanReads_of_noRecord fuel hnone, .done hnone⟩
      | inr hrecord =>
          obtain ⟨x, y, rest, rfl, hx, hx', hy⟩ := hrecord
          obtain ⟨later, hlater, hbehind⟩ :=
            laterPortReads_spec (chr ':' :: (y ++ chr ';' :: rest))
              (Nat.lt_succ_self (x ++ chr ':' :: (y ++ chr ';' :: rest)).length)
          have hshort : rest.length < fuel := by
            simp only [List.length_append, List.length_cons] at hfuel
            omega
          obtain ⟨records, hrun, hrecords⟩ := ih hshort
          refine ⟨⟨_, _, _, later⟩ :: records, ?_, .record hx hx' hy ?_ hrecords⟩
          · rw [portBasedVlanReads_round fuel hx hx' hy, bind_of_eq hlater, bind_of_eq hrun]
            rfl
          · intro q
            rw [hbehind, suffix_behind_comma_iff]

/-! ## The stores -/

theorem setPort_isSome {limit : ℕ} (hlimit : limit ≤ 32) {s : CStr} (hs : 0 ≤ atoi s)
    (pbmap : BitVec 32) : ∃ pbmap', setPort limit s pbmap = some pbmap' := by
  rw [setPort]
  split
  next h => exact ⟨_, if_pos ⟨hs, by omega⟩⟩
  next h => exact ⟨_, rfl⟩

theorem foldlM_setPort_isSome {reads : List CStr} (hreads : ∀ q ∈ reads, 0 ≤ atoi q)
    (pbmap : BitVec 32) :
    ∃ pbmap', reads.foldlM (fun pbmap pe => setPort 28 pe pbmap) pbmap = some pbmap' := by
  induction reads generalizing pbmap with
  | nil => exact ⟨pbmap, rfl⟩
  | cons q reads ih =>
      have hlimit : 28 ≤ 32 := by decide
      obtain ⟨pbmap', hset⟩ := setPort_isSome hlimit (hreads q List.mem_cons_self) pbmap
      rw [List.foldlM_cons, bind_of_eq hset]
      exact ih (fun q hq => hreads q (List.mem_cons_of_mem _ hq)) pbmap'

/-- Without negative ports all stores are defined. -/
theorem storeAll_isSome {B : Build} {s : CStr} {records : List RecordReads}
    (h : ReadsRecords s records) (hports : ∀ r ∈ records, ∀ q ∈ r.first :: r.later, 0 ≤ atoi q)
    {p : List PortBasedV} (hroom : records.length ≤ p.length) :
    ∃ entries, RecordReads.storeAll B records p = some entries := by
  induction h generalizing p with
  | done hs => exact ⟨p, rfl⟩
  | @record x y rest later records hx hx' hy hlater hrest ih =>
      cases p with
      | nil => simp at hroom
      | cons entry p =>
          have hfirst := hports _ List.mem_cons_self
          have hlimit : B.PNUM ≤ 32 := B.le_phy.trans (by decide)
          obtain ⟨pbmap, hset⟩ :=
            setPort_isSome hlimit (hfirst _ List.mem_cons_self) entry.pbmap
          obtain ⟨pbmap', hfold⟩ := foldlM_setPort_isSome
            (fun q hq => hfirst q (List.mem_cons_of_mem _ hq)) pbmap
          have hlen : (y.take 31).length ≤ 31 := List.length_take_le 31 y
          obtain ⟨desc, hdesc, -⟩ :=
            @Block.copy_of_le 32 0 (y.take 31) entry.desc (by omega)
          obtain ⟨desc', hdesc', -⟩ := @Block.copy_of_le 32 31 [0] desc (by simp)
          obtain ⟨entries, hstore⟩ := ih
            (fun r hr => hports r (List.mem_cons_of_mem _ hr)) (Nat.le_of_succ_le_succ hroom)
          refine ⟨⟨pbmap', desc'⟩ :: entries, ?_⟩
          simp only [RecordReads.storeAll, RecordReads.store, hset, hfold, hstore,
            Option.bind_eq_bind, Option.bind_some, List.tail_cons, between_append, hdesc, hdesc']
          rfl

/-- For every string the loops end, and a port number is read at the start of each record and
behind each comma in front of its colon, and nowhere else. With an entry for each record the call
stores the ports read there, and only a negative port makes this undefined. -/
theorem bcmPortBasedVlanGet_reads_listed (B : Build) (voiceConfig : CStr) :
    ∃ records, portBasedVlanReads (voiceConfig.length + 1) voiceConfig = some records ∧
      ReadsRecords voiceConfig records ∧
      ∀ p : List PortBasedV, records.length ≤ p.length →
        bcmPortBasedVlanGet B voiceConfig p =
          (RecordReads.storeAll B records p).map
            (fun entries => (if records.length = 0 then -1 else 0, entries)) ∧
        ((∀ r ∈ records, ∀ q ∈ r.first :: r.later, 0 ≤ atoi q) →
          ∃ out, bcmPortBasedVlanGet B voiceConfig p = some out) := by
  obtain ⟨records, hreads, hrecords⟩ :=
    portBasedVlanReads_spec (Nat.lt_succ_self voiceConfig.length)
  refine ⟨records, hreads, hrecords, ?_⟩
  intro p hroom
  have hget : bcmPortBasedVlanGet B voiceConfig p =
      (RecordReads.storeAll B records p).map
        (fun entries => (if records.length = 0 then -1 else 0, entries)) := by
    rw [bcmPortBasedVlanGet, portBasedVlanLoop_eq_reads hreads le_rfl hroom]
    simp only [and_true]
  refine ⟨hget, ?_⟩
  intro hports
  obtain ⟨entries, hstore⟩ := storeAll_isSome hrecords hports hroom
  rw [hget, hstore]
  exact ⟨_, rfl⟩

end BcmUtils.PortVlans
