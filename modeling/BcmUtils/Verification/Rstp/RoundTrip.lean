import BcmUtils.Model.Rstp

/-! # Round trip of the RSTP port settings -/

namespace BcmUtils.Rstp

open CLib

/-- A record of 32-bit integers. -/
structure IsInts (r : CliRstpConf) : Prop where
  pathcost : IsInt r.pathcost
  priority : IsInt r.priority
  p2p : IsInt r.p2p
  edge : IsInt r.edge
  status : IsInt r.status
  bpduGuard : IsInt r.bpduGuard
  bpduFilter : IsInt r.bpduFilter
  guard : IsInt r.guard

/-- The text of all ports. -/
def rstpConfigText (rs : List CliRstpConf) : CStr := rs.flatMap rstpText

theorem rstpConfigText_cons (r : CliRstpConf) (rs : List CliRstpConf) :
    rstpConfigText (r :: rs) = rstpText r ++ rstpConfigText rs := rfl

theorem length_rstpText_le {r : CliRstpConf} (h : IsInts r) : (rstpText r).length ≤ 96 := by
  have h₁ := length_printInt_le h.pathcost
  have h₂ := length_printInt_le h.priority
  have h₃ := length_printInt_le h.p2p
  have h₄ := length_printInt_le h.edge
  have h₅ := length_printInt_le h.status
  have h₆ := length_printInt_le h.bpduGuard
  have h₇ := length_printInt_le h.bpduFilter
  have h₈ := length_printInt_le h.guard
  simp only [rstpText, List.length_append, List.length_cons, List.length_nil]
  omega

theorem setRstpLoop_eq (B : Build) {rs : List CliRstpConf} (h : ∀ r ∈ rs, IsInts r) {s : CStr}
    (hfit : (s ++ rstpConfigText rs).length < 32 * B.PNUM) :
    setRstpLoop B rs s = some (s ++ rstpConfigText rs) := by
  induction rs generalizing s with
  | nil => simp [setRstpLoop, rstpConfigText]
  | cons r rs ih =>
      have hlen := length_rstpText_le (h r (by simp))
      rw [rstpConfigText_cons, ← List.append_assoc] at hfit ⊢
      have hcat : strcat (32 * B.PNUM) s (rstpText r) = some (s ++ rstpText r) := by
        refine strcat_of_lt (lt_of_le_of_lt ?_ hfit)
        simp only [List.length_append]
        omega
      rw [setRstpLoop, bind_of_eq (store_of_lt (by omega)), bind_of_eq hcat]
      exact ih (fun q hq => h q (by simp [hq])) hfit

/-- What is left of a record: the last four fields are lost. -/
def kept (r : CliRstpConf) : CliRstpConf :=
  { r with status := 0, bpduGuard := 0, bpduFilter := 0, guard := 0 }

theorem rstpRecord_append {r : CliRstpConf} (h : IsInts r) (t : CStr) :
    rstpRecord (rstpText r ++ t) = some (kept r) := by
  have hcomma : ∀ v, chr ',' ∉ printInt v := not_mem_printInt (by decide) (by decide)
  have hdigit : isDigit (chr ',') = false := by decide
  simp only [rstpText, List.append_assoc, List.cons_append, rstpRecord,
    strchr_append_cons (hcomma _), incr_cons, atoi_printInt_cons h.pathcost hdigit,
    atoi_printInt_cons h.priority hdigit, atoi_printInt_cons h.p2p hdigit,
    atoi_printInt_cons h.edge hdigit, Option.bind_eq_bind, Option.bind_some]
  rfl

/-- A record ends with its only semicolon. -/
theorem strchr_rstpText_append (r : CliRstpConf) (t : CStr) :
    strchr (chr ';') (rstpText r ++ t) = some (chr ';' :: t) := by
  have hsemi : ∀ v, chr ';' ∉ printInt v := not_mem_printInt (by decide) (by decide)
  have hskip : ∀ v s, strchr (chr ';') (printInt v ++ chr ',' :: s) = strchr (chr ';') s := by
    intro v s
    rw [strchr_append (hsemi v), strchr_cons_of_ne (by decide)]
  simp only [rstpText, List.append_assoc, List.cons_append, hskip, List.nil_append,
    strchr_append_cons (hsemi _)]

theorem getRstpLoop_eq {rs old : List CliRstpConf} (h : ∀ r ∈ rs, IsInts r)
    (hold : old.length = rs.length) :
    getRstpLoop old (rstpConfigText rs) = some (CLI_SUCCESS, rs.map kept) := by
  induction rs generalizing old with
  | nil =>
      obtain rfl := List.eq_nil_of_length_eq_zero hold
      rfl
  | cons r rs ih =>
      obtain ⟨o, old, rfl⟩ := List.exists_cons_of_length_eq_add_one hold
      have hrest := ih (fun q hq => h q (by simp [hq])) (by simpa using hold)
      rw [rstpConfigText_cons, getRstpLoop, strchr_rstpText_append]
      simp only [rstpRecord_append (h r (by simp)), incr_cons, hrest, Option.bind_eq_bind,
        Option.bind_some]
      rfl

/-- A record survives exactly if the four fields that are not read are zero. -/
theorem kept_eq_iff (r : CliRstpConf) :
    kept r = r ↔ r.status = 0 ∧ r.bpduGuard = 0 ∧ r.bpduFilter = 0 ∧ r.guard = 0 := by
  cases r
  simp [kept, eq_comm]

theorem map_kept_eq_iff (rs : List CliRstpConf) :
    rs.map kept = rs ↔
      ∀ r ∈ rs, r.status = 0 ∧ r.bpduGuard = 0 ∧ r.bpduFilter = 0 ∧ r.guard = 0 := by
  induction rs with
  | nil => simp
  | cons r rs ih =>
      rw [List.map_cons, List.cons.injEq, ih, kept_eq_iff, List.forall_mem_cons]

/-- Storing the settings and reading them into any struct gives them back. -/
def RoundTrip (B : Build) (rs : PortArray B CliRstpConf) (nv : Nvram) : Prop :=
  ∃ nv', cliNvramConfSetRstp B rs nv = some (CLI_SUCCESS, nv') ∧
    ∀ old, cliNvramConfGetRstp B nv' old = some (CLI_SUCCESS, rs.1, nv')

/-- Whatever the fields hold, the set succeeds and the get returns what is kept of them. -/
theorem set_get (B : Build) (rs : PortArray B CliRstpConf) (h : ∀ r ∈ rs.1, IsInts r)
    (hfit : (rstpConfigText rs.1).length < 32 * B.PNUM) (nv : Nvram) :
    ∃ nv', cliNvramConfSetRstp B rs nv = some (CLI_SUCCESS, nv') ∧
      ∀ old, cliNvramConfGetRstp B nv' old = some (CLI_SUCCESS, rs.1.map kept, nv') := by
  have hphy := B.le_phy
  have hloop := setRstpLoop_eq B h (s := []) hfit
  have hname : (text "rstp_config").length = 11 := by decide
  have hstore := @scfgmgrSet_of_lt (text "rstp_config") (rstpConfigText rs.1) nv
    (by rw [List.length_append, List.length_cons]; omega)
  refine ⟨Function.update nv (text "rstp_config") (rstpConfigText rs.1), ?_, ?_⟩
  · rw [cliNvramConfSetRstp, bind_of_eq hloop, List.nil_append, bind_of_eq hstore]
    rfl
  · intro old
    have hne : rstpConfigText rs.1 ≠ [] := by
      have hpos := B.one_le
      obtain ⟨r, rest, hrs⟩ := List.exists_cons_of_length_pos (l := rs.1) (by have := rs.2; omega)
      simp [hrs, rstpConfigText_cons, rstpText]
    have hread := getRstpLoop_eq h (old.2.trans rs.2.symm)
    unfold cliNvramConfGetRstp
    apply (bind_of_eq (cliNvramSafeGet_update B .rstpConfig hne (text "rstp_config") nv) _).trans
    apply (bind_of_eq hread _).trans
    rfl

/-- The settings come back exactly if the four fields that are not read are zero at every
port. -/
theorem rstp_round_trip_iff (B : Build) (rs : PortArray B CliRstpConf) (h : ∀ r ∈ rs.1, IsInts r)
    (hfit : (rstpConfigText rs.1).length < 32 * B.PNUM) (nv : Nvram) :
    RoundTrip B rs nv ↔
      ∀ r ∈ rs.1, r.status = 0 ∧ r.bpduGuard = 0 ∧ r.bpduFilter = 0 ∧ r.guard = 0 := by
  obtain ⟨nv', hset, hget⟩ := set_get B rs h hfit nv
  rw [← map_kept_eq_iff]
  constructor
  · rintro ⟨nv'', hset', hget'⟩
    obtain rfl : nv' = nv'' := by simpa [hset] using hset'
    simpa [hget rs] using hget' rs
  · intro hkept
    exact ⟨nv', hset, fun old => by rw [hget old, hkept]⟩

theorem rstp_round_trip_iff_one :
    RoundTrip ⟨1, 0, 0, by decide, by decide⟩ ⟨[⟨200000, 128, 2, 1, 0, 0, 0, 0⟩], rfl⟩
        (fun _ => []) ↔
      ∀ r ∈ [(⟨200000, 128, 2, 1, 0, 0, 0, 0⟩ : CliRstpConf)],
        r.status = 0 ∧ r.bpduGuard = 0 ∧ r.bpduFilter = 0 ∧ r.guard = 0 := by
  refine rstp_round_trip_iff ⟨1, 0, 0, by decide, by decide⟩
    ⟨[⟨200000, 128, 2, 1, 0, 0, 0, 0⟩], rfl⟩ ?_ (by decide) (fun _ => [])
  intro r hr
  obtain rfl := List.mem_singleton.mp hr
  constructor <;> decide

/-- One port with an active BPDU guard, which the next get switches off. -/
theorem rstp_bpdu_guard_lost :
    (∀ r ∈ [(⟨0, 128, 2, 0, 0, 1, 0, 0⟩ : CliRstpConf)], IsInts r) ∧
      (rstpConfigText [⟨0, 128, 2, 0, 0, 1, 0, 0⟩]).length < 32 ∧
      ¬ RoundTrip ⟨1, 0, 0, by decide, by decide⟩ ⟨[⟨0, 128, 2, 0, 0, 1, 0, 0⟩], rfl⟩
        (fun _ => []) := by
  have hints : ∀ r ∈ [(⟨0, 128, 2, 0, 0, 1, 0, 0⟩ : CliRstpConf)], IsInts r := by
    intro r hr
    obtain rfl := List.mem_singleton.mp hr
    constructor <;> decide
  refine ⟨hints, by decide, ?_⟩
  rintro ⟨nv, hset, hget⟩
  obtain ⟨nv', hset', hget'⟩ := set_get ⟨1, 0, 0, by decide, by decide⟩
    ⟨[⟨0, 128, 2, 0, 0, 1, 0, 0⟩], rfl⟩ hints (by decide) (fun _ => [])
  obtain rfl : nv' = nv := by simpa [hset'] using hset
  have := (hget' ⟨[⟨0, 128, 2, 0, 0, 1, 0, 0⟩], rfl⟩).symm.trans (hget _)
  simp [kept] at this

end BcmUtils.Rstp
