import Mathlib.Tactic

/-! # Groups of named values

A store has values under names, and every call belongs to a group of names: it reads all of them,
after missing values have been filled in and stored, or it replaces all of them, or it fails and
leaves them. Calls of groups that share no name do not disturb each other, and a reader gets what
was stored last. -/

namespace CLib

theorem mapM_eq_some_iff {α β : Type} {f : α → Option β} {as : List α} {bs : List β} :
    as.mapM f = some bs ↔ List.Forall₂ (fun a b => f a = some b) as bs := by
  induction as generalizing bs with
  | nil => cases bs <;> simp
  | cons a as ih =>
      simp only [List.mapM_cons, Option.bind_eq_bind, Option.bind_eq_some_iff, Option.pure_def,
        Option.some.injEq]
      constructor
      · rintro ⟨b, hb, bs', hbs', rfl⟩
        exact .cons hb (ih.mp hbs')
      · rintro (_ | ⟨hb, hbs⟩)
        exact ⟨_, hb, _, ih.mpr hbs, rfl⟩

variable {κ ν β γ τ : Type}

/-- The names of a group and how a value that is missing is filled in. -/
structure Names (κ ν : Type) where
  keys : List κ
  nodup : keys.Nodup
  fill : κ → ν → Option ν
  fill_fill : ∀ k v v', fill k v = some v' → fill k v' = some v'

namespace Names

variable (N : Names κ ν)

/-- The values of the group, each filled in if it is missing. -/
def find (s : κ → ν) : Option (List ν) := N.keys.mapM fun k => N.fill k (s k)

/-- Two stores have the same values in a group. -/
def Agree (s s' : κ → ν) : Prop := ∀ k ∈ N.keys, s k = s' k

variable {N}

theorem Agree.find_eq {s s' : κ → ν} (h : N.Agree s s') : N.find s = N.find s' := by
  unfold Agree at h
  unfold find
  generalize N.keys = ks at h ⊢
  induction ks with
  | nil => rfl
  | cons k ks ih =>
      rw [List.mapM_cons, List.mapM_cons, h k List.mem_cons_self,
        ih fun k' hk' => h k' (List.mem_cons_of_mem _ hk')]

theorem length_find {s : κ → ν} {vs : List ν} (h : N.find s = some vs) :
    vs.length = N.keys.length :=
  (mapM_eq_some_iff.mp h).length_eq.symm

end Names

/-! ## Calls -/

/-- A call of a group: it makes its result from the values, or it has a result and replaces the
values, or it has a result only. A call may be undefined. -/
inductive GroupCall (ν β : Type)
  | get (parse : List ν → Option β)
  | set (values : Option (β × List ν))
  | fail (b : β)

namespace GroupCall

def Replaces : GroupCall ν β → Prop
  | get _ => False
  | set _ => True
  | fail _ => False

/-- A call that replaces the values has one for each name. -/
def Complete (N : Names κ ν) : GroupCall ν β → Prop
  | get _ => True
  | set values => ∀ b vs, values = some (b, vs) → vs.length = N.keys.length
  | fail _ => True

end GroupCall

variable [DecidableEq κ]

/-! ## Stores -/

/-- Store values under names. -/
def storeAll : List κ → List ν → (κ → ν) → κ → ν
  | k :: ks, v :: vs, s => storeAll ks vs (Function.update s k v)
  | _, _, s => s

theorem storeAll_of_not_mem {k : κ} {ks : List κ} (h : k ∉ ks) (vs : List ν) (s : κ → ν) :
    storeAll ks vs s k = s k := by
  induction ks generalizing vs s with
  | nil => cases vs <;> rfl
  | cons k' ks ih =>
      rw [List.mem_cons, not_or] at h
      cases vs with
      | nil => rfl
      | cons v vs => rw [storeAll, ih h.2, Function.update_of_ne h.1]

theorem storeAll_congr {ks : List κ} {vs : List ν} (hlen : vs.length = ks.length) {k : κ}
    (hk : k ∈ ks) (s s' : κ → ν) : storeAll ks vs s k = storeAll ks vs s' k := by
  induction ks generalizing vs s s' with
  | nil => cases hk
  | cons k' ks ih =>
      cases vs with
      | nil => simp at hlen
      | cons v vs =>
          rw [storeAll, storeAll]
          by_cases hmem : k ∈ ks
          · exact ih (by simpa using hlen) hmem _ _
          · obtain rfl : k = k' := (List.mem_cons.mp hk).resolve_right hmem
            rw [storeAll_of_not_mem hmem, storeAll_of_not_mem hmem, Function.update_self,
              Function.update_self]

/-- What has been stored under different names stands there. -/
theorem forall₂_storeAll {Q : κ → ν → Prop} {ks : List κ} {vs : List ν} (hnodup : ks.Nodup)
    (h : List.Forall₂ Q ks vs) (s : κ → ν) :
    List.Forall₂ (fun k v => Q k v ∧ storeAll ks vs s k = v) ks vs := by
  induction h generalizing s with
  | nil => exact .nil
  | @cons k v ks vs hk _ ih =>
      obtain ⟨hmem, hnodup⟩ := List.nodup_cons.mp hnodup
      refine .cons ⟨hk, ?_⟩ (ih hnodup _)
      rw [storeAll, storeAll_of_not_mem hmem, Function.update_self]

/-- What has been filled in is found again. -/
theorem Names.find_storeAll {N : Names κ ν} {s : κ → ν} {vs : List ν} (h : N.find s = some vs) :
    N.find (storeAll N.keys vs s) = some vs := by
  refine mapM_eq_some_iff.mpr ?_
  refine (forall₂_storeAll N.nodup (mapM_eq_some_iff.mp h) s).imp fun k v hk => ?_
  rw [hk.2]
  exact N.fill_fill k _ v hk.1

namespace GroupCall

/-- A call on the store. -/
def run (N : Names κ ν) (s : κ → ν) : GroupCall ν β → Option (β × (κ → ν))
  | get parse => do
      let vs ← N.find s
      let b ← parse vs
      return (b, storeAll N.keys vs s)
  | set values => do
      let (b, vs) ← values
      return (b, storeAll N.keys vs s)
  | fail b => some (b, s)

variable {N : Names κ ν} {x : GroupCall ν β} {s s₀ s' : κ → ν} {b : β}

theorem run_get {parse : List ν → Option β} :
    (get parse).run N s = some (b, s') ↔
      ∃ vs, N.find s = some vs ∧ parse vs = some b ∧ storeAll N.keys vs s = s' := by
  simp only [run, Option.bind_eq_bind, Option.bind_eq_some_iff, Option.pure_def,
    Option.some.injEq, Prod.mk.injEq]
  constructor
  · rintro ⟨vs, hvs, b', hb', rfl, rfl⟩
    exact ⟨vs, hvs, hb', rfl⟩
  · rintro ⟨vs, hvs, hb, rfl⟩
    exact ⟨vs, hvs, b, hb, rfl, rfl⟩

theorem run_set {values : Option (β × List ν)} :
    (set values).run N s = some (b, s') ↔
      ∃ vs, values = some (b, vs) ∧ storeAll N.keys vs s = s' := by
  simp only [run, Option.bind_eq_bind, Option.bind_eq_some_iff, Option.pure_def, Prod.exists,
    Option.some.injEq, Prod.mk.injEq]
  constructor
  · rintro ⟨b', vs, hvalues, rfl, rfl⟩
    exact ⟨vs, hvalues, rfl⟩
  · rintro ⟨vs, hvalues, rfl⟩
    exact ⟨b, vs, hvalues, rfl, rfl⟩

theorem run_fail {b' : β} : (fail b').run N s = some (b, s') ↔ b' = b ∧ s = s' := by
  simp only [run, Option.some.injEq, Prod.mk.injEq]

/-- A call leaves all other names alone. -/
theorem run_frame (h : x.run N s = some (b, s')) {k : κ} (hk : k ∉ N.keys) : s' k = s k := by
  cases x with
  | fail b' =>
      obtain ⟨rfl, rfl⟩ := run_fail.mp h
      rfl
  | get parse =>
      obtain ⟨vs, -, -, rfl⟩ := run_get.mp h
      exact storeAll_of_not_mem hk vs s
  | set values =>
      obtain ⟨vs, -, rfl⟩ := run_set.mp h
      exact storeAll_of_not_mem hk vs s

/-- A call that replaces the values does not depend on the store. -/
theorem run_of_replaces (hx : x.Replaces) (hfits : x.Complete N) (h : x.run N s = some (b, s'))
    (s₀ : κ → ν) : ∃ s₁, x.run N s₀ = some (b, s₁) ∧ N.Agree s' s₁ := by
  cases x with
  | get parse => exact hx.elim
  | fail b' => exact hx.elim
  | set values =>
      obtain ⟨vs, hvalues, rfl⟩ := run_set.mp h
      have hlen := hfits b vs hvalues
      exact ⟨_, run_set.mpr ⟨vs, hvalues, rfl⟩, fun k hk => storeAll_congr hlen hk s s₀⟩

/-- A call depends on the values of its own group only. -/
theorem run_agree (hfits : x.Complete N) (h : x.run N s = some (b, s')) (hs : N.Agree s s₀) :
    ∃ s₁, x.run N s₀ = some (b, s₁) ∧ N.Agree s' s₁ := by
  cases x with
  | set values => exact run_of_replaces (x := set values) trivial hfits h s₀
  | fail b' =>
      obtain ⟨rfl, rfl⟩ := run_fail.mp h
      exact ⟨s₀, rfl, hs⟩
  | get parse =>
      obtain ⟨vs, hvs, hb, rfl⟩ := run_get.mp h
      have hlen := Names.length_find hvs
      rw [hs.find_eq] at hvs
      exact ⟨_, run_get.mpr ⟨vs, hvs, hb, rfl⟩, fun k hk => storeAll_congr hlen hk s s₀⟩

/-- A call that does not replace the values does not change what is found. -/
theorem find_of_not_replaces (hx : ¬ x.Replaces) (h : x.run N s = some (b, s')) :
    N.find s' = N.find s := by
  cases x with
  | set values => exact absurd trivial hx
  | fail b' =>
      obtain ⟨rfl, rfl⟩ := run_fail.mp h
      rfl
  | get parse =>
      obtain ⟨vs, hvs, -, rfl⟩ := run_get.mp h
      rw [hvs, Names.find_storeAll hvs]

/-- A call that does not replace the values depends on what is found only. -/
theorem run_of_find_eq (hx : ¬ x.Replaces) (h : x.run N s = some (b, s'))
    (hs : N.find s₀ = N.find s) : ∃ s₁, x.run N s₀ = some (b, s₁) := by
  cases x with
  | set values => exact absurd trivial hx
  | fail b' =>
      obtain ⟨rfl, rfl⟩ := run_fail.mp h
      exact ⟨s₀, rfl⟩
  | get parse =>
      obtain ⟨vs, hvs, hb, -⟩ := run_get.mp h
      exact ⟨_, run_get.mpr ⟨vs, hs ▸ hvs, hb, rfl⟩⟩

end GroupCall

/-! ## Runs -/

/-- Calls one after the other, with their results. -/
def runAll {σ : Type} (step : γ → σ → Option (β × σ)) :
    List γ → σ → Option (List (γ × β) × σ)
  | [], s => some ([], s)
  | c :: cs, s => do
      let (b, s) ← step c s
      let (log, s) ← runAll step cs s
      return ((c, b) :: log, s)

theorem runAll_cons {σ : Type} {step : γ → σ → Option (β × σ)} {c : γ} {cs : List γ} {s s' : σ}
    {log : List (γ × β)} :
    runAll step (c :: cs) s = some (log, s') ↔
      ∃ b s₁ log', step c s = some (b, s₁) ∧ runAll step cs s₁ = some (log', s') ∧
        log = (c, b) :: log' := by
  simp only [runAll, Option.bind_eq_bind, Option.bind_eq_some_iff, Option.pure_def, Prod.exists,
    Option.some.injEq, Prod.mk.injEq]
  constructor
  · rintro ⟨b, s₁, hstep, log', s₂, hrest, rfl, rfl⟩
    exact ⟨b, s₁, log', hstep, hrest, rfl⟩
  · rintro ⟨b, s₁, log', hstep, hrest, rfl⟩
    exact ⟨b, s₁, hstep, log', s', hrest, rfl, rfl⟩

/-- The log starts with the first step. -/
theorem runAll_of_cons {σ : Type} {step : γ → σ → Option (β × σ)} {cs : List γ} {s s' : σ}
    {r : γ × β} {log : List (γ × β)} (h : runAll step cs s = some (r :: log, s')) :
    ∃ ds s₁, step r.1 s = some (r.2, s₁) ∧ runAll step ds s₁ = some (log, s') := by
  cases cs with
  | nil => cases h
  | cons c ds =>
      obtain ⟨b, s₁, log', hstep, hrest, hlog⟩ := runAll_cons.mp h
      obtain ⟨rfl, rfl⟩ := List.cons.inj hlog
      exact ⟨ds, s₁, hstep, hrest⟩

/-- A part of the log is the log of a part of the run. -/
theorem runAll_append {σ : Type} {step : γ → σ → Option (β × σ)} {cs : List γ} {s s' : σ}
    {log₁ log₂ : List (γ × β)} (h : runAll step cs s = some (log₁ ++ log₂, s')) :
    ∃ cs₁ cs₂ s₁, runAll step cs₁ s = some (log₁, s₁) ∧ runAll step cs₂ s₁ = some (log₂, s') := by
  induction log₁ generalizing cs s with
  | nil => exact ⟨[], cs, s, rfl, h⟩
  | cons r log₁ ih =>
      obtain ⟨ds, s₀, hstep, hrest⟩ := runAll_of_cons h
      obtain ⟨cs₁, cs₂, s₁, h₁, h₂⟩ := ih hrest
      exact ⟨r.1 :: cs₁, cs₂, s₁, runAll_cons.mpr ⟨r.2, s₀, log₁, hstep, h₁, rfl⟩, h₂⟩

/-- The calls of a log with their results are steps. -/
theorem runAll_mem {σ : Type} {step : γ → σ → Option (β × σ)} {cs : List γ} {s s' : σ}
    {log : List (γ × β)} (h : runAll step cs s = some (log, s')) {r : γ × β} (hr : r ∈ log) :
    ∃ s₁ s₂, step r.1 s₁ = some (r.2, s₂) := by
  induction cs generalizing s log with
  | nil =>
      cases h
      cases hr
  | cons c cs ih =>
      obtain ⟨b, s₀, log', hstep, hrest, rfl⟩ := runAll_cons.mp h
      cases hr with
      | head => exact ⟨s, s₀, hstep⟩
      | tail _ hr => exact ih hrest hr

section Runs

variable {N : τ → Names κ ν} {kind : γ → τ} {call : γ → GroupCall ν β}
  {step : γ → (κ → ν) → Option (β × (κ → ν))} {t : τ} {s s₀ s' : κ → ν} {log : List (γ × β)}

/-- Every call is one of a group, and no two groups share a name. -/
structure Grouped (N : τ → Names κ ν) (kind : γ → τ) (call : γ → GroupCall ν β)
    (step : γ → (κ → ν) → Option (β × (κ → ν))) : Prop where
  step_eq : ∀ c s, step c s = (call c).run (N (kind c)) s
  complete : ∀ c, (call c).Complete (N (kind c))
  disjoint : ∀ t t' k, k ∈ (N t).keys → k ∈ (N t').keys → t = t'

theorem Grouped.step_frame (G : Grouped N kind call step) {c : γ} {b : β}
    (h : step c s = some (b, s')) (hc : kind c ≠ t) : (N t).Agree s' s := by
  intro k hk
  rw [G.step_eq] at h
  exact GroupCall.run_frame h fun hmem => hc (G.disjoint _ _ k hmem hk)

/-- The calls of one group give the same results, and leave the same values in the group, without
the calls of the other groups. -/
theorem Grouped.project [DecidableEq τ] (G : Grouped N kind call step) {cs : List γ}
    (h : runAll step cs s = some (log, s')) (hs : (N t).Agree s s₀) :
    ∃ s₁, runAll step (cs.filter (kind · = t)) s₀ = some (log.filter (kind ·.1 = t), s₁) ∧
      (N t).Agree s' s₁ := by
  induction cs generalizing s s₀ log with
  | nil =>
      cases h
      exact ⟨s₀, rfl, hs⟩
  | cons c cs ih =>
      obtain ⟨b, s₂, log', hstep, hrest, rfl⟩ := runAll_cons.mp h
      by_cases hc : kind c = t
      · subst hc
        rw [G.step_eq] at hstep
        obtain ⟨s₃, hstep', hagree⟩ := GroupCall.run_agree (G.complete c) hstep hs
        obtain ⟨s₁, hrun, hs₁⟩ := ih hrest hagree
        refine ⟨s₁, ?_, hs₁⟩
        rw [List.filter_cons_of_pos (by simp), List.filter_cons_of_pos (by simp)]
        exact runAll_cons.mpr ⟨b, s₃, _, by rw [G.step_eq]; exact hstep', hrun, rfl⟩
      · have hframe := G.step_frame hstep hc
        obtain ⟨s₁, hrun, hs₁⟩ := ih hrest fun k hk => (hframe k hk).trans (hs k hk)
        refine ⟨s₁, ?_, hs₁⟩
        rw [List.filter_cons_of_neg (by simpa using hc), List.filter_cons_of_neg (by simpa using hc)]
        exact hrun

/-- Without a call that replaces the values of a group, what is found in it stays the same. -/
theorem Grouped.find_eq (G : Grouped N kind call step) {cs : List γ}
    (h : runAll step cs s = some (log, s'))
    (hlog : ∀ r ∈ log, kind r.1 = t → ¬ (call r.1).Replaces) : (N t).find s' = (N t).find s := by
  induction cs generalizing s log with
  | nil =>
      cases h
      rfl
  | cons c cs ih =>
      obtain ⟨b, s₁, log', hstep, hrest, rfl⟩ := runAll_cons.mp h
      rw [ih hrest fun r hr => hlog r (List.mem_cons_of_mem _ hr)]
      by_cases hc : kind c = t
      · subst hc
        rw [G.step_eq] at hstep
        exact GroupCall.find_of_not_replaces (hlog (c, b) List.mem_cons_self rfl) hstep
      · exact (G.step_frame hstep hc).find_eq

/-- A call that reads a group gets what it would get right behind the last call that has replaced
the values, in whatever store. -/
theorem Grouped.last (G : Grouped N kind call step) {cs : List γ} {log₁ log₂ : List (γ × β)}
    {c d : γ} {b b' : β} (hc : (call c).Replaces) (hd : ¬ (call d).Replaces)
    (hkind : kind d = kind c)
    (hlog : ∀ r ∈ log₂, kind r.1 = kind c → ¬ (call r.1).Replaces)
    (h : runAll step cs s = some (log₁ ++ (c, b) :: (log₂ ++ [(d, b')]), s')) (s₀ : κ → ν) :
    ∃ s₁, runAll step [c, d] s₀ = some ([(c, b), (d, b')], s₁) := by
  obtain ⟨_, _, s₁, -, hfrom⟩ := runAll_append h
  obtain ⟨_, s₂, hset, hrest⟩ := runAll_of_cons hfrom
  obtain ⟨_, _, s₃, hbetween, hend⟩ := runAll_append hrest
  obtain ⟨_, s₄, hget, -⟩ := runAll_of_cons hend
  rw [G.step_eq] at hset hget
  obtain ⟨s₅, hset₀, hagree⟩ := GroupCall.run_of_replaces hc (G.complete c) hset s₀
  have hfind : (N (kind c)).find s₃ = (N (kind c)).find s₅ :=
    (G.find_eq hbetween hlog).trans hagree.find_eq
  rw [← hkind] at hfind
  obtain ⟨s₆, hget₀⟩ := GroupCall.run_of_find_eq hd hget hfind.symm
  refine ⟨s₆, runAll_cons.mpr ⟨b, s₅, _, by rw [G.step_eq]; exact hset₀, ?_, rfl⟩⟩
  exact runAll_cons.mpr ⟨b', s₆, _, by rw [G.step_eq]; exact hget₀, rfl, rfl⟩

end Runs

end CLib
