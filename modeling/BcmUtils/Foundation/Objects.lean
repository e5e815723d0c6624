import BcmUtils.Foundation.Processes

/-! # Objects and their callers

Processes make calls on a server that they share. A call is the tree of its requests; the
requests of different processes come in any order, and a process may end at any time. The calls
of an atomic object take effect at one moment each. A simulation shows that the callers of the
server see nothing that callers of the atomic object could not see. -/

namespace CLib

/-- What the callers see. -/
inductive Seen (P κ β : Type)
  | called (p : P) (c : κ)
  | returned (p : P) (c : κ) (b : β)
  | ended (p : P)

/-- What happens next: a process makes a call, the next request of its call is served with the
outcome `w`, the call returns, or the process ends. -/
inductive Happening (P κ ω : Type)
  | call (p : P) (c : κ)
  | turn (p : P) (w : ω)
  | ret (p : P)
  | stop (p : P)

/-- The calls under way with how far they have come, the state of the server, and what has been
seen, the last thing first. -/
structure World (P κ γ β σ : Type) where
  pending : P → Option (κ × γ)
  state : σ
  seen : List (Seen P κ β)

/-- Nobody has made a call. -/
def World.start {P κ γ β σ : Type} (s : σ) : World P κ γ β σ := ⟨fun _ => none, s, []⟩

variable {P κ ρ α β σ τ ω M : Type} [DecidableEq P]

/-- What the calls do, how requests are served, and what the end of a process does. An outcome
that is not possible is refused. -/
structure Server (P κ ρ α β σ ω : Type) where
  body : P → κ → Proc ρ α β
  serve : P → σ → ρ → ω → Option (α × σ)
  stop : P → σ → σ

/-- One thing happens, if it can. -/
def Server.step (S : Server P κ ρ α β σ ω) (w : World P κ (Proc ρ α β) β σ) :
    Happening P κ ω → Option (World P κ (Proc ρ α β) β σ)
  | .call p c =>
      match w.pending p with
      | none =>
          some ⟨Function.update w.pending p (some (c, S.body p c)), w.state, .called p c :: w.seen⟩
      | some _ => none
  | .turn p o =>
      match w.pending p with
      | some (c, .ask q k) =>
          (S.serve p w.state q o).map fun r =>
            ⟨Function.update w.pending p (some (c, k r.1)), r.2, w.seen⟩
      | _ => none
  | .ret p =>
      match w.pending p with
      | some (c, .done b) =>
          some ⟨Function.update w.pending p none, w.state, .returned p c b :: w.seen⟩
      | _ => none
  | .stop p => some ⟨Function.update w.pending p none, S.stop p w.state, .ended p :: w.seen⟩

/-- What a process has in hand after a change to one of them. -/
theorem update_eq_some {X : Type} {f : P → Option X} {p q : P} {y : Option X} {x : X}
    (h : Function.update f p y q = some x) : q = p ∧ y = some x ∨ f q = some x := by
  by_cases hq : q = p
  · subst hq
    exact .inl ⟨rfl, by simpa using h⟩
  · exact .inr (by rwa [Function.update_of_ne hq] at h)

/-! ## Atomic objects -/

/-- How a call may take effect, and what may be left when a process ends, with its call if that
has not taken effect. -/
structure Atomic (P κ β τ : Type) where
  effect : P → τ → κ → β → τ → Prop
  ends : P → τ → Option κ → τ → Prop

/-- The call of a process if it has not taken effect. -/
def noEffectYet : Option (κ × Option β) → Option κ
  | some (c, none) => some c
  | _ => none

/-- The steps of the callers of an atomic object. -/
inductive Atomic.Step (A : Atomic P κ β τ) :
    World P κ (Option β) β τ → World P κ (Option β) β τ → Prop
  | call (w) (p : P) (c : κ) (h : w.pending p = none) :
      A.Step w ⟨Function.update w.pending p (some (c, none)), w.state, .called p c :: w.seen⟩
  | effect (w) (p : P) (c : κ) (b : β) (t : τ) (h : w.pending p = some (c, none))
      (heffect : A.effect p w.state c b t) :
      A.Step w ⟨Function.update w.pending p (some (c, some b)), t, w.seen⟩
  | ret (w) (p : P) (c : κ) (b : β) (h : w.pending p = some (c, some b)) :
      A.Step w ⟨Function.update w.pending p none, w.state, .returned p c b :: w.seen⟩
  | stop (w) (p : P) (t : τ) (h : A.ends p w.state (noEffectYet (w.pending p)) t) :
      A.Step w ⟨Function.update w.pending p none, t, .ended p :: w.seen⟩

/-- What can happen to an atomic object and its callers. -/
abbrev Atomic.Run (A : Atomic P κ β τ) :
    World P κ (Option β) β τ → World P κ (Option β) β τ → Prop :=
  Relation.ReflTransGen A.Step

/-- What holds at first and is kept by every step holds after every run. -/
theorem Atomic.Run.invariant {A : Atomic P κ β τ} {I : World P κ (Option β) β τ → Prop}
    (hstep : ∀ v v', I v → A.Step v v' → I v') {v v' : World P κ (Option β) β τ}
    (h : A.Run v v') (hv : I v) : I v' := by
  induction h with
  | refl => exact hv
  | tail _ hlast ih => exact hstep _ _ ih hlast

/-- An object that can do more has more runs. -/
theorem Atomic.Run.mono {A B : Atomic P κ β τ}
    (heffect : ∀ p t c b t', A.effect p t c b t' → B.effect p t c b t')
    (hends : ∀ p t c t', A.ends p t c t' → B.ends p t c t') {v v' : World P κ (Option β) β τ}
    (h : A.Run v v') : B.Run v v' := by
  induction h with
  | refl => exact .refl
  | tail _ hlast ih =>
      refine ih.tail ?_
      cases hlast with
      | call p c h => exact .call _ p c h
      | effect p c b t h heff => exact .effect _ p c b t h (heffect _ _ _ _ _ heff)
      | ret p c b h => exact .ret _ p c b h
      | stop p t h => exact .stop _ p t (hends _ _ _ _ h)

/-! ## Simulations -/

/-- Every call under way is at a stage, which says whether it has taken effect, and the stages
tie the state of the server to that of the object. -/
structure Simulation (S : Server P κ ρ α β σ ω) (A : Atomic P κ β τ) (M : Type) where
  /-- How the stages of the calls, the server and the object belong together. -/
  Inv : (P → Option (κ × M)) → σ → τ → Prop
  /-- What may be left of a call at a stage. -/
  Left : P → κ → M → Proc ρ α β → Prop
  first : P → κ → M
  /-- What a call that has taken effect will return. -/
  result : κ → M → Option β
  left_first : ∀ p c, Left p c (first p c) (S.body p c)
  result_first : ∀ p c, result c (first p c) = none
  call : ∀ stages s t p c, Inv stages s t → stages p = none →
    Inv (Function.update stages p (some (c, first p c))) s t
  turn : ∀ stages s t p c m q k o a s', Inv stages s t → stages p = some (c, m) →
    Left p c m (.ask q k) → S.serve p s q o = some (a, s') →
    ∃ m' t', Left p c m' (k a) ∧ Inv (Function.update stages p (some (c, m'))) s' t' ∧
      (result c m' = result c m ∧ t' = t ∨
        ∃ b, result c m = none ∧ result c m' = some b ∧ A.effect p t c b t')
  ret : ∀ stages s t p c m b, Inv stages s t → stages p = some (c, m) → Left p c m (.done b) →
    (result c m = some b ∨ result c m = none ∧ A.effect p t c b t) ∧
      Inv (Function.update stages p none) s t
  stop : ∀ stages s t p, Inv stages s t →
    ∃ t', Inv (Function.update stages p none) (S.stop p s) t' ∧
      A.ends p t (noEffectYet ((stages p).map fun x => (x.1, result x.1 x.2))) t'

namespace Simulation

variable {S : Server P κ ρ α β σ ω} {A : Atomic P κ β τ} (F : Simulation S A M)

/-- The call of a process and the stage that it is at. -/
inductive Tracks (p : P) : Option (κ × Proc ρ α β) → Option (κ × M) → Prop
  | idle : Tracks p none none
  | busy (c : κ) (m : M) (x : Proc ρ α β) (h : F.Left p c m x) :
      Tracks p (some (c, x)) (some (c, m))

/-- The worlds of the server and of the object belong together. -/
structure Related (w : World P κ (Proc ρ α β) β σ) (v : World P κ (Option β) β τ) where
  stages : P → Option (κ × M)
  tracks : ∀ p, F.Tracks p (w.pending p) (stages p)
  pending : ∀ p, v.pending p = (stages p).map fun x => (x.1, F.result x.1 x.2)
  inv : F.Inv stages w.state v.state
  seen : v.seen = w.seen

variable {F}

theorem tracks_update {f : P → Option (κ × Proc ρ α β)} {stages : P → Option (κ × M)} {p : P}
    {x : Option (κ × Proc ρ α β)} {y : Option (κ × M)} (h : ∀ p, F.Tracks p (f p) (stages p))
    (hp : F.Tracks p x y) (p' : P) :
    F.Tracks p' (Function.update f p x p') (Function.update stages p y p') := by
  by_cases hp' : p' = p
  · subst hp'
    simpa using hp
  · simpa [hp'] using h p'

theorem pending_update {f : P → Option (κ × Option β)} {stages : P → Option (κ × M)} {p : P}
    {y : Option (κ × M)} {z : Option (κ × Option β)}
    (h : ∀ p, f p = (stages p).map fun x => (x.1, F.result x.1 x.2))
    (hz : z = y.map fun x => (x.1, F.result x.1 x.2)) (p' : P) :
    Function.update f p z p' =
      (Function.update stages p y p').map fun x => (x.1, F.result x.1 x.2) := by
  by_cases hp' : p' = p
  · subst hp'
    simpa using hz
  · simpa [hp'] using h p'

/-- One thing that happens to the server is a run of the object. -/
theorem Related.step {w w' : World P κ (Proc ρ α β) β σ} {v : World P κ (Option β) β τ}
    (h : F.Related w v) {x : Happening P κ ω} (hx : S.step w x = some w') :
    ∃ v', A.Run v v' ∧ Nonempty (F.Related w' v') := by
  obtain ⟨stages, tracks, pending, inv, seen⟩ := h
  cases x with
  | call p c =>
      have hp := tracks p
      simp only [Server.step] at hx
      split at hx
      case h_2 => simp at hx
      case h_1 hnone =>
        rw [hnone] at hp
        cases hstage : stages p with
        | some m =>
            rw [hstage] at hp
            cases hp
        | none =>
            have hidle : v.pending p = none := by rw [pending, hstage]; rfl
            refine ⟨_, .single (.call v p c hidle), ⟨?_⟩⟩
            cases hx
            exact ⟨_, tracks_update tracks (.busy c _ _ (F.left_first p c)),
              pending_update pending (by simp [F.result_first]),
              F.call stages w.state v.state p c inv hstage, by simp [seen]⟩
  | turn p o =>
      have hp := tracks p
      simp only [Server.step] at hx
      split at hx
      case h_2 => simp at hx
      case h_1 c q k hask =>
        obtain ⟨⟨a, s'⟩, hserve, hw'⟩ := Option.map_eq_some_iff.mp hx
        subst hw'
        rw [hask] at hp
        cases hstage : stages p with
        | none =>
            rw [hstage] at hp
            cases hp
        | some cm =>
            rw [hstage] at hp
            cases hp with
            | busy c m x hleft =>
                obtain ⟨m', t', hleft', hinv', heffect⟩ :=
                  F.turn stages w.state v.state p c m q k o a s' inv hstage hleft hserve
                have hpending : v.pending p = some (c, F.result c m) := by rw [pending, hstage]; rfl
                rcases heffect with ⟨hresult, rfl⟩ | ⟨b, hnone, hsome, heffect⟩
                · -- the call has not come to its effect, or is past it
                  have htracks := tracks_update tracks (.busy c m' _ hleft')
                  refine ⟨v, .refl, ⟨_, htracks, ?_, hinv', seen⟩⟩
                  intro p'
                  have hsame := pending_update (F := F) (p := p) (y := some (c, m'))
                    (z := some (c, F.result c m)) pending (by simp [hresult]) p'
                  rwa [← hpending, Function.update_eq_self] at hsame
                · rw [hnone] at hpending
                  exact ⟨_, .single (.effect v p c b t' hpending heffect),
                    ⟨_, tracks_update tracks (.busy c m' _ hleft'),
                      pending_update pending (by simp [hsome]), hinv', seen⟩⟩
  | ret p =>
      have hp := tracks p
      simp only [Server.step] at hx
      split at hx
      case h_2 => simp at hx
      case h_1 c b hdone =>
        cases hx
        rw [hdone] at hp
        cases hstage : stages p with
        | none =>
            rw [hstage] at hp
            cases hp
        | some cm =>
            rw [hstage] at hp
            cases hp with
            | busy c m x hleft =>
                obtain ⟨hresult, hinv'⟩ := F.ret stages w.state v.state p c m b inv hstage hleft
                have hpending : v.pending p = some (c, F.result c m) := by rw [pending, hstage]; rfl
                rcases hresult with hresult | ⟨hresult, heffect⟩
                · rw [hresult] at hpending
                  exact ⟨_, .single (.ret v p c b hpending), ⟨_, tracks_update tracks .idle,
                    pending_update pending rfl, hinv', by simp [seen]⟩⟩
                · -- the call takes effect now
                  rw [hresult] at hpending
                  have hfirst := Atomic.Step.effect (A := A) v p c b v.state hpending heffect
                  have hrun := (Relation.ReflTransGen.single hfirst).tail (.ret _ p c b (by simp))
                  refine ⟨_, hrun, ⟨_, tracks_update tracks .idle, ?_, hinv', by simp [seen]⟩⟩
                  intro p'
                  have hsame := pending_update (F := F) (p := p) (y := none) pending rfl p'
                  simpa using hsame
  | stop p =>
      cases hx
      obtain ⟨t', hinv', hends⟩ := F.stop stages w.state v.state p inv
      rw [← pending p] at hends
      exact ⟨_, .single (.stop v p t' hends),
        ⟨_, tracks_update tracks .idle, pending_update pending rfl, hinv', by simp [seen]⟩⟩

/-- Whatever happens to the server is a run of the object. -/
theorem Related.run {w w' : World P κ (Proc ρ α β) β σ} {v : World P κ (Option β) β τ}
    (h : F.Related w v) {xs : List (Happening P κ ω)} (hxs : xs.foldlM S.step w = some w') :
    ∃ v', A.Run v v' ∧ Nonempty (F.Related w' v') := by
  induction xs generalizing w v with
  | nil =>
      obtain rfl : w = w' := Option.some.inj hxs
      exact ⟨v, .refl, ⟨h⟩⟩
  | cons x xs ih =>
      rw [List.foldlM_cons] at hxs
      obtain ⟨w₁, hx, hrest⟩ := Option.bind_eq_some_iff.mp hxs
      obtain ⟨v₁, hv₁, ⟨h₁⟩⟩ := h.step hx
      obtain ⟨v', hv', hrelated⟩ := ih h₁ hrest
      exact ⟨v', hv₁.trans hv', hrelated⟩

/-- The callers of the server see nothing that callers of the object could not see. -/
theorem refines (F : Simulation S A M) {s : σ} {t : τ} (h : F.Inv (fun _ => none) s t)
    {xs : List (Happening P κ ω)} {w : World P κ (Proc ρ α β) β σ}
    (hxs : xs.foldlM S.step (World.start s) = some w) :
    ∃ v, A.Run (World.start t) v ∧ Nonempty (F.Related w v) :=
  Related.run ⟨fun _ => none, fun _ => .idle, fun _ => rfl, h, rfl⟩ hxs

end Simulation

/-! ## Protocols -/

/-- The requests that a process may make at a stage, the answers that it may then count on, and
the stage that an answer leads to. -/
structure Protocol (M ρ α : Type) where
  allowed : M → ρ → Prop
  answers : M → ρ → α → Prop
  next : M → ρ → α → M

namespace Protocol

variable {D : Protocol M ρ α} {γ : Type}

/-- The process keeps to the protocol from a stage on, and its result fits the last stage. -/
def Follows (D : Protocol M ρ α) (Q : β → M → Prop) : Proc ρ α β → M → Prop
  | .done b, m => Q b m
  | .fault, _ => True
  | .ask q k, m => D.allowed m q ∧ ∀ a, D.answers m q a → Follows D Q (k a) (D.next m q a)

@[simp] theorem follows_done {Q : β → M → Prop} {b : β} {m : M} :
    D.Follows Q (.done b) m ↔ Q b m := Iff.rfl

@[simp] theorem follows_fault {Q : β → M → Prop} {m : M} :
    D.Follows Q (.fault : Proc ρ α β) m ↔ True := Iff.rfl

@[simp] theorem follows_ask {Q : β → M → Prop} {q : ρ} {k : α → Proc ρ α β} {m : M} :
    D.Follows Q (.ask q k) m ↔
      D.allowed m q ∧ ∀ a, D.answers m q a → D.Follows Q (k a) (D.next m q a) := Iff.rfl

/-- A process and the one that follows it keep to the protocol if each does. -/
theorem Follows.bind {Q : β → M → Prop} {R : γ → M → Prop} {x : Proc ρ α β}
    {f : β → Proc ρ α γ} {m : M} (hx : D.Follows Q x m)
    (hf : ∀ b m', Q b m' → D.Follows R (f b) m') : D.Follows R (x.bind f) m := by
  induction x generalizing m with
  | done b => exact hf b m hx
  | fault => trivial
  | ask q k ih => exact ⟨hx.1, fun a ha => ih a (hx.2 a ha)⟩

end Protocol

end CLib
