import BcmUtils.Foundation.Objects

/-! # A device behind a semaphore

Processes that use a device between `sem_wait` and `sem_post` of one semaphore cannot be told
from processes that have the device to themselves, one after the other. -/

namespace CLib

variable {P κ ρ α β δ ω : Type}

/-- A request to the semaphore, or one to the device that it guards. -/
inductive Sem (ρ : Type)
  | wait
  | post
  | use (q : ρ)

/-- The semaphore and the device. While the value is zero a `sem_wait` does not return. -/
def semServe (device : δ → ρ → ω → Option (α × δ)) (s : ℕ × δ) :
    Sem ρ → ω → Option (Option α × (ℕ × δ))
  | .wait, _ => if s.1 = 0 then none else some (none, s.1 - 1, s.2)
  | .post, _ => some (none, s.1 + 1, s.2)
  | .use q, o => (device s.2 q o).map fun r => (some r.1, s.1, r.2)

/-- Calls at a device behind a semaphore. The end of a process leaves the semaphore as it is. -/
def semServer (device : δ → ρ → ω → Option (α × δ)) (body : P → κ → Proc (Sem ρ) (Option α) β) :
    Server P κ (Sem ρ) (Option α) β (ℕ × δ) ω where
  body := body
  serve _ := semServe device
  stop _ s := s

/-- A process that has the device to itself, from one state of the device to another one. -/
inductive Alone (device : δ → ρ → ω → Option (α × δ)) :
    Proc (Sem ρ) (Option α) β → δ → β → δ → Prop
  | done (b : β) (d : δ) : Alone device (.done b) d b d
  | wait {k d b d'} (h : Alone device (k none) d b d') : Alone device (.ask .wait k) d b d'
  | post {k d b d'} (h : Alone device (k none) d b d') : Alone device (.ask .post k) d b d'
  | use {q k d o a d₁ b d'} (hq : device d q o = some (a, d₁))
      (h : Alone device (k (some a)) d₁ b d') : Alone device (.ask (.use q) k) d b d'

section Alone

variable {γ : Type} {device : δ → ρ → ω → Option (α × δ)} {d d' : δ}

@[simp] theorem alone_done {b b' : β} :
    Alone device (.done b : Proc (Sem ρ) (Option α) β) d b' d' ↔ b = b' ∧ d = d' := by
  constructor
  · intro h
    cases h
    exact ⟨rfl, rfl⟩
  · rintro ⟨rfl, rfl⟩
    exact .done b d

@[simp] theorem alone_fault {b : β} :
    ¬ Alone device (.fault : Proc (Sem ρ) (Option α) β) d b d' := by
  intro h
  cases h

variable {k : Option α → Proc (Sem ρ) (Option α) β} {b : β}

@[simp] theorem alone_wait : Alone device (.ask .wait k) d b d' ↔ Alone device (k none) d b d' := by
  refine ⟨fun h => ?_, .wait⟩
  cases h with
  | wait h => exact h

@[simp] theorem alone_post : Alone device (.ask .post k) d b d' ↔ Alone device (k none) d b d' := by
  refine ⟨fun h => ?_, .post⟩
  cases h with
  | post h => exact h

@[simp] theorem alone_use {q : ρ} :
    Alone device (.ask (.use q) k) d b d' ↔
      ∃ o a d₁, device d q o = some (a, d₁) ∧ Alone device (k (some a)) d₁ b d' := by
  constructor
  · intro h
    cases h with
    | use hq h => exact ⟨_, _, _, hq, h⟩
  · rintro ⟨o, a, d₁, hq, h⟩
    exact .use hq h

variable {f : β → Proc (Sem ρ) (Option α) γ} {c : γ}

@[simp] theorem alone_ofOption_bind {y : Option β} :
    Alone device ((Proc.ofOption y).bind f) d c d' ↔ ∃ b, y = some b ∧ Alone device (f b) d c d' := by
  cases y with
  | none => simp [Proc.ofOption, Proc.bind]
  | some b => simp

theorem Alone.of_bind {x : Proc (Sem ρ) (Option α) β} (h : Alone device (x.bind f) d c d') :
    ∃ b d₁, Alone device x d b d₁ ∧ Alone device (f b) d₁ c d' := by
  induction x generalizing d with
  | done b => exact ⟨b, d, .done b d, h⟩
  | fault => exact absurd h alone_fault
  | ask q k ih =>
      rw [Proc.ask_bind] at h
      cases q with
      | wait =>
          obtain ⟨b, d₁, h₁, h₂⟩ := ih none (alone_wait.mp h)
          exact ⟨b, d₁, .wait h₁, h₂⟩
      | post =>
          obtain ⟨b, d₁, h₁, h₂⟩ := ih none (alone_post.mp h)
          exact ⟨b, d₁, .post h₁, h₂⟩
      | use q =>
          obtain ⟨o, a, d₀, hq, h⟩ := alone_use.mp h
          obtain ⟨b, d₁, h₁, h₂⟩ := ih _ h
          exact ⟨b, d₁, .use hq h₁, h₂⟩

end Alone

/-- Behind `sem_wait`: the process uses the device. At its end it still has the semaphore and a
result that fulfils `Q`, or has just given it back, with a result that fulfils `R`. -/
def Holds (Q R : β → Prop) : Proc (Sem ρ) (Option α) β → Prop
  | .done b => Q b
  | .fault => True
  | .ask .wait _ => False
  | .ask .post k => ∃ b, k none = .done b ∧ R b
  | .ask (.use _) k => ∀ a, Holds Q R (k a)

/-- The process takes the semaphore before it uses the device. -/
def Takes (Q R : β → Prop) : Proc (Sem ρ) (Option α) β → Prop
  | .fault => True
  | .ask .wait k => Holds Q R (k none)
  | _ => False

/-- Between `sem_wait` and `sem_post`. -/
abbrev Inside : Proc (Sem ρ) (Option α) β → Prop := Holds (fun _ => False) fun _ => True

/-- In front of `sem_wait`. -/
abbrev Outside : Proc (Sem ρ) (Option α) β → Prop := Takes (fun _ => False) fun _ => True

section Parts

variable {γ : Type} {Q R : β → Prop} {Q' R' : γ → Prop} {x : Proc (Sem ρ) (Option α) β}
  {f : β → Proc (Sem ρ) (Option α) γ}

/-- What comes behind a part of a process that has given the semaphore back makes no request. -/
theorem Holds.bind (hx : Holds Q R x) (hQ : ∀ b, Q b → Holds Q' R' (f b))
    (hR : ∀ b, R b → ∃ c, f b = .done c ∧ R' c) : Holds Q' R' (x.bind f) := by
  induction x with
  | done b => exact hQ b hx
  | fault => trivial
  | ask q k ih =>
      cases q with
      | wait => exact hx.elim
      | post =>
          obtain ⟨b, hb, hRb⟩ := hx
          obtain ⟨c, hc, hRc⟩ := hR b hRb
          exact ⟨c, by simp only [hb, Proc.done_bind, hc], hRc⟩
      | use q => exact fun a => ih a (hx a)

theorem Takes.bind (hx : Takes Q R x) (hQ : ∀ b, Q b → Holds Q' R' (f b))
    (hR : ∀ b, R b → ∃ c, f b = .done c ∧ R' c) : Takes Q' R' (x.bind f) := by
  cases x with
  | done b => exact hx.elim
  | fault => trivial
  | ask q k =>
      cases q with
      | wait => exact Holds.bind (x := k none) hx hQ hR
      | post => exact hx.elim
      | use q => exact hx.elim

theorem Takes.ofOption_bind {y : Option β} (h : ∀ b, y = some b → Takes Q' R' (f b)) :
    Takes Q' R' ((Proc.ofOption y).bind f) := by
  cases y with
  | none => trivial
  | some b => exact h b rfl

theorem Holds.ofOption_bind {y : Option β} (h : ∀ b, y = some b → Holds Q' R' (f b)) :
    Holds Q' R' ((Proc.ofOption y).bind f) := by
  cases y with
  | none => trivial
  | some b => exact h b rfl

end Parts

/-- The device that is used by one call at a time. The end of a process in the middle of a call
may leave it locked for ever. -/
def oneAtATime (device : δ → ρ → ω → Option (α × δ))
    (body : P → κ → Proc (Sem ρ) (Option α) β) : Atomic P κ β (Option δ) where
  effect p t c b t' := ∃ d d', t = some d ∧ t' = some d' ∧ Alone device (body p c) d b d'
  ends _ t c t' := t' = t ∨ c.isSome = true ∧ t' = none

/-! ## The simulation -/

/-- Where a call is: it has not taken the semaphore, it has taken it when the device was in a
state, or it has given it back. -/
inductive SemStage (ρ α β δ : Type)
  | outside
  | inside (d : δ) (x : Proc (Sem ρ) (Option α) β)
  | finished (b : β)

def SemStage.result : SemStage ρ α β δ → Option β
  | .finished b => some b
  | _ => none

/-- What may be left of a call at a stage. -/
def LeftAt (body : P → κ → Proc (Sem ρ) (Option α) β) (p : P) (c : κ) :
    SemStage ρ α β δ → Proc (Sem ρ) (Option α) β → Prop
  | .outside, x => x = body p c ∧ Outside x
  | .inside _ y, x => y = x ∧ Inside x
  | .finished b, x => x = .done b

/-- The call is using the device. -/
def Using (x : Option (κ × SemStage ρ α β δ)) : Prop := ∃ c d y, x = some (c, .inside d y)

/-- The semaphore is taken while a call is using the device, and for ever if the process of such
a call has ended. What is left of the one call that is using the device completes a call that has
the device to itself. -/
structure SemInv (device : δ → ρ → ω → Option (α × δ)) (body : P → κ → Proc (Sem ρ) (Option α) β)
    (stages : P → Option (κ × SemStage ρ α β δ)) (s : ℕ × δ) (t : Option δ) : Prop where
  user : ∀ p c d y, stages p = some (c, .inside d y) → t = some d ∧ s.1 = 0 ∧
    ∀ b d', Alone device y s.2 b d' → Alone device (body p c) d b d'
  one : ∀ p q, Using (stages p) → Using (stages q) → p = q
  free : (∀ p, ¬ Using (stages p)) → s.1 = 1 ∧ t = some s.2 ∨ s.1 = 0 ∧ t = none

variable [DecidableEq P] {device : δ → ρ → ω → Option (α × δ)}
  {body : P → κ → Proc (Sem ρ) (Option α) β} {stages : P → Option (κ × SemStage ρ α β δ)}
  {s s' : ℕ × δ} {t t' : Option δ} {p : P}

theorem not_using_none : ¬ Using (none : Option (κ × SemStage ρ α β δ)) := by
  rintro ⟨c, d, y, h⟩
  cases h

theorem using_update {q : P} {y : Option (κ × SemStage ρ α β δ)}
    (h : Using (Function.update stages p y q)) : q = p ∧ Using y ∨ Using (stages q) := by
  obtain ⟨c, d, x, hx⟩ := h
  rcases update_eq_some hx with ⟨hq, hy⟩ | hq
  · exact .inl ⟨hq, c, d, x, hy⟩
  · exact .inr ⟨c, d, x, hq⟩

/-- A step of a process that is using the device neither before it nor after it. -/
theorem SemInv.idle (h : SemInv device body stages s t) {y : Option (κ × SemStage ρ α β δ)}
    (hp : ¬ Using (stages p)) (hy : ¬ Using y) :
    SemInv device body (Function.update stages p y) s t where
  user q c d x hq := by
    rcases update_eq_some hq with ⟨-, heq⟩ | hq
    · exact absurd ⟨c, d, x, heq⟩ hy
    · exact h.user q c d x hq
  one q q' hq hq' := by
    rcases using_update hq with ⟨-, hq⟩ | hq
    · exact absurd hq hy
    · rcases using_update hq' with ⟨-, hq'⟩ | hq'
      · exact absurd hq' hy
      · exact h.one q q' hq hq'
  free hnone := by
    refine h.free fun q hq => ?_
    by_cases hqp : q = p
    · exact hp (hqp ▸ hq)
    · exact hnone q (by rwa [Function.update_of_ne hqp])

/-- A step of the process that is using the device, or takes it when it is free. -/
theorem SemInv.use {c : κ} {d : δ} {x : Proc (Sem ρ) (Option α) β}
    (hothers : ∀ q, q ≠ p → ¬ Using (stages q)) (ht : t = some d)
    (hs : s'.1 = 0)
    (hx : ∀ b d', Alone device x s'.2 b d' → Alone device (body p c) d b d') :
    SemInv device body (Function.update stages p (some (c, .inside d x))) s' t where
  user q c' d' x' hq := by
    by_cases hqp : q = p
    · subst hqp
      rw [Function.update_self] at hq
      cases hq
      exact ⟨ht, hs, hx⟩
    · rw [Function.update_of_ne hqp] at hq
      exact absurd ⟨c', d', x', hq⟩ (hothers q hqp)
  one q q' hq hq' := by
    have hself : ∀ q, Using (Function.update stages p (some (c, .inside d x)) q) → q = p := by
      intro q hq
      by_contra hqp
      rw [Function.update_of_ne hqp] at hq
      exact hothers q hqp hq
    rw [hself q hq, hself q' hq']
  free hnone := by
    refine absurd ?_ (hnone p)
    rw [Function.update_self]
    exact ⟨c, d, x, rfl⟩

/-- The process that was using the device has left it. -/
theorem SemInv.leave (h : SemInv device body stages s t) (hp : Using (stages p))
    {y : Option (κ × SemStage ρ α β δ)} (hy : ¬ Using y)
    (hfree : s'.1 = 1 ∧ t' = some s'.2 ∨ s'.1 = 0 ∧ t' = none) :
    SemInv device body (Function.update stages p y) s' t' := by
  have hnone : ∀ q, ¬ Using (Function.update stages p y q) := by
    intro q hq
    by_cases hqp : q = p
    · subst hqp
      rw [Function.update_self] at hq
      exact hy hq
    · rw [Function.update_of_ne hqp] at hq
      exact hqp (h.one q p hq hp)
  exact ⟨fun q c d x hq => absurd ⟨c, d, x, hq⟩ (hnone q), fun q _ hq => absurd hq (hnone q),
    fun _ => hfree⟩

/-- A request of a call under way. -/
theorem SemInv.turn (h : SemInv device body stages s t) {c : κ} {m : SemStage ρ α β δ} {q : Sem ρ}
    {k : Option α → Proc (Sem ρ) (Option α) β} {o : ω} {a : Option α}
    (hp : stages p = some (c, m)) (hleft : LeftAt body p c m (.ask q k))
    (hs : semServe device s q o = some (a, s')) :
    ∃ m' t', LeftAt body p c m' (k a) ∧
      SemInv device body (Function.update stages p (some (c, m'))) s' t' ∧
      (m'.result = m.result ∧ t' = t ∨
        ∃ b, m.result = none ∧ m'.result = some b ∧ (oneAtATime device body).effect p t c b t') := by
  cases m with
  | finished b => cases hleft
  | outside =>
      obtain ⟨hbody, hout⟩ := hleft
      cases q with
      | post => exact hout.elim
      | use q => exact hout.elim
      | wait =>
          simp only [semServe] at hs
          split_ifs at hs with hzero
          cases hs
          have hnone : ∀ q, ¬ Using (stages q) := by
            rintro q ⟨c', d, y, hq⟩
            exact hzero (h.user q c' d y hq).2.1
          obtain ⟨hone, ht⟩ := (h.free hnone).resolve_right fun hlost => hzero hlost.1
          refine ⟨.inside s.2 (k none), t, ⟨rfl, hout⟩, ?_, .inl ⟨rfl, rfl⟩⟩
          refine .use (fun q _ => hnone q) ht (by simp [hone]) fun b d' halone => ?_
          rw [← hbody]
          exact .wait halone
  | inside d y =>
      obtain ⟨rfl, hin⟩ := hleft
      obtain ⟨ht, hzero, halone⟩ := h.user p c d _ hp
      have hmine : Using (stages p) := ⟨c, d, _, hp⟩
      cases q with
      | wait => exact hin.elim
      | post =>
          obtain ⟨b, hb, -⟩ := hin
          cases hs
          have hall : Alone device (body p c) d b s.2 :=
            halone b s.2 (.post (by rw [hb]; exact .done b s.2))
          refine ⟨.finished b, some s.2, hb, ?_, .inr ⟨b, rfl, rfl, d, s.2, ht, rfl, hall⟩⟩
          refine h.leave hmine ?_ (.inl ⟨by simp [hzero], rfl⟩)
          rintro ⟨c', d', x', heq⟩
          cases heq
      | use q =>
          obtain ⟨⟨a', d₁⟩, hdevice, heq⟩ := Option.map_eq_some_iff.mp hs
          cases heq
          refine ⟨.inside d (k (some a')), t, ⟨rfl, hin _⟩, ?_, .inl ⟨rfl, rfl⟩⟩
          refine .use (fun q hq husing => hq (h.one q p husing hmine)) ht hzero fun b d' hrest => ?_
          exact halone b d' (.use hdevice hrest)

/-- Calls that use the device between `sem_wait` and `sem_post` cannot be told from calls that
have it to themselves. -/
def semSimulation (device : δ → ρ → ω → Option (α × δ))
    (body : P → κ → Proc (Sem ρ) (Option α) β) (hbody : ∀ p c, Outside (body p c)) :
    Simulation (semServer device body) (oneAtATime device body) (SemStage ρ α β δ) where
  Inv := SemInv device body
  Left := LeftAt body
  first _ _ := .outside
  result _ := SemStage.result
  left_first p c := ⟨rfl, hbody p c⟩
  result_first _ _ := rfl
  call stages s t p c h hp := by
    refine h.idle (by rw [hp]; exact not_using_none) ?_
    rintro ⟨c', d, y, heq⟩
    cases heq
  turn _ _ _ _ _ _ _ _ _ _ _ h hp hleft hs := SemInv.turn h hp hleft hs
  ret stages s t p c m b h hp hleft := by
    have hm : ¬ Using (stages p) := by
      rw [hp]
      rintro ⟨c', d, y, heq⟩
      cases heq
      obtain ⟨rfl, hin⟩ := hleft
      exact hin.elim
    refine ⟨?_, h.idle hm not_using_none⟩
    cases m with
    | outside => exact hleft.2.elim
    | inside d y => exact absurd ⟨c, d, y, hp⟩ hm
    | finished b' =>
        cases hleft
        exact .inl rfl
  stop stages s t p h := by
    by_cases hp : Using (stages p)
    · refine ⟨none, h.leave hp not_using_none (.inr ?_), .inr ?_⟩
      · obtain ⟨c, d, y, hstage⟩ := hp
        exact ⟨(h.user p c d y hstage).2.1, rfl⟩
      · obtain ⟨c, d, y, hstage⟩ := hp
        rw [hstage]
        exact ⟨rfl, rfl⟩
    · exact ⟨t, h.idle hp not_using_none, .inl rfl⟩

/-- A device that is locked for ever has been left by a process that has ended. -/
theorem ended_of_locked {v v' : World P κ (Option β) β (Option δ)}
    (h : (oneAtATime device body).Run v v') (hv : v.state ≠ none) (hv' : v'.state = none) :
    ∃ p, .ended p ∈ v'.seen := by
  have hinv := h.invariant (I := fun w => w.state = none → ∃ p, .ended p ∈ w.seen)
    (fun w w' ih hstep hnone => ?_) fun hnone => absurd hnone hv
  · exact hinv hv'
  cases hstep with
  | call p c _ =>
      obtain ⟨q, hq⟩ := ih hnone
      exact ⟨q, List.mem_cons_of_mem _ hq⟩
  | effect p c b t _ heffect =>
      obtain ⟨d, d', -, ht, -⟩ := heffect
      rw [ht] at hnone
      cases hnone
  | ret p c b _ =>
      obtain ⟨q, hq⟩ := ih hnone
      exact ⟨q, List.mem_cons_of_mem _ hq⟩
  | stop p t _ => exact ⟨p, List.mem_cons_self⟩

/-- Calls that use the device between `sem_wait` and `sem_post` see a device that is used by one
call at a time. If no process has ended, the semaphore is free when no call is under way. -/
theorem one_at_a_time {ω : Type} {device : δ → ρ → ω → Option (α × δ)}
    (hbody : ∀ p c, Outside (body p c)) {d : δ} {xs : List (Happening P κ ω)}
    {w : World P κ (Proc (Sem ρ) (Option α) β) β (ℕ × δ)}
    (hxs : xs.foldlM (semServer device body).step (World.start (1, d)) = some w) :
    ∃ v, (oneAtATime device body).Run (World.start (some d)) v ∧ v.seen = w.seen ∧
      ((∀ p, w.pending p = none) → (∀ p, .ended p ∉ w.seen) →
        w.state.1 = 1 ∧ v.state = some w.state.2) := by
  have hstart : SemInv device body (fun _ => none) (1, d) (some d) :=
    { user := fun _ _ _ _ hp => by cases hp
      one := fun _ _ hp => absurd hp not_using_none
      free := fun _ => .inl ⟨rfl, rfl⟩ }
  obtain ⟨v, hv, ⟨hrelated⟩⟩ := (semSimulation device body hbody).refines hstart hxs
  refine ⟨v, hv, hrelated.seen, fun hidle hended => ?_⟩
  have hnone : ∀ p, ¬ Using (hrelated.stages p) := by
    intro p hp
    have htracks := hrelated.tracks p
    rw [hidle p] at htracks
    generalize hrelated.stages p = y at hp htracks
    cases htracks
    exact not_using_none hp
  rcases hrelated.inv.free hnone with hfree | ⟨-, hlocked⟩
  · exact hfree
  · obtain ⟨p, hp⟩ := ended_of_locked hv (by simp [World.start]) hlocked
    exact absurd (hrelated.seen ▸ hp) (hended p)

end CLib
