import Mathlib.Tactic

/-! # Processes at a server

A process is the tree of its requests: what it does next depends on the answers so far. Two
processes at one server are run by a schedule that says whose turn it is. -/

namespace CLib

/-- A process with requests `ρ`, answers `α` and a result `β`. -/
inductive Proc (ρ α β : Type)
  | done (b : β)
  | fault
  | ask (request : ρ) (next : α → Proc ρ α β)

namespace Proc

variable {ρ α β γ σ : Type}

/-- One process, and then the process that its result gives. -/
def bind : Proc ρ α β → (β → Proc ρ α γ) → Proc ρ α γ
  | done b, f => f b
  | fault, _ => fault
  | ask q k, f => ask q fun a => (k a).bind f

instance : Monad (Proc ρ α) where
  pure := done
  bind := bind

/-- A value that may be undefined. -/
def ofOption : Option β → Proc ρ α β
  | none => fault
  | some b => done b

@[simp] theorem pure_eq (b : β) : (pure b : Proc ρ α β) = done b := rfl

@[simp] theorem bind_eq (p : Proc ρ α β) (f : β → Proc ρ α γ) : (p >>= f) = p.bind f := rfl

@[simp] theorem done_bind (b : β) (f : β → Proc ρ α γ) : (done b).bind f = f b := rfl

@[simp] theorem ask_bind (q : ρ) (k : α → Proc ρ α β) (f : β → Proc ρ α γ) :
    (ask q k).bind f = ask q fun a => (k a).bind f := rfl

@[simp] theorem ofOption_some (b : β) : (ofOption (some b) : Proc ρ α β) = done b := rfl

/-- The process with the server to itself. -/
def run (serve : σ → ρ → α × σ) : Proc ρ α β → σ → Option (β × σ)
  | done b, s => some (b, s)
  | fault, _ => none
  | ask q k, s => (k (serve s q).1).run serve (serve s q).2

theorem run_bind (serve : σ → ρ → α × σ) (p : Proc ρ α β) (f : β → Proc ρ α γ) (s : σ) :
    (p.bind f).run serve s = (p.run serve s).bind fun r => (f r.1).run serve r.2 := by
  induction p generalizing s with
  | done b => rfl
  | fault => rfl
  | ask q k ih => exact ih (serve s q).1 (serve s q).2

theorem run_ofOption (serve : σ → ρ → α × σ) (x : Option β) (s : σ) :
    (ofOption x : Proc ρ α β).run serve s = x.map fun b => (b, s) := by
  cases x <;> rfl

end Proc

/-! ## Two processes -/

/-- Whose turn it is. -/
inductive Side
  | left | right
  deriving DecidableEq, Repr

variable {ρ α β γ σ : Type}

/-- The results of two processes and the state of the server, when each turn of the schedule is
one request and both processes are done at its end. -/
def interleave (serve : σ → ρ → α × σ) :
    Proc ρ α β → Proc ρ α γ → σ → List Side → Option (β × γ × σ)
  | p₁, p₂, s, [] =>
      match p₁, p₂ with
      | .done b, .done c => some (b, c, s)
      | _, _ => none
  | p₁, p₂, s, .left :: turns =>
      match p₁ with
      | .ask q k => interleave serve (k (serve s q).1) p₂ (serve s q).2 turns
      | _ => none
  | p₁, p₂, s, .right :: turns =>
      match p₂ with
      | .ask q k => interleave serve p₁ (k (serve s q).1) (serve s q).2 turns
      | _ => none

@[simp] theorem interleave_left_ask (serve : σ → ρ → α × σ) (q : ρ) (k : α → Proc ρ α β)
    (p : Proc ρ α γ) (s : σ) (turns : List Side) :
    interleave serve (.ask q k) p s (.left :: turns) =
      interleave serve (k (serve s q).1) p (serve s q).2 turns := rfl

@[simp] theorem interleave_right_ask (serve : σ → ρ → α × σ) (p : Proc ρ α β) (q : ρ)
    (k : α → Proc ρ α γ) (s : σ) (turns : List Side) :
    interleave serve p (.ask q k) s (.right :: turns) =
      interleave serve p (k (serve s q).1) (serve s q).2 turns := rfl

/-- The schedule for the two processes the other way round. -/
def Side.other : Side → Side
  | left => right
  | right => left

theorem interleave_swap (serve : σ → ρ → α × σ) (p₁ : Proc ρ α β) (p₂ : Proc ρ α γ) (s : σ)
    (turns : List Side) :
    interleave serve p₂ p₁ s (turns.map Side.other) =
      (interleave serve p₁ p₂ s turns).map fun r => (r.2.1, r.1, r.2.2) := by
  induction turns generalizing p₁ p₂ s with
  | nil => cases p₁ <;> cases p₂ <;> rfl
  | cons turn turns ih =>
      cases turn with
      | left =>
          cases p₁ with
          | ask q k => exact ih (k (serve s q).1) p₂ (serve s q).2
          | done b => rfl
          | fault => rfl
      | right =>
          cases p₂ with
          | ask q k => exact ih p₁ (k (serve s q).1) (serve s q).2
          | done c => rfl
          | fault => rfl

/-- The process makes exactly `n` requests, whatever the answers are, unless it faults. -/
def Proc.Asks : ℕ → Proc ρ α β → Prop
  | _, .fault => True
  | 0, .done _ => True
  | 0, .ask _ _ => False
  | _ + 1, .done _ => False
  | n + 1, .ask _ k => ∀ a, Asks n (k a)

/-- A schedule under which both processes are done has one turn for each request. -/
theorem count_of_interleave {serve : σ → ρ → α × σ} {n m : ℕ} {p₁ : Proc ρ α β} {p₂ : Proc ρ α γ}
    (h₁ : p₁.Asks n) (h₂ : p₂.Asks m) {s : σ} {turns : List Side} {r : β × γ × σ}
    (h : interleave serve p₁ p₂ s turns = some r) :
    turns.count .left = n ∧ turns.count .right = m := by
  induction turns generalizing n m p₁ p₂ s with
  | nil =>
      cases p₁ <;> cases p₂ <;> cases n <;> cases m <;> simp_all [interleave, Proc.Asks]
  | cons turn turns ih =>
      cases turn with
      | left =>
          cases p₁ with
          | done b => simp [interleave] at h
          | fault => simp [interleave] at h
          | ask q k =>
              cases n with
              | zero => exact absurd h₁ id
              | succ n =>
                  have hrest := ih (h₁ _) h₂ h
                  simpa using hrest
      | right =>
          cases p₂ with
          | done b => simp [interleave] at h
          | fault => simp [interleave] at h
          | ask q k =>
              cases m with
              | zero => exact absurd h₂ id
              | succ m =>
                  have hrest := ih h₁ (h₂ _) h
                  simpa using hrest

/-- The schedules of two requests each. -/
theorem eq_of_count_two {turns : List Side} (h₁ : turns.count .left = 2)
    (h₂ : turns.count .right = 2) :
    turns = [.left, .left, .right, .right] ∨ turns = [.left, .right, .left, .right] ∨
      turns = [.left, .right, .right, .left] ∨ turns = [.right, .left, .left, .right] ∨
      turns = [.right, .left, .right, .left] ∨ turns = [.right, .right, .left, .left] := by
  rcases turns with _ | ⟨_ | _, _ | ⟨_ | _, _ | ⟨_ | _, _ | ⟨_ | _, _ | ⟨_ | _, turns⟩⟩⟩⟩⟩ <;>
    simp_all

/-- No schedule gets past a process that has faulted. -/
theorem interleave_fault (serve : σ → ρ → α × σ) (p : Proc ρ α β) (s : σ) (turns : List Side) :
    interleave serve p (.fault : Proc ρ α γ) s turns = none := by
  induction turns generalizing p s with
  | nil => cases p <;> rfl
  | cons turn turns ih =>
      cases turn with
      | left =>
          cases p with
          | ask q k => exact ih (k (serve s q).1) (serve s q).2
          | done b => rfl
          | fault => rfl
      | right => rfl

theorem map_other_map_other (turns : List Side) :
    (turns.map Side.other).map Side.other = turns := by
  rw [List.map_map]
  exact (List.map_congr_left fun turn _ => by cases turn <;> rfl).trans (List.map_id turns)

theorem interleave_fault_left (serve : σ → ρ → α × σ) (p : Proc ρ α γ) (s : σ) (turns : List Side) :
    interleave serve (.fault : Proc ρ α β) p s turns = none := by
  rw [← map_other_map_other turns, interleave_swap, interleave_fault]
  rfl

/-- A process that is done leaves the server to the other one. -/
theorem run_of_interleave_done {serve : σ → ρ → α × σ} {b : β} {p : Proc ρ α γ} {r : β × γ × σ}
    {s : σ} {turns : List Side} (h : interleave serve (.done b) p s turns = some r) :
    p.run serve s = some r.2 := by
  induction turns generalizing p s with
  | nil =>
      cases p with
      | done c => exact congrArg (Option.map Prod.snd) h
      | fault => simp [interleave] at h
      | ask q k => simp [interleave] at h
  | cons turn turns ih =>
      cases turn with
      | left => simp [interleave] at h
      | right =>
          cases p with
          | done c => simp [interleave] at h
          | fault => simp [interleave] at h
          | ask q k =>
              have hrest := ih h
              exact hrest

theorem run_of_interleave_done_right {serve : σ → ρ → α × σ} {p : Proc ρ α β} {c : γ}
    {r : β × γ × σ} {s : σ} {turns : List Side}
    (h : interleave serve p (.done c) s turns = some r) : p.run serve s = some (r.1, r.2.2) := by
  have hswap := interleave_swap serve p (.done c) s turns
  rw [h, Option.map_some] at hswap
  exact run_of_interleave_done hswap

end CLib
