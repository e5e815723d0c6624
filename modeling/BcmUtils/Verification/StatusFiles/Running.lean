import BcmUtils.Model.StatusFiles

/-! # One running instance

`already_running` keeps the lock on the file of a process until the process ends. Of all the
processes that call it for a file, in whatever order of their system calls, one is running. -/

namespace BcmUtils.StatusFiles

open CLib

/-! ## The protocol -/

/-- How far a call of `already_running` has come. -/
inductive RunStage
  | start
  | opened (fd : ℕ)
  | busy (fd : ℕ)
  | locked (fd : ℕ)
  | truncated (fd : ℕ)
  | exited
  | finished (b : ℤ)

def RunStage.result : RunStage → Option ℤ
  | .busy _ => some 1
  | .locked _ | .truncated _ => some 0
  | .finished b => some b
  | _ => none

/-- The file is locked, and then the number of the process is put into it. -/
def runProtocol (pidText : List Byte) (file : CStr) :
    Protocol RunStage (FileCall CStr) Answer where
  allowed
    | .start, .openFile path access _ => path = file ∧ access = .readWrite
    | .opened fd, .setlk fd' (some kind) => fd' = fd ∧ kind = .write
    | .busy fd, .close fd' => fd' = fd
    | .locked fd, .ftruncate fd' length => fd' = fd ∧ length = 0
    | .truncated fd, .write fd' bytes => fd' = fd ∧ bytes = pidText
    | .exited, .exit _ => True
    | _, _ => False
  answers _ _ _ := True
  next
    | .start, .openFile _ _ _, a => if a.ret < 0 then .exited else .opened a.ret.toNat
    | .opened fd, .setlk _ _, a =>
        if a.ret = -1 then if a.errno = EACCES ∨ a.errno = EAGAIN then .busy fd else .exited
        else .locked fd
    | .busy _, .close _, _ => .finished 1
    | .locked fd, .ftruncate _ _, _ => .truncated fd
    | .truncated _, .write _ _, _ => .finished 0
    | m, _, _ => m

/-- The text that the process with a number leaves in its file. -/
def pidText (pid : ℕ) : List Byte := printNat pid ++ [0]

theorem alreadyRunning_follows (pid : ℕ) (file : CStr) :
    (runProtocol (pidText pid) file).Follows (fun b m => m = .finished b)
      (alreadyRunning pid file) .start := by
  simp only [alreadyRunning, call, lockfileWR, Proc.bind_eq, Proc.pure_eq, Proc.ask_bind,
    Proc.done_bind]
  refine ⟨⟨rfl, rfl⟩, fun opened _ => ?_⟩
  beta_reduce
  by_cases hopened : opened.ret < 0
  · have hstage : (runProtocol (pidText pid) file).next .start
        (.openFile file .readWrite true) opened = .exited := if_pos hopened
    rw [if_pos hopened, hstage]
    exact ⟨trivial, fun _ _ => trivial⟩
  have hstage : (runProtocol (pidText pid) file).next .start
      (.openFile file .readWrite true) opened = .opened opened.ret.toNat := if_neg hopened
  rw [if_neg hopened, hstage]
  refine ⟨⟨rfl, rfl⟩, fun locked _ => ?_⟩
  beta_reduce
  by_cases hret : locked.ret = -1
  · rw [if_pos hret]
    by_cases hbusy : locked.errno = EACCES ∨ locked.errno = EAGAIN
    · have hstage : (runProtocol (pidText pid) file).next (.opened opened.ret.toNat)
          (.setlk opened.ret.toNat (some .write)) locked = .busy opened.ret.toNat :=
        (if_pos hret).trans (if_pos hbusy)
      rw [if_pos hbusy, hstage]
      exact ⟨rfl, fun _ _ => rfl⟩
    · have hstage : (runProtocol (pidText pid) file).next (.opened opened.ret.toNat)
          (.setlk opened.ret.toNat (some .write)) locked = .exited :=
        (if_pos hret).trans (if_neg hbusy)
      rw [if_neg hbusy, hstage]
      exact ⟨trivial, fun _ _ => trivial⟩
  · have hstage : (runProtocol (pidText pid) file).next (.opened opened.ret.toNat)
        (.setlk opened.ret.toNat (some .write)) locked = .locked opened.ret.toNat := if_neg hret
    rw [if_neg hret, hstage]
    refine ⟨⟨rfl, rfl⟩, fun _ _ => ?_⟩
    by_cases hfit : (printNat pid).length < 16
    · rw [store_of_lt hfit]
      exact ⟨⟨rfl, rfl⟩, fun _ _ => rfl⟩
    · rw [store, if_neg hfit]
      trivial

/-! ## The object -/

/-- The files with the process that runs on each. A call says 0 when there is no other one, and
its process is then the one; it says 1 when there is another one. -/
def pidFiles {P : Type} [DecidableEq P] : Atomic P CStr ℤ (CStr → Option P) where
  effect p t file b t' :=
    b = 0 ∧ (t file = none ∨ t file = some p) ∧ t' = Function.update t file (some p) ∨
      b = 1 ∧ (∃ q, q ≠ p ∧ t file = some q) ∧ t' = t
  ends p t _ t' := t' = fun file => if t file = some p then none else t file

/-! ## The invariant -/

section Invariant

variable {P : Type} {pid : P → ℕ} {faulty : Bool}

/-- The call is between its lock and the end of its write. -/
def Writing (x : Option (CStr × RunStage)) (file : CStr) : Prop :=
  ∃ fd, x = some (file, .locked fd) ∨ x = some (file, .truncated fd)

/-- What the files and the descriptors are when a call of a process is at a stage. -/
def AtRun (faulty : Bool) (K : Kernel P CStr) (t : CStr → Option P) (p : P) (file : CStr) :
    RunStage → Prop
  | .opened fd => K.fds p fd = some ⟨file, .readWrite, 0⟩
  | .busy fd => K.fds p fd = some ⟨file, .readWrite, 0⟩ ∧ t file ≠ some p
  | .locked fd => K.fds p fd = some ⟨file, .readWrite, 0⟩ ∧ t file = some p
  | .truncated fd => K.fds p fd = some ⟨file, .readWrite, 0⟩ ∧ t file = some p ∧
      (faulty = false → K.content file = [])
  | _ => True

/-- The locks are those of the running processes, and a file holds the number of its process
unless that is just being written. -/
structure RunInv (pid : P → ℕ) (faulty : Bool) (stages : P → Option (CStr × RunStage))
    (K : Kernel P CStr) (t : CStr → Option P) : Prop where
  own : ∀ file q kind, (q, kind) ∈ K.locks file ↔ kind = .write ∧ t file = some q
  stage : ∀ p file m, stages p = some (file, m) → AtRun faulty K t p file m
  content : faulty = false → ∀ p file, t file = some p →
    K.content file = pidText (pid p) ∨ Writing (stages p) file

theorem RunInv.start {K : Kernel P CStr} (hlocks : ∀ file, K.locks file = []) :
    RunInv pid faulty (fun _ => none) K fun _ => none where
  own file q kind := by simp [hlocks]
  stage p file m heq := by cases heq
  content _ p file heq := by cases heq

variable [DecidableEq P] {stages : P → Option (CStr × RunStage)} {K K' : Kernel P CStr}
  {t t' : CStr → Option P} {p : P}

/-- What one process may do: it leaves the descriptors of the others alone, takes no file from
another one, and changes a file only if it is its own. -/
theorem RunInv.update (h : RunInv pid faulty stages K t) (y : Option (CStr × RunStage))
    (hfds : ∀ q, q ≠ p → K'.fds q = K.fds q)
    (hothers : ∀ file q, q ≠ p → (t' file = some q ↔ t file = some q))
    (hown : ∀ file q kind, (q, kind) ∈ K'.locks file ↔ kind = .write ∧ t' file = some q)
    (hchange : ∀ file, t file = some p ∨ K'.content file = K.content file)
    (hstage : ∀ file m, y = some (file, m) → AtRun faulty K' t' p file m)
    (hmine : faulty = false → ∀ file, t' file = some p →
      K'.content file = pidText (pid p) ∨ Writing y file) :
    RunInv pid faulty (Function.update stages p y) K' t' where
  own := hown
  stage q file m heq := by
    rcases update_eq_some heq with ⟨rfl, hy⟩ | hq
    · exact hstage file m hy
    · by_cases hqp : q = p
      · subst hqp
        exact hstage file m (by simpa using heq)
      · have hold := h.stage q file m hq
        have hne : t file = some q → ¬ t file = some p := by
          intro htq htp
          exact hqp (Option.some.inj (htq.symm.trans htp))
        cases m with
        | opened fd => exact (congrFun (hfds q hqp) fd).trans hold
        | busy fd =>
            exact ⟨(congrFun (hfds q hqp) fd).trans hold.1,
              fun ht => hold.2 ((hothers file q hqp).mp ht)⟩
        | locked fd =>
            exact ⟨(congrFun (hfds q hqp) fd).trans hold.1, (hothers file q hqp).mpr hold.2⟩
        | truncated fd =>
            refine ⟨(congrFun (hfds q hqp) fd).trans hold.1, (hothers file q hqp).mpr hold.2.1,
              fun hfaulty => ?_⟩
            exact ((hchange file).resolve_left (hne hold.2.1)).trans (hold.2.2 hfaulty)
        | start => trivial
        | exited => trivial
        | finished b => trivial
  content hfaulty q file ht := by
    by_cases hqp : q = p
    · subst hqp
      rw [Function.update_self]
      exact hmine hfaulty file ht
    · have hold := (hothers file q hqp).mp ht
      have hne : ¬ t file = some p := fun htp => hqp (Option.some.inj (hold.symm.trans htp))
      rw [Function.update_of_ne hqp, (hchange file).resolve_left hne]
      exact h.content hfaulty q file hold

/-- A step that changes no owner and no contents. -/
theorem RunInv.move (h : RunInv pid faulty stages K t) (y : Option (CStr × RunStage))
    (hfds : ∀ q, q ≠ p → K'.fds q = K.fds q)
    (hlocks : ∀ file q kind, (q, kind) ∈ K'.locks file ↔ (q, kind) ∈ K.locks file)
    (hcontent : ∀ file, K'.content file = K.content file)
    (hstage : ∀ file m, y = some (file, m) → AtRun faulty K' t p file m)
    (hwriting : ∀ file, ¬ Writing (stages p) file) :
    RunInv pid faulty (Function.update stages p y) K' t := by
  refine h.update y hfds (fun _ _ _ => Iff.rfl) (fun file q kind => ?_)
    (fun file => .inr (hcontent file)) hstage fun hfaulty file ht => ?_
  · rw [hlocks, h.own]
  · rw [hcontent]
    exact .inl ((h.content hfaulty p file ht).resolve_right (hwriting file))

theorem not_writing {file : CStr} {m : RunStage} (hlocked : ∀ fd, m ≠ .locked fd)
    (htruncated : ∀ fd, m ≠ .truncated fd) (file' : CStr) : ¬ Writing (some (file, m)) file' := by
  rintro ⟨fd, heq | heq⟩
  · exact hlocked fd (Prod.mk.inj (Option.some.inj heq)).2
  · exact htruncated fd (Prod.mk.inj (Option.some.inj heq)).2

theorem not_writing_none (file : CStr) : ¬ Writing none file := by
  rintro ⟨fd, heq | heq⟩ <;> cases heq

/-! ## Steps of the protocol -/

/-- What a request brings about: the call is at a new stage, and the files have changed owner as
they do when the call takes effect, or not at all. -/
def RunMoves (pid : P → ℕ) (faulty : Bool) (stages : P → Option (CStr × RunStage))
    (K' : Kernel P CStr) (t : CStr → Option P) (p : P) (file : CStr) (m m' : RunStage) : Prop :=
  ∃ t', RunInv pid faulty (Function.update stages p (some (file, m'))) K' t' ∧
    (m'.result = m.result ∧ t' = t ∨
      ∃ b, m.result = none ∧ m'.result = some b ∧ pidFiles.effect p t file b t')

variable {file : CStr} {o : Outcome} {a : Answer}

theorem run_start_turn (h : RunInv pid faulty stages K t) (hp : stages p = some (file, .start))
    {create : Bool} (hs : K.serve p faulty (.openFile file .readWrite create) o = some (a, K')) :
    RunMoves pid faulty stages K' t p file .start
      (if a.ret < 0 then .exited else .opened a.ret.toNat) := by
  have hwriting : ∀ file, ¬ Writing (stages p) file := by
    rw [hp]
    exact not_writing (by simp) (by simp)
  rcases Kernel.serve_openFile hs with ⟨hret, rfl⟩ | ⟨fd, hret, hfd, hlocks, hfds, hcontent⟩
  · refine ⟨t, ?_, .inl ⟨by rw [if_pos (by omega)]; rfl, rfl⟩⟩
    rw [if_pos (by omega)]
    refine h.move _ (fun _ _ => rfl) (fun _ _ _ => Iff.rfl) (fun _ => rfl) ?_ hwriting
    rintro file' m heq
    cases heq
    trivial
  · refine ⟨t, ?_, .inl ⟨by rw [if_neg (by omega)]; rfl, rfl⟩⟩
    rw [if_neg (by omega)]
    refine h.move _ hfds (fun file q kind => by rw [hlocks]) hcontent ?_ hwriting
    rintro file' m heq
    cases heq
    simpa [AtRun, hret] using hfd

/-- Without a conflict the file is free, or the process has it already. -/
theorem RunInv.free (h : RunInv pid faulty stages K t) (hfree : ¬ K.Conflict p file .write) :
    t file = none ∨ t file = some p := by
  cases ht : t file with
  | none => exact .inl rfl
  | some q =>
      by_cases hq : q = p
      · exact .inr (by rw [hq])
      · exact absurd ⟨_, (h.own file q .write).mpr ⟨rfl, ht⟩, hq, .inl rfl⟩ hfree

theorem run_opened_turn (h : RunInv pid faulty stages K t) {fd : ℕ}
    (hp : stages p = some (file, .opened fd))
    (hs : K.serve p faulty (.setlk fd (some .write)) o = some (a, K')) :
    RunMoves pid faulty stages K' t p file (.opened fd)
      (if a.ret = -1 then if a.errno = EACCES ∨ a.errno = EAGAIN then .busy fd else .exited
        else .locked fd) := by
  have hfd : K.fds p fd = some ⟨file, .readWrite, 0⟩ := h.stage p file _ hp
  have hwriting : ∀ file, ¬ Writing (stages p) file := by
    rw [hp]
    exact not_writing (by simp) (by simp)
  rcases Kernel.serve_lock hfd hs with ⟨hret, rfl, hconflict⟩ | ⟨hret, hfree, rfl⟩
  · rw [if_pos hret]
    by_cases hbusy : a.errno = EACCES ∨ a.errno = EAGAIN
    · -- another process has the lock
      obtain ⟨⟨q, kind⟩, hmem, hq, -⟩ := hconflict hbusy
      have ht : t file = some q := ((h.own file q kind).mp hmem).2
      rw [if_pos hbusy]
      refine ⟨t, ?_, .inr ⟨1, rfl, rfl, .inr ⟨rfl, ⟨q, hq, ht⟩, rfl⟩⟩⟩
      refine h.move _ (fun _ _ => rfl) (fun _ _ _ => Iff.rfl) (fun _ => rfl) ?_ hwriting
      rintro file' m heq
      cases heq
      refine ⟨hfd, fun hmine => hq ?_⟩
      exact Option.some.inj (ht.symm.trans hmine)
    · rw [if_neg hbusy]
      refine ⟨t, ?_, .inl ⟨rfl, rfl⟩⟩
      refine h.move _ (fun _ _ => rfl) (fun _ _ _ => Iff.rfl) (fun _ => rfl) ?_ hwriting
      rintro file' m heq
      cases heq
      trivial
  · have hnone := h.free hfree
    rw [if_neg (by omega)]
    refine ⟨Function.update t file (some p), ?_, .inr ⟨0, rfl, rfl, .inl ⟨rfl, hnone, rfl⟩⟩⟩
    refine h.update _ (fun _ _ => rfl) (fun file' q hq => ?_) (fun file' q kind => ?_)
      (fun _ => .inr rfl) ?_ fun hfaulty file' ht => ?_
    · by_cases hfile : file' = file
      · subst hfile
        rcases hnone with hnone | hmine
        · simp [hnone, Ne.symm hq]
        · simp [hmine]
      · rw [Function.update_of_ne hfile]
    · rw [Kernel.mem_locks_lock]
      by_cases hfile : file' = file
      · subst hfile
        by_cases hq : q = p
        · simp [hq]
        · rw [if_neg fun hboth => hq hboth.2, h.own]
          rcases hnone with hnone | hmine
          · simp [hnone, Ne.symm hq]
          · simp [hmine]
      · rw [if_neg fun hboth => hfile hboth.1, h.own, Function.update_of_ne hfile]
    · rintro file' m heq
      cases heq
      exact ⟨hfd, Function.update_self _ _ _⟩
    · by_cases hfile : file' = file
      · exact .inr ⟨fd, .inl (by rw [hfile])⟩
      · rw [Function.update_of_ne hfile] at ht
        exact .inl ((h.content hfaulty p file' ht).resolve_right (hwriting file'))

theorem run_close_turn (h : RunInv pid faulty stages K t) {fd : ℕ}
    (hp : stages p = some (file, .busy fd))
    (hs : K.serve p faulty (.close fd) o = some (a, K')) :
    RunMoves pid faulty stages K' t p file (.busy fd) (.finished 1) := by
  have hwriting : ∀ file, ¬ Writing (stages p) file := by
    rw [hp]
    exact not_writing (by simp) (by simp)
  obtain ⟨hfd, hother⟩ := h.stage p file _ hp
  refine ⟨t, ?_, .inl ⟨rfl, rfl⟩⟩
  have hstage : ∀ file' m, some (file, RunStage.finished 1) = some (file', m) →
      AtRun faulty K' t p file' m := by
    rintro file' m heq
    cases heq
    trivial
  rcases Kernel.serve_close hs with rfl | ⟨f, hf, rfl⟩
  · exact h.move _ (fun _ _ => rfl) (fun _ _ _ => Iff.rfl) (fun _ => rfl) hstage hwriting
  · obtain rfl : f = ⟨file, .readWrite, 0⟩ := Option.some.inj (hf.symm.trans hfd)
    refine h.move _ (fun q hq => Kernel.fds_setFd_of_ne hq _ _) (fun file' q kind => ?_)
      (fun _ => rfl) hstage hwriting
    -- the process has no lock on the file that it could lose
    refine Kernel.mem_locks_unlock.trans (and_iff_left_of_imp fun hmem hfile hq => ?_)
    have ht := ((h.own file' q kind).mp hmem).2
    rw [hfile, hq] at ht
    exact hother ht

theorem run_ftruncate_turn (h : RunInv pid faulty stages K t) {fd : ℕ}
    (hp : stages p = some (file, .locked fd))
    (hs : K.serve p faulty (.ftruncate fd 0) o = some (a, K')) :
    RunMoves pid faulty stages K' t p file (.locked fd) (.truncated fd) := by
  obtain ⟨hfd, hmine⟩ := h.stage p file _ hp
  refine ⟨t, ?_, .inl ⟨rfl, rfl⟩⟩
  rcases Kernel.serve_ftruncate hfd (by simp) hs with ⟨hfaulty, rfl⟩ | rfl
  · refine h.update _ (fun _ _ => rfl) (fun _ _ _ => Iff.rfl) h.own (fun _ => .inr rfl) ?_ ?_
    · rintro file' m heq
      cases heq
      exact ⟨hfd, hmine, fun hnot => absurd hfaulty (by simp [hnot])⟩
    · exact fun hnot => absurd hfaulty (by simp [hnot])
  · refine h.update _ (fun _ _ => rfl) (fun _ _ _ => Iff.rfl) h.own (fun file' => ?_) ?_ ?_
    · rw [Kernel.content_setFile]
      by_cases hfile : file' = file
      · exact .inl (by rw [hfile, hmine])
      · exact .inr (if_neg hfile)
    · rintro file' m heq
      cases heq
      exact ⟨hfd, hmine, fun _ => by rw [Kernel.content_setFile, if_pos rfl]⟩
    · intro hfaulty file' ht
      rw [Kernel.content_setFile]
      by_cases hfile : file' = file
      · exact .inr ⟨fd, .inr (by rw [hfile])⟩
      · rw [if_neg hfile]
        refine .inl ((h.content hfaulty p file' ht).resolve_right ?_)
        rw [hp]
        rintro ⟨fd', heq | heq⟩
        · exact hfile (Prod.mk.inj (Option.some.inj heq)).1.symm
        · cases heq

theorem run_write_turn (h : RunInv pid faulty stages K t) {fd : ℕ}
    (hp : stages p = some (file, .truncated fd))
    (hs : K.serve p faulty (.write fd (pidText (pid p))) o = some (a, K')) :
    RunMoves pid faulty stages K' t p file (.truncated fd) (.finished 0) := by
  obtain ⟨hfd, hmine, hempty⟩ := h.stage p file _ hp
  obtain ⟨k, offset, hk, hlocks, hfds, -, hcontent⟩ := Kernel.serve_write hfd (by simp) rfl hs
  refine ⟨t, ?_, .inl ⟨rfl, rfl⟩⟩
  refine h.update _ hfds (fun _ _ _ => Iff.rfl) (fun file' q kind => ?_) (fun file' => ?_) ?_
    fun hfaulty file' ht => ?_
  · rw [hlocks, h.own]
  · by_cases hfile : file' = file
    · exact .inl (by rw [hfile, hmine])
    · exact .inr ((hcontent file').trans (if_neg hfile))
  · rintro file' m heq
    cases heq
    trivial
  · rw [hcontent]
    by_cases hfile : file' = file
    · have hall : k = (pidText (pid p)).length :=
        hk.resolve_right fun hcut => absurd hcut.1 (by simp [hfaulty])
      rw [if_pos hfile, hempty hfaulty, hall, List.take_length, List.drop_nil, List.append_nil]
      exact .inl rfl
    · rw [if_neg hfile]
      refine .inl ((h.content hfaulty p file' ht).resolve_right ?_)
      rw [hp]
      rintro ⟨fd', heq | heq⟩
      · cases heq
      · exact hfile (Prod.mk.inj (Option.some.inj heq)).1.symm

theorem RunInv.turn (h : RunInv pid faulty stages K t) {m : RunStage} {q : FileCall CStr}
    (hp : stages p = some (file, m)) (hq : (runProtocol (pidText (pid p)) file).allowed m q)
    (hs : K.serve p faulty q o = some (a, K')) :
    RunMoves pid faulty stages K' t p file m
      ((runProtocol (pidText (pid p)) file).next m q a) := by
  cases m with
  | start =>
      cases q with
      | openFile path access create =>
          obtain ⟨rfl, rfl⟩ := hq
          exact run_start_turn h hp hs
      | _ => exact hq.elim
  | opened fd =>
      cases q with
      | setlk fd' kind =>
          cases kind with
          | none => exact hq.elim
          | some kind =>
              obtain ⟨rfl, rfl⟩ := hq
              exact run_opened_turn h hp hs
      | _ => exact hq.elim
  | busy fd =>
      cases q with
      | close fd' =>
          obtain rfl : fd' = fd := hq
          exact run_close_turn h hp hs
      | _ => exact hq.elim
  | locked fd =>
      cases q with
      | ftruncate fd' length =>
          obtain ⟨rfl, rfl⟩ := hq
          exact run_ftruncate_turn h hp hs
      | _ => exact hq.elim
  | truncated fd =>
      cases q with
      | write fd' bytes =>
          obtain ⟨rfl, rfl⟩ := hq
          exact run_write_turn h hp hs
      | _ => exact hq.elim
  | exited =>
      cases q with
      | exit status => cases hs
      | _ => exact hq.elim
  | finished b => cases q <;> exact hq.elim

theorem RunInv.call (h : RunInv pid faulty stages K t) (hp : stages p = none) :
    RunInv pid faulty (Function.update stages p (some (file, .start))) K t := by
  refine h.move _ (fun _ _ => rfl) (fun _ _ _ => Iff.rfl) (fun _ => rfl) ?_ ?_
  · rintro file' m heq
    cases heq
    trivial
  · rw [hp]
    exact not_writing_none

theorem RunInv.ret (h : RunInv pid faulty stages K t) {b : ℤ}
    (hp : stages p = some (file, .finished b)) :
    RunInv pid faulty (Function.update stages p none) K t := by
  refine h.move _ (fun _ _ => rfl) (fun _ _ _ => Iff.rfl) (fun _ => rfl) ?_ ?_
  · rintro file' m heq
    cases heq
  · rw [hp]
    exact not_writing (by simp) (by simp)

theorem RunInv.stop (h : RunInv pid faulty stages K t) :
    RunInv pid faulty (Function.update stages p none) (K.stop p)
      fun file => if t file = some p then none else t file := by
  refine h.update none (fun q hq => Kernel.fds_stop_of_ne hq) (fun file q hq => ?_)
    (fun file q kind => ?_) (fun _ => .inr rfl) ?_ fun _ file ht => ?_
  · split_ifs with hmine
    · simp [hmine, Ne.symm hq]
    · exact Iff.rfl
  · rw [Kernel.mem_locks_stop, h.own]
    by_cases hmine : t file = some p
    · simp [hmine, eq_comm]
    · rw [if_neg hmine]
      refine ⟨And.left, fun hown => ⟨hown, fun hq => hmine ?_⟩⟩
      rw [hown.2, hq]
  · rintro file' m heq
    cases heq
  · split_ifs at ht with hmine
    exact absurd ht hmine

end Invariant

/-- Calls of `already_running` cannot be told from calls of the object. -/
def runSimulation {P : Type} [DecidableEq P] (pid : P → ℕ) (faulty : Bool) :
    Simulation (fileServer (fun p => alreadyRunning (pid p)) faulty) pidFiles RunStage where
  Inv := RunInv pid faulty
  Left p file m x := (runProtocol (pidText (pid p)) file).Follows (fun b m => m = .finished b) x m
  first _ _ := .start
  result _ := RunStage.result
  left_first p file := alreadyRunning_follows (pid p) file
  result_first _ _ := rfl
  call _ _ _ _ _ h hp := h.call hp
  turn _ _ _ _ _ _ _ _ _ _ _ h hp hleft hs := by
    obtain ⟨t', hinv, heffect⟩ := RunInv.turn h hp hleft.1 hs
    exact ⟨_, t', hleft.2 _ trivial, hinv, heffect⟩
  ret _ _ _ _ _ _ _ h hp hleft := by
    obtain rfl := hleft
    exact ⟨.inl rfl, h.ret hp⟩
  stop _ _ _ _ h := ⟨_, h.stop, rfl⟩

/-! ## Main results -/

section Results

variable {P : Type} [DecidableEq P]

/-- Whatever processes call `already_running` for which files, in whatever order of their system
calls and wherever they end, each call says 0 or 1 as if it looked for another running process
and took its place at one moment. -/
theorem already_running_atomic (pid : P → ℕ) (faulty : Bool) (K : Kernel P CStr)
    (hlocks : ∀ file, K.locks file = []) (xs : List (Happening P CStr Outcome))
    (w : World P CStr (SystemCalls ℤ) ℤ (Kernel P CStr))
    (hxs : xs.foldlM (fileServer (fun p => alreadyRunning (pid p)) faulty).step (World.start K) =
      some w) :
    ∃ v, pidFiles.Run (World.start fun _ => none) v ∧ v.seen = w.seen := by
  obtain ⟨v, hv, ⟨hrelated⟩⟩ := (runSimulation pid faulty).refines (RunInv.start hlocks) hxs
  exact ⟨v, hv, hrelated.seen⟩

/-- Two processes start for one file, one of them ends, and the other one starts again. -/
def startedTwice : List (Happening ℕ CStr Outcome) :=
  [.call 1 (text "pid"), .turn 1 ⟨none, 3⟩, .turn 1 ⟨none, 0⟩, .call 2 (text "pid"),
    .turn 2 ⟨none, 3⟩, .turn 2 ⟨none, 0⟩, .turn 2 ⟨none, 0⟩, .ret 2, .turn 1 ⟨none, 0⟩,
    .turn 1 ⟨none, 2⟩, .ret 1, .stop 1, .call 2 (text "pid"), .turn 2 ⟨none, 3⟩,
    .turn 2 ⟨none, 0⟩, .turn 2 ⟨none, 0⟩, .turn 2 ⟨none, 2⟩, .ret 2]

theorem already_running_atomic_twice :
    ∃ v, (pidFiles (P := ℕ)).Run (World.start fun _ => none) v ∧
      v.seen = [.returned 2 (text "pid") 0, .called 2 (text "pid"), .ended 1,
        .returned 1 (text "pid") 0, .returned 2 (text "pid") 1, .called 2 (text "pid"),
        .called 1 (text "pid")] := by
  have hrun : (startedTwice.foldlM (fileServer (fun p => alreadyRunning p) false).step
      (World.start ⟨fun _ => none, fun _ => [], fun _ _ => none⟩)).isSome = true := rfl
  exact already_running_atomic id false _ (fun _ => rfl) startedTwice _
    (Option.some_get hrun).symm

/-- A call of `already_running` for the file has said 0 to the process, which has not ended
since. The last thing comes first. -/
def Running (file : CStr) (p : P) : List (Seen P CStr ℤ) → Prop
  | [] => False
  | .called _ _ :: seen => Running file p seen
  | .returned q file' b :: seen => q = p ∧ file' = file ∧ b = 0 ∨ Running file p seen
  | .ended q :: seen => q ≠ p ∧ Running file p seen

/-- The running processes are those of the object, and a call that is to say 0 has made its
process the one. -/
structure OneRunning (v : World P CStr (Option ℤ) ℤ (CStr → Option P)) : Prop where
  running : ∀ file p, Running file p v.seen → v.state file = some p
  pending : ∀ file p, v.pending p = some (file, some 0) → v.state file = some p

theorem OneRunning.step {v v' : World P CStr (Option ℤ) ℤ (CStr → Option P)} (h : OneRunning v)
    (hstep : pidFiles.Step v v') : OneRunning v' := by
  cases hstep with
  | call p file _ =>
      refine ⟨fun file' q hq => h.running file' q hq, fun file' q hq => ?_⟩
      rcases update_eq_some hq with ⟨-, heq⟩ | hq
      · cases heq
      · exact h.pending file' q hq
  | effect p file b t hpending heffect =>
      rcases heffect with ⟨rfl, hfree, rfl⟩ | ⟨rfl, -, rfl⟩
      · -- the process takes the file, which no other one had
        have hkeep : ∀ file' q, v.state file' = some q →
            Function.update v.state file (some p) file' = some q := by
          intro file' q hq
          by_cases hfile : file' = file
          · subst hfile
            rcases hfree with hfree | hfree
            · rw [hfree] at hq
              cases hq
            · rw [Function.update_self, ← hfree, hq]
          · rw [Function.update_of_ne hfile, hq]
        refine ⟨fun file' q hq => hkeep file' q (h.running file' q hq), fun file' q hq => ?_⟩
        rcases update_eq_some hq with ⟨rfl, heq⟩ | hq
        · cases heq
          exact Function.update_self _ _ _
        · exact hkeep file' q (h.pending file' q hq)
      · refine ⟨h.running, fun file' q hq => ?_⟩
        rcases update_eq_some hq with ⟨-, heq⟩ | hq
        · cases heq
        · exact h.pending file' q hq
  | ret p file b hpending =>
      refine ⟨fun file' q hq => ?_, fun file' q hq => ?_⟩
      · rcases hq with ⟨rfl, rfl, rfl⟩ | hq
        · exact h.pending _ _ hpending
        · exact h.running file' q hq
      · rcases update_eq_some hq with ⟨-, heq⟩ | hq
        · cases heq
        · exact h.pending file' q hq
  | stop p t hends =>
      obtain rfl := hends
      have hkeep : ∀ file' q, q ≠ p → v.state file' = some q →
          (if v.state file' = some p then none else v.state file') = some q := by
        intro file' q hq heq
        rw [if_neg fun hmine => hq (Option.some.inj (heq.symm.trans hmine)), heq]
      refine ⟨fun file' q hq => hkeep file' q hq.1.symm (h.running file' q hq.2),
        fun file' q hq => ?_⟩
      by_cases hqp : q = p
      · subst hqp
        simp at hq
      · have hold := (Function.update_of_ne hqp _ _).symm.trans hq
        exact hkeep file' q hqp (h.pending file' q hold)

/-- At any time at most one process that has been told 0 for a file is still there, and when it
is not in the middle of another call the file holds its number, if truncations and writes are
neither refused nor cut short. -/
theorem already_running_once (pid : P → ℕ) (faulty : Bool) (K : Kernel P CStr)
    (hlocks : ∀ file, K.locks file = []) (xs : List (Happening P CStr Outcome))
    (w : World P CStr (SystemCalls ℤ) ℤ (Kernel P CStr))
    (hxs : xs.foldlM (fileServer (fun p => alreadyRunning (pid p)) faulty).step (World.start K) =
      some w) (file : CStr) (p : P) (hp : Running file p w.seen) :
    (∀ q, Running file q w.seen → q = p) ∧
      (faulty = false → w.pending p = none → w.state.content file = printNat (pid p) ++ [0]) := by
  obtain ⟨v, hv, ⟨hrelated⟩⟩ := (runSimulation pid faulty).refines (RunInv.start hlocks) hxs
  have hstart : OneRunning (World.start fun _ => none : World P CStr (Option ℤ) ℤ _) :=
    { running := fun _ _ hq => hq.elim
      pending := fun _ _ hq => by cases hq }
  have h := hv.invariant (fun _ _ h hstep => OneRunning.step h hstep) hstart
  rw [← hrelated.seen] at hp ⊢
  have ht := h.running file p hp
  refine ⟨fun q hq => Option.some.inj ((h.running file q hq).symm.trans ht),
    fun hfaulty hidle => ?_⟩
  refine (hrelated.inv.content hfaulty p file ht).resolve_right ?_
  have htracks := hrelated.tracks p
  rw [hidle] at htracks
  cases hstage : hrelated.stages p with
  | none => exact not_writing_none file
  | some x =>
      rw [hstage] at htracks
      cases htracks

end Results

theorem already_running_once_twice :
    ∃ w, startedTwice.foldlM (fileServer (fun p => alreadyRunning p) false).step
        (World.start ⟨fun _ => none, fun _ => [], fun _ _ => none⟩) = some w ∧
      (∀ q, Running (text "pid") q w.seen → q = 2) ∧
      (false = false → w.pending 2 = none → w.state.content (text "pid") = printNat 2 ++ [0]) := by
  have hrun : (startedTwice.foldlM (fileServer (fun p => alreadyRunning p) false).step
      (World.start ⟨fun _ => none, fun _ => [], fun _ _ => none⟩)).isSome = true := rfl
  have hxs := (Option.some_get hrun).symm
  exact ⟨_, hxs, already_running_once id false _ (fun _ => rfl) startedTwice _ hxs (text "pid") 2
    (.inl ⟨rfl, rfl, rfl⟩)⟩

end BcmUtils.StatusFiles
