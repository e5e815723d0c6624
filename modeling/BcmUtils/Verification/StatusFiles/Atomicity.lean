import BcmUtils.Foundation.LockedFiles
import BcmUtils.Model.DeviceFiles
import BcmUtils.Model.StatusFiles

/-! # Status files are replaced and read at one moment

Whatever processes call `set_poe_status` and the readers of the status files in whatever order of
their system calls, they see what they would see if each file were replaced and read in one
step. -/

namespace BcmUtils.StatusFiles

open CLib

/-- What the calls are for. -/
def statusJobs : Jobs StatusCall (ℤ × Option (List Byte)) CStr where
  job
    | .setPoeStatus poeStatus => .put POESTATUSFILE (poeStatus ++ [0])
    | .getPoeStatusFromFile => .get POESTATUSFILE
    | .getAlarmStatusFromFile => .get ALARMSTATUSFILE
  failed _ := (-1, none)
  fetched _ data := (data.length, some data)
  stored _ := (0, none)

variable {c : StatusCall}

/-- The stage at which a lock has been taken. -/
def lockedStage (fd : ℕ) : LockKind → Stage (ℤ × Option (List Byte))
  | .read => .readLocked fd
  | .write => .writeLocked fd

/-- The beginning of every call: the file is opened and locked, or the call fails. -/
def locked {β : Type} (file : CStr) (access : Access) (create : Bool) (kind : LockKind) (failed : β)
    (rest : ℕ → SystemCalls β) : SystemCalls β :=
  .ask (.openFile file access create) fun opened =>
    if opened.ret < 0 then .done failed
    else .ask (.setlk opened.ret.toNat (some kind)) fun locked =>
      if locked.ret = -1 then
        if locked.errno = EACCES ∨ locked.errno = EAGAIN then
          .ask (.close opened.ret.toNat) fun _ => .done failed
        else .done failed
      else rest opened.ret.toNat

theorem setPoeStatus_eq (poeStatus : CStr) :
    setPoeStatus poeStatus = locked POESTATUSFILE .writeOnly true .write (-1) fun fd =>
      .ask (.ftruncate fd 0) fun _ => .ask (.write fd (poeStatus ++ [0])) fun _ =>
        .ask (.setlk fd none) fun _ => .ask (.close fd) fun _ => .done 0 := rfl

theorem getStatusFromFile_eq (file : CStr) :
    getStatusFromFile file = locked file .readOnly false .read (-1, none) fun fd =>
      .ask (.lseekEnd fd) fun total => .ask (.lseekSet fd 0) fun _ =>
        .ask (.malloc total.ret.toNat) fun data =>
          if data.ret = 0 then .ask (.setlk fd none) fun _ => .done (-1, none)
          else .ask (.read fd total.ret.toNat) fun result =>
            if result.ret < 0 then .ask (.setlk fd none) fun _ => .done (-1, none)
            else .ask (.setlk fd none) fun _ => .ask (.close fd) fun _ =>
              .done (total.ret, some result.data) := rfl

theorem follows_locked {β : Type} {Q : β → Stage (ℤ × Option (List Byte)) → Prop} {failed : β}
    {file : CStr} {access : Access} {create : Bool} {kind : LockKind} {rest : ℕ → SystemCalls β}
    (hfile : file = (statusJobs.job c).path) (haccess : access = (statusJobs.job c).access)
    (hkind : kind = (statusJobs.job c).kind)
    (hQ : ∀ m, (m = .finished none ∨ ∃ fd, m = .opened fd) → Q failed m)
    (hrest : ∀ fd, (fileProtocol statusJobs c).Follows Q (rest fd) (lockedStage fd kind)) :
    (fileProtocol statusJobs c).Follows Q (locked file access create kind failed rest) .start := by
  refine ⟨⟨hfile, haccess⟩, fun opened _ => ?_⟩
  beta_reduce
  by_cases hopened : opened.ret < 0
  · rw [if_pos hopened]
    exact hQ _ (.inl (if_pos hopened))
  have hstage : (fileProtocol statusJobs c).next .start (.openFile file access create) opened =
      .opened opened.ret.toNat := if_neg hopened
  rw [if_neg hopened, hstage]
  refine ⟨⟨rfl, hkind⟩, fun locked hlocked => ?_⟩
  beta_reduce
  by_cases hret : locked.ret = -1
  · -- the lock is refused
    have hstage : (fileProtocol statusJobs c).next (.opened opened.ret.toNat)
        (.setlk opened.ret.toNat (some kind)) locked = .opened opened.ret.toNat := by
      cases kind <;> exact if_neg (by omega)
    rw [if_pos hret, hstage]
    split_ifs
    · exact ⟨rfl, fun _ _ => hQ _ (.inl rfl)⟩
    · exact hQ _ (.inr ⟨_, rfl⟩)
  · have hzero : locked.ret = 0 := hlocked.resolve_left hret
    have hstage : (fileProtocol statusJobs c).next (.opened opened.ret.toNat)
        (.setlk opened.ret.toNat (some kind)) locked = lockedStage opened.ret.toNat kind := by
      cases kind <;> exact if_pos hzero
    rw [if_neg hret, hstage]
    exact hrest _

theorem setPoeStatus_follows (poeStatus : CStr) :
    (fileProtocol statusJobs (.setPoeStatus poeStatus)).Follows
      (Returns statusJobs (.setPoeStatus poeStatus))
      (StatusCall.body (.setPoeStatus poeStatus)) .start := by
  refine Protocol.Follows.bind
    (Q := fun b m => Returns statusJobs (.setPoeStatus poeStatus) (b, none) m) ?_ fun _ _ h => h
  rw [setPoeStatus_eq]
  refine follows_locked rfl rfl rfl (fun m hm => .inr ⟨rfl, hm⟩) fun fd => ?_
  refine ⟨⟨rfl, rfl, rfl⟩, fun _ _ => ⟨⟨rfl, POESTATUSFILE, rfl⟩, fun _ _ => ?_⟩⟩
  exact ⟨rfl, fun _ _ => ⟨trivial, fun _ _ => .inl rfl⟩⟩

/-- A reader keeps to the protocol of a call that fetches its file. -/
theorem getStatusFromFile_follows {file : CStr} (hjob : statusJobs.job c = .get file) :
    (fileProtocol statusJobs c).Follows (Returns statusJobs c) (getStatusFromFile file) .start := by
  have hpath : file = (statusJobs.job c).path := by rw [hjob]; rfl
  have haccess : .readOnly = (statusJobs.job c).access := by rw [hjob]; rfl
  have hkind : .read = (statusJobs.job c).kind := by rw [hjob]; rfl
  rw [getStatusFromFile_eq]
  refine follows_locked hpath haccess hkind (fun m hm => .inr ⟨rfl, hm⟩) fun fd => ?_
  refine ⟨rfl, fun total htotal => ⟨⟨rfl, rfl⟩, fun _ _ => ⟨trivial, fun data _ => ?_⟩⟩⟩
  beta_reduce
  split_ifs
  · exact ⟨rfl, fun _ _ => .inr ⟨rfl, .inl rfl⟩⟩
  refine ⟨⟨rfl, rfl, hkind.symm⟩, fun result hresult => ?_⟩
  beta_reduce
  by_cases hret : result.ret < 0
  · have hstage : (fileProtocol statusJobs c).next (.rewound fd total.ret.toNat)
        (.read fd total.ret.toNat) result = .rewound fd total.ret.toNat := if_pos hret
    rw [if_pos hret]
    exact Eq.mpr (congrArg _ hstage) ⟨rfl, fun _ _ => .inr ⟨rfl, .inl rfl⟩⟩
  · have hstage : (fileProtocol statusJobs c).next (.rewound fd total.ret.toNat)
        (.read fd total.ret.toNat) result =
          .effected .read fd ((result.data.length : ℤ), some result.data) := if_neg hret
    obtain ⟨-, hlength⟩ : result.ret = total.ret.toNat ∧ result.data.length = total.ret.toNat :=
      hresult.resolve_left (by omega)
    have htotal : total.ret = result.data.length := by
      rw [hlength]
      exact (Int.toNat_of_nonneg htotal).symm
    rw [if_neg hret]
    refine Eq.mpr (congrArg _ hstage) ⟨rfl, fun _ _ => ⟨trivial, fun _ _ => .inl ?_⟩⟩
    rw [htotal]
    rfl

theorem body_follows (c : StatusCall) :
    (fileProtocol statusJobs c).Follows (Returns statusJobs c) c.body .start := by
  cases c with
  | setPoeStatus poeStatus => exact setPoeStatus_follows poeStatus
  | getPoeStatusFromFile => exact getStatusFromFile_follows rfl
  | getAlarmStatusFromFile => exact getStatusFromFile_follows rfl

/-! ## Main result -/

/-- Whatever processes make which calls on the status files, in whatever order of their system
calls and wherever they end, they see what they could see if `set_poe_status` replaced its file
and the readers read theirs at one moment. -/
theorem status_files_atomic {P : Type} [DecidableEq P] (faulty : Bool) (K : Kernel P CStr)
    (hlocks : ∀ path, K.locks path = []) (xs : List (Happening P StatusCall Outcome))
    (w : World P StatusCall (SystemCalls (ℤ × Option (List Byte))) (ℤ × Option (List Byte))
      (Kernel P CStr))
    (hxs : xs.foldlM (fileServer (fun _ => StatusCall.body) faulty).step (World.start K) = some w) :
    ∃ v, (fileStore statusJobs faulty).Run (World.start K.content) v ∧ v.seen = w.seen := by
  obtain ⟨v, hv, ⟨hrelated⟩⟩ := (fileSimulation statusJobs faulty fun _ => body_follows).refines
    (FilesInv.start hlocks) hxs
  exact ⟨v, hv, hrelated.seen⟩

/-- No files, and nothing open. -/
def emptyKernel : Kernel ℕ CStr := ⟨fun _ => none, fun _ => [], fun _ _ => none⟩

/-- A reader comes while a status is being set, and again when it has been set. -/
def overlappingCalls : List (Happening ℕ StatusCall Outcome) :=
  [.call 1 (.setPoeStatus (text "on")), .turn 1 ⟨none, 3⟩, .turn 1 ⟨none, 0⟩, .turn 1 ⟨none, 0⟩,
    .call 2 .getPoeStatusFromFile, .turn 2 ⟨none, 5⟩, .turn 2 ⟨none, 0⟩, .turn 2 ⟨none, 0⟩, .ret 2,
    .turn 1 ⟨none, 3⟩, .turn 1 ⟨none, 0⟩, .turn 1 ⟨none, 0⟩, .ret 1,
    .call 2 .getPoeStatusFromFile, .turn 2 ⟨none, 5⟩, .turn 2 ⟨none, 0⟩, .turn 2 ⟨none, 0⟩,
    .turn 2 ⟨none, 0⟩, .turn 2 ⟨none, 0⟩, .turn 2 ⟨none, 0⟩, .turn 2 ⟨none, 0⟩, .turn 2 ⟨none, 0⟩,
    .ret 2]

theorem status_files_atomic_overlapping :
    ∃ v, (fileStore (P := ℕ) statusJobs false).Run (World.start fun _ => []) v ∧
      v.seen = [.returned 2 .getPoeStatusFromFile (3, some (text "on" ++ [0])),
        .called 2 .getPoeStatusFromFile, .returned 1 (.setPoeStatus (text "on")) (0, none),
        .returned 2 .getPoeStatusFromFile (-1, none), .called 2 .getPoeStatusFromFile,
        .called 1 (.setPoeStatus (text "on"))] := by
  have hrun : (overlappingCalls.foldlM (fileServer (fun _ => StatusCall.body) false).step
      (World.start emptyKernel)).isSome = true := rfl
  exact status_files_atomic false emptyKernel (fun _ => rfl) overlappingCalls _
    (Option.some_get hrun).symm

/-! ## What the readers get -/

section Contents

variable {P : Type}

/-- What the status file held at first, what a call of `set_poe_status` puts into it, or nothing
when a process has ended. -/
def Published (initial : List Byte) (seen : List (Seen P StatusCall (ℤ × Option (List Byte))))
    (data : List Byte) : Prop :=
  data = initial ∨ (data = [] ∧ ∃ q, .ended q ∈ seen) ∨
    ∃ q poeStatus, .called q (.setPoeStatus poeStatus) ∈ seen ∧ data = poeStatus ++ [0]

theorem Published.cons {initial data : List Byte}
    {seen : List (Seen P StatusCall (ℤ × Option (List Byte)))} (h : Published initial seen data)
    (x : Seen P StatusCall (ℤ × Option (List Byte))) : Published initial (x :: seen) data := by
  rcases h with hinitial | ⟨hempty, q, hq⟩ | ⟨q, poeStatus, hq, hdata⟩
  · exact .inl hinitial
  · exact .inr (.inl ⟨hempty, q, List.mem_cons_of_mem _ hq⟩)
  · exact .inr (.inr ⟨q, poeStatus, List.mem_cons_of_mem _ hq, hdata⟩)

/-- A reader has failed, or it has got something that was published as a whole. -/
def GotPublished (initial : List Byte) (seen : List (Seen P StatusCall (ℤ × Option (List Byte))))
    (b : ℤ × Option (List Byte)) : Prop :=
  b = (-1, none) ∨ ∃ data, b = ((data.length : ℤ), some data) ∧ Published initial seen data

theorem GotPublished.cons {initial : List Byte}
    {seen : List (Seen P StatusCall (ℤ × Option (List Byte)))} {b : ℤ × Option (List Byte)}
    (h : GotPublished initial seen b) (x : Seen P StatusCall (ℤ × Option (List Byte))) :
    GotPublished initial (x :: seen) b :=
  h.imp_right fun ⟨data, hb, hdata⟩ => ⟨data, hb, hdata.cons x⟩

/-- The file and the readers have only what was published. -/
structure OnlyPublished (initial : List Byte)
    (v : World P StatusCall (Option (ℤ × Option (List Byte))) (ℤ × Option (List Byte))
      (CStr → List Byte)) : Prop where
  file : Published initial v.seen (v.state POESTATUSFILE)
  called : ∀ p c b, v.pending p = some (c, b) → .called p c ∈ v.seen
  pending : ∀ p b, v.pending p = some (.getPoeStatusFromFile, some b) →
    GotPublished initial v.seen b
  returned : ∀ p b, .returned p .getPoeStatusFromFile b ∈ v.seen → GotPublished initial v.seen b

/-- A call that takes effect leaves the file alone, or puts its text into it. -/
theorem OnlyPublished.file_effect {initial : List Byte}
    {v : World P StatusCall (Option (ℤ × Option (List Byte))) (ℤ × Option (List Byte))
      (CStr → List Byte)} (h : OnlyPublished initial v) {p : P} {c : StatusCall}
    {b : ℤ × Option (List Byte)} {t : CStr → List Byte} (hpending : v.pending p = some (c, none))
    (heffect : (fileStore (P := P) statusJobs false).effect p v.state c b t) :
    Published initial v.seen (t POESTATUSFILE) := by
  rcases heffect with ⟨-, rfl⟩ | heffect
  · exact h.file
  · cases c with
    | setPoeStatus poeStatus =>
        obtain ⟨-, new, hnew, rfl⟩ := heffect
        rw [replaced_false] at hnew
        subst hnew
        refine .inr (.inr ⟨p, poeStatus, h.called p _ none hpending, ?_⟩)
        exact Function.update_self _ _ _
    | getPoeStatusFromFile => exact heffect.2 ▸ h.file
    | getAlarmStatusFromFile => exact heffect.2 ▸ h.file

variable [DecidableEq P]

theorem OnlyPublished.step {initial : List Byte}
    {v v' : World P StatusCall (Option (ℤ × Option (List Byte))) (ℤ × Option (List Byte))
      (CStr → List Byte)}
    (h : OnlyPublished initial v) (hstep : (fileStore statusJobs false).Step v v') :
    OnlyPublished initial v' := by
  cases hstep with
  | call p c _ =>
      refine ⟨h.file.cons _, fun q d b hq => ?_, fun q b hq => ?_, fun q b hq => ?_⟩
      · rcases update_eq_some hq with ⟨rfl, heq⟩ | hq
        · cases heq
          exact List.mem_cons_self
        · exact List.mem_cons_of_mem _ (h.called q d b hq)
      · rcases update_eq_some hq with ⟨-, heq⟩ | hq
        · cases heq
        · exact (h.pending q b hq).cons _
      · exact (h.returned q b (by simpa using hq)).cons _
  | effect p c b t hpending heffect =>
      refine ⟨h.file_effect hpending heffect, fun q d b' hq => ?_, fun q b' hq => ?_, h.returned⟩
      · rcases update_eq_some hq with ⟨rfl, heq⟩ | hq
        · cases heq
          exact h.called q c none hpending
        · exact h.called q d b' hq
      · rcases update_eq_some hq with ⟨rfl, heq⟩ | hq
        · cases heq
          rcases heffect with ⟨hfailed, -⟩ | ⟨hfetched, -⟩
          · exact .inl hfailed
          · exact .inr ⟨_, hfetched, h.file⟩
        · exact h.pending q b' hq
  | ret p c b hpending =>
      refine ⟨h.file.cons _, fun q d b' hq => ?_, fun q b' hq => ?_, fun q b' hq => ?_⟩
      · rcases update_eq_some hq with ⟨-, heq⟩ | hq
        · cases heq
        · exact List.mem_cons_of_mem _ (h.called q d b' hq)
      · rcases update_eq_some hq with ⟨-, heq⟩ | hq
        · cases heq
        · exact (h.pending q b' hq).cons _
      · rcases List.mem_cons.mp hq with heq | hq
        · cases heq
          exact (h.pending p b hpending).cons _
        · exact (h.returned q b' hq).cons _
  | stop p t hends =>
      refine ⟨?_, fun q d b' hq => ?_, fun q b' hq => ?_, fun q b hq => ?_⟩
      · rcases hends with rfl | ⟨d, path, bytes, -, -, rfl⟩
        · exact h.file.cons _
        · -- the file is empty if it is the one that was about to be replaced
          by_cases hpath : POESTATUSFILE = path
          · subst hpath
            exact .inr (.inl ⟨Function.update_self POESTATUSFILE [] v.state, p, List.mem_cons_self⟩)
          · have hsame : Function.update v.state path [] POESTATUSFILE = v.state POESTATUSFILE :=
              Function.update_of_ne hpath _ _
            exact Eq.mpr (congrArg _ hsame) (h.file.cons _)
      · rcases update_eq_some hq with ⟨-, heq⟩ | hq
        · cases heq
        · exact List.mem_cons_of_mem _ (h.called q d b' hq)
      · rcases update_eq_some hq with ⟨-, heq⟩ | hq
        · cases heq
        · exact (h.pending q b' hq).cons _
      · exact (h.returned q b (by simpa using hq)).cons _

/-- On a system whose truncations and writes are neither refused nor cut short, a reader that
returns data returns, with its length, what the file held at first or all of what one call of
`set_poe_status` has put into it, or nothing after a process has ended. -/
theorem status_never_torn (K : Kernel P CStr) (hlocks : ∀ path, K.locks path = [])
    (xs : List (Happening P StatusCall Outcome))
    (w : World P StatusCall (SystemCalls (ℤ × Option (List Byte))) (ℤ × Option (List Byte))
      (Kernel P CStr))
    (hxs : xs.foldlM (fileServer (fun _ => StatusCall.body) false).step (World.start K) = some w)
    (p : P) (b : ℤ × Option (List Byte)) (hb : .returned p .getPoeStatusFromFile b ∈ w.seen) :
    b = (-1, none) ∨ ∃ data, b = ((data.length : ℤ), some data) ∧
      Published (K.content POESTATUSFILE) w.seen data := by
  obtain ⟨v, hv, ⟨hrelated⟩⟩ := (fileSimulation statusJobs false fun _ => body_follows).refines
    (FilesInv.start hlocks) hxs
  have hstart : OnlyPublished (K.content POESTATUSFILE)
      (World.start K.content : World P StatusCall (Option (ℤ × Option (List Byte))) _ _) :=
    { file := .inl rfl
      called := fun _ _ _ hq => by cases hq
      pending := fun _ _ hq => by cases hq
      returned := fun _ _ hq => by cases hq }
  have h := hv.invariant (fun _ _ h hstep => OnlyPublished.step h hstep) hstart
  rw [← hrelated.seen] at hb ⊢
  exact h.returned p b hb

end Contents

theorem status_never_torn_overlapping :
    Published (P := ℕ) [] [.returned 2 .getPoeStatusFromFile (3, some (text "on" ++ [0])),
        .called 2 .getPoeStatusFromFile, .returned 1 (.setPoeStatus (text "on")) (0, none),
        .returned 2 .getPoeStatusFromFile (-1, none), .called 2 .getPoeStatusFromFile,
        .called 1 (.setPoeStatus (text "on"))] (text "on" ++ [0]) := by
  have hrun : (overlappingCalls.foldlM (fileServer (fun _ => StatusCall.body) false).step
      (World.start emptyKernel)).isSome = true := rfl
  rcases status_never_torn emptyKernel (fun _ => rfl) overlappingCalls _
    (Option.some_get hrun).symm 2 (3, some (text "on" ++ [0])) List.mem_cons_self with
    hfailed | ⟨data, hdata, hpublished⟩
  · cases hfailed
  · obtain rfl : text "on" ++ [0] = data := Option.some.inj (Prod.mk.inj hdata).2
    exact hpublished

/-! ## The reader by itself -/

def Errno.code : Errno → ℕ
  | .EACCES => EACCES
  | .EAGAIN => EAGAIN
  | .other => EBADF

/-- The outcomes of the system calls of a reader as the answers to its requests, and what happens
to the descriptors. -/
def respond (calls : PoeStatusCalls) (events : List FdEvent) :
    FileCall CStr → Answer × List FdEvent
  | .openFile _ _ _ =>
      match calls.fd with
      | none => (.fails ENOENT, events)
      | some fd => (.ok fd, events ++ [.opened fd])
  | .setlk _ (some _) =>
      match calls.lockError with
      | none => (.ok 0, events)
      | some errno => (.fails (Errno.code errno), events)
  | .lseekEnd _ => (.ok calls.lseek, events)
  | .malloc _ => (.ok (if calls.mallocOk then 1 else 0), events)
  | .read _ _ =>
      match calls.read with
      | none => (.fails EBADF, events)
      | some data => (⟨data.length, 0, data⟩, events)
  | .close fd => (.ok 0, events ++ [.closed fd])
  | _ => (.ok 0, events)

/-- With nobody else there, the reader does what its outcomes say. -/
theorem getPoeStatusFromFile_run (calls : PoeStatusCalls) :
    getPoeStatusFromFile.run (respond calls) [] =
      some (((BcmUtils.getPoeStatusFromFile calls).1, (BcmUtils.getPoeStatusFromFile calls).2.1),
        (BcmUtils.getPoeStatusFromFile calls).2.2) := by
  obtain ⟨fd, lockError, lseek, mallocOk, read⟩ := calls
  cases fd with
  | none => rfl
  | some fd =>
      cases lockError with
      | some errno => cases errno <;> rfl
      | none =>
          cases mallocOk with
          | false => rfl
          | true => cases read <;> rfl

end BcmUtils.StatusFiles
