import BcmUtils.Foundation.Memory
import BcmUtils.Foundation.Objects

/-! # Files with advisory locks

The system calls that processes make on files: descriptors with an offset, and locks on whole
files that a process holds until it releases them, closes any descriptor of the file, or ends.
A request for a lock that another process is in the way of fails at once. On an open descriptor
of a file `lseek`, `close` and the release of a lock succeed. -/

namespace CLib

def ENOENT : ℕ := 2
def EBADF : ℕ := 9
def EAGAIN : ℕ := 11
def EACCES : ℕ := 13

inductive LockKind
  | read | write
  deriving DecidableEq, Repr

inductive Access
  | readOnly | writeOnly | readWrite
  deriving DecidableEq, Repr

/-- What an open descriptor stands for. -/
structure OpenFile (π : Type) where
  path : π
  access : Access
  offset : ℕ

/-- The files with their contents and the locks on them, and the descriptors of each process. -/
structure Kernel (P π : Type) where
  file : π → Option (List Byte)
  locks : π → List (P × LockKind)
  fds : P → ℕ → Option (OpenFile π)

/-- A system call. A lock of no kind is `F_UNLCK`. The call of `exit` is not answered: the process
ends. -/
inductive FileCall (π : Type)
  | openFile (path : π) (access : Access) (create : Bool)
  | setlk (fd : ℕ) (kind : Option LockKind)
  | ftruncate (fd length : ℕ)
  | write (fd : ℕ) (bytes : List Byte)
  | lseekEnd (fd : ℕ)
  | lseekSet (fd offset : ℕ)
  | read (fd count : ℕ)
  | close (fd : ℕ)
  | malloc (size : ℕ)
  | exit (status : ℤ)

/-- What a system call returns, the error it leaves, and the bytes it stores. -/
structure Answer where
  ret : ℤ
  errno : ℕ
  data : List Byte
  deriving DecidableEq, Repr

def Answer.ok (ret : ℤ) : Answer := ⟨ret, 0, []⟩

def Answer.fails (errno : ℕ) : Answer := ⟨-1, errno, []⟩

/-- What the system decides about a call: an error, or a number (of the new descriptor, or of
the bytes that are written). -/
structure Outcome where
  errno : Option ℕ
  number : ℕ

namespace Kernel

variable {P π : Type} [DecidableEq P] [DecidableEq π] (K : Kernel P π) (p : P)

/-- What a file holds. -/
def content (path : π) : List Byte := (K.file path).getD []

def setFile (path : π) (bytes : List Byte) : Kernel P π :=
  { K with file := Function.update K.file path (some bytes) }

def setFd (fd : ℕ) (f : Option (OpenFile π)) : Kernel P π :=
  { K with fds := Function.update K.fds p (Function.update (K.fds p) fd f) }

/-- The locks on a file without those of the process. -/
def unlock (path : π) : Kernel P π :=
  { K with locks := Function.update K.locks path ((K.locks path).filter (·.1 ≠ p)) }

def lock (path : π) (kind : LockKind) : Kernel P π :=
  { K with
    locks := Function.update K.locks path ((p, kind) :: (K.locks path).filter (·.1 ≠ p)) }

/-- Another process holds a lock that does not go with one of this kind. -/
def Conflict (path : π) (kind : LockKind) : Prop :=
  ∃ x ∈ K.locks path, x.1 ≠ p ∧ (kind = .write ∨ x.2 = .write)

instance (path : π) (kind : LockKind) : Decidable (K.Conflict p path kind) :=
  inferInstanceAs (Decidable (∃ x ∈ K.locks path, _))

/-- The end of a process closes its descriptors and releases its locks. -/
def stop : Kernel P π :=
  { K with
    locks := fun path => (K.locks path).filter (·.1 ≠ p)
    fds := Function.update K.fds p fun _ => none }

/-- The access that a lock needs. -/
def lockable : Access → LockKind → Bool
  | .writeOnly, .read => false
  | .readOnly, .write => false
  | _, _ => true

/-- `open`. -/
def openFile (path : π) (access : Access) (create : Bool) (o : Outcome) :
    Option (Answer × Kernel P π) :=
  match o.errno with
  | some e => some (.fails e, K)
  | none =>
      if (K.file path).isNone ∧ create = false then some (.fails ENOENT, K)
      else if (K.fds p o.number).isNone then
        some (.ok o.number, (K.setFile path (K.content path)).setFd p o.number
          (some ⟨path, access, 0⟩))
      else none

/-- `fcntl` with `F_SETLK`. -/
def setlk (fd : ℕ) (kind : LockKind) (o : Outcome) : Option (Answer × Kernel P π) :=
  match K.fds p fd with
  | none => some (.fails EBADF, K)
  | some f =>
      if lockable f.access kind then
        if K.Conflict p f.path kind then
          some (.fails (if o.errno = some EACCES then EACCES else EAGAIN), K)
        else
          match o.errno with
          | some e => if e = EACCES ∨ e = EAGAIN then none else some (.fails e, K)
          | none => some (.ok 0, K.lock p f.path kind)
      else some (.fails EBADF, K)

/-- `fcntl` with `F_SETLK` and `F_UNLCK`. -/
def unlck (fd : ℕ) : Option (Answer × Kernel P π) :=
  match K.fds p fd with
  | none => some (.fails EBADF, K)
  | some f => some (.ok 0, K.unlock p f.path)

/-- `ftruncate`. A faulty system may refuse it. -/
def ftruncate (faulty : Bool) (fd length : ℕ) (o : Outcome) : Option (Answer × Kernel P π) :=
  match K.fds p fd with
  | none => some (.fails EBADF, K)
  | some f =>
      if f.access = .readOnly then some (.fails EBADF, K)
      else
        match o.errno with
        | some e => if faulty then some (.fails e, K) else none
        | none =>
            let bytes := K.content f.path
            some (.ok 0, K.setFile f.path
              (bytes.take length ++ List.replicate (length - bytes.length) 0))

/-- `write`. A faulty system may refuse it or cut it short. -/
def write (faulty : Bool) (fd : ℕ) (bytes : List Byte) (o : Outcome) :
    Option (Answer × Kernel P π) :=
  match K.fds p fd with
  | none => some (.fails EBADF, K)
  | some f =>
      if f.access = .readOnly then some (.fails EBADF, K)
      else
        match o.errno with
        | some e => if faulty then some (.fails e, K) else none
        | none =>
            if o.number = bytes.length ∨ faulty ∧ o.number < bytes.length then
              let old := K.content f.path
              let new := splice f.offset (bytes.take o.number)
                (old ++ List.replicate (f.offset - old.length) 0)
              some (.ok o.number, (K.setFile f.path new).setFd p fd
                (some { f with offset := f.offset + o.number }))
            else none

/-- `lseek` to a place that depends on the size of the file. -/
def lseek (fd : ℕ) (offset : ℕ → ℕ) : Option (Answer × Kernel P π) :=
  match K.fds p fd with
  | none => some (.fails EBADF, K)
  | some f =>
      let off := offset (K.content f.path).length
      some (.ok off, K.setFd p fd (some { f with offset := off }))

/-- `read`. -/
def read (fd count : ℕ) (o : Outcome) : Option (Answer × Kernel P π) :=
  match K.fds p fd with
  | none => some (.fails EBADF, K)
  | some f =>
      if f.access = .writeOnly then some (.fails EBADF, K)
      else
        match o.errno with
        | some e => some (.fails e, K)
        | none =>
            let bytes := ((K.content f.path).drop f.offset).take count
            some (⟨bytes.length, 0, bytes⟩,
              K.setFd p fd (some { f with offset := f.offset + bytes.length }))

/-- `close`, which releases the locks of the process on the file. -/
def close (fd : ℕ) : Option (Answer × Kernel P π) :=
  match K.fds p fd with
  | none => some (.fails EBADF, K)
  | some f => some (.ok 0, (K.unlock p f.path).setFd p fd none)

/-- `malloc`. -/
def malloc (o : Outcome) : Option (Answer × Kernel P π) :=
  match o.errno with
  | some e => some (⟨0, e, []⟩, K)
  | none => some (.ok 1, K)

/-- One system call. `faulty` says whether writes may fail or be cut short. -/
def serve (faulty : Bool) : FileCall π → Outcome → Option (Answer × Kernel P π)
  | .openFile path access create, o => K.openFile p path access create o
  | .setlk fd (some kind), o => K.setlk p fd kind o
  | .setlk fd none, _ => K.unlck p fd
  | .ftruncate fd length, o => K.ftruncate p faulty fd length o
  | .write fd bytes, o => K.write p faulty fd bytes o
  | .lseekEnd fd, _ => K.lseek p fd id
  | .lseekSet fd offset, _ => K.lseek p fd fun _ => offset
  | .read fd count, o => K.read p fd count o
  | .close fd, _ => K.close p fd
  | .malloc _, o => K.malloc o
  | .exit _, _ => none

end Kernel

/-! ## Facts about the system calls -/

namespace Kernel

variable {P π : Type} {K K' : Kernel P π} {p : P}

theorem content_setFile [DecidableEq π] (path path' : π) (bytes : List Byte) :
    (K.setFile path bytes).content path' = if path' = path then bytes else K.content path' := by
  by_cases h : path' = path
  · subst h
    simp [content, setFile]
  · simp [content, setFile, h]

variable [DecidableEq P]

@[simp] theorem content_setFd (fd : ℕ) (f : Option (OpenFile π)) (path : π) :
    (K.setFd p fd f).content path = K.content path := rfl

@[simp] theorem content_stop (path : π) : (K.stop p).content path = K.content path := rfl

@[simp] theorem fds_setFd_self (fd : ℕ) (f : Option (OpenFile π)) :
    (K.setFd p fd f).fds p fd = f := by
  simp [setFd]

theorem fds_setFd_of_ne {q : P} (h : q ≠ p) (fd : ℕ) (f : Option (OpenFile π)) :
    (K.setFd p fd f).fds q = K.fds q := by
  simp [setFd, h]

theorem mem_locks_stop {path : π} {q : P} {kind : LockKind} :
    (q, kind) ∈ (K.stop p).locks path ↔ (q, kind) ∈ K.locks path ∧ q ≠ p := by
  simp [stop]

theorem fds_stop_of_ne {q : P} (h : q ≠ p) : (K.stop p).fds q = K.fds q := by
  simp [stop, h]

variable [DecidableEq π]

@[simp] theorem content_unlock (path path' : π) :
    (K.unlock p path).content path' = K.content path' := rfl

@[simp] theorem content_lock (path path' : π) (kind : LockKind) :
    (K.lock p path kind).content path' = K.content path' := rfl

theorem mem_locks_unlock {path path' : π} {q : P} {kind : LockKind} :
    (q, kind) ∈ (K.unlock p path).locks path' ↔
      (q, kind) ∈ K.locks path' ∧ (path' = path → q ≠ p) := by
  by_cases h : path' = path
  · subst h
    simp [unlock]
  · simp [unlock, h]

theorem mem_locks_lock {path path' : π} {q : P} {kind kind' : LockKind} :
    (q, kind') ∈ (K.lock p path kind).locks path' ↔
      if path' = path ∧ q = p then kind' = kind else (q, kind') ∈ K.locks path' := by
  by_cases h : path' = path
  · subst h
    by_cases hq : q = p
    · subst hq
      simp [lock]
    · simp [lock, hq]
  · simp [lock, h]

omit [DecidableEq P] [DecidableEq π] in
theorem ret_of_fails {e : ℕ} {a : Answer} (h : some (Answer.fails e, K) = some (a, K')) :
    a.ret = -1 ∧ a.errno = e ∧ K' = K := by
  simp only [Option.some.injEq, Prod.mk.injEq] at h
  obtain ⟨rfl, rfl⟩ := h
  exact ⟨rfl, rfl, rfl⟩

/-- `open` fails, or it returns a new descriptor and leaves the contents alone. -/
theorem serve_openFile {faulty : Bool} {path : π} {access : Access} {create : Bool} {o : Outcome}
    {a : Answer} (h : K.serve p faulty (.openFile path access create) o = some (a, K')) :
    a.ret = -1 ∧ K' = K ∨
      ∃ fd : ℕ, a.ret = fd ∧ K'.fds p fd = some ⟨path, access, 0⟩ ∧ K'.locks = K.locks ∧
        (∀ q, q ≠ p → K'.fds q = K.fds q) ∧ ∀ path', K'.content path' = K.content path' := by
  change K.openFile p path access create o = _ at h
  rw [openFile] at h
  split at h
  · exact .inl ⟨(ret_of_fails h).1, (ret_of_fails h).2.2⟩
  · by_cases hnone : (K.file path).isNone ∧ create = false
    · rw [if_pos hnone] at h
      exact .inl ⟨(ret_of_fails h).1, (ret_of_fails h).2.2⟩
    · rw [if_neg hnone] at h
      split_ifs at h
      simp only [Option.some.injEq, Prod.mk.injEq] at h
      obtain ⟨rfl, rfl⟩ := h
      refine .inr ⟨o.number, rfl, by simp, rfl, fun q hq => fds_setFd_of_ne hq _ _, fun path' => ?_⟩
      rw [content_setFd, content_setFile]
      exact ite_eq_right_iff.mpr fun heq => by rw [heq]

variable {fd : ℕ} {f : OpenFile π}

/-- A lock is refused, or it is granted where no other one is in the way. -/
theorem serve_lock {faulty : Bool} {kind : LockKind} {o : Outcome} {a : Answer}
    (hfd : K.fds p fd = some f) (h : K.serve p faulty (.setlk fd (some kind)) o = some (a, K')) :
    a.ret = -1 ∧ K' = K ∧ (a.errno = EACCES ∨ a.errno = EAGAIN → K.Conflict p f.path kind) ∨
      a.ret = 0 ∧ ¬ K.Conflict p f.path kind ∧ K' = K.lock p f.path kind := by
  change K.setlk p fd kind o = _ at h
  simp only [setlk, hfd] at h
  by_cases haccess : lockable f.access kind = true
  · rw [if_pos haccess] at h
    by_cases hconflict : K.Conflict p f.path kind
    · rw [if_pos hconflict] at h
      obtain ⟨hret, -, hK⟩ := ret_of_fails h
      exact .inl ⟨hret, hK, fun _ => hconflict⟩
    · rw [if_neg hconflict] at h
      split at h
      · split_ifs at h with hbusy
        obtain ⟨hret, herrno, hK⟩ := ret_of_fails h
        exact .inl ⟨hret, hK, fun he => absurd (herrno ▸ he) hbusy⟩
      · simp only [Option.some.injEq, Prod.mk.injEq] at h
        obtain ⟨rfl, rfl⟩ := h
        exact .inr ⟨rfl, hconflict, rfl⟩
  · rw [if_neg haccess] at h
    obtain ⟨hret, herrno, hK⟩ := ret_of_fails h
    refine .inl ⟨hret, hK, fun he => ?_⟩
    rw [herrno] at he
    exact absurd he (by decide)

theorem serve_unlock {faulty : Bool} {o : Outcome} {a : Answer} (hfd : K.fds p fd = some f)
    (h : K.serve p faulty (.setlk fd none) o = some (a, K')) : K' = K.unlock p f.path := by
  change K.unlck p fd = _ at h
  simp only [unlck, hfd, Option.some.injEq, Prod.mk.injEq] at h
  exact h.2.symm

theorem serve_close {faulty : Bool} {o : Outcome} {a : Answer}
    (h : K.serve p faulty (.close fd) o = some (a, K')) :
    K' = K ∨ ∃ f, K.fds p fd = some f ∧ K' = (K.unlock p f.path).setFd p fd none := by
  change K.close p fd = _ at h
  rw [close] at h
  split at h
  · simp only [Option.some.injEq, Prod.mk.injEq] at h
    exact .inl h.2.symm
  · simp only [Option.some.injEq, Prod.mk.injEq] at h
    exact .inr ⟨_, ‹_›, h.2.symm⟩

/-- A file that is cut to nothing is empty, unless the system is faulty. -/
theorem serve_ftruncate {faulty : Bool} {o : Outcome} {a : Answer} (hfd : K.fds p fd = some f)
    (haccess : f.access ≠ .readOnly)
    (h : K.serve p faulty (.ftruncate fd 0) o = some (a, K')) :
    faulty = true ∧ K' = K ∨ K' = K.setFile f.path [] := by
  change K.ftruncate p faulty fd 0 o = _ at h
  simp only [ftruncate, hfd, if_neg haccess] at h
  split at h
  · split_ifs at h with hfaulty
    exact .inl ⟨hfaulty, by simp_all⟩
  · exact .inr (by simp_all)

/-- What a write at the beginning of a file leaves. -/
theorem serve_write {faulty : Bool} {bytes : List Byte} {o : Outcome} {a : Answer}
    (hfd : K.fds p fd = some f) (haccess : f.access ≠ .readOnly) (hoffset : f.offset = 0)
    (h : K.serve p faulty (.write fd bytes) o = some (a, K')) :
    ∃ k off, (k = bytes.length ∨ faulty = true ∧ k ≤ bytes.length) ∧
      K'.locks = K.locks ∧ (∀ q, q ≠ p → K'.fds q = K.fds q) ∧
      K'.fds p fd = some { f with offset := off } ∧
      ∀ path', K'.content path' =
        if path' = f.path then bytes.take k ++ (K.content f.path).drop k else K.content path' := by
  change K.write p faulty fd bytes o = _ at h
  simp only [write, hfd, if_neg haccess] at h
  split at h
  · split_ifs at h with hfaulty
    simp only [Option.some.injEq, Prod.mk.injEq] at h
    obtain ⟨-, rfl⟩ := h
    refine ⟨0, f.offset, .inr ⟨hfaulty, Nat.zero_le _⟩, rfl, fun _ _ => rfl, by simp [hfd], ?_⟩
    intro path'
    split_ifs with heq
    · simp [heq]
    · rfl
  · split_ifs at h with hcount
    simp only [Option.some.injEq, Prod.mk.injEq] at h
    obtain ⟨-, rfl⟩ := h
    have hle : o.number ≤ bytes.length := by
      rcases hcount with heq | ⟨-, hlt⟩
      · exact heq.le
      · exact hlt.le
    refine ⟨o.number, f.offset + o.number, hcount.imp_right fun hc => ⟨hc.1, hc.2.le⟩, rfl,
      fun q hq => fds_setFd_of_ne hq _ _, by simp, fun path' => ?_⟩
    rw [content_setFd, content_setFile]
    simp [splice, hoffset, hle]

theorem serve_lseekEnd {faulty : Bool} {o : Outcome} {a : Answer} (hfd : K.fds p fd = some f)
    (h : K.serve p faulty (.lseekEnd fd) o = some (a, K')) :
    a.ret = (K.content f.path).length ∧
      K' = K.setFd p fd (some { f with offset := (K.content f.path).length }) := by
  change K.lseek p fd id = _ at h
  simp only [lseek, hfd, Option.some.injEq, Prod.mk.injEq] at h
  obtain ⟨rfl, rfl⟩ := h
  exact ⟨rfl, rfl⟩

theorem serve_lseekSet {faulty : Bool} {off : ℕ} {o : Outcome} {a : Answer}
    (hfd : K.fds p fd = some f) (h : K.serve p faulty (.lseekSet fd off) o = some (a, K')) :
    K' = K.setFd p fd (some { f with offset := off }) := by
  change (K.lseek p fd fun _ => off) = _ at h
  simp only [lseek, hfd, Option.some.injEq, Prod.mk.injEq] at h
  exact h.2.symm

/-- A read fails, or it fetches the rest of the file. -/
theorem serve_read {faulty : Bool} {count : ℕ} {o : Outcome} {a : Answer}
    (hfd : K.fds p fd = some f) (haccess : f.access ≠ .writeOnly)
    (h : K.serve p faulty (.read fd count) o = some (a, K')) :
    a.ret = -1 ∧ K' = K ∨
      a.data = ((K.content f.path).drop f.offset).take count ∧ a.ret = a.data.length ∧
        K' = K.setFd p fd (some { f with offset := f.offset + a.data.length }) := by
  change K.read p fd count o = _ at h
  simp only [read, hfd, if_neg haccess] at h
  split at h
  · exact .inl ⟨(ret_of_fails h).1, (ret_of_fails h).2.2⟩
  · simp only [Option.some.injEq, Prod.mk.injEq] at h
    obtain ⟨rfl, rfl⟩ := h
    exact .inr ⟨rfl, rfl, rfl⟩

theorem serve_malloc {faulty : Bool} {size : ℕ} {o : Outcome} {a : Answer}
    (h : K.serve p faulty (.malloc size) o = some (a, K')) : K' = K := by
  change K.malloc o = _ at h
  rw [malloc] at h
  split at h <;>
  · simp only [Option.some.injEq, Prod.mk.injEq] at h
    exact h.2.symm

end Kernel

/-- The files of a kernel as a server of calls. -/
def fileServer {P κ β π : Type} [DecidableEq P] [DecidableEq π]
    (body : P → κ → Proc (FileCall π) Answer β) (faulty : Bool) :
    Server P κ (FileCall π) Answer β (Kernel P π) Outcome where
  body := body
  serve p K q o := K.serve p faulty q o
  stop p K := K.stop p

end CLib
