import BcmUtils.Foundation.Files

/-! # Whole files under locks

Processes that read a file under a shared lock, or empty it and write it under an exclusive one,
cannot be told from callers of a store in which a file is read or replaced at one moment. -/

namespace CLib

/-! ## Jobs -/

/-- What a call does to a file. -/
inductive Job (π : Type)
  | get (path : π)
  | put (path : π) (bytes : List Byte)

namespace Job

variable {π : Type}

def path : Job π → π
  | get path => path
  | put path _ => path

def access : Job π → Access
  | get _ => .readOnly
  | put _ _ => .writeOnly

def kind : Job π → LockKind
  | get _ => .read
  | put _ _ => .write

end Job

/-- The job of each call, and what the call returns when it has failed, has fetched the bytes of
a file, or has replaced them. -/
structure Jobs (κ β π : Type) where
  job : κ → Job π
  failed : κ → β
  fetched : κ → List Byte → β
  stored : κ → β

/-- What a file may hold after bytes are put in place of old ones. A faulty system may keep the
old ones and may not write all of the new ones. -/
def Replaced (faulty : Bool) (old bytes new : List Byte) : Prop :=
  ∃ base k, (base = [] ∨ faulty = true ∧ base = old) ∧
    (k = bytes.length ∨ faulty = true ∧ k ≤ bytes.length) ∧ new = bytes.take k ++ base.drop k

theorem replaced_false {old bytes new : List Byte} :
    Replaced false old bytes new ↔ new = bytes := by
  simp [Replaced]

/-- The store in which a call fails, or reads or replaces a file at one moment. A process that
ends may leave the file empty that it was about to replace. -/
def fileStore {P κ β π : Type} [DecidableEq π] (J : Jobs κ β π) (faulty : Bool) :
    Atomic P κ β (π → List Byte) where
  effect _ t c b t' :=
    b = J.failed c ∧ t' = t ∨
      match J.job c with
      | .get path => b = J.fetched c (t path) ∧ t' = t
      | .put path bytes =>
          b = J.stored c ∧
            ∃ new, Replaced faulty (t path) bytes new ∧ t' = Function.update t path new
  ends _ t c t' :=
    t' = t ∨ ∃ d path bytes, c = some d ∧ J.job d = .put path bytes ∧ t' = Function.update t path []

/-! ## The protocol -/

/-- How far a call has come. -/
inductive Stage (β : Type)
  | start
  | opened (fd : ℕ)
  | readLocked (fd : ℕ)
  | sized (fd n : ℕ)
  | rewound (fd n : ℕ)
  | writeLocked (fd : ℕ)
  | truncated (fd : ℕ)
  | effected (kind : LockKind) (fd : ℕ) (b : β)
  | finished (result : Option β)

/-- The lock that a call holds. -/
def Stage.lock {β : Type} : Stage β → Option LockKind
  | .readLocked _ | .sized _ _ | .rewound _ _ => some .read
  | .writeLocked _ | .truncated _ => some .write
  | .effected kind _ _ => some kind
  | _ => none

def Stage.result {β : Type} : Stage β → Option β
  | .effected _ _ b => some b
  | .finished result => result
  | _ => none

/-- A file is read, or emptied and written, under a lock on the whole of it. -/
def fileProtocol {κ β π : Type} (J : Jobs κ β π) (c : κ) :
    Protocol (Stage β) (FileCall π) Answer where
  allowed
    | .start, .openFile path access _ => path = (J.job c).path ∧ access = (J.job c).access
    | .opened fd, .setlk fd' (some kind) => fd' = fd ∧ kind = (J.job c).kind
    | .opened fd, .close fd' => fd' = fd
    | .readLocked fd, .lseekEnd fd' => fd' = fd
    | .sized fd _, .lseekSet fd' offset => fd' = fd ∧ offset = 0
    | .rewound _ _, .malloc _ => True
    | .rewound fd n, .read fd' count => fd' = fd ∧ count = n ∧ (J.job c).kind = .read
    | .rewound fd _, .setlk fd' none => fd' = fd
    | .writeLocked fd, .ftruncate fd' length =>
        fd' = fd ∧ length = 0 ∧ (J.job c).access = .writeOnly
    | .truncated fd, .write fd' bytes => fd' = fd ∧ ∃ path, J.job c = .put path bytes
    | .effected _ fd _, .setlk fd' none => fd' = fd
    | .finished _, .close _ => True
    | _, _ => False
  answers
    | .start, .openFile _ _ _, a => a.ret = -1 ∨ 0 ≤ a.ret
    | .opened _, .setlk _ (some _), a => a.ret = -1 ∨ a.ret = 0
    | .readLocked _, .lseekEnd _, a => 0 ≤ a.ret
    | .rewound _ n, .read _ _, a => a.ret = -1 ∨ a.ret = n ∧ a.data.length = n
    | _, _, _ => True
  next
    | .start, .openFile _ _ _, a => if a.ret < 0 then .finished none else .opened a.ret.toNat
    | .opened fd, .setlk _ (some .read), a => if a.ret = 0 then .readLocked fd else .opened fd
    | .opened fd, .setlk _ (some .write), a => if a.ret = 0 then .writeLocked fd else .opened fd
    | .opened _, .close _, _ => .finished none
    | .readLocked fd, .lseekEnd _, a => .sized fd a.ret.toNat
    | .sized fd n, .lseekSet _ _, _ => .rewound fd n
    | .rewound fd n, .read _ _, a =>
        if a.ret < 0 then .rewound fd n else .effected .read fd (J.fetched c a.data)
    | .rewound _ _, .setlk _ _, _ => .finished none
    | .writeLocked fd, .ftruncate _ _, _ => .truncated fd
    | .truncated fd, .write _ _, _ => .effected .write fd (J.stored c)
    | .effected _ _ b, .setlk _ _, _ => .finished (some b)
    | m, _, _ => m

/-- A call returns when it holds no lock: what its effect was, or that it has failed. -/
def Returns {κ β π : Type} (J : Jobs κ β π) (c : κ) (b : β) (m : Stage β) : Prop :=
  m = .finished (some b) ∨ b = J.failed c ∧ (m = .finished none ∨ ∃ fd, m = .opened fd)

/-! ## The invariant -/

section Invariant

variable {P κ β π : Type}

/-- What the descriptors of a process, the file of its call, and the bytes that the file stands
for are at a stage. -/
def AtStage (faulty : Bool) (fds : ℕ → Option (OpenFile π)) (content bytes : List Byte)
    (j : Job π) : Stage β → Prop
  | .start | .finished _ => True
  | .opened fd | .writeLocked fd => fds fd = some ⟨j.path, j.access, 0⟩
  | .readLocked fd | .effected _ fd _ => ∃ offset, fds fd = some ⟨j.path, j.access, offset⟩
  | .sized fd n => (∃ offset, fds fd = some ⟨j.path, j.access, offset⟩) ∧ n = bytes.length
  | .rewound fd n => fds fd = some ⟨j.path, j.access, 0⟩ ∧ n = bytes.length
  | .truncated fd => fds fd = some ⟨j.path, j.access, 0⟩ ∧ j.access = .writeOnly ∧
      (content = [] ∨ faulty = true ∧ content = bytes)

/-- Without a lock the contents do not matter. -/
theorem AtStage.of_lock {faulty : Bool} {fds : ℕ → Option (OpenFile π)}
    {content content' bytes bytes' : List Byte} {j : Job π} {m : Stage β} (hm : m.lock = none)
    (h : AtStage faulty fds content bytes j m) : AtStage faulty fds content' bytes' j m := by
  cases m <;> first | exact h | simp [Stage.lock] at hm

/-- The call holds a lock of a kind on a file. -/
def HoldsLock (J : Jobs κ β π) (x : Option (κ × Stage β)) (path : π) (kind : LockKind) : Prop :=
  ∃ c m, x = some (c, m) ∧ path = (J.job c).path ∧ m.lock = some kind

/-- The call has cut a file and not yet written it. -/
def Emptied (J : Jobs κ β π) (x : Option (κ × Stage β)) (path : π) : Prop :=
  ∃ c fd, x = some (c, .truncated fd) ∧ path = (J.job c).path

/-- The locks are those of the calls, an exclusive lock is the only one on its file, and a file
holds what it stands for unless it is being replaced. -/
structure FilesInv (J : Jobs κ β π) (faulty : Bool) (stages : P → Option (κ × Stage β))
    (K : Kernel P π) (t : π → List Byte) : Prop where
  own : ∀ p path kind, (p, kind) ∈ K.locks path ↔ HoldsLock J (stages p) path kind
  alone : ∀ path p q kind, (p, .write) ∈ K.locks path → (q, kind) ∈ K.locks path → q = p
  fits : ∀ p c m, stages p = some (c, m) →
    AtStage faulty (K.fds p) (K.content (J.job c).path) (t (J.job c).path) (J.job c) m
  quiet : ∀ path, (∀ p, ¬ Emptied J (stages p) path) → K.content path = t path

variable [DecidableEq P] {J : Jobs κ β π} {faulty : Bool} {stages : P → Option (κ × Stage β)}
  {K K' : Kernel P π} {t t' : π → List Byte} {p : P}

omit [DecidableEq P] in
/-- Nobody holds a lock or has made a call. -/
theorem FilesInv.start (hlocks : ∀ path, K.locks path = []) :
    FilesInv J faulty (fun _ => none) K K.content where
  own p path kind := by simp [hlocks, HoldsLock]
  alone path p q kind hwrite := by simp [hlocks] at hwrite
  fits p c m heq := by cases heq
  quiet _ _ := rfl

/-- What one process may do: it leaves the descriptors and the locks of the others alone, takes a
lock only where none is in the way, and changes a file only under an exclusive lock. -/
theorem FilesInv.update (h : FilesInv J faulty stages K t) (y : Option (κ × Stage β))
    (hfds : ∀ q, q ≠ p → K'.fds q = K.fds q)
    (hothers : ∀ path q kind, q ≠ p → ((q, kind) ∈ K'.locks path ↔ (q, kind) ∈ K.locks path))
    (hown : ∀ path kind, (p, kind) ∈ K'.locks path ↔ HoldsLock J y path kind)
    (htaken : ∀ path kind, (p, kind) ∈ K'.locks path →
      (p, kind) ∈ K.locks path ∨ ¬ K.Conflict p path kind)
    (hchange : ∀ path, (p, .write) ∈ K.locks path ∨
      K'.content path = K.content path ∧ t' path = t path)
    (hfits : ∀ c m, y = some (c, m) →
      AtStage faulty (K'.fds p) (K'.content (J.job c).path) (t' (J.job c).path) (J.job c) m)
    (hquiet : ∀ path, ¬ Emptied J y path → (∀ q, q ≠ p → ¬ Emptied J (stages q) path) →
      K'.content path = t' path) :
    FilesInv J faulty (Function.update stages p y) K' t' where
  own q path kind := by
    by_cases hq : q = p
    · subst hq
      simpa using hown path kind
    · simpa [hq] using (hothers path q kind hq).trans (h.own q path kind)
  alone path q q' kind hwrite hkind := by
    by_cases hq : q = p
    · by_cases hq' : q' = p
      · rw [hq, hq']
      · rw [hothers path q' kind hq'] at hkind
        subst hq
        rcases htaken path .write hwrite with hheld | hfree
        · exact h.alone path q q' kind hheld hkind
        · exact absurd ⟨_, hkind, hq', .inl rfl⟩ hfree
    · rw [hothers path q .write hq] at hwrite
      by_cases hq' : q' = p
      · subst hq'
        rcases htaken path kind hkind with hheld | hfree
        · exact h.alone path q q' kind hwrite hheld
        · exact absurd ⟨_, hwrite, hq, .inr rfl⟩ hfree
      · exact h.alone path q q' kind hwrite ((hothers path q' kind hq').mp hkind)
  fits q c m hstage := by
    by_cases hq : q = p
    · subst hq
      exact hfits c m (by simpa using hstage)
    · rw [Function.update_of_ne hq] at hstage
      have hold := h.fits q c m hstage
      rw [hfds q hq]
      rcases hchange (J.job c).path with hwrite | ⟨hcontent, hbytes⟩
      · -- no lock of `q` goes with the exclusive one
        refine hold.of_lock ?_
        cases hlock : m.lock with
        | none => rfl
        | some kind =>
            have hmem := (h.own q _ kind).mpr ⟨c, m, hstage, rfl, hlock⟩
            exact absurd (h.alone _ p q kind hwrite hmem) hq
      · rwa [hcontent, hbytes]
  quiet path hcut := by
    refine hquiet path (by simpa using hcut p) fun q hq => ?_
    simpa [hq] using hcut q

/-- A step that keeps the locks and the contents. -/
theorem FilesInv.move (h : FilesInv J faulty stages K t) {c : κ} {m m' : Stage β}
    (hp : stages p = some (c, m)) (hlock : m'.lock = m.lock) (hm : ∀ fd, m ≠ .truncated fd)
    (hfds : ∀ q, q ≠ p → K'.fds q = K.fds q)
    (hlocks : K'.locks = K.locks) (hcontent : ∀ path, K'.content path = K.content path)
    (hfits : AtStage faulty (K'.fds p) (K.content (J.job c).path) (t (J.job c).path) (J.job c) m') :
    FilesInv J faulty (Function.update stages p (some (c, m'))) K' t := by
  refine h.update _ hfds ?_ ?_ ?_ ?_ ?_ ?_
  · intro path q kind _
    rw [hlocks]
  · intro path kind
    rw [hlocks, h.own, hp]
    simp [HoldsLock, hlock]
  · intro path kind hmem
    exact .inl (hlocks ▸ hmem)
  · exact fun path => .inr ⟨hcontent path, rfl⟩
  · intro c' m'' heq
    obtain ⟨rfl, rfl⟩ := Prod.mk.inj (Option.some.inj heq)
    rw [hcontent]
    exact hfits
  · intro path _ hothers
    rw [hcontent]
    refine h.quiet path fun q => ?_
    by_cases hq : q = p
    · subst hq
      rw [hp]
      rintro ⟨c', fd, heq, -⟩
      exact hm fd (Prod.mk.inj (Option.some.inj heq)).2
    · exact hothers q hq

/-- A step after which the process holds no lock, and before which it was not replacing a file. -/
theorem FilesInv.release (h : FilesInv J faulty stages K t) (y : Option (κ × Stage β))
    (hcut : ∀ path, ¬ Emptied J (stages p) path) (hy : ∀ path kind, ¬ HoldsLock J y path kind)
    (hfds : ∀ q, q ≠ p → K'.fds q = K.fds q)
    (hlocks : ∀ path q kind, (q, kind) ∈ K'.locks path ↔ (q, kind) ∈ K.locks path ∧ q ≠ p)
    (hcontent : ∀ path, K'.content path = K.content path)
    (hfits : ∀ c m, y = some (c, m) →
      AtStage faulty (K'.fds p) (K.content (J.job c).path) (t (J.job c).path) (J.job c) m) :
    FilesInv J faulty (Function.update stages p y) K' t := by
  refine h.update _ hfds ?_ ?_ ?_ ?_ ?_ ?_
  · intro path q kind hq
    rw [hlocks]
    exact and_iff_left hq
  · intro path kind
    rw [hlocks]
    exact iff_of_false (fun hmem => hmem.2 rfl) (hy path kind)
  · exact fun path kind hmem => absurd rfl ((hlocks path p kind).mp hmem).2
  · exact fun path => .inr ⟨hcontent path, rfl⟩
  · intro c m heq
    rw [hcontent]
    exact hfits c m heq
  · intro path _ hothers
    rw [hcontent]
    refine h.quiet path fun q => ?_
    by_cases hq : q = p
    · subst hq
      exact hcut path
    · exact hothers q hq

/-- The process takes the lock on its file. -/
theorem FilesInv.acquire [DecidableEq π] (h : FilesInv J faulty stages K t) {c : κ} {fd : ℕ}
    {m' : Stage β} {kind : LockKind} (hp : stages p = some (c, .opened fd))
    (hfree : ¬ K.Conflict p (J.job c).path kind) (hm' : m'.lock = some kind)
    (hfits : AtStage faulty (K.fds p) (K.content (J.job c).path) (t (J.job c).path) (J.job c) m') :
    FilesInv J faulty (Function.update stages p (some (c, m'))) (K.lock p (J.job c).path kind)
      t := by
  have hnone : ∀ path kind, (p, kind) ∉ K.locks path := by
    intro path kind hmem
    obtain ⟨c', m, heq, -, hlock⟩ := (h.own p path kind).mp hmem
    rw [hp] at heq
    obtain ⟨rfl, rfl⟩ := Prod.mk.inj (Option.some.inj heq)
    exact absurd hlock (by simp [Stage.lock])
  refine h.update _ (fun q _ => rfl) ?_ ?_ ?_ (fun path => .inr ⟨rfl, rfl⟩) ?_ ?_
  · intro path q kind' hq
    rw [Kernel.mem_locks_lock, if_neg fun hboth => hq hboth.2]
  · intro path kind'
    rw [Kernel.mem_locks_lock]
    split_ifs with hboth
    · rw [hboth.1]
      simp [HoldsLock, hm', eq_comm]
    · refine iff_of_false (hnone path kind') ?_
      rintro ⟨c', m, heq, hpath, -⟩
      obtain ⟨rfl, rfl⟩ := Prod.mk.inj (Option.some.inj heq)
      exact hboth ⟨hpath, rfl⟩
  · intro path kind' hmem
    rw [Kernel.mem_locks_lock] at hmem
    split_ifs at hmem with hboth
    · rw [hmem, hboth.1]
      exact .inr hfree
    · exact .inl hmem
  · intro c' m'' heq
    obtain ⟨rfl, rfl⟩ := Prod.mk.inj (Option.some.inj heq)
    exact hfits
  · intro path _ hothers
    refine h.quiet path fun q => ?_
    by_cases hq : q = p
    · subst hq
      rw [hp]
      rintro ⟨c', fd', heq, -⟩
      cases heq
    · exact hothers q hq

/-- The process changes its file, which it has locked for itself. -/
theorem FilesInv.change [DecidableEq π] (h : FilesInv J faulty stages K t) {c : κ} {m m' : Stage β}
    {new bytes : List Byte} (hp : stages p = some (c, m)) (hm : m.lock = some .write)
    (hm' : m'.lock = some .write) (hfds : ∀ q, q ≠ p → K'.fds q = K.fds q)
    (hlocks : K'.locks = K.locks)
    (hcontent : ∀ path, K'.content path = if path = (J.job c).path then new else K.content path)
    (hfits : AtStage faulty (K'.fds p) new bytes (J.job c) m')
    (hcut : (∀ fd, m' ≠ .truncated fd) → new = bytes) :
    FilesInv J faulty (Function.update stages p (some (c, m'))) K'
      (Function.update t (J.job c).path bytes) := by
  have hown : (p, .write) ∈ K.locks (J.job c).path := (h.own _ _ _).mpr ⟨c, m, hp, rfl, hm⟩
  refine h.update _ hfds ?_ ?_ ?_ ?_ ?_ ?_
  · intro path q kind _
    rw [hlocks]
  · intro path kind
    rw [hlocks, h.own, hp]
    simp [HoldsLock, hm, hm']
  · exact fun path kind hmem => .inl (hlocks ▸ hmem)
  · intro path
    by_cases hpath : path = (J.job c).path
    · subst hpath
      exact .inl hown
    · exact .inr ⟨by rw [hcontent, if_neg hpath], Function.update_of_ne hpath _ _⟩
  · intro c' m'' heq
    obtain ⟨rfl, rfl⟩ := Prod.mk.inj (Option.some.inj heq)
    rw [hcontent, if_pos rfl, Function.update_self]
    exact hfits
  · intro path hpcut hothers
    by_cases hpath : path = (J.job c).path
    · subst hpath
      rw [hcontent, if_pos rfl, Function.update_self]
      refine hcut fun fd hm' => hpcut ⟨c, fd, ?_, rfl⟩
      rw [hm']
    · rw [hcontent, if_neg hpath, Function.update_of_ne hpath]
      refine h.quiet path fun q => ?_
      by_cases hq : q = p
      · subst hq
        rintro ⟨c', fd, heq, hc'⟩
        rw [hp] at heq
        obtain ⟨rfl, -⟩ := Prod.mk.inj (Option.some.inj heq)
        exact hpath hc'
      · exact hothers q hq

omit [DecidableEq P] in
/-- A process that is past its lock, or has not come to it, holds none. -/
theorem FilesInv.not_mem_locks (h : FilesInv J faulty stages K t)
    (hp : ∀ path kind, ¬ HoldsLock J (stages p) path kind) (path : π) (kind : LockKind) :
    (p, kind) ∉ K.locks path :=
  fun hmem => hp path kind ((h.own p path kind).mp hmem)

theorem not_holds {c : κ} {m : Stage β} (hm : m.lock = none) (path : π) (kind : LockKind) :
    ¬ HoldsLock J (some (c, m)) path kind := by
  rintro ⟨c', m', heq, -, hlock⟩
  obtain ⟨rfl, rfl⟩ := Prod.mk.inj (Option.some.inj heq)
  exact absurd hlock (by simp [hm])

theorem not_emptied {c : κ} {m : Stage β} (hm : ∀ fd, m ≠ .truncated fd) (path : π) :
    ¬ Emptied J (some (c, m)) path := by
  rintro ⟨c', fd, heq, -⟩
  exact hm fd (Prod.mk.inj (Option.some.inj heq)).2

theorem not_holds_none (path : π) (kind : LockKind) :
    ¬ HoldsLock J (none : Option (κ × Stage β)) path kind := by
  rintro ⟨c, m, heq, -⟩
  cases heq

/-- A step without locks before it or after it. -/
theorem FilesInv.idle (h : FilesInv J faulty stages K t) (y : Option (κ × Stage β))
    (hp : ∀ path kind, ¬ HoldsLock J (stages p) path kind)
    (hcut : ∀ path, ¬ Emptied J (stages p) path)
    (hy : ∀ path kind, ¬ HoldsLock J y path kind) (hfds : ∀ q, q ≠ p → K'.fds q = K.fds q)
    (hlocks : K'.locks = K.locks) (hcontent : ∀ path, K'.content path = K.content path)
    (hfits : ∀ c m, y = some (c, m) →
      AtStage faulty (K'.fds p) (K.content (J.job c).path) (t (J.job c).path) (J.job c) m) :
    FilesInv J faulty (Function.update stages p y) K' t := by
  refine h.release y hcut hy hfds (fun path q kind => ?_) hcontent hfits
  rw [hlocks]
  refine ⟨fun hmem => ⟨hmem, fun hq => ?_⟩, And.left⟩
  exact h.not_mem_locks hp path kind (hq ▸ hmem)

/-- The process releases the lock on its file, or closes a descriptor of it. -/
theorem FilesInv.unlock [DecidableEq π] (h : FilesInv J faulty stages K t) {c : κ} {m : Stage β}
    {result : Option β} {path : π} (hp : stages p = some (c, m)) (hm : ∀ fd, m ≠ .truncated fd)
    (hpath : m.lock = none ∨ path = (J.job c).path) (hfds : ∀ q, q ≠ p → K'.fds q = K.fds q)
    (hlocks : K'.locks = (K.unlock p path).locks)
    (hcontent : ∀ path, K'.content path = K.content path) :
    FilesInv J faulty (Function.update stages p (some (c, .finished result))) K' t := by
  refine h.release _ (hp ▸ not_emptied hm) (not_holds rfl) hfds (fun path' q kind => ?_) hcontent ?_
  · rw [hlocks, Kernel.mem_locks_unlock]
    refine and_congr_right fun hmem => ⟨fun hne hq => ?_, fun hq _ => hq⟩
    subst hq
    obtain ⟨c', m', heq, hfile, hlock⟩ := (h.own _ _ _).mp hmem
    rw [hp] at heq
    obtain ⟨rfl, rfl⟩ := Prod.mk.inj (Option.some.inj heq)
    rcases hpath with hnone | rfl
    · exact absurd hlock (by simp [hnone])
    · exact hne hfile rfl
  · intro c' m' heq
    obtain ⟨rfl, rfl⟩ := Prod.mk.inj (Option.some.inj heq)
    trivial

/-! ## Steps of the protocol -/

variable [DecidableEq π]

/-- What a request brings about: the call is at a new stage, and the files have changed as they
do when the call takes effect, or not at all. -/
def Moves (J : Jobs κ β π) (faulty : Bool) (stages : P → Option (κ × Stage β)) (K' : Kernel P π)
    (t : π → List Byte) (p : P) (c : κ) (m m' : Stage β) : Prop :=
  ∃ t', FilesInv J faulty (Function.update stages p (some (c, m'))) K' t' ∧
    (m'.result = m.result ∧ t' = t ∨
      ∃ b, m.result = none ∧ m'.result = some b ∧ (fileStore (P := P) J faulty).effect p t c b t')

variable {c : κ} {o : Outcome} {a : Answer}

theorem start_turn (h : FilesInv J faulty stages K t) (hp : stages p = some (c, .start))
    {path : π} {access : Access} {create : Bool} (hpath : path = (J.job c).path)
    (haccess : access = (J.job c).access)
    (hs : K.serve p faulty (.openFile path access create) o = some (a, K')) :
    (a.ret = -1 ∨ 0 ≤ a.ret) ∧
      Moves J faulty stages K' t p c .start
        (if a.ret < 0 then .finished none else .opened a.ret.toNat) := by
  subst hpath haccess
  have hnone : ∀ path kind, ¬ HoldsLock J (stages p) path kind := hp ▸ not_holds rfl
  have hcut : ∀ path, ¬ Emptied J (stages p) path := hp ▸ not_emptied (by simp)
  rcases Kernel.serve_openFile hs with ⟨hret, rfl⟩ | ⟨fd, hret, hfd, hlocks, hfds, hcontent⟩
  · refine ⟨.inl hret, t, ?_, .inl ⟨by simp [hret, Stage.result], rfl⟩⟩
    rw [if_pos (by omega)]
    exact h.idle _ hnone hcut (not_holds rfl) (fun _ _ => rfl) rfl (fun _ => rfl)
      fun c' m' heq => by
        obtain ⟨rfl, rfl⟩ := Prod.mk.inj (Option.some.inj heq)
        trivial
  · refine ⟨.inr (by omega), t, ?_, .inl ⟨by rw [if_neg (by omega)]; rfl, rfl⟩⟩
    rw [if_neg (by omega)]
    refine h.idle _ hnone hcut (not_holds rfl) hfds hlocks hcontent fun c' m' heq => ?_
    obtain ⟨rfl, rfl⟩ := Prod.mk.inj (Option.some.inj heq)
    simpa [AtStage, hret] using hfd

theorem opened_turn (h : FilesInv J faulty stages K t) {fd : ℕ}
    (hp : stages p = some (c, .opened fd)) {kind : LockKind} {m' : Stage β}
    (hm' : m'.lock = some kind) (hresult : m'.result = none)
    (hfits : K.fds p fd = some ⟨(J.job c).path, (J.job c).access, 0⟩ →
      AtStage faulty (K.fds p) (K.content (J.job c).path) (t (J.job c).path) (J.job c) m')
    (hs : K.serve p faulty (.setlk fd (some kind)) o = some (a, K')) :
    (a.ret = -1 ∨ a.ret = 0) ∧
      Moves J faulty stages K' t p c (.opened fd) (if a.ret = 0 then m' else .opened fd) := by
  have hfd := h.fits p c _ hp
  rcases Kernel.serve_lock hfd hs with ⟨hret, rfl, -⟩ | ⟨hret, hfree, rfl⟩
  · refine ⟨.inl hret, t, ?_, .inl ⟨by simp [hret], rfl⟩⟩
    rw [if_neg (by omega)]
    exact h.move hp rfl (by simp) (fun _ _ => rfl) rfl (fun _ => rfl) hfd
  · refine ⟨.inr hret, t, ?_, .inl ⟨by rw [if_pos hret, hresult]; rfl, rfl⟩⟩
    rw [if_pos hret]
    exact h.acquire hp hfree hm' (hfits hfd)

theorem close_turn (h : FilesInv J faulty stages K t) {m : Stage β} {fd : ℕ}
    {result : Option β} (hp : stages p = some (c, m)) (hlock : m.lock = none)
    (hresult : m.result = result)
    (hs : K.serve p faulty (.close fd) o = some (a, K')) :
    Moves J faulty stages K' t p c m (.finished result) := by
  have hm : ∀ fd, m ≠ .truncated fd := by
    intro fd' heq
    simp [heq, Stage.lock] at hlock
  refine ⟨t, ?_, .inl ⟨hresult.symm, rfl⟩⟩
  rcases Kernel.serve_close hs with rfl | ⟨f, -, rfl⟩
  · refine h.idle _ (hp ▸ not_holds hlock) (hp ▸ not_emptied hm) (not_holds rfl)
      (fun _ _ => rfl) rfl (fun _ => rfl) fun c' m' heq => ?_
    obtain ⟨rfl, rfl⟩ := Prod.mk.inj (Option.some.inj heq)
    trivial
  · exact h.unlock hp hm (.inl hlock) (fun q hq => Kernel.fds_setFd_of_ne hq _ _) rfl fun _ => rfl

theorem unlock_turn (h : FilesInv J faulty stages K t) {m : Stage β} {fd : ℕ} {f : OpenFile π}
    {result : Option β} (hp : stages p = some (c, m)) (hm : ∀ fd, m ≠ .truncated fd)
    (hfd : K.fds p fd = some f) (hf : f.path = (J.job c).path) (hresult : m.result = result)
    (hs : K.serve p faulty (.setlk fd none) o = some (a, K')) :
    Moves J faulty stages K' t p c m (.finished result) := by
  obtain rfl := Kernel.serve_unlock hfd hs
  exact ⟨t, h.unlock hp hm (.inr hf) (fun _ _ => rfl) rfl fun _ => rfl, .inl ⟨hresult.symm, rfl⟩⟩

omit [DecidableEq P] [DecidableEq π] in
/-- A file that a process has locked, and not cut, holds what it stands for. -/
theorem FilesInv.content_eq (h : FilesInv J faulty stages K t) {kind : LockKind} {m : Stage β}
    (hp : stages p = some (c, m)) (hm : m.lock = some kind) (hcut : ∀ fd, m ≠ .truncated fd) :
    K.content (J.job c).path = t (J.job c).path := by
  refine h.quiet _ fun q hq => ?_
  obtain ⟨d, fd, hstage, hpath⟩ := hq
  have hwrite := (h.own q _ .write).mpr ⟨d, _, hstage, hpath, rfl⟩
  have hmine := (h.own p _ kind).mpr ⟨c, m, hp, rfl, hm⟩
  have hsame := h.alone _ q p kind hwrite hmine
  rw [hsame, hstage] at hp
  exact hcut fd (Prod.mk.inj (Option.some.inj hp)).2.symm

theorem lseekEnd_turn (h : FilesInv J faulty stages K t) {fd : ℕ}
    (hp : stages p = some (c, .readLocked fd))
    (hs : K.serve p faulty (.lseekEnd fd) o = some (a, K')) :
    0 ≤ a.ret ∧ Moves J faulty stages K' t p c (.readLocked fd) (.sized fd a.ret.toNat) := by
  obtain ⟨offset, hfd⟩ := h.fits p c _ hp
  obtain ⟨hret, rfl⟩ := Kernel.serve_lseekEnd hfd hs
  refine ⟨by omega, t, ?_, .inl ⟨rfl, rfl⟩⟩
  refine h.move hp rfl (by simp) (fun q hq => Kernel.fds_setFd_of_ne hq _ _) rfl (fun _ => rfl) ?_
  refine ⟨⟨_, Kernel.fds_setFd_self _ _⟩, ?_⟩
  rw [hret, ← h.content_eq hp rfl (by simp)]
  exact Int.toNat_natCast _

theorem lseekSet_turn (h : FilesInv J faulty stages K t) {fd n : ℕ}
    (hp : stages p = some (c, .sized fd n))
    (hs : K.serve p faulty (.lseekSet fd 0) o = some (a, K')) :
    Moves J faulty stages K' t p c (.sized fd n) (.rewound fd n) := by
  obtain ⟨⟨offset, hfd⟩, hn⟩ := h.fits p c _ hp
  obtain rfl := Kernel.serve_lseekSet hfd hs
  exact ⟨t, h.move hp rfl (by simp) (fun q hq => Kernel.fds_setFd_of_ne hq _ _) rfl (fun _ => rfl)
    ⟨Kernel.fds_setFd_self _ _, hn⟩, .inl ⟨rfl, rfl⟩⟩

/-- A read brings what the file stands for. -/
theorem read_turn (h : FilesInv J faulty stages K t) {fd n : ℕ}
    (hp : stages p = some (c, .rewound fd n)) (hjob : (J.job c).kind = .read)
    (hs : K.serve p faulty (.read fd n) o = some (a, K')) :
    (a.ret = -1 ∨ a.ret = n ∧ a.data.length = n) ∧
      Moves J faulty stages K' t p c (.rewound fd n)
        (if a.ret < 0 then .rewound fd n else .effected .read fd (J.fetched c a.data)) := by
  obtain ⟨hfd, hn⟩ := h.fits p c _ hp
  have hcontent := h.content_eq hp rfl (by simp)
  cases hget : J.job c with
  | put path bytes => simp [hget, Job.kind] at hjob
  | get path =>
      have haccess : (J.job c).access ≠ .writeOnly := by simp [hget, Job.access]
      rcases Kernel.serve_read hfd haccess hs with ⟨hret, rfl⟩ | ⟨hdata, hret, rfl⟩
      · refine ⟨.inl hret, t, ?_, .inl ⟨by rw [if_pos (by omega)], rfl⟩⟩
        rw [if_pos (by omega)]
        exact h.move hp rfl (by simp) (fun _ _ => rfl) rfl (fun _ => rfl) ⟨hfd, hn⟩
      · have hall : a.data = t (J.job c).path := by
          rw [hdata]
          simp only [List.drop_zero, hcontent, hn, List.take_length]
        have hlength : a.data.length = n := by rw [hall, hn]
        refine ⟨.inr ⟨by omega, hlength⟩, t, ?_, .inr ⟨J.fetched c a.data, rfl, ?_, .inr ?_⟩⟩
        · rw [if_neg (by omega)]
          exact h.move hp rfl (by simp) (fun q hq => Kernel.fds_setFd_of_ne hq _ _) rfl
            (fun _ => rfl) ⟨_, Kernel.fds_setFd_self _ _⟩
        · rw [if_neg (by omega)]
          rfl
        · rw [hget]
          exact ⟨by rw [hall, hget]; rfl, rfl⟩

theorem ftruncate_turn (h : FilesInv J faulty stages K t) {fd : ℕ}
    (hp : stages p = some (c, .writeLocked fd))
    (hjob : (J.job c).access = .writeOnly)
    (hs : K.serve p faulty (.ftruncate fd 0) o = some (a, K')) :
    Moves J faulty stages K' t p c (.writeLocked fd) (.truncated fd) := by
  have hfd := h.fits p c _ hp
  have haccess : (J.job c).access ≠ .readOnly := by simp [hjob]
  have hcontent := h.content_eq hp rfl (by simp)
  have hsame : Function.update t (J.job c).path (t (J.job c).path) = t :=
    Function.update_eq_self _ _
  refine ⟨t, ?_, .inl ⟨rfl, rfl⟩⟩
  rw [← hsame]
  rcases Kernel.serve_ftruncate hfd haccess hs with ⟨hfaulty, rfl⟩ | rfl
  · refine h.change hp rfl rfl (fun _ _ => rfl) rfl (fun path => ?_)
      ⟨hfd, hjob, .inr ⟨hfaulty, rfl⟩⟩ fun _ => rfl
    split_ifs with heq
    · rw [heq, hcontent]
    · rfl
  · exact h.change hp rfl rfl (fun _ _ => rfl) rfl (Kernel.content_setFile _ · _)
      ⟨hfd, hjob, .inl rfl⟩ fun hne => absurd rfl (hne fd)

theorem write_turn (h : FilesInv J faulty stages K t) {fd : ℕ} {path : π} {bytes : List Byte}
    (hp : stages p = some (c, .truncated fd)) (hjob : J.job c = .put path bytes)
    (hs : K.serve p faulty (.write fd bytes) o = some (a, K')) :
    Moves J faulty stages K' t p c (.truncated fd) (.effected .write fd (J.stored c)) := by
  obtain ⟨hfd, -, hbase⟩ := h.fits p c _ hp
  have haccess : (J.job c).access ≠ .readOnly := by simp [hjob, Job.access]
  obtain ⟨k, offset, hk, hlocks, hfds, hself, hcontent⟩ := Kernel.serve_write hfd haccess rfl hs
  refine ⟨_, h.change hp rfl rfl hfds hlocks hcontent ⟨offset, hself⟩ (fun _ => rfl),
    .inr ⟨J.stored c, rfl, rfl, .inr ?_⟩⟩
  rw [hjob] at hbase ⊢
  exact ⟨rfl, _, ⟨_, k, hbase, hk, rfl⟩, rfl⟩

/-- A request that the protocol allows is answered as it says. -/
theorem FilesInv.turn (h : FilesInv J faulty stages K t) {m : Stage β} {q : FileCall π}
    (hp : stages p = some (c, m)) (hq : (fileProtocol J c).allowed m q)
    (hs : K.serve p faulty q o = some (a, K')) :
    (fileProtocol J c).answers m q a ∧
      Moves J faulty stages K' t p c m ((fileProtocol J c).next m q a) := by
  cases m with
  | start =>
      cases q with
      | openFile path access create => exact start_turn h hp hq.1 hq.2 hs
      | _ => exact hq.elim
  | opened fd =>
      cases q with
      | setlk fd' kind =>
          cases kind with
          | none => exact hq.elim
          | some kind =>
              obtain ⟨rfl, hkind⟩ := hq
              cases kind with
              | read => exact opened_turn h hp rfl rfl (fun hfd => ⟨0, hfd⟩) hs
              | write => exact opened_turn h hp rfl rfl id hs
      | close fd' => exact ⟨trivial, close_turn h hp rfl rfl hs⟩
      | _ => exact hq.elim
  | readLocked fd =>
      cases q with
      | lseekEnd fd' =>
          obtain rfl : fd' = fd := hq
          exact lseekEnd_turn h hp hs
      | _ => exact hq.elim
  | sized fd n =>
      cases q with
      | lseekSet fd' offset =>
          obtain ⟨rfl, rfl⟩ := hq
          exact ⟨trivial, lseekSet_turn h hp hs⟩
      | _ => exact hq.elim
  | rewound fd n =>
      cases q with
      | malloc size =>
          obtain rfl := Kernel.serve_malloc hs
          refine ⟨trivial, t, ?_, .inl ⟨rfl, rfl⟩⟩
          exact h.move hp rfl (by simp) (fun _ _ => rfl) rfl (fun _ => rfl) (h.fits p c _ hp)
      | read fd' count =>
          obtain ⟨rfl, rfl, hjob⟩ := hq
          exact read_turn h hp hjob hs
      | setlk fd' kind =>
          cases kind with
          | some kind => exact hq.elim
          | none =>
              obtain rfl : fd' = fd := hq
              exact ⟨trivial, unlock_turn h hp (by simp) (h.fits p c _ hp).1 rfl rfl hs⟩
      | _ => exact hq.elim
  | writeLocked fd =>
      cases q with
      | ftruncate fd' length =>
          obtain ⟨rfl, rfl, hjob⟩ := hq
          exact ⟨trivial, ftruncate_turn h hp hjob hs⟩
      | _ => exact hq.elim
  | truncated fd =>
      cases q with
      | write fd' bytes =>
          obtain ⟨rfl, path, hjob⟩ := hq
          exact ⟨trivial, write_turn h hp hjob hs⟩
      | _ => exact hq.elim
  | effected kind fd b =>
      cases q with
      | setlk fd' kind' =>
          cases kind' with
          | some kind' => exact hq.elim
          | none =>
              obtain rfl : fd' = fd := hq
              obtain ⟨offset, hfd⟩ := h.fits p c _ hp
              exact ⟨trivial, unlock_turn h hp (by simp) hfd rfl rfl hs⟩
      | _ => exact hq.elim
  | finished result =>
      cases q with
      | close fd => exact ⟨trivial, close_turn h hp rfl rfl hs⟩
      | _ => exact hq.elim

omit [DecidableEq π] in
theorem FilesInv.call (h : FilesInv J faulty stages K t) (hp : stages p = none) :
    FilesInv J faulty (Function.update stages p (some (c, .start))) K t := by
  refine h.idle _ (hp ▸ not_holds_none) ?_ (not_holds rfl) (fun _ _ => rfl) rfl (fun _ => rfl) ?_
  · rintro path ⟨c', fd, heq, -⟩
    rw [hp] at heq
    cases heq
  · intro c' m heq
    obtain ⟨rfl, rfl⟩ := Prod.mk.inj (Option.some.inj heq)
    trivial

theorem FilesInv.ret (h : FilesInv J faulty stages K t) {m : Stage β} {b : β}
    (hp : stages p = some (c, m)) (hb : Returns J c b m) :
    (m.result = some b ∨ m.result = none ∧ (fileStore (P := P) J faulty).effect p t c b t) ∧
      FilesInv J faulty (Function.update stages p none) K t := by
  have hlock : m.lock = none := by
    rcases hb with rfl | ⟨-, rfl | ⟨fd, rfl⟩⟩ <;> rfl
  have hcut : ∀ fd, m ≠ .truncated fd := by
    intro fd heq
    simp [heq, Stage.lock] at hlock
  constructor
  · rcases hb with rfl | ⟨hfailed, hm⟩
    · exact .inl rfl
    · refine .inr ⟨?_, .inl ⟨hfailed, rfl⟩⟩
      rcases hm with rfl | ⟨fd, rfl⟩ <;> rfl
  · exact h.idle _ (hp ▸ not_holds hlock) (hp ▸ not_emptied hcut) not_holds_none
      (fun _ _ => rfl) rfl (fun _ => rfl) fun c' m' heq => by cases heq

/-- A process that ends in the middle of replacing a file leaves it empty or as it was. -/
theorem FilesInv.stop (h : FilesInv J faulty stages K t) :
    ∃ t', FilesInv J faulty (Function.update stages p none) (K.stop p) t' ∧
      (fileStore (P := P) J faulty).ends p t
        (noEffectYet ((stages p).map fun x => (x.1, x.2.result))) t' := by
  by_cases hcut : ∃ c fd, stages p = some (c, .truncated fd)
  · obtain ⟨c, fd, hp⟩ := hcut
    obtain ⟨-, hjob, hcontent⟩ := h.fits p c _ hp
    have hown : (p, .write) ∈ K.locks (J.job c).path := (h.own _ _ _).mpr ⟨c, _, hp, rfl, rfl⟩
    refine ⟨Function.update t (J.job c).path (K.content (J.job c).path), ?_, ?_⟩
    · refine h.update none (fun q hq => Kernel.fds_stop_of_ne hq) ?_ ?_ ?_ ?_ ?_ ?_
      · exact fun path q kind hq => Kernel.mem_locks_stop.trans (and_iff_left hq)
      · exact fun path kind => iff_of_false (fun hmem => (Kernel.mem_locks_stop.mp hmem).2 rfl)
          (not_holds_none path kind)
      · exact fun path kind hmem => absurd rfl (Kernel.mem_locks_stop.mp hmem).2
      · intro path
        by_cases hpath : path = (J.job c).path
        · exact .inl (hpath ▸ hown)
        · exact .inr ⟨rfl, Function.update_of_ne hpath _ _⟩
      · intro c' m heq
        cases heq
      · intro path _ hothers
        by_cases hpath : path = (J.job c).path
        · rw [hpath, Function.update_self, Kernel.content_stop]
        · rw [Function.update_of_ne hpath, Kernel.content_stop]
          refine h.quiet path fun q => ?_
          by_cases hq : q = p
          · subst hq
            rintro ⟨c', fd', heq, hc'⟩
            rw [hp] at heq
            obtain ⟨rfl, -⟩ := Prod.mk.inj (Option.some.inj heq)
            exact hpath hc'
          · exact hothers q hq
    · rw [hp]
      rcases hcontent with hempty | ⟨-, hold⟩
      · cases hput : J.job c with
        | get path => simp [hput, Job.access] at hjob
        | put path bytes =>
            rw [hput] at hempty
            exact .inr ⟨c, path, bytes, rfl, hput, by rw [hempty]; rfl⟩
      · exact .inl (by rw [hold, Function.update_eq_self])
  · have hnone : ∀ path, ¬ Emptied J (stages p) path := by
      rintro path ⟨c, fd, heq, -⟩
      exact hcut ⟨c, fd, heq⟩
    refine ⟨t, h.release _ hnone not_holds_none (fun q hq => Kernel.fds_stop_of_ne hq)
      (fun _ _ _ => Kernel.mem_locks_stop) (fun _ => rfl) (fun c m heq => by cases heq), .inl rfl⟩

end Invariant

/-- Calls that keep to the protocol cannot be told from calls of the store. -/
def fileSimulation {P κ β π : Type} [DecidableEq P] [DecidableEq π] (J : Jobs κ β π)
    (faulty : Bool) {body : P → κ → Proc (FileCall π) Answer β}
    (hbody : ∀ p c, (fileProtocol J c).Follows (Returns J c) (body p c) .start) :
    Simulation (fileServer body faulty) (fileStore J faulty) (Stage β) where
  Inv := FilesInv J faulty
  Left _ c m x := (fileProtocol J c).Follows (Returns J c) x m
  first _ _ := .start
  result _ := Stage.result
  left_first := hbody
  result_first _ _ := rfl
  call _ _ _ _ _ h hp := h.call hp
  turn _ _ _ _ _ _ _ _ _ _ _ h hp hleft hs := by
    obtain ⟨hanswer, t', hinv, heffect⟩ := FilesInv.turn h hp hleft.1 hs
    exact ⟨_, t', hleft.2 _ hanswer, hinv, heffect⟩
  ret _ _ _ _ _ _ _ h hp hleft := h.ret hp hleft
  stop _ _ _ _ h := h.stop

end CLib
