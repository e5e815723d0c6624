import BcmUtils.Foundation.Passes
import BcmUtils.Model.Polling

/-! # What a round leaves behind

The file is to hold one record for each port and one for the sum, all of which are answers to the
requests of one round. -/

namespace BcmUtils.Polling

open CLib Serial

variable {b : Board} {room w : ℕ} {e : Endian}

/-! ## Requests -/

/-- A request succeeds with a value, whatever its variable holds before. -/
def Succeeds (getter : BitVec w → Line → Option (ℤ × BitVec w × Line)) (line : Line)
    (value : BitVec w) (line' : Line) : Prop :=
  ∀ out, getter out line = some (SUCCESS, value, line')

/-- Whether a getter succeeds, and with which value, does not depend on what its variable holds. -/
def Plain (getter : BitVec w → Line → Option (ℤ × BitVec w × Line)) : Prop :=
  ∀ ⦃out line value line'⦄, getter out line = some (SUCCESS, value, line') →
    Succeeds getter line value line'

theorem plain_getter8 (routine parm8 : Byte) (stack : Stack room) (x : Exchange) :
    Plain (getter8 e routine parm8 id stack x) := by
  intro out line value line' h out'
  rw [getter8] at h ⊢
  obtain ⟨⟨r, line₁⟩, hcall, hr⟩ := Option.bind_eq_some_iff.mp h
  rw [hcall]
  by_cases hret : r.ret = SUCCESS
  · simp only [hret, ne_eq, not_true_eq_false, if_false] at hr
    simpa only [Option.bind_eq_bind, Option.bind_some, hret, ne_eq, not_true_eq_false, if_false]
      using hr
  · simp [hret] at hr

theorem plain_getter32 (routine : Byte) (pParm8 : Option Byte) (stack : Stack room) (x : Exchange) :
    Plain (getter32 e routine pParm8 stack x) := by
  intro out line value line' h out'
  rw [getter32] at h ⊢
  obtain ⟨⟨r, line₁⟩, hcall, hr⟩ := Option.bind_eq_some_iff.mp h
  rw [hcall]
  by_cases hret : r.ret = SUCCESS
  · simp only [hret, ne_eq, not_true_eq_false, if_false] at hr
    simpa only [Option.bind_eq_bind, Option.bind_some, hret, ne_eq, not_true_eq_false, if_false]
      using hr
  · simp [hret] at hr

theorem Succeeds.unique {getter : BitVec w → Line → Option (ℤ × BitVec w × Line)}
    {line line₁ line₂ : Line} {v₁ v₂ : BitVec w} (h₁ : Succeeds getter line v₁ line₁)
    (h₂ : Succeeds getter line v₂ line₂) : v₁ = v₂ ∧ line₁ = line₂ := by
  have heq := (h₁ 0).symm.trans (h₂ 0)
  simp only [Option.some.injEq, Prod.mk.injEq, true_and] at heq
  exact heq

theorem ask_cases {getter : BitVec w → Line → Option (ℤ × BitVec w × Line)} (hg : Plain getter)
    {out out' : BitVec w} {store : BitVec w → Table b → Table b} {s s' : Poll b}
    (h : s.ask getter out store = some (out', s')) :
    ∃ line', (Succeeds getter s.line out' line' ∧
        s' = ⟨store out' s.table, s.cnt + 1, s.powerConsumed, line'⟩) ∨
      (∀ value line₁, ¬ Succeeds getter s.line value line₁) ∧
        s' = ⟨s.table, s.cnt, s.powerConsumed, line'⟩ := by
  rw [Poll.ask] at h
  obtain ⟨⟨result, out₁, line'⟩, hgetter, hresult⟩ := Option.bind_eq_some_iff.mp h
  by_cases hok : result = SUCCESS
  · simp only [hok, if_true, Option.pure_def, Option.some.injEq, Prod.mk.injEq] at hresult
    obtain ⟨rfl, rfl⟩ := hresult
    rw [hok] at hgetter
    exact ⟨line', .inl ⟨hg hgetter, rfl⟩⟩
  · simp only [hok, if_false, Option.pure_def, Option.some.injEq, Prod.mk.injEq] at hresult
    obtain ⟨rfl, rfl⟩ := hresult
    refine ⟨line', .inr ⟨fun value line₁ hsucceeds => hok ?_, rfl⟩⟩
    rw [hsucceeds] at hgetter
    exact (congrArg Prod.fst (Option.some.inj hgetter)).symm

/-! ## Answers -/

/-- What the power manager answers in a round. -/
structure Answers (b : Board) where
  total : BitVec 32
  powerConsumed : Fin b.MAX_PORT_NUM → BitVec 32
  portStatus : Fin b.MAX_PORT_NUM → BitVec 8

/-- The record of a port. -/
def record (index : ℕ) (powerConsumed : BitVec 32) (status : BitVec 8) : StPcLs :=
  ⟨UInt8.ofNat index, UInt8.ofBitVec (orZero status), orZero powerConsumed⟩

/-- The records of the answers: those of the ports in the order of the map, and the sum. -/
def Answers.table (a : Answers b) : Table b :=
  Fin.snoc (fun i => record i (a.powerConsumed i) (a.portStatus i)) (record b.MAX_PORT_NUM a.total 0)

/-- The request for the sum succeeds. -/
def TotalAnswer (e : Endian) (q : Request room) : Line → BitVec 32 → Line → Prop :=
  Succeeds (getPoeTotalPowerConsumed e q.stack q.exchange)

/-- Both requests about a port succeed, one after the other. -/
def PortAnswer (e : Endian) (q : PortRequests room) (port : Byte) (line : Line)
    (powerConsumed : BitVec 32) (status : BitVec 8) (line' : Line) : Prop :=
  ∃ mid,
    Succeeds (getPoePortPowerConsumed e q.powerConsumed.stack port q.powerConsumed.exchange) line
      powerConsumed mid ∧
    Succeeds (getPoePortStatus e q.portStatus.stack port q.portStatus.exchange) mid status line'

theorem PortAnswer.unique {q : PortRequests room} {port : Byte} {line line₁ line₂ : Line}
    {v₁ v₂ : BitVec 32} {s₁ s₂ : BitVec 8} (h₁ : PortAnswer e q port line v₁ s₁ line₁)
    (h₂ : PortAnswer e q port line v₂ s₂ line₂) : v₁ = v₂ ∧ s₁ = s₂ ∧ line₁ = line₂ := by
  obtain ⟨mid₁, hconsumed₁, hstatus₁⟩ := h₁
  obtain ⟨mid₂, hconsumed₂, hstatus₂⟩ := h₂
  obtain ⟨rfl, rfl⟩ := hconsumed₁.unique hconsumed₂
  exact ⟨rfl, hstatus₁.unique hstatus₂⟩

/-- All requests of a round succeed, one after the other, with these answers. -/
def Answers.Of (a : Answers b) (e : Endian) (r : Round room) (line : Line) : Prop :=
  ∃ lines : Fin (b.MAX_PORT_NUM + 1) → Line,
    TotalAnswer e r.total line a.total (lines 0) ∧
    ∀ i : Fin b.MAX_PORT_NUM, PortAnswer e (r.ports i) (b.G_u8_PortMap i) (lines i.castSucc) (a.powerConsumed i)
      (a.portStatus i) (lines i.succ)

/-! ## The passes of a round -/

/-- The request for the sum: an answer is counted, and stored in the last record. -/
theorem askTotal_cases {q : Request room} {s s' : Poll b} (h : s.askTotal e q = some s') :
    (s'.table (Fin.last _)).linkStatus = (s.table (Fin.last _)).linkStatus ∧
    ((s'.cnt = s.cnt + 1 ∧ ∃ total, TotalAnswer e q s.line total s'.line ∧
        s'.table (Fin.last _) =
          { record b.MAX_PORT_NUM total 0 with
            linkStatus := (s.table (Fin.last _)).linkStatus }) ∨
      s'.cnt = s.cnt ∧ ∀ total line', ¬ TotalAnswer e q s.line total line') := by
  obtain ⟨⟨total, s₁⟩, hask, hs⟩ := Option.bind_eq_some_iff.mp h
  obtain rfl := Option.some.inj hs
  obtain ⟨line', ⟨hanswer, rfl⟩ | ⟨hnone, rfl⟩⟩ := ask_cases (plain_getter32 _ _ _ _) hask
  · refine ⟨?_, .inl ⟨rfl, total, hanswer, ?_⟩⟩
    · simp only [Function.update_self]
    · simp only [Function.update_self, record]
  · exact ⟨rfl, .inr ⟨rfl, hnone⟩⟩

/-- One pass: both requests are answered, counted and stored in the record of the port, or fewer
are counted. -/
theorem askPort_cases {ports : ℕ → PortRequests room} {s s' : Poll b} {i : Fin b.MAX_PORT_NUM}
    (h : s.askPort e ports i = some s') :
    (∀ j, j ≠ i.castSucc → s'.table j = s.table j) ∧
    ((s'.cnt = s.cnt + 2 ∧ ∃ powerConsumed status,
        PortAnswer e (ports i) (b.G_u8_PortMap i) s.line powerConsumed status s'.line ∧
        s'.table i.castSucc = record i powerConsumed status) ∨
      (s'.cnt = s.cnt ∨ s'.cnt = s.cnt + 1) ∧ ∀ powerConsumed status line',
        ¬ PortAnswer e (ports i) (b.G_u8_PortMap i) s.line powerConsumed status line') := by
  obtain ⟨⟨powerConsumed, s₁⟩, hask₁, h⟩ := Option.bind_eq_some_iff.mp h
  obtain ⟨⟨status, s₂⟩, hask₂, h⟩ := Option.bind_eq_some_iff.mp h
  obtain rfl := Option.some.inj h
  obtain ⟨line₁, ⟨hanswer₁, rfl⟩ | ⟨hnone₁, rfl⟩⟩ := ask_cases (plain_getter32 _ _ _ _) hask₁
  · obtain ⟨line₂, ⟨hanswer₂, rfl⟩ | ⟨hnone₂, rfl⟩⟩ := ask_cases (plain_getter8 _ _ _ _) hask₂
    · refine ⟨fun j hj => ?_, .inl ⟨?_, powerConsumed, status, ⟨line₁, hanswer₁, hanswer₂⟩, ?_⟩⟩
      · simp only [Function.update_of_ne hj]
      · exact UInt8.add_assoc s.cnt 1 1
      · simp only [Function.update_self, record]
    · refine ⟨fun j hj => Function.update_of_ne hj _ _, .inr ⟨.inr rfl, ?_⟩⟩
      rintro v₁ v₂ line' ⟨mid, hmid₁, hmid₂⟩
      obtain ⟨rfl, rfl⟩ := hmid₁.unique hanswer₁
      exact hnone₂ _ _ hmid₂
  · have hfew : ∀ v₁ v₂ line',
        ¬ PortAnswer e (ports i) (b.G_u8_PortMap i) s.line v₁ v₂ line' :=
      fun v₁ v₂ line' ⟨mid, hmid, _⟩ => hnone₁ _ _ hmid
    obtain ⟨line₂, ⟨-, rfl⟩ | ⟨-, rfl⟩⟩ := ask_cases (plain_getter8 _ _ _ _) hask₂
    · exact ⟨fun j hj => Function.update_of_ne hj _ _, .inr ⟨.inr rfl, hfew⟩⟩
    · exact ⟨fun j _ => rfl, .inr ⟨.inl rfl, hfew⟩⟩

/-! ## A round -/

theorem MAX_PORT_NUM_le (b : Board) : b.MAX_PORT_NUM ≤ 24 := by
  cases b <;> decide

/-- The passes of a round, of which none makes the count wrap around. -/
theorem cnt_le {ports : ℕ → PortRequests room} {s s' : Poll b}
    {states : Fin (b.MAX_PORT_NUM + 1) → Poll b}
    (h : Passes (Poll.askPort e ports) s states s') (hcnt : s.cnt.toNat ≤ 1)
    (i : Fin (b.MAX_PORT_NUM + 1)) : (states i).cnt.toNat ≤ 1 + 2 * i := by
  have hmax := MAX_PORT_NUM_le b
  refine h.invariant (fun i s => s.cnt.toNat ≤ 1 + 2 * i) hcnt ?_ i
  intro j t t' hpass hle
  have hj := j.isLt
  rcases (askPort_cases hpass).2 with ⟨hcnt', -⟩ | ⟨hcnt' | hcnt', -⟩
  · rw [hcnt', UInt8.toNat_add, show (2 : Byte).toNat = 2 from rfl]
    omega
  · rw [hcnt']
    omega
  · rw [hcnt', UInt8.toNat_add, show (1 : Byte).toNat = 1 from rfl]
    omega

/-- A pass gets both its answers. -/
def PassAnswered (e : Endian) (ports : ℕ → PortRequests room) (line : Line)
    (i : Fin b.MAX_PORT_NUM) : Prop :=
  ∃ powerConsumed status line',
    PortAnswer e (ports i) (b.G_u8_PortMap i) line powerConsumed status line'

/-- All passes get their answers exactly if the count has been raised to the utmost. -/
theorem cnt_eq_iff {ports : ℕ → PortRequests room} {s s' : Poll b}
    {states : Fin (b.MAX_PORT_NUM + 1) → Poll b}
    (h : Passes (Poll.askPort e ports) s states s') (hcnt : s.cnt.toNat ≤ 1) :
    s'.cnt.toNat ≤ s.cnt.toNat + b.MAX_PORT_NUM * 2 ∧
    (s'.cnt.toNat = s.cnt.toNat + b.MAX_PORT_NUM * 2 ↔
      ∀ i, PassAnswered e ports (states i.castSucc).line i) := by
  have hmax := MAX_PORT_NUM_le b
  have hraise : ∀ i : Fin b.MAX_PORT_NUM, ∃ d ≤ 2,
      (states i.succ).cnt.toNat = (states i.castSucc).cnt.toNat + d ∧
      (d = 2 ↔ PassAnswered e ports (states i.castSucc).line i) := by
    intro i
    have hle := cnt_le h hcnt i.castSucc
    rw [Fin.val_castSucc] at hle
    have hi := i.isLt
    rcases (askPort_cases (h.step i)).2 with ⟨hcnt', v₁, v₂, hanswer, -⟩ | ⟨hcnt', hnone⟩
    · refine ⟨2, le_refl 2, ?_, iff_of_true rfl ⟨v₁, v₂, _, hanswer⟩⟩
      rw [hcnt', UInt8.toNat_add, show (2 : Byte).toNat = 2 from rfl]
      omega
    · have hno : ¬ PassAnswered e ports (states i.castSucc).line i :=
        fun ⟨v₁, v₂, line', hanswer⟩ => hnone v₁ v₂ line' hanswer
      rcases hcnt' with hcnt' | hcnt'
      · exact ⟨0, by decide, by rw [hcnt', Nat.add_zero], iff_of_false (by decide) hno⟩
      · refine ⟨1, by decide, ?_, iff_of_false (by decide) hno⟩
        rw [hcnt', UInt8.toNat_add, show (1 : Byte).toNat = 1 from rfl]
        omega
  choose d hd hcount hall using hraise
  obtain ⟨hle, hiff⟩ := h.count_le (c := fun s => s.cnt.toNat) hcount hd
  exact ⟨hle, hiff.trans (forall_congr' hall)⟩

/-- If all passes get their answers, the records of the ports hold these. -/
theorem answers_of_passes {ports : ℕ → PortRequests room} {s s' : Poll b}
    {states : Fin (b.MAX_PORT_NUM + 1) → Poll b}
    (h : Passes (Poll.askPort e ports) s states s')
    (hall : ∀ i, PassAnswered e ports (states i.castSucc).line i) :
    ∃ (powerConsumed : Fin b.MAX_PORT_NUM → BitVec 32) (status : Fin b.MAX_PORT_NUM → BitVec 8),
      ∀ i : Fin b.MAX_PORT_NUM,
        PortAnswer e (ports i) (b.G_u8_PortMap i) (states i.castSucc).line (powerConsumed i)
          (status i) (states i.succ).line ∧
        s'.table i.castSucc = record i (powerConsumed i) (status i) := by
  have hpass : ∀ i : Fin b.MAX_PORT_NUM, ∃ powerConsumed status,
      PortAnswer e (ports i) (b.G_u8_PortMap i) (states i.castSucc).line powerConsumed status
        (states i.succ).line ∧
      s'.table i.castSucc = record i powerConsumed status := by
    intro i
    rcases (askPort_cases (h.step i)).2 with ⟨-, v₁, v₂, hanswer, hrecord⟩ | ⟨-, hnone⟩
    · refine ⟨v₁, v₂, hanswer, Eq.trans ?_ hrecord⟩
      -- the record of a port is written in its own pass only
      refine h.eq_of_later (fun s => s.table i.castSucc) fun j hij => ?_
      refine (askPort_cases (h.step j)).1 _ fun heq => ?_
      exact absurd (Fin.castSucc_injective _ heq) hij.ne
    · obtain ⟨v₁, v₂, line', hanswer⟩ := hall i
      exact absurd hanswer (hnone v₁ v₂ line')
  choose powerConsumed status hrecords using hpass
  exact ⟨powerConsumed, status, hrecords⟩

/-- The line in a round on which all requests succeed. -/
theorem line_of_answers {ports : ℕ → PortRequests room} {s s' : Poll b}
    {states : Fin (b.MAX_PORT_NUM + 1) → Poll b}
    (h : Passes (Poll.askPort e ports) s states s') {lines : Fin (b.MAX_PORT_NUM + 1) → Line}
    {powerConsumed : Fin b.MAX_PORT_NUM → BitVec 32} {status : Fin b.MAX_PORT_NUM → BitVec 8}
    (hlines : lines 0 = s.line)
    (hall : ∀ i : Fin b.MAX_PORT_NUM, PortAnswer e (ports i) (b.G_u8_PortMap i) (lines i.castSucc)
      (powerConsumed i) (status i) (lines i.succ)) (i : Fin (b.MAX_PORT_NUM + 1)) :
    lines i = (states i).line := by
  induction i using Fin.induction with
  | zero => rw [hlines, h.start]
  | succ i ih =>
      have hanswer := hall i
      rw [ih] at hanswer
      rcases (askPort_cases (h.step i)).2 with ⟨-, v₁, v₂, hanswer', -⟩ | ⟨-, hnone⟩
      · exact (hanswer.unique hanswer').2.2
      · exact absurd hanswer (hnone _ _ _)

/-- The answers of a round all of whose requests succeed, and the records that hold them. -/
theorem exists_answers {r : Round room} {line : Line} {total : BitVec 32} {s s' : Poll b}
    {states : Fin (b.MAX_PORT_NUM + 1) → Poll b} (htotal : TotalAnswer e r.total line total s.line)
    (h : Passes (Poll.askPort e r.ports) s states s')
    (hall : ∀ i, PassAnswered e r.ports (states i.castSucc).line i)
    (hlast : s.table (Fin.last _) = record b.MAX_PORT_NUM total 0) :
    ∃ a : Answers b, a.Of e r line ∧ s'.table = a.table := by
  obtain ⟨powerConsumed, status, hrecords⟩ := answers_of_passes h hall
  refine ⟨⟨total, powerConsumed, status⟩, ⟨fun i => (states i).line, ?_, fun i => (hrecords i).1⟩, ?_⟩
  · rw [← h.start] at htotal
    exact htotal
  · funext i
    cases i using Fin.lastCases with
    | last =>
        have hkeep : s'.table (Fin.last _) = s.table (Fin.last _) := by
          rw [← h.stop]
          refine h.invariant (fun _ t => t.table (Fin.last _) = s.table (Fin.last _)) rfl ?_ _
          intro j t t' hpass ht
          exact ((askPort_cases hpass).1 _ (Fin.castSucc_lt_last j).ne').trans ht
        rw [hkeep, hlast, Answers.table, Fin.snoc_last]
    | cast i => rw [(hrecords i).2, Answers.table, Fin.snoc_castSucc]

/-- If all requests of a round succeed, all passes get their answers. -/
theorem passes_of_answers {r : Round room} {line : Line} {total : BitVec 32} {s s' : Poll b}
    {states : Fin (b.MAX_PORT_NUM + 1) → Poll b} (htotal : TotalAnswer e r.total line total s.line)
    (h : Passes (Poll.askPort e r.ports) s states s') {a : Answers b} (ha : a.Of e r line)
    (i : Fin b.MAX_PORT_NUM) : PassAnswered e r.ports (states i.castSucc).line i := by
  obtain ⟨lines, hfirst, hall⟩ := ha
  have hlines := line_of_answers h (hfirst.unique htotal).2 hall i.castSucc
  rw [← hlines]
  exact ⟨_, _, _, hall i⟩

/-- What `saveResult` makes of the file. -/
def written (e : Endian) (saved : Option ℕ) (table : Table b) (file : Option (List Byte)) :
    Option (List Byte) :=
  match saved with
  | none => file
  | some k => some ((image e table).take k)

theorem saveResult_eq (n : Option ℕ) (t : Task b) :
    saveResult e n t = { t with file := written e n t.table t.file } := by
  cases n <;> rfl

/-- The last record never gets a line status. -/
def Task.Inv (t : Task b) : Prop := (t.table (Fin.last _)).linkStatus = 0

/-- A round saves the answers to its requests if all of them succeed; otherwise it leaves the file
alone. -/
theorem round_cases {r : Round room} {t t' : Task b}
    (h : getPoePowerConsumeAndLineStatus e r t = some t') (ht : t.Inv) :
    t'.checkPoe = t.checkPoe ∧ t'.Inv ∧
    ((∃ a : Answers b, a.Of e r t.line ∧ t'.file = written e r.saved a.table t.file) ∨
      (∀ a : Answers b, ¬ a.Of e r t.line) ∧ t'.file = t.file) := by
  obtain ⟨s₁, htotal, h⟩ := Option.bind_eq_some_iff.mp h
  obtain ⟨s₂, hloop, h⟩ := Option.bind_eq_some_iff.mp h
  obtain ⟨states, hpasses⟩ := exists_passes hloop
  obtain ⟨hstatus, htotal⟩ := askTotal_cases htotal
  have hstatus₁ : (s₁.table (Fin.last _)).linkStatus = 0 := hstatus.trans ht
  have hstatus₂ : (s₂.table (Fin.last _)).linkStatus = 0 := by
    rw [← hpasses.stop]
    refine hpasses.invariant (fun _ s => (s.table (Fin.last _)).linkStatus = 0) hstatus₁ ?_ _
    intro j s s' hpass hs
    rw [(askPort_cases hpass).1 _ (Fin.castSucc_lt_last j).ne']
    exact hs
  rcases htotal with ⟨hcnt, total, htotal, hrecord⟩ | ⟨hcnt, hnone⟩
  · have hone : s₁.cnt.toNat = 1 := by rw [hcnt]; rfl
    obtain ⟨-, hiff⟩ := cnt_eq_iff hpasses hone.le
    rw [show Poll.cnt { s₁ with powerConsumed := 0 } = s₁.cnt from rfl, hone, Nat.add_comm,
      Nat.mul_comm] at hiff
    by_cases hall : s₂.cnt.toNat = 2 * b.MAX_PORT_NUM + 1
    · rw [if_pos hall, saveResult_eq] at h
      obtain rfl := Option.some.inj h
      have hlast : s₁.table (Fin.last _) = record b.MAX_PORT_NUM total 0 := by
        rw [hrecord, show (t.table (Fin.last _)).linkStatus = 0 from ht]
        rfl
      obtain ⟨a, ha, htable⟩ := exists_answers (s := { s₁ with powerConsumed := 0 }) htotal hpasses
        (hiff.mp hall) hlast
      exact ⟨rfl, hstatus₂, .inl ⟨a, ha, by rw [← htable]⟩⟩
    · rw [if_neg hall] at h
      obtain rfl := Option.some.inj h
      refine ⟨rfl, hstatus₂, .inr ⟨fun a ha => hall (hiff.mpr ?_), rfl⟩⟩
      exact passes_of_answers (s := { s₁ with powerConsumed := 0 }) htotal hpasses ha
  · have hzero : s₁.cnt.toNat = 0 := by rw [hcnt]; rfl
    obtain ⟨hle, -⟩ := cnt_eq_iff hpasses (hzero.le.trans (by decide))
    rw [show Poll.cnt { s₁ with powerConsumed := 0 } = s₁.cnt from rfl, hzero] at hle
    rw [if_neg (by omega)] at h
    obtain rfl := Option.some.inj h
    exact ⟨rfl, hstatus₂, .inr ⟨fun a ⟨lines, hfirst, _⟩ => hnone _ _ hfirst, rfl⟩⟩

end BcmUtils.Polling
