import BcmUtils.Model.Clients

/-! # Clients that overlap

What is stored after two clients have finished, for every order of their requests. -/

namespace BcmUtils.Clients

open CLib

/-! ## Two weights -/

theorem length_wrrText_le {ws : List ℤ} (h : ∀ w ∈ ws, IsInt w) :
    (wrrText ws).length ≤ 12 * ws.length := by
  apply length_flatMap_le
  intro w hw
  have hlen := length_printInt_le (h w hw)
  rw [List.length_append, List.length_singleton]
  omega

/-- The line that holds `ws` with the weight of one queue replaced. -/
def replaced (queueId weight : ℤ) (ws : List ℤ) : List ℤ := ws.set (queueId - 1).toNat weight

/-- `ws` are the eight weights of a line. -/
def Weights (ws : List ℤ) : Prop := ws.length = 8 ∧ ∀ w ∈ ws, IsInt w

theorem Weights.replaced {ws : List ℤ} (h : Weights ws) (queueId : ℤ) {weight : ℤ}
    (hw : IsInt weight) : Weights (replaced queueId weight ws) := by
  refine ⟨by rw [Clients.replaced, List.length_set, h.1], fun v hv => ?_⟩
  rcases List.mem_or_eq_of_mem_set hv with hv | rfl
  · exact h.2 v hv
  · exact hw

theorem Weights.scan_wrrText {ws : List ℤ} (h : Weights ws) :
    scanInts (chr ',') 8 (wrrText ws) = ws := by
  rw [← h.1]
  exact scanInts_flatMap (by decide) h.2

/-- What a call does once it has read a line of eight weights. -/
theorem bcmConfigSetWrrWeight_of_scan {queueId weight : ℤ} (hq : 1 ≤ queueId ∧ queueId ≤ 8)
    (hw : IsInt weight) (wrrnum : Wrrnum) :
    ∃ next, bcmConfigSetWrrWeight wrrnum queueId weight = .ask (.get (text "qos_wrr_config")) next ∧
      ∀ line ws, Weights ws → scanInts (chr ',') 8 line = ws →
        next line = .ask (.set (text "qos_wrr_config") (wrrText (replaced queueId weight ws)))
          fun _ => .done 0 := by
  refine ⟨_, rfl, fun line ws hws hscan => ?_⟩
  have hlen := length_wrrText_le (hws.replaced queueId hw).2
  rw [(hws.replaced queueId hw).1] at hlen
  have hname : (text "qos_wrr_config").length = 14 := by decide
  have hmsg : setMessage (text "qos_wrr_config") (wrrText (replaced queueId weight ws)) =
      some (text "qos_wrr_config" ++ chr '=' :: wrrText (replaced queueId weight ws)) := by
    apply store_of_lt
    rw [List.length_append, List.length_cons]
    omega
  have hset : setWeight queueId weight (scanWrr line wrrnum) =
      some (replaced queueId weight ws) := by
    have hdrop : wrrnum.1.drop 8 = [] := List.drop_of_length_le (by rw [wrrnum.2])
    rw [setWeight, if_pos hq, scanWrr, hscan, hws.1, hdrop, List.append_nil, replaced]
  simp only [hset, store_of_lt (by omega : (wrrText (replaced queueId weight ws)).length < 128),
    scfgmgrSet, hmsg, Proc.ofOption_some, Proc.done_bind, Proc.bind_eq, Proc.ask_bind]
  rfl

/-- Every order of the four requests is a schedule of two calls. -/
theorem asks_bcmConfigSetWrrWeight (wrrnum : Wrrnum) (queueId weight : ℤ) :
    (bcmConfigSetWrrWeight wrrnum queueId weight).Asks 2 := by
  intro line
  simp only [Proc.done_bind, Proc.bind_eq]
  cases setWeight queueId weight (scanWrr line wrrnum) with
  | none => trivial
  | some ws =>
      simp only [Proc.ofOption_some, Proc.done_bind]
      cases store 128 (wrrText ws) with
      | none => trivial
      | some line =>
          simp only [Proc.ofOption_some, Proc.done_bind, scfgmgrSet, Proc.bind_eq]
          cases setMessage (text "qos_wrr_config") line with
          | none => trivial
          | some _ =>
              intro _
              trivial

/-- One call stores before the other one reads. -/
def Separate (turns : List Side) : Prop :=
  turns = [.left, .left, .right, .right] ∨ turns = [.right, .right, .left, .left]

instance (turns : List Side) : Decidable (Separate turns) := inferInstanceAs (Decidable (_ ∨ _))

/-- The weights that are stored at the end: both new ones if the calls do not overlap, and
otherwise only the one of the call that stores last. -/
def finalWeights (turns : List Side) (q₁ w₁ q₂ w₂ : ℤ) (ws : List ℤ) : List ℤ :=
  if Separate turns then replaced q₂ w₂ (replaced q₁ w₁ ws)
  else if turns.getLast? = some .right then replaced q₂ w₂ ws
  else replaced q₁ w₁ ws

theorem replaced_comm {q₁ q₂ : ℤ} (h₁ : 1 ≤ q₁) (h₂ : 1 ≤ q₂) (hne : q₁ ≠ q₂) (w₁ w₂ : ℤ)
    (ws : List ℤ) : replaced q₂ w₂ (replaced q₁ w₁ ws) = replaced q₁ w₁ (replaced q₂ w₂ ws) :=
  List.set_comm _ _ (by omega)

/-- The three orders in which the first call reads first. -/
theorem interleave_wrr_of_left {q₁ w₁ q₂ w₂ : ℤ} (hq₁ : 1 ≤ q₁ ∧ q₁ ≤ 8) (hq₂ : 1 ≤ q₂ ∧ q₂ ≤ 8)
    (hw₁ : IsInt w₁) (hw₂ : IsInt w₂) (j₁ j₂ : Wrrnum) {nv : Nvram} {ws : List ℤ} (hws : Weights ws)
    (hscan : scanInts (chr ',') 8 (nv (text "qos_wrr_config")) = ws) {turns : List Side}
    (hturns : turns = [.left, .left, .right, .right] ∨ turns = [.left, .right, .left, .right] ∨
      turns = [.left, .right, .right, .left]) :
    interleave serve (bcmConfigSetWrrWeight j₁ q₁ w₁) (bcmConfigSetWrrWeight j₂ q₂ w₂) nv turns =
      some (0, 0, Function.update nv (text "qos_wrr_config")
        (wrrText (finalWeights turns q₁ w₁ q₂ w₂ ws))) := by
  obtain ⟨next₁, hc₁, hn₁⟩ := bcmConfigSetWrrWeight_of_scan hq₁ hw₁ j₁
  obtain ⟨next₂, hc₂, hn₂⟩ := bcmConfigSetWrrWeight_of_scan hq₂ hw₂ j₂
  have hread₁ := hn₁ _ ws hws hscan
  have hread₂ := hn₂ _ ws hws hscan
  have hread := hn₂ _ _ (hws.replaced q₁ hw₁) (hws.replaced q₁ hw₁).scan_wrrText
  rw [hc₁, hc₂]
  rcases hturns with rfl | rfl | rfl
  · simp [serve, hread₁, hread, interleave, finalWeights, Separate]
  · simp [serve, hread₁, hread₂, interleave, finalWeights, Separate]
  · simp [serve, hread₁, hread₂, interleave, finalWeights, Separate]

/-- The other three orders end as these do with the calls exchanged. -/
theorem finalWeights_map_other {q₁ q₂ : ℤ} (h₁ : 1 ≤ q₁) (h₂ : 1 ≤ q₂) (hne : q₁ ≠ q₂) (w₁ w₂ : ℤ)
    (ws : List ℤ) {turns : List Side}
    (hturns : turns = [.left, .left, .right, .right] ∨ turns = [.left, .right, .left, .right] ∨
      turns = [.left, .right, .right, .left]) :
    finalWeights (turns.map Side.other) q₁ w₁ q₂ w₂ ws = finalWeights turns q₂ w₂ q₁ w₁ ws := by
  have hcomm := replaced_comm h₁ h₂ hne w₁ w₂ ws
  rcases hturns with rfl | rfl | rfl
  · simp [finalWeights, Separate, Side.other, hcomm]
  · simp [finalWeights, Separate, Side.other]
  · simp [finalWeights, Separate, Side.other]

/-- Two calls for different queues finish in the orders with two requests of each, and leave
the last weight, and the first one too if they do not overlap. -/
theorem wrr_weight_interleaved {q₁ w₁ q₂ w₂ : ℤ} (hq₁ : 1 ≤ q₁ ∧ q₁ ≤ 8) (hq₂ : 1 ≤ q₂ ∧ q₂ ≤ 8)
    (hne : q₁ ≠ q₂) (hw₁ : IsInt w₁) (hw₂ : IsInt w₂) (j₁ j₂ : Wrrnum) (nv : Nvram)
    (hline : (scanInts (chr ',') 8 (nv (text "qos_wrr_config"))).length = 8) (turns : List Side)
    (r : ℤ × ℤ × Nvram) :
    interleave serve (bcmConfigSetWrrWeight j₁ q₁ w₁) (bcmConfigSetWrrWeight j₂ q₂ w₂) nv turns =
        some r ↔
      (turns.count .left = 2 ∧ turns.count .right = 2) ∧
        r = (0, 0, Function.update nv (text "qos_wrr_config") (wrrText
          (finalWeights turns q₁ w₁ q₂ w₂ (scanInts (chr ',') 8 (nv (text "qos_wrr_config")))))) := by
  have hws : Weights (scanInts (chr ',') 8 (nv (text "qos_wrr_config"))) :=
    ⟨hline, fun w hw => isInt_of_mem_scanInts hw⟩
  have horder : turns.count .left = 2 → turns.count .right = 2 →
      interleave serve (bcmConfigSetWrrWeight j₁ q₁ w₁) (bcmConfigSetWrrWeight j₂ q₂ w₂) nv turns =
        some (0, 0, Function.update nv (text "qos_wrr_config") (wrrText
          (finalWeights turns q₁ w₁ q₂ w₂
            (scanInts (chr ',') 8 (nv (text "qos_wrr_config")))))) := by
    intro hl hr
    have hleft : (turns = [.left, .left, .right, .right] ∨ turns = [.left, .right, .left, .right] ∨
          turns = [.left, .right, .right, .left]) ∨
        ∃ turns', turns = turns'.map Side.other ∧ (turns' = [.left, .left, .right, .right] ∨
          turns' = [.left, .right, .left, .right] ∨ turns' = [.left, .right, .right, .left]) := by
      rcases eq_of_count_two hl hr with h | h | h | h | h | h
      · exact Or.inl (Or.inl h)
      · exact Or.inl (Or.inr (Or.inl h))
      · exact Or.inl (Or.inr (Or.inr h))
      · exact Or.inr ⟨[.left, .right, .right, .left], h, Or.inr (Or.inr rfl)⟩
      · exact Or.inr ⟨[.left, .right, .left, .right], h, Or.inr (Or.inl rfl)⟩
      · exact Or.inr ⟨[.left, .left, .right, .right], h, Or.inl rfl⟩
    rcases hleft with h | ⟨turns', rfl, h⟩
    · exact interleave_wrr_of_left hq₁ hq₂ hw₁ hw₂ j₁ j₂ hws rfl h
    · rw [interleave_swap, interleave_wrr_of_left hq₂ hq₁ hw₂ hw₁ j₂ j₁ hws rfl h,
        finalWeights_map_other hq₁.1 hq₂.1 hne w₁ w₂ _ h]
      rfl
  constructor
  · intro h
    have hcount := count_of_interleave (asks_bcmConfigSetWrrWeight j₁ q₁ w₁)
      (asks_bcmConfigSetWrrWeight j₂ q₂ w₂) h
    rw [horder hcount.1 hcount.2, Option.some.injEq] at h
    exact ⟨hcount, h.symm⟩
  · rintro ⟨⟨hl, hr⟩, rfl⟩
    exact horder hl hr

/-- Two weights set one after the other. -/
theorem wrr_weight_interleaved_separate :
    let nv : Nvram := fun _ => text "1,2,4,8,1,2,4,8"
    let j : Wrrnum := ⟨List.replicate 8 0, List.length_replicate⟩
    ∀ r, interleave serve (bcmConfigSetWrrWeight j 1 5) (bcmConfigSetWrrWeight j 8 6) nv
          [.left, .left, .right, .right] = some r ↔
        (([.left, .left, .right, .right] : List Side).count .left = 2 ∧
          ([.left, .left, .right, .right] : List Side).count .right = 2) ∧
        r = (0, 0, Function.update nv (text "qos_wrr_config") (wrrText
          (finalWeights [.left, .left, .right, .right] 1 5 8 6
            (scanInts (chr ',') 8 (nv (text "qos_wrr_config")))))) := by
  intro nv j
  exact wrr_weight_interleaved (by decide) (by decide) (by decide) (by decide) (by decide) j j nv
    (by decide) [.left, .left, .right, .right]

/-- Both calls read before either stores: the weight of the first queue is lost. -/
theorem wrr_weight_lost :
    let nv : Nvram := fun _ => text "1,2,4,8,1,2,4,8,"
    let j : Wrrnum := ⟨List.replicate 8 0, List.length_replicate⟩
    (interleave serve (bcmConfigSetWrrWeight j 1 5) (bcmConfigSetWrrWeight j 8 6) nv
        [.left, .right, .left, .right]).map (fun r => r.2.2 (text "qos_wrr_config")) =
      some (text "1,2,4,8,1,2,4,6,") := by
  decide +kernel

/-! ## A default value and an explicit one -/

/-- Alone at the server, the requests of a get are the get. -/
theorem run_cliNvramSafeGet (B : Build) (type : CliNvramType) (param : CStr) (nv : Nvram) :
    (cliNvramSafeGet B type param).run serve nv = BcmUtils.cliNvramSafeGet B type param nv := by
  have hset : ∀ data, (scfgmgrSet param data).run serve nv =
      (BcmUtils.scfgmgrSet param data nv).map fun nv => (0, nv) := by
    intro data
    rw [scfgmgrSet, Proc.bind_eq, Proc.run_bind, Proc.run_ofOption, BcmUtils.scfgmgrSet]
    cases setMessage param data <;> rfl
  rw [cliNvramSafeGet, Proc.bind_eq, Proc.run_bind, BcmUtils.cliNvramSafeGet]
  simp only [nvramSafeGet, Proc.run, serve, Option.bind_some]
  by_cases hempty : (nv param).length = 0
  · rw [if_pos hempty, if_pos hempty, Proc.bind_eq, Proc.run_bind, Proc.run_ofOption]
    cases store 512 (defaultText B type) with
    | none => rfl
    | some buff =>
        simp only [Option.map_some, Option.bind_some, Proc.bind_eq, Proc.run_bind, hset,
          Option.bind_eq_bind]
        cases BcmUtils.scfgmgrSet param buff nv with
        | none => rfl
        | some nv' => rfl
  · rw [if_neg hempty, if_neg hempty]
    rfl

/-- The requests of a get that has found nothing, and does not fault. -/
theorem cliNvramSafeGet_of_nil (B : Build) (type : CliNvramType) (param : CStr) :
    ∃ next, cliNvramSafeGet B type param = .ask (.get param) next ∧
      (∀ v, v ≠ [] → next v = .done v) ∧
      (next [] = .fault ∨ next [] = .ask (.set param (defaultText B type)) fun _ =>
        .ask (.get param) .done) := by
  refine ⟨_, rfl, fun v hv => ?_, ?_⟩
  · simp [hv]
  · by_cases hlen : (defaultText B type).length < 512
    · cases hmsg : setMessage param (defaultText B type) with
      | none => simp [store_of_lt hlen, scfgmgrSet, hmsg, Proc.ofOption, Proc.bind]
      | some _ => simp [store_of_lt hlen, scfgmgrSet, hmsg, nvramSafeGet]
    · simp [store, hlen, Proc.ofOption, Proc.bind]

/-- Once both clients have finished, the explicit value is stored unless it came in between the
first read of the get and its default. -/
theorem explicit_value_interleaved (B : Build) (type : CliNvramType) (param data : CStr)
    (hdata : data ≠ []) {nv : Nvram} (hempty : nv param = []) {turns : List Side}
    {r : CStr × ℤ × Nvram}
    (h : interleave serve (cliNvramSafeGet B type param) (scfgmgrSet param data) nv turns =
      some r) :
    r.2.2 = Function.update nv param
      (if turns = [.left, .right, .left, .left] then defaultText B type else data) := by
  obtain ⟨next, hget, hfound, hnone⟩ := cliNvramSafeGet_of_nil B type param
  have hset : scfgmgrSet param data = .fault ∨
      scfgmgrSet param data = .ask (.set param data) fun _ => .done 0 := by
    rw [scfgmgrSet]
    cases setMessage param data with
    | none => exact Or.inl rfl
    | some _ => exact Or.inr rfl
  rcases hset with hset | hset
  · rw [hset, interleave_fault] at h
    exact absurd h (by simp)
  rw [hget, hset] at h
  rcases turns with _ | ⟨_ | _, turns⟩
  · simp [interleave] at h
  · -- the get reads first and finds nothing
    rw [interleave_left_ask, serve, hempty] at h
    rcases hnone with hnone | hnone
    · rw [hnone, interleave_fault_left] at h
      exact absurd h (by simp)
    · rw [hnone] at h
      rcases turns with _ | ⟨_ | _, _ | ⟨_ | _, _ | ⟨_ | _, _ | ⟨_ | _, turns⟩⟩⟩⟩ <;>
        simp [interleave, serve] at h <;> subst h <;> simp
  · -- the explicit value is there before the get reads
    rw [interleave_right_ask] at h
    have hrun := run_of_interleave_done_right h
    simp only [Proc.run, serve, Function.update_self, hfound data hdata, Option.some.injEq,
      Prod.mk.injEq] at hrun
    rw [← hrun.2, if_neg (by simp)]

/-- The explicit value comes last. -/
theorem explicit_value_interleaved_last :
    let B : Build := ⟨8, 0, 0, by decide, by decide⟩
    let nv : Nvram := fun _ => []
    ∃ r, interleave serve (cliNvramSafeGet B .allOne (text "p")) (scfgmgrSet (text "p") (text "0"))
        nv [.left, .left, .left, .right] = some r ∧
      r.2.2 = Function.update nv (text "p")
        (if [Side.left, .left, .left, .right] = [.left, .right, .left, .left]
          then defaultText B .allOne else text "0") := by
  intro B nv
  exact ⟨_, rfl, explicit_value_interleaved B .allOne (text "p") (text "0") (by decide) rfl rfl⟩

/-- The default overwrites a value that was set after the get had read the empty string. -/
theorem explicit_value_lost :
    let B : Build := ⟨8, 0, 0, by decide, by decide⟩
    (interleave serve (cliNvramSafeGet B .allOne (text "p")) (scfgmgrSet (text "p") (text "0"))
        (fun _ => []) [.left, .right, .left, .left]).map (fun r => r.2.2 (text "p")) =
      some (text "11111111") := by
  decide +kernel

end BcmUtils.Clients
