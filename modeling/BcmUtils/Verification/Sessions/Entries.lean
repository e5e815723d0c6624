import BcmUtils.Verification.Sessions.Block

/-! # The entries of the vty sessions

The block tells the sessions exactly if no line behind the sixteenth stores anything and every
address ends within its field. -/

namespace BcmUtils.Sessions

open CLib

/-! ## Reading an entry -/

/-- What entry `k` tells. Its addresses must end within their fields. -/
def readVtyInfo (e : Endian) (mem : List Byte) (k : ℕ) : Option VtyInfo := do
  let entry := mem.drop (k * vtyInfoSize)
  let remoteIp ← readStr 0 (entry.take 64)
  let localIp ← readStr 0 ((entry.drop 68).take 64)
  return { remoteIp
           remotePort := wordOf e ((entry.drop 64).take 4)
           localIp
           localPort := wordOf e ((entry.drop 132).take 4)
           lineId := wordOf e ((entry.drop 136).take 4)
           pid := wordOf e ((entry.drop 140).take 4) }

theorem readStr_field {s : CStr} (hs : (0 : Byte) ∉ s) (hlen : s.length < 64) :
    readStr 0 (padRow 64 s) = some s := by
  have hread := readStr_padRow hlen hs [] []
  rwa [List.length_nil, List.nil_append, List.append_nil] at hread

/-- An entry is read as it was filled. -/
theorem readVtyInfo_bytes (e : Endian) {v : VtyInfo} (hfits : v.Fits)
    (hremote : (0 : Byte) ∉ v.remoteIp) (hlocal : (0 : Byte) ∉ v.localIp) {k : ℕ}
    {pre : List Byte} (hpre : pre.length = k * vtyInfoSize) (post : List Byte) :
    readVtyInfo e (pre ++ (v.bytes e ++ post)) k = some v := by
  have h₀ := length_padRow hfits.remote
  have h₂ := length_padRow hfits.locally
  have h₁ := length_bytesOf e v.remotePort
  have h₃ := length_bytesOf e v.localPort
  have h₄ := length_bytesOf e v.lineId
  have h₅ := length_bytesOf e v.pid
  have hentry : (pre ++ (v.bytes e ++ post)).drop (k * vtyInfoSize) =
      padRow 64 v.remoteIp ++ (bytesOf e v.remotePort ++ (padRow 64 v.localIp ++
        (bytesOf e v.localPort ++ (bytesOf e v.lineId ++ (bytesOf e v.pid ++ post))))) := by
    rw [List.drop_left' hpre, VtyInfo.bytes]
    simp only [List.append_assoc]
  simp only [readVtyInfo]
  generalize (pre ++ (v.bytes e ++ post)).drop (k * vtyInfoSize) = entry at hentry
  have hdrop : ∀ (n m : ℕ) {bs cs : List Byte}, entry.drop n = bs ++ cs → bs.length = m →
      entry.drop (n + m) = cs := by
    intro n m bs cs h hm
    rw [← List.drop_drop, h, List.drop_left' hm]
  have d₁ : entry.drop 64 = _ := hdrop 0 64 hentry h₀
  have d₂ : entry.drop 68 = _ := hdrop 64 4 d₁ h₁
  have d₃ : entry.drop 132 = _ := hdrop 68 64 d₂ h₂
  have d₄ : entry.drop 136 = _ := hdrop 132 4 d₃ h₃
  have d₅ : entry.drop 140 = _ := hdrop 136 4 d₄ h₄
  rw [d₁, d₂, d₃, d₄, d₅, hentry, List.take_left' h₀, List.take_left' h₁, List.take_left' h₂,
    List.take_left' h₃, List.take_left' h₄, List.take_left' h₅, readStr_field hremote hfits.remote,
    readStr_field hlocal hfits.locally]
  simp only [wordOf_bytesOf]
  rfl

theorem length_flatMap_bytes {e : Endian} {vs : List VtyInfo} (h : ∀ v ∈ vs, v.Fits) :
    (vs.flatMap (VtyInfo.bytes e)).length = vs.length * vtyInfoSize := by
  induction vs with
  | nil => simp
  | cons v vs ih =>
      rw [List.flatMap_cons, List.length_append, length_bytes (h v List.mem_cons_self),
        ih fun w hw => h w (List.mem_cons_of_mem _ hw), List.length_cons, Nat.succ_mul,
        Nat.add_comm]

/-- Filled entries are read one by one. -/
theorem readVtyInfo_flatMap (e : Endian) {vs : List VtyInfo} (hfits : ∀ v ∈ vs, v.Fits)
    (hclean : ∀ v ∈ vs, (0 : Byte) ∉ v.remoteIp ∧ (0 : Byte) ∉ v.localIp) {k : ℕ} {v : VtyInfo}
    (hv : vs[k]? = some v) : readVtyInfo e (vs.flatMap (VtyInfo.bytes e)) k = some v := by
  obtain ⟨hk, hget⟩ := List.getElem?_eq_some_iff.mp hv
  have hmem := List.mem_of_getElem? hv
  have hsplit : vs = vs.take k ++ v :: vs.drop (k + 1) := by
    rw [← hget, ← List.drop_eq_getElem_cons hk, List.take_append_drop]
  have hpre : ((vs.take k).flatMap (VtyInfo.bytes e)).length = k * vtyInfoSize := by
    rw [length_flatMap_bytes fun w hw => hfits w (List.mem_of_mem_take hw),
      List.length_take_of_le hk.le]
  have hread := readVtyInfo_bytes e (hfits v hmem) (hclean v hmem).1 (hclean v hmem).2 hpre
    ((vs.drop (k + 1)).flatMap (VtyInfo.bytes e))
  rw [← List.flatMap_cons, ← List.flatMap_append, ← hsplit] at hread
  exact hread

/-! ## The block -/

theorem fits_empty : VtyInfo.empty.Fits := ⟨by decide, by decide⟩

theorem bytes_empty (e : Endian) : VtyInfo.empty.bytes e = List.replicate vtyInfoSize 0 := by
  cases e <;> decide

theorem not_mem_textOf {ds : List Directive} {line : CStr} (h : (0 : Byte) ∉ line) (k : ℕ) :
    (0 : Byte) ∉ textOf (sscanf ds line)[k]? := by
  cases hv : (sscanf ds line)[k]? with
  | none => simp [textOf]
  | some v =>
      cases v with
      | word w => simp [textOf]
      | text u => exact fun hzero => h (mem_of_mem_sscanf (List.mem_of_getElem? hv) 0 hzero)

theorem not_mem_sessionLines {file : Option (List Byte)} {line : CStr}
    (h : line ∈ sessionLines file) : (0 : Byte) ∉ line := by
  obtain ⟨chunk, -, rfl⟩ := List.mem_map.mp h
  intro hzero
  simpa using List.mem_takeWhile_imp hzero

/-- The addresses of a line of a file hold no terminator. -/
theorem clean_of_mem_sessions {telnet ssh : Option (List Byte)} {s : Session}
    (h : s ∈ sessions telnet ssh) :
    (0 : Byte) ∉ s.info.remoteIp ∧ (0 : Byte) ∉ s.info.localIp := by
  cases List.mem_append.mp h with
  | inl h =>
      obtain ⟨line, hline, rfl⟩ := List.mem_map.mp h
      have hclean := not_mem_sessionLines hline
      exact ⟨not_mem_textOf hclean 0, not_mem_textOf hclean 2⟩
  | inr h =>
      obtain ⟨line, hline, rfl⟩ := List.mem_map.mp h
      have hclean := not_mem_sessionLines hline
      exact ⟨not_mem_textOf hclean 0, by simp [Session.info]⟩

/-- What the entry `k` of the block should tell: the session of the line `k`, or nothing. -/
def expected (telnet ssh : Option (List Byte)) (k : ℕ) : VtyInfo :=
  ((sessions telnet ssh)[k]?.map Session.info).getD .empty

/-- The call keeps within the block, and the entries tell the sessions, telnet first, as many of
them as fit. -/
def TellsSessions (e : Endian) (telnet ssh : Option (List Byte)) : Prop :=
  ∃ block, getAaaLineVtyInfo e true telnet ssh = some block ∧
    ∀ k < MAX_VTY, readVtyInfo e block.1 k = some (expected telnet ssh k)

/-- When the block tells the sessions. -/
structure SessionsFit (telnet ssh : Option (List Byte)) : Prop where
  addresses : ∀ s ∈ (sessions telnet ssh).take MAX_VTY, s.info.Fits
  rest : ∀ s ∈ (sessions telnet ssh).drop MAX_VTY, s.Blank

/-- Sessions that fit are in their entries. -/
theorem tells_of_fit (e : Endian) {telnet ssh : Option (List Byte)}
    (h : SessionsFit telnet ssh) : TellsSessions e telnet ssh := by
  have hle : ((sessions telnet ssh).take MAX_VTY).length ≤ MAX_VTY := by
    rw [List.length_take]
    exact Nat.min_le_left _ _
  have hstart : (Block.zeroed (MAX_VTY * vtyInfoSize)).1 =
      [] ++ List.replicate (MAX_VTY * vtyInfoSize) 0 := rfl
  obtain ⟨block, hrun, hblock⟩ := run_spec e h.addresses (k := 0) hle (by simp) hstart
  have hrest := run_of_blank e h.rest (0 + ((sessions telnet ssh).take MAX_VTY).length) block
  have hall := run_append e ((sessions telnet ssh).take MAX_VTY)
    ((sessions telnet ssh).drop MAX_VTY) 0 (Block.zeroed _)
  rw [List.take_append_drop, hrun, Option.bind_some, hrest] at hall
  refine ⟨block, by rw [getAaaLineVtyInfo_eq, hall]; rfl, fun k hk => ?_⟩
  have hentries : block.1 = (((sessions telnet ssh).take MAX_VTY).map Session.info ++
      List.replicate (MAX_VTY - ((sessions telnet ssh).take MAX_VTY).length)
        VtyInfo.empty).flatMap (VtyInfo.bytes e) := by
    rw [hblock, List.flatMap_append, List.flatMap_map, List.nil_append, List.flatMap_replicate,
      bytes_empty, List.flatten_replicate_replicate]
  rw [hentries]
  apply readVtyInfo_flatMap
  · intro v hv
    cases List.mem_append.mp hv with
    | inl hv =>
        obtain ⟨s, hs, rfl⟩ := List.mem_map.mp hv
        exact h.addresses s hs
    | inr hv => exact (List.eq_of_mem_replicate hv) ▸ fits_empty
  · intro v hv
    cases List.mem_append.mp hv with
    | inl hv =>
        obtain ⟨s, hs, rfl⟩ := List.mem_map.mp hv
        exact clean_of_mem_sessions (List.mem_of_mem_take hs)
    | inr hv =>
        rw [List.eq_of_mem_replicate hv]
        exact ⟨by decide, by decide⟩
  · rw [expected]
    by_cases hmore : k < (sessions telnet ssh).length
    · have hget := List.getElem?_eq_getElem hmore
      rw [List.getElem?_append_left (by rw [List.length_map, List.length_take]; omega),
        List.getElem?_map, List.getElem?_take_of_lt hk, hget]
      rfl
    · rw [List.getElem?_append_right (by rw [List.length_map, List.length_take]; omega),
        List.getElem?_eq_none (by omega : (sessions telnet ssh).length ≤ k),
        List.getElem?_replicate, if_pos (by rw [List.length_map, List.length_take]; omega)]
      rfl

/-- An entry that can be read has addresses that end within their fields. -/
theorem fits_of_readVtyInfo {e : Endian} {mem : List Byte} {k : ℕ} {v : VtyInfo}
    (h : readVtyInfo e mem k = some v) : v.Fits := by
  obtain ⟨remoteIp, hremote, h⟩ := Option.bind_eq_some_iff.mp h
  obtain ⟨localIp, hlocal, h⟩ := Option.bind_eq_some_iff.mp h
  obtain rfl := Option.some.inj h
  exact ⟨(length_lt_of_readStr hremote).trans_le (List.length_take_le _ _),
    (length_lt_of_readStr hlocal).trans_le (List.length_take_le _ _)⟩

/-- Sessions that are told fit. -/
theorem fit_of_tells {e : Endian} {telnet ssh : Option (List Byte)}
    (h : TellsSessions e telnet ssh) : SessionsFit telnet ssh := by
  obtain ⟨block, hcall, hread⟩ := h
  constructor
  · intro s hs
    obtain ⟨k, hk, hget⟩ := List.mem_iff_getElem.mp hs
    have hs' := (List.getElem?_eq_getElem hk).trans (congrArg some hget)
    rw [List.length_take] at hk
    rw [List.getElem?_take_of_lt (by omega)] at hs'
    have hentry := hread k (by omega)
    rw [expected, hs'] at hentry
    exact fits_of_readVtyInfo hentry
  · intro s hs
    have hlen := List.length_pos_of_mem hs
    rw [List.length_drop] at hlen
    rw [getAaaLineVtyInfo_eq] at hcall
    obtain ⟨r, hrun, -⟩ := Option.map_eq_some_iff.mp hcall
    rw [← List.take_append_drop MAX_VTY (sessions telnet ssh), run_append] at hrun
    obtain ⟨r', hfirst, hrest⟩ := Option.bind_eq_some_iff.mp hrun
    have hcount := run_count hfirst
    rw [List.length_take] at hcount
    exact blank_of_run (by omega) hrest s hs

/-- The sessions are told exactly if they fit. -/
theorem vty_sessions_told_iff (e : Endian) (telnet ssh : Option (List Byte)) :
    TellsSessions e telnet ssh ↔ SessionsFit telnet ssh :=
  ⟨fit_of_tells, tells_of_fit e⟩

/-- A line of ssh. -/
def sampleLine : CStr := text "10.0.0.1,5000,77,1;" ++ [chr '\n']

/-- The seventeenth session of ssh is stored behind the block. -/
theorem vty_sessions_overflow :
    ¬ ∀ (e : Endian) (telnet ssh : Option (List Byte)), TellsSessions e telnet ssh := by
  intro h
  have htells := h .little none (some (List.replicate 17 sampleLine).flatten)
  have hlast : Session.ssh sampleLine ∈
      (sessions none (some (List.replicate 17 sampleLine).flatten)).drop MAX_VTY := by
    decide +kernel
  exact (fit_of_tells htells).rest _ hlast

end BcmUtils.Sessions
