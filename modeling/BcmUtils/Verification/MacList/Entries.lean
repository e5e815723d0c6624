import BcmUtils.Verification.MacList.Lines

/-! # The entries of the MAC table

Each known line fills the next entry, except for its VLAN. The entry that reaches the limit is
filled, but not counted. -/

namespace BcmUtils.MacList

open CLib

namespace MacLine

variable (l : MacLine)

/-- The entry of a line. -/
def entry : ArlTable where
  macAddress := ⟨l.spelling.mac, l.spelling.length_mac⟩
  port := BitVec.ofInt 32 l.mapped
  vlan := l.vid
  type := l.method

/-- What the line leaves of an entry. -/
def stored (e : Endian) (t : ArlTable) : ArlTable where
  macAddress := ⟨l.spelling.mac.map (firstByte e), by rw [List.length_map, l.spelling.length_mac]⟩
  port := BitVec.ofInt 32 l.mapped
  vlan := t.vlan
  type := l.method

/-- The line in the dump. -/
def chunk : List Byte := l.text ++ [chr '\n']

end MacLine

/-- The lines with a known port. -/
def known (lines : List MacLine) : List MacLine := lines.filter fun l => l.Known

/-- The dump of the lines. -/
def dumpText (lines : List MacLine) : List Byte := lines.flatMap MacLine.chunk

theorem length_printInt_port (p : Fin 64) : (printInt ((p : ℕ) : ℤ)).length ≤ 2 :=
  length_printNat_le (by decide) (p.2.trans (by decide))

theorem length_separated (m : MacText.MacSpelling) (c : Byte) : (m.separated c).length = 17 := by
  obtain ⟨b, p, -, hp, -⟩ := exists_ofFn m.spelled m.length_mac
  rw [MacText.MacSpelling.separated, hp]
  simp [List.ofFn_succ, MacText.pairText, List.intercalate_cons_cons]

theorem length_text_lt (l : MacLine) : l.text.length < 127 := by
  have hmac := length_separated l.spelling (chr '-')
  have hvid := length_printInt_le (isInt_toInt l.vid)
  have hport := length_printInt_port l.port
  have htgid := length_printInt_le (isInt_toInt l.tgid)
  have hmethod := length_printInt_le (isInt_toInt l.method)
  simp only [MacLine.text, numbersText, List.length_append, List.length_cons]
  omega

theorem fileLines_dumpText (lines : List MacLine) :
    fileLines 127 (dumpText lines) = lines.map MacLine.chunk :=
  fileLines_flatMap fun l _ => ⟨not_mem_text l (Or.inr rfl), length_text_lt l⟩

/-! ## One line -/

/-- What the variables hold behind a line. -/
structure LineScanned {slack : ℕ} (e : Endian) (l : MacLine) (f : MacFrame slack) : Prop where
  mac : f.mac.1.take 6 = l.spelling.mac.map (firstByte e)
  port : f.port.toInt = (l.port : ℕ)
  mtype : f.mtype = l.method

/-- With three spare bytes behind the array, the variables are set. -/
theorem scanMacLine_spec {slack : ℕ} (hslack : 3 ≤ slack) (e : Endian) (l : MacLine)
    (f : MacFrame slack) :
    ∃ f', scanMacLine e l.chunk f = some f' ∧ LineScanned e l f' := by
  have hlen := l.spelling.length_mac
  have hfits : Fits (6 + slack) (macStores e l.spelling.mac) := by
    rw [fits_macStores, hlen]
    exact Or.inr (by omega)
  obtain ⟨mac, hcopy, hget⟩ := copyAll_spec hfits f.mac
  rw [MacLine.chunk, scanMacLine_eq, hcopy]
  refine ⟨_, rfl, ?_, ?_, rfl⟩
  · apply List.ext_getElem?
    intro j
    by_cases hj : j < 6
    · have hsome : j < (l.spelling.mac.map (firstByte e)).length := by
        rwa [List.length_map, hlen]
      rw [List.getElem?_take_of_lt hj, hget, covered_macStores e (hlen.symm ▸ hj),
        List.getElem?_eq_getElem hsome]
      rfl
    · rw [List.getElem?_eq_none (by rw [List.length_take]; omega),
        List.getElem?_eq_none (by rw [List.length_map]; omega)]
  · have hport := l.port.2
    rw [BitVec.toInt_ofInt]
    exact Int.bmod_eq_of_le (by omega) (by omega)

/-- Without them, the last words leave the frame. -/
theorem scanMacLine_eq_none {slack : ℕ} (hslack : slack < 3) (e : Endian) (l : MacLine)
    (f : MacFrame slack) : scanMacLine e l.chunk f = none := by
  have hlen := l.spelling.length_mac
  have hfits : ¬ Fits (6 + slack) (macStores e l.spelling.mac) := by
    rw [fits_macStores, hlen]
    intro h
    cases h with
    | inl h => simp [h] at hlen
    | inr h => omega
  rw [MacLine.chunk, scanMacLine_eq, copyAll_of_not_fits hfits]
  rfl

theorem mappedPort_eq {l : MacLine} {port : BitVec 32} (h : port.toInt = (l.port : ℕ)) :
    mappedPort port = some l.mapped := by
  have hlen : phy2port.length = 64 := by simp [phy2port]
  have hlt : (l.port : ℕ) < phy2port.length := by
    rw [hlen]
    exact l.port.2
  rw [mappedPort, h, if_pos (by omega), Int.toNat_natCast, MacLine.mapped,
    List.getD_eq_getElem?_getD, List.getElem?_eq_getElem hlt, Option.getD_some]

/-- The round of the loop for a line whose port is not known. -/
theorem macListLoop_unknown {slack : ℕ} {e : Endian} {l : MacLine} (h : ¬ l.Known)
    {f f' : MacFrame slack} (hscan : scanMacLine e l.chunk f = some f') (hf : LineScanned e l f')
    (lines : List (List Byte)) (count : ℕ) (table : List ArlTable) :
    macListLoop e (l.chunk :: lines) f count table = macListLoop e lines f' count table := by
  rw [macListLoop, bind_of_eq hscan, bind_of_eq (mappedPort_eq hf.port)]
  exact if_neg h

/-- The round for a line whose port is known. -/
theorem macListLoop_known {slack : ℕ} {e : Endian} {l : MacLine} (h : l.Known)
    {f f' : MacFrame slack} (hscan : scanMacLine e l.chunk f = some f') (hf : LineScanned e l f')
    (lines : List (List Byte)) (done : List ArlTable) (t : ArlTable) (rest : List ArlTable) :
    macListLoop e (l.chunk :: lines) f done.length (done ++ t :: rest) =
      if done.length > 8190 then some (done.length, done ++ l.stored e t :: rest)
      else macListLoop e lines f' (done.length + 1) (done ++ l.stored e t :: rest) := by
  have hentry : (done ++ t :: rest)[done.length]? = some t := by simp
  have hfill : t.fill f' l.mapped = l.stored e t := by
    simp only [ArlTable.fill, MacLine.stored, hf.mac, hf.mtype]
  have hset : (done ++ t :: rest).set done.length (l.stored e t) =
      done ++ l.stored e t :: rest := by simp
  have hknown : l.mapped ≠ 0 ∧ l.mapped ≠ -1 := h
  rw [macListLoop, bind_of_eq hscan, bind_of_eq (mappedPort_eq hf.port), if_pos hknown,
    bind_of_eq hentry, hfill, hset]

/-! ## The whole dump -/

/-- Below the limit, the loop counts the known lines and stores each of them in the next entry. -/
theorem macListLoop_spec {slack : ℕ} (hslack : 3 ≤ slack) (e : Endian) (lines : List MacLine)
    (f : MacFrame slack) (done rest : List ArlTable)
    (hlimit : done.length + (known lines).length ≤ 8191)
    (hroom : (known lines).length ≤ rest.length) :
    macListLoop e (lines.map MacLine.chunk) f done.length (done ++ rest) =
      some (done.length + (known lines).length,
        done ++ (List.zipWith (fun l t => l.stored e t) (known lines) rest ++
          rest.drop (known lines).length)) := by
  induction lines generalizing f done rest with
  | nil => simp [macListLoop, known]
  | cons l lines ih =>
      obtain ⟨f', hscan, hf⟩ := scanMacLine_spec hslack e l f
      rw [List.map_cons]
      by_cases h : l.Known
      · have hcons : known (l :: lines) = l :: known lines := List.filter_cons_of_pos (by simpa)
        rw [hcons, List.length_cons] at hlimit hroom
        cases rest with
        | nil => simp at hroom
        | cons t rest =>
            have hnext := ih f' (done ++ [l.stored e t]) rest
              (by rw [List.length_append, List.length_singleton]; omega)
              (by simpa using hroom)
            rw [List.length_append, List.length_singleton, List.append_assoc,
              List.singleton_append, List.append_assoc, List.singleton_append] at hnext
            rw [macListLoop_known h hscan hf, if_neg (by omega), hnext, hcons, List.length_cons,
              List.zipWith_cons_cons, List.drop_succ_cons, List.cons_append, Nat.add_assoc,
              Nat.add_comm 1]
      · have hskip : known (l :: lines) = known lines := List.filter_cons_of_neg (by simpa)
        rw [hskip] at hlimit hroom ⊢
        rw [macListLoop_unknown h hscan hf]
        exact ih f' done rest hlimit hroom

/-- The returned number never reaches the limit. -/
theorem macListLoop_count_le {slack : ℕ} {e : Endian} {lines : List (List Byte)}
    {f : MacFrame slack} {count n : ℕ} {table table' : List ArlTable} (hcount : count ≤ 8191)
    (h : macListLoop e lines f count table = some (n, table')) : n ≤ 8191 := by
  induction lines generalizing f count table with
  | nil =>
      rw [macListLoop, Option.some.injEq, Prod.mk.injEq] at h
      omega
  | cons line lines ih =>
      rw [macListLoop] at h
      obtain ⟨f', hscan, h⟩ := Option.bind_eq_some_iff.mp h
      obtain ⟨port, hport, h⟩ := Option.bind_eq_some_iff.mp h
      split at h
      · obtain ⟨entry, hentry, h⟩ := Option.bind_eq_some_iff.mp h
        split at h
        · rw [Option.some.injEq, Prod.mk.injEq] at h
          omega
        · exact ih (by omega) h
      · exact ih hcount h

/-- The dump is listed: the first 8192 lines with a known port are in the entries, in order, and
their number is returned. -/
def Listed {slack : ℕ} (e : Endian) (f : MacFrame slack) (lines : List MacLine)
    (table : List ArlTable) : Prop :=
  let entries := ((known lines).take 8192).map MacLine.entry
  cliGetL2MacListNew e true (some (dumpText lines)) f table =
    some ((entries.length : ℤ), entries ++ table.drop entries.length)

/-- When the dump is listed: the words stored for an address stay within the frame, there are fewer
known lines than entries, and what the code leaves of an entry is what the line says. -/
structure ListedWhen (slack : ℕ) (e : Endian) (lines : List MacLine) (table : List ArlTable) :
    Prop where
  frame : lines = [] ∨ 3 ≤ slack
  count : (known lines).length ≤ 8191
  vlan : ∀ (k : ℕ) l t, (known lines)[k]? = some l → table[k]? = some t → t.vlan = l.vid
  address : e = .little ∨ ∀ l ∈ known lines, ∀ b ∈ l.spelling.mac, b = 0

theorem stored_eq_entry_iff (e : Endian) (l : MacLine) (t : ArlTable) :
    l.stored e t = l.entry ↔ t.vlan = l.vid ∧ (e = .little ∨ ∀ b ∈ l.spelling.mac, b = 0) := by
  have hmac : l.spelling.mac.map (firstByte e) = l.spelling.mac ↔
      e = .little ∨ ∀ b ∈ l.spelling.mac, b = 0 := by
    have hself := @List.map_inj_left _ _ l.spelling.mac (firstByte e) id
    rw [List.map_id] at hself
    rw [hself]
    cases e with
    | little => simp [firstByte]
    | big => simp [firstByte, eq_comm]
  rw [MacLine.stored, MacLine.entry, ArlTable.mk.injEq, Subtype.mk.injEq, hmac]
  tauto

/-- What the loop leaves of the entries is what the lines say exactly if it is so for each. -/
theorem zipWith_stored_iff (e : Endian) {ls : List MacLine} {ts : List ArlTable}
    (h : ls.length ≤ ts.length) :
    List.zipWith (fun l t => l.stored e t) ls ts = ls.map MacLine.entry ↔
      ∀ (k : ℕ) l t, ls[k]? = some l → ts[k]? = some t → l.stored e t = l.entry := by
  induction ls generalizing ts with
  | nil => simp
  | cons l ls ih =>
      cases ts with
      | nil => simp at h
      | cons t ts =>
          rw [List.zipWith_cons_cons, List.map_cons, List.cons.injEq, ih (by simpa using h)]
          constructor
          · intro hall k l' t' hl ht
            cases k with
            | zero =>
                obtain rfl := Option.some.inj hl
                obtain rfl := Option.some.inj ht
                exact hall.1
            | succ k => exact hall.2 k l' t' hl ht
          · intro hall
            exact ⟨hall 0 l t rfl rfl, fun k l' t' hl ht => hall (k + 1) l' t' hl ht⟩

section

variable {slack : ℕ} {e : Endian} {f : MacFrame slack} {lines : List MacLine}
  {table : List ArlTable}

theorem cliGetL2MacListNew_dumpText :
    cliGetL2MacListNew e true (some (dumpText lines)) f table =
      (macListLoop e (lines.map MacLine.chunk) f 0 table).map fun r => ((r.1 : ℤ), r.2) := by
  rw [cliGetL2MacListNew, if_pos rfl, fileLines_dumpText, Option.map_eq_bind]
  rfl

/-- The first line leaves the frame, unless there are three spare bytes. -/
theorem Listed.frame (h : Listed e f lines table) : lines = [] ∨ 3 ≤ slack := by
  cases lines with
  | nil => exact Or.inl rfl
  | cons l lines =>
      refine Or.inr ?_
      by_contra hslack
      rw [Listed, cliGetL2MacListNew_dumpText, List.map_cons, macListLoop,
        scanMacLine_eq_none (by omega) e l f] at h
      cases h

/-- The line that reaches the limit is not counted. -/
theorem Listed.count_le (h : Listed e f lines table) : (known lines).length ≤ 8191 := by
  by_contra hmore
  rw [Listed, cliGetL2MacListNew_dumpText] at h
  obtain ⟨⟨n, table'⟩, hloop, heq⟩ := Option.map_eq_some_iff.mp h
  have hle := macListLoop_count_le (by omega) hloop
  have hlen := congrArg Prod.fst heq
  simp only [List.length_map, List.length_take] at hlen
  omega

/-- Below the limit, the dump is listed if each entry is left as its line says. -/
theorem listed_iff_stored (hcount : (known lines).length ≤ 8191) (hslack : 3 ≤ slack)
    (htable : (known lines).length ≤ table.length) :
    Listed e f lines table ↔
      ∀ (k : ℕ) l t, (known lines)[k]? = some l → table[k]? = some t → l.stored e t = l.entry := by
  have hall : (known lines).take 8192 = known lines := List.take_of_length_le (by omega)
  have hloop := macListLoop_spec hslack e lines f [] table (by simpa using hcount) htable
  simp only [List.length_nil, Nat.zero_add, List.nil_append] at hloop
  rw [← zipWith_stored_iff e htable, Listed, cliGetL2MacListNew_dumpText, hloop, hall,
    List.length_map, Option.map_some, Option.some.injEq, Prod.mk.injEq,
    List.append_cancel_right_eq]
  simp

/-- An entry is left as its line says under the conditions on its VLAN and its address. -/
theorem forall_stored_eq_entry_iff (htable : (known lines).length ≤ table.length) :
    (∀ (k : ℕ) l t, (known lines)[k]? = some l → table[k]? = some t → l.stored e t = l.entry) ↔
      (∀ (k : ℕ) l t, (known lines)[k]? = some l → table[k]? = some t → t.vlan = l.vid) ∧
        (e = .little ∨ ∀ l ∈ known lines, ∀ b ∈ l.spelling.mac, b = 0) := by
  simp only [stored_eq_entry_iff]
  constructor
  · intro h
    refine ⟨fun k l t hl ht => (h k l t hl ht).1, ?_⟩
    by_cases he : e = .little
    · exact Or.inl he
    · refine Or.inr fun l hl => ?_
      obtain ⟨k, hk, hget⟩ := List.mem_iff_getElem.mp hl
      have hl' := (List.getElem?_eq_getElem hk).trans (congrArg some hget)
      have ht' := List.getElem?_eq_getElem (hk.trans_le htable)
      exact (h k l _ hl' ht').2.resolve_left he
  · intro h k l t hl ht
    exact ⟨h.1 k l t hl ht, h.2.imp_right fun hzero => hzero l (List.mem_of_getElem? hl)⟩

end

/-- The MAC table lists the dump exactly under these conditions. -/
theorem mac_list_listed_iff {slack : ℕ} (e : Endian) (f : MacFrame slack) (lines : List MacLine)
    {table : List ArlTable} (htable : ((known lines).take 8192).length ≤ table.length) :
    Listed e f lines table ↔ ListedWhen slack e lines table := by
  have hroom : (known lines).length ≤ 8191 → (known lines).length ≤ table.length := by
    intro hcount
    rwa [List.take_of_length_le (by omega)] at htable
  constructor
  · intro h
    cases h.frame with
    | inl hnil =>
        rw [hnil]
        exact ⟨Or.inl rfl, by simp [known], by simp [known], Or.inr (by simp [known])⟩
    | inr hslack =>
        have hcount := h.count_le
        have hstored := (listed_iff_stored hcount hslack (hroom hcount)).mp h
        obtain ⟨hvlan, haddress⟩ := (forall_stored_eq_entry_iff (hroom hcount)).mp hstored
        exact ⟨Or.inr hslack, hcount, hvlan, haddress⟩
  · intro h
    cases h.frame with
    | inl hnil =>
        rw [Listed, cliGetL2MacListNew_dumpText, hnil]
        simp [macListLoop, known]
    | inr hslack =>
        have hentries := (forall_stored_eq_entry_iff (hroom h.count)).mpr ⟨h.vlan, h.address⟩
        exact (listed_iff_stored h.count hslack (hroom h.count)).mpr hentries

/-- The line `00-00-00-00-00-01 5 1 0 0`. -/
def sampleLine : MacLine where
  spelling := ⟨[0, 0, 0, 0, 0, 1],
    [(48, 48), (48, 48), (48, 48), (48, 48), (48, 48), (48, 49)], rfl, by decide⟩
  vid := 5
  port := 1
  tgid := 0
  method := 0

/-- An entry of zeros. -/
def zeroEntry : ArlTable := ⟨Block.zeroed 6, 0, 0, 0⟩

/-- Variables of zeros. -/
def zeroFrame : MacFrame 3 := ⟨Block.zeroed 9, 0, 0, 0, 0⟩

/-- One line into a table of one entry. -/
theorem mac_list_listed_iff_one :
    Listed .little zeroFrame [sampleLine] [zeroEntry] ↔
      ListedWhen 3 .little [sampleLine] [zeroEntry] :=
  mac_list_listed_iff .little zeroFrame [sampleLine] (by decide)

/-- The VLAN of the line does not reach the entry. -/
theorem mac_list_vlan_missing :
    ¬ ∀ (slack : ℕ) (e : Endian) (f : MacFrame slack) (lines : List MacLine)
      (table : List ArlTable), ((known lines).take 8192).length ≤ table.length →
        Listed e f lines table := by
  intro h
  have hlisted := h 3 .little zeroFrame [sampleLine] [zeroEntry] (by decide)
  unfold Listed at hlisted
  revert hlisted
  decide +kernel

end BcmUtils.MacList
