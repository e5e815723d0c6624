import BcmUtils.Foundation.Joined
import BcmUtils.Foundation.Words
import BcmUtils.Verification.PortVlans.Cursor

/-! # Reading the port-based VLANs

Every record is read into its own entry. Its first port is recorded below `PNUM` only, and the
other ones below 28 only. -/

namespace BcmUtils.PortVlans

open CLib

variable {B : Build}

/-- A record such as `1,3:desc;`. -/
structure VlanRecord (B : Build) where
  first : ℕ
  later : List ℕ
  desc : CStr
  ports_le : ∀ n ∈ first :: later, 1 ≤ n ∧ n ≤ B.PNUM
  no_semicolon : chr ';' ∉ desc
  no_zero : (0 : Byte) ∉ desc

namespace VlanRecord

variable (r : VlanRecord B)

def ports : List ℕ := r.first :: r.later

def text : CStr := [chr ','].intercalate (r.ports.map printNat) ++ chr ':' :: (r.desc ++ [chr ';'])

/-- The map and the description of the record stand in the entry. -/
structure StandsIn (e : PortBasedV) : Prop where
  pbmap : ∀ p, e.pbmap.getLsbD p = decide (p ∈ r.ports)
  desc : readStr 0 e.desc.1 = some (r.desc.take 31)

/-- Port `PNUM` is listed behind the first place, and it is not port 28. -/
def Recorded : Prop := B.PNUM ∈ r.ports → B.PNUM < 28 ∧ B.PNUM ∈ r.later

/-- What the code puts into the map of the entry. -/
def map : BitVec 32 := portBit B.PNUM r.first ||| laterMap r.later

end VlanRecord

/-- The records as a string. -/
def config (records : List (VlanRecord B)) : CStr := records.flatMap VlanRecord.text

/-! ## The map -/

theorem getLsbD_portBit {n : ℕ} (hn : n ≤ 28) (limit p : ℕ) :
    (portBit limit n).getLsbD p = decide (p = n ∧ n < limit) := by
  rw [portBit]
  split
  next hlt =>
    rw [BitVec.getLsbD_shiftLeft, BitVec.getLsbD_one, Bool.eq_iff_iff]
    simp only [Bool.and_eq_true, Bool.not_eq_true', decide_eq_true_eq, decide_eq_false_iff_not]
    omega
  next hge => simp [hge]

theorem getLsbD_laterMap {ports : List ℕ} (hports : ∀ n ∈ ports, n ≤ 28) (p : ℕ) :
    (laterMap ports).getLsbD p = decide (p ∈ ports ∧ p < 28) := by
  rw [laterMap, getLsbD_foldr_or, Bool.eq_iff_iff, List.any_eq_true, decide_eq_true_iff]
  constructor
  · intro h
    obtain ⟨n, hn, hbit⟩ := h
    rw [getLsbD_portBit (hports n hn), decide_eq_true_iff] at hbit
    rw [hbit.1]
    exact ⟨hn, hbit.2⟩
  · intro h
    refine ⟨p, h.1, ?_⟩
    rw [getLsbD_portBit (hports p h.1), decide_eq_true_iff]
    exact ⟨rfl, h.2⟩

namespace VlanRecord

variable (r : VlanRecord B)

theorem port_le {n : ℕ} (h : n ∈ r.ports) : 1 ≤ n ∧ n ≤ 28 :=
  ⟨(r.ports_le n h).1, (r.ports_le n h).2.trans B.le_phy⟩

theorem getLsbD_map (p : ℕ) :
    r.map.getLsbD p = decide ((p = r.first ∧ p < B.PNUM) ∨ (p ∈ r.later ∧ p < 28)) := by
  have hfirst := (r.port_le (n := r.first) List.mem_cons_self).2
  have hlater : ∀ n ∈ r.later, n ≤ 28 := fun n hn => (r.port_le (List.mem_cons_of_mem _ hn)).2
  rw [map, BitVec.getLsbD_or, getLsbD_portBit hfirst, getLsbD_laterMap hlater, Bool.eq_iff_iff]
  simp only [Bool.or_eq_true, decide_eq_true_eq]
  have hlimit : p = r.first ∧ r.first < B.PNUM ↔ p = r.first ∧ p < B.PNUM := by omega
  rw [hlimit]

/-- The map is the one of the record unless port `PNUM` is lost. -/
theorem map_iff : (∀ p, r.map.getLsbD p = decide (p ∈ r.ports)) ↔ r.Recorded := by
  have hports : ∀ p, p ∈ r.ports ↔ p = r.first ∨ p ∈ r.later := fun p => List.mem_cons
  simp only [getLsbD_map, decide_eq_decide]
  constructor
  · intro h hmem
    cases (h B.PNUM).mpr hmem with
    | inl hfirst => omega
    | inr hlater => exact ⟨hlater.2, hlater.1⟩
  · intro h p
    constructor
    · intro hbit
      cases hbit with
      | inl hfirst => exact (hports p).mpr (Or.inl hfirst.1)
      | inr hlater => exact (hports p).mpr (Or.inr hlater.1)
    · intro hmem
      have hle := (r.ports_le p hmem).2
      have hP := B.le_phy
      by_cases hp : p = B.PNUM
      · subst hp
        exact Or.inr ⟨(h hmem).2, (h hmem).1⟩
      · cases (hports p).mp hmem with
        | inl hfirst => exact Or.inl ⟨hfirst, by omega⟩
        | inr hlater => exact Or.inr ⟨hlater, by omega⟩

end VlanRecord

/-! ## One record -/

section

variable (r : VlanRecord B) (rest : CStr)

theorem text_append_eq :
    r.text ++ rest = printNat r.first ++
      laterText r.later (chr ':' :: (r.desc ++ chr ';' :: rest)) := by
  rw [VlanRecord.text, VlanRecord.ports, List.map_cons, intercalate_cons_eq_flatMap, laterText]
  simp [List.flatMap_map]

theorem not_mem_laterText {c : Byte} (hc : isDigit c = false) (hcomma : c ≠ chr ',')
    (ports : List ℕ) {rest : CStr} (hrest : c ∉ rest) : c ∉ laterText ports rest := by
  rw [laterText, List.mem_append, List.mem_flatMap]
  rintro (⟨n, -, hmem⟩ | hmem)
  · cases List.mem_cons.mp hmem with
    | inl heq => exact hcomma heq
    | inr hmem => exact not_mem_printNat hc n hmem
  · exact hrest hmem

theorem strchr_semicolon :
    strchr (chr ';') (r.text ++ rest) = some (chr ';' :: rest) := by
  have hsplit : r.text ++ rest =
      (printNat r.first ++ laterText r.later (chr ':' :: r.desc)) ++ chr ';' :: rest := by
    rw [text_append_eq]
    simp [laterText]
  rw [hsplit, strchr_append_cons]
  rw [List.mem_append, not_or]
  refine ⟨not_mem_printNat (by decide) _, not_mem_laterText (by decide) (by decide) _ ?_⟩
  rw [List.mem_cons, not_or]
  exact ⟨by decide, r.no_semicolon⟩

theorem strchr_colon :
    strchr (chr ':') (r.text ++ rest) = some (chr ':' :: (r.desc ++ chr ';' :: rest)) := by
  have hsplit : r.text ++ rest = (printNat r.first ++ laterText r.later []) ++
      chr ':' :: (r.desc ++ chr ';' :: rest) := by
    rw [text_append_eq]
    simp [laterText]
  rw [hsplit, strchr_append_cons]
  rw [List.mem_append, not_or]
  exact ⟨not_mem_printNat (by decide) _, not_mem_laterText (by decide) (by decide) _ (by simp)⟩

theorem setPort_first (map : BitVec 32) :
    setPort B.PNUM (r.text ++ rest) map = some (map ||| portBit B.PNUM r.first) := by
  have hfirst := r.port_le (n := r.first) List.mem_cons_self
  rw [text_append_eq]
  refine setPort_printNat hfirst.1 hfirst.2 B.PNUM ?_ map
  cases hlater : r.later with
  | nil => simp [laterText]; decide
  | cons n ports => rw [laterText_cons]; simp; decide

/-- The cursor starts in front of the first comma. -/
theorem laterPortsLoop_text (map : BitVec 32) :
    laterPortsLoop (chr ':' :: (r.desc ++ chr ';' :: rest)) ((r.text ++ rest).length + 1)
      (r.text ++ rest) map = some (map ||| laterMap r.later) := by
  have hx : chr ',' ∉ printNat r.first := not_mem_printNat (by decide) _
  have hports := fun n (hn : n ∈ r.later) => r.port_le (List.mem_cons_of_mem _ hn)
  rw [text_append_eq]
  cases hlater : r.later with
  | nil =>
      have hpiece : printNat r.first ++ laterText [] (chr ':' :: (r.desc ++ chr ';' :: rest)) =
          (printNat r.first ++ [chr ':']) ++ (r.desc ++ chr ';' :: rest) := by
        simp [laterText]
      rw [hpiece, laterPortsLoop_behind _ (by simp [hx]; decide) le_rfl (by omega)]
      simp [laterMap]
  | cons q ports =>
      rw [hlater] at hports
      exact laterPortsLoop_ports _ hports hx (Nat.lt_succ_self _) map

end

/-- The description is copied over zeros, and its terminator stands there already. -/
theorem copy_desc {s : CStr} (hs : (0 : Byte) ∉ s) :
    ∃ desc desc', (Block.zeroed 32).copy 0 (s.take 31) = some desc ∧
      desc.copy 31 [0] = some desc' ∧ readStr 0 desc'.1 = some (s.take 31) := by
  have hlen : (s.take 31).length ≤ 31 := List.length_take_le _ _
  have hzero : (0 : Byte) ∉ s.take 31 := fun h => hs (List.mem_of_mem_take h)
  obtain ⟨desc, hcopy, hdesc⟩ :=
    @Block.copy_of_le 32 0 (s.take 31) (Block.zeroed 32) (by omega)
  obtain ⟨desc', hcopy', hdesc'⟩ := @Block.copy_of_le 32 31 [0] desc (by simp)
  have hend : (splice 0 (s.take 31) (Block.zeroed 32).1)[31]? = some 0 := by
    rw [splice, List.take_zero, List.nil_append, List.getElem?_append_right hlen,
      List.getElem?_drop, Block.zeroed, List.getElem?_replicate, if_pos (by omega)]
  refine ⟨desc, desc', hcopy, hcopy', ?_⟩
  rw [hdesc', hdesc, splice_same hend]
  exact Block.readStr_splice_zeroed hzero (by omega)

/-- One round of the outer loop reads one record into a zeroed entry. -/
theorem portBasedVlanLoop_record (r : VlanRecord B) (rest voiceConfig : CStr) (fuel : ℕ)
    (entries : List PortBasedV) :
    ∃ e, e.pbmap = r.map ∧ readStr 0 e.desc.1 = some (r.desc.take 31) ∧
      portBasedVlanLoop B voiceConfig (fuel + 1) (r.text ++ rest) (.zeroed :: entries) =
        (portBasedVlanLoop B voiceConfig fuel rest entries).map
          fun out => (out.1, e :: out.2) := by
  obtain ⟨desc, desc', hcopy, hcopy', hread⟩ := copy_desc r.no_zero
  refine ⟨⟨r.map, desc'⟩, rfl, hread, ?_⟩
  have horder : ¬ (chr ':' :: (r.desc ++ chr ';' :: rest)).length < (chr ';' :: rest).length := by
    simp only [List.length_append, List.length_cons]
    omega
  have hset := setPort_first r rest 0
  have hports := laterPortsLoop_text r rest (0 ||| portBit B.PNUM r.first)
  have hmap : 0 ||| portBit B.PNUM r.first ||| laterMap r.later = r.map := by
    simp [VlanRecord.map]
  simp only [portBasedVlanLoop, strchr_semicolon, strchr_colon, if_neg horder, List.head?_cons,
    List.tail_cons, PortBasedV.zeroed, Option.bind_eq_bind, Option.bind_some, hset, hports, hmap,
    between_append, hcopy, hcopy']
  cases portBasedVlanLoop B voiceConfig fuel rest entries <;> rfl

/-- The outer loop reads the records into the entries, in their order. -/
theorem portBasedVlanLoop_config (records : List (VlanRecord B)) (voiceConfig : CStr) {fuel : ℕ}
    (hfuel : (config records).length < fuel) (extra : ℕ) :
    ∃ entries, portBasedVlanLoop B voiceConfig fuel (config records)
        (List.replicate (records.length + extra) .zeroed) =
          some (if voiceConfig.length = 0 then -1 else 0,
            entries ++ List.replicate extra .zeroed) ∧
      List.Forall₂ (fun r e => e.pbmap = r.map ∧ readStr 0 e.desc.1 = some (r.desc.take 31))
        records entries := by
  induction records generalizing fuel with
  | nil =>
      obtain ⟨fuel, rfl⟩ := Nat.exists_eq_add_of_lt hfuel
      refine ⟨[], ?_, .nil⟩
      simp [config, portBasedVlanLoop, eq_comm]
  | cons r records ih =>
      have hconfig : config (r :: records) = r.text ++ config records := rfl
      have hpos : 0 < r.text.length := by
        rw [VlanRecord.text, List.length_append, List.length_cons]
        omega
      rw [hconfig] at hfuel ⊢
      obtain ⟨fuel, rfl⟩ := Nat.exists_eq_add_of_lt hfuel
      have hrest : (config records).length < (r.text ++ config records).length + fuel := by
        rw [List.length_append]
        omega
      obtain ⟨entries, hloop, hread⟩ := ih hrest
      obtain ⟨e, hmap, hdesc, hround⟩ := portBasedVlanLoop_record r (config records) voiceConfig
        ((r.text ++ config records).length + fuel)
        (List.replicate (records.length + extra) .zeroed)
      refine ⟨e :: entries, ?_, .cons ⟨hmap, hdesc⟩ hread⟩
      have harray : (r :: records).length + extra = records.length + extra + 1 := by
        rw [List.length_cons]
        omega
      rw [harray, List.replicate_succ, hround, hloop]
      rfl

/-! ## All records -/

/-- The call returns 0 and reads each record into the entry at its place, from an array of zeros
with at least one entry for each record. -/
def ReadsAll (records : List (VlanRecord B)) (extra : ℕ) : Prop :=
  ∃ entries, bcmPortBasedVlanGet B (config records)
      (List.replicate (records.length + extra) .zeroed) = some (0, entries) ∧
    ∀ (j : ℕ) (r : VlanRecord B), records[j]? = some r →
      ∃ e, entries[j]? = some e ∧ r.StandsIn e

theorem config_eq_nil_iff {records : List (VlanRecord B)} :
    (config records).length = 0 ↔ records = [] := by
  cases records with
  | nil => simp [config]
  | cons r records => simp [config, VlanRecord.text]

/-- The records are read exactly if there is one, and none of them has port `PNUM` in the first
place only, or at all if it is port 28. -/
theorem bcmPortBasedVlanGet_iff (records : List (VlanRecord B)) (extra : ℕ) :
    ReadsAll records extra ↔ records ≠ [] ∧ ∀ r ∈ records, r.Recorded := by
  obtain ⟨entries, hget, hread⟩ :=
    portBasedVlanLoop_config records (config records) (Nat.lt_succ_self _) extra
  rw [List.forall₂_iff_get] at hread
  obtain ⟨hlength, hread⟩ := hread
  have hentry : ∀ (j : ℕ) (r : VlanRecord B), records[j]? = some r → ∃ e : PortBasedV,
      (entries ++ List.replicate extra .zeroed)[j]? = some e ∧ e.pbmap = r.map ∧
        readStr 0 e.desc.1 = some (r.desc.take 31) := by
    intro j r hr
    obtain ⟨hj, rfl⟩ := List.getElem?_eq_some_iff.mp hr
    have hj' : j < entries.length := by omega
    refine ⟨entries[j], ?_, hread j hj hj'⟩
    rw [List.getElem?_append_left hj', List.getElem?_eq_getElem hj']
  simp only [config_eq_nil_iff] at hget
  constructor
  · rintro ⟨entries', hget', hstands⟩
    have hout := Option.some.inj (hget.symm.trans hget')
    rw [Prod.mk.injEq] at hout
    obtain ⟨hret, rfl⟩ := hout
    refine ⟨fun hnil => by simp [hnil] at hret, fun r hr => ?_⟩
    obtain ⟨j, hj⟩ := List.getElem?_of_mem hr
    obtain ⟨e, he, hmap, -⟩ := hentry j r hj
    obtain ⟨e', he', hstandsIn⟩ := hstands j r hj
    obtain rfl := Option.some.inj (he.symm.trans he')
    rw [← r.map_iff, ← hmap]
    exact hstandsIn.pbmap
  · rintro ⟨hne, hrecorded⟩
    rw [if_neg hne] at hget
    refine ⟨_, hget, fun j r hr => ?_⟩
    obtain ⟨e, he, hmap, hdesc⟩ := hentry j r hr
    refine ⟨e, he, ⟨?_, hdesc⟩⟩
    rw [hmap]
    exact r.map_iff.mpr (hrecorded r (List.mem_of_getElem? hr))

/-- With ten ports, `10:;` is read without an error, but the entry has no port. -/
theorem bcmPortBasedVlanGet_last_port_lost :
    ∃ (B : Build) (r : VlanRecord B), B.PNUM = 10 ∧ config [r] = text "10:;" ∧ r.ports = [10] ∧
      (bcmPortBasedVlanGet B (config [r]) [.zeroed]).map
        (fun out => (out.1, out.2.map PortBasedV.pbmap)) = some (0, [0]) := by
  refine ⟨⟨10, 0, 0, ?_, ?_⟩, ⟨10, [], [], ?_, ?_, ?_⟩, ?_⟩
  all_goals decide

end BcmUtils.PortVlans
