import BcmUtils.Model.LineInfo

/-! # Round trip of the line settings -/

namespace BcmUtils.LineInfo

open CLib

/-- The names of a line in the order in which they are stored. -/
def names (l : AaaLineEntry) : List CStr :=
  l.login :: l.author.exec ::
    (l.author.command.1 ++ l.acct.exec :: l.acct.connect :: l.acct.command.1)

/-- Every name leaves room for its terminator and holds no comma. -/
def Plain (l : AaaLineEntry) : Prop := ∀ name ∈ names l, name.length ≤ 63 ∧ chr ',' ∉ name

instance (l : AaaLineEntry) : Decidable (Plain l) := inferInstanceAs (Decidable (∀ _ ∈ names l, _))

/-- The text of all lines, without the limits of the array it is built in. -/
def lineInfoText (info : AaaLineInfo) : CStr :=
  text "con@" ++ (lineText info.console ++ (text "vty@" ++ info.vty.1.flatMap lineText))

/-! ## One line -/

theorem copyName_append {name : CStr} (h : name.length ≤ 63 ∧ chr ',' ∉ name) (t : CStr) :
    copyName (some (nameText name ++ t)) = some (name, some t) := by
  have hstore : store MAX_ARGV_LEN name = some name := store_of_lt (by
    rw [MAX_ARGV_LEN]
    omega)
  rw [nameText, List.append_assoc, List.singleton_append]
  simp only [copyName, strsep_append_cons h.2, hstore, Option.bind_eq_bind, Option.bind_some]
  rfl

theorem readNumber_append {c : Byte} (hc : isDigit c = false) (hm : c ≠ chr '-') (v : BitVec 32)
    (t : CStr) : readNumber c (some (printInt v.toInt ++ c :: t)) = some (v, some t) := by
  have hatoi := atoi_printInt (isInt_toInt v)
  simp only [readNumber, strsep_append_cons (not_mem_printInt hc hm _), Option.bind_eq_bind,
    Option.bind_some, hatoi, BitVec.ofInt_toInt]
  rfl

/-- A line is read back as it was written, whatever follows it. -/
theorem readLine_append {l : AaaLineEntry} (h : Plain l) (t : CStr) :
    readLine (some (lineText l ++ t)) = some (l, some t) := by
  have hname : ∀ name ∈ names l, ∀ s, copyName (some (nameText name ++ s)) = some (name, some s) :=
    fun name hn => copyName_append (h name hn)
  have hcommand := readArray_flatMap l.author.command fun name hn => hname name (by
    simp [names, hn])
  have hcommand' := readArray_flatMap l.acct.command fun name hn => hname name (by
    simp [names, hn])
  simp only [lineText, List.append_assoc, List.cons_append, List.nil_append, readLine,
    readNumber_append (c := chr '|') (by decide) (by decide),
    readNumber_append (c := chr ',') (by decide) (by decide),
    readNumber_append (c := chr ';') (by decide) (by decide),
    hname l.login (by simp [names]), hname l.author.exec (by simp [names]), hcommand,
    hname l.acct.exec (by simp [names]), hname l.acct.connect (by simp [names]), hcommand',
    Option.bind_eq_bind, Option.bind_some]
  rfl

theorem length_flatMap_nameText_le {ns : List CStr} (h : ∀ name ∈ ns, name.length ≤ 63) :
    (ns.flatMap nameText).length ≤ 64 * ns.length := by
  apply length_flatMap_le
  intro name hname
  have hlen := h name hname
  rw [nameText, List.length_append, List.length_singleton]
  omega

/-- One line alone stays far below the size of the array. -/
theorem length_lineText_le {l : AaaLineEntry} (h : Plain l) : (lineText l).length ≤ 2212 := by
  have hlen : ∀ name ∈ names l, name.length ≤ 63 := fun name hn => (h name hn).1
  have h₁ := length_flatMap_nameText_le hlen
  have h₂ := length_printInt_le (isInt_toInt l.id)
  have h₃ := length_printInt_le (isInt_toInt l.param.absoluteTimeout)
  have h₄ := length_printInt_le (isInt_toInt l.param.executeTimeout)
  simp only [names, List.flatMap_cons, List.flatMap_append, List.length_append, List.length_cons,
    l.author.command.2, l.acct.command.2] at h₁
  simp only [lineText, List.length_append, List.length_cons, List.length_nil]
  omega

/-! ## All lines -/

theorem foldl_snprintf (ls : List AaaLineEntry) (s : CStr) :
    ls.foldl (fun buf l => snprintf 4096 (buf ++ lineText l)) (snprintf 4096 s) =
      snprintf 4096 (s ++ ls.flatMap lineText) := by
  induction ls generalizing s with
  | nil => simp
  | cons l ls ih =>
      rw [List.foldl_cons, snprintf_snprintf_append, ih, List.flatMap_cons, List.append_assoc]

/-- The set looks at what the array holds of the whole text. -/
theorem setAaaLineInfo_eq {info : AaaLineInfo} (h : Plain info.console) (nv : Nvram) :
    setAaaLineInfo info nv =
      if 3072 < (lineInfoText info).length then some (-1, nv)
      else some (0, Function.update nv (text "aaa_line_info") (lineInfoText info)) := by
  have hlen := length_lineText_le h
  have hcon : (text "con@").length = 4 := by decide
  have hvty : (text "vty@").length = 4 := by decide
  have hfirst : (text "con@" ++ lineText info.console).length < 4096 := by
    rw [List.length_append]
    omega
  have hcat : strcat 4096 (snprintf 4096 (text "con@" ++ lineText info.console)) (text "vty@") =
      some (snprintf 4096 (text "con@" ++ lineText info.console ++ text "vty@")) := by
    have hboth : (text "con@" ++ lineText info.console ++ text "vty@").length < 4096 := by
      simp only [List.length_append]
      omega
    rw [snprintf_of_lt hfirst, snprintf_of_lt hboth, strcat_of_lt hboth]
  have hall : text "con@" ++ lineText info.console ++ text "vty@" ++ info.vty.1.flatMap lineText =
      lineInfoText info := by
    simp [lineInfoText]
  rw [setAaaLineInfo, bind_of_eq hcat]
  simp only [foldl_snprintf, hall, gt_iff_lt,
    lt_length_snprintf (by decide : 3072 + 1 < 4096) (lineInfoText info)]
  by_cases hlong : 3072 < (lineInfoText info).length
  · rw [if_pos hlong, if_pos hlong]
  · rw [if_neg hlong, if_neg hlong, snprintf_of_lt (by omega)]

/-- The whole text is read back as the struct it was made from. -/
theorem getAaaLineInfo_lineInfoText {info : AaaLineInfo} (hconsole : Plain info.console)
    (hvty : ∀ l ∈ info.vty.1, Plain l) {nv : Nvram}
    (hnv : nv (text "aaa_line_info") = lineInfoText info) (allocated : Bool) :
    getAaaLineInfo allocated nv = some (if allocated then some info else none) := by
  cases allocated with
  | false => rfl
  | true =>
      have hcon : ∀ t, strsep (chr '@') (some (text "con@" ++ t)) = some (text "con", some t) :=
        @strsep_append_cons (chr '@') (text "con") (by decide)
      have hat : ∀ t, strsep (chr '@') (some (text "vty@" ++ t)) = some (text "vty", some t) :=
        @strsep_append_cons (chr '@') (text "vty") (by decide)
      have hlines := readArray_flatMap info.vty (fun l hl => readLine_append (hvty l hl)) []
      rw [List.append_nil] at hlines
      obtain ⟨b, s, hs⟩ : ∃ b s, lineInfoText info = b :: s :=
        List.exists_cons_of_ne_nil (by simp [lineInfoText, text])
      have hsearch : strstr (text "con@") (b :: s) = some (lineInfoText info) := by
        rw [← hs]
        exact strstr_append _ _
      unfold getAaaLineInfo
      rw [if_pos rfl, if_pos rfl, hnv, hs]
      simp only [hsearch, lineInfoText, hcon, readLine_append hconsole, strstr_append, hat, hlines,
        Option.bind_eq_bind, Option.bind_some]
      rfl

/-- If the set returns 0, the get returns the same struct unless it gets no memory. The set
returns -1 exactly for a text of more than 3072 characters, and then stores nothing. -/
theorem aaa_line_info_round_trip (info : AaaLineInfo) (hconsole : Plain info.console)
    (hvty : ∀ l ∈ info.vty.1, Plain l) (nv : Nvram) :
    ∃ ret nv', setAaaLineInfo info nv = some (ret, nv') ∧ (ret = 0 ∨ ret = -1) ∧
      (ret = 0 → ∀ allocated,
        getAaaLineInfo allocated nv' = some (if allocated then some info else none)) ∧
      (ret = -1 → nv' = nv) ∧ (ret = -1 ↔ 3072 < (lineInfoText info).length) := by
  rw [setAaaLineInfo_eq hconsole]
  by_cases hlong : 3072 < (lineInfoText info).length
  · refine ⟨-1, nv, if_pos hlong, Or.inr rfl, ?_, fun _ => rfl, iff_of_true rfl hlong⟩
    intro h
    exact absurd h (by decide)
  · refine ⟨0, _, if_neg hlong, Or.inl rfl, fun _ => ?_, ?_, iff_of_false (by decide) hlong⟩
    · exact getAaaLineInfo_lineInfoText hconsole hvty (Function.update_self _ _ _)
    · intro h
      exact absurd h (by decide)

/-- A line with one name that holds other separators, and a negative timeout. -/
theorem aaa_line_info_round_trip_tacacs :
    let line := fun id : ℕ =>
      { defaultLine id with login := text "vty@;|con@", param := ⟨-1, 300⟩ }
    let info : AaaLineInfo := ⟨line 0, ⟨(List.range MAX_VTY).map line, by simp⟩⟩
    ∃ ret nv', setAaaLineInfo info (fun _ => []) = some (ret, nv') ∧ (ret = 0 ∨ ret = -1) ∧
      (ret = 0 → ∀ allocated,
        getAaaLineInfo allocated nv' = some (if allocated then some info else none)) ∧
      (ret = -1 → nv' = fun _ => []) ∧ (ret = -1 ↔ 3072 < (lineInfoText info).length) := by
  intro line info
  have hline : ∀ id, Plain (line id) := by
    intro id name hname
    have hmem : name = text "vty@;|con@" ∨ name = [] := by
      simpa [names, line, defaultLine, zeroLine] using hname
    rcases hmem with rfl | rfl <;> decide
  refine aaa_line_info_round_trip info (hline 0) ?_ (fun _ => [])
  intro l hl
  obtain ⟨id, -, rfl⟩ := List.mem_map.mp hl
  exact hline id

end BcmUtils.LineInfo
