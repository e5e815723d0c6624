import BcmUtils.Verification.LineInfo.RoundTrip

/-! # Reading any stored line settings

`get_aaa_line_info` looks for `con@` and `vty@`, and trusts the text behind them to hold every
token of the lines. -/

namespace BcmUtils.LineInfo

open CLib

/-! ## One token -/

theorem eq_some_of_strsep {c : Byte} {p r : Option CStr} {tok : CStr}
    (h : strsep c p = some (tok, r)) : ∃ s, p = some s ∧ Cut c s tok r := by
  cases p with
  | none => exact absurd h (by simp [strsep])
  | some s => exact ⟨s, rfl, strsep_eq_some_iff.mp h⟩

theorem of_readNumber {c : Byte} {p r : Option CStr} {v : BitVec 32}
    (h : readNumber c p = some (v, r)) :
    ∃ s tok, p = some s ∧ Cut c s tok r ∧ v = BitVec.ofInt 32 (atoi tok) := by
  simp only [readNumber, Option.bind_eq_bind, Option.bind_eq_some_iff, Option.pure_def,
    Option.some.injEq, Prod.mk.injEq] at h
  obtain ⟨⟨tok, r'⟩, hsep, rfl, rfl⟩ := h
  obtain ⟨s, rfl, hcut⟩ := eq_some_of_strsep hsep
  exact ⟨s, tok, rfl, hcut, rfl⟩

/-- A token that another token follows. -/
theorem of_copyName {p : Option CStr} {t name : CStr} (h : copyName p = some (name, some t)) :
    p = some (nameText name ++ t) ∧ name.length ≤ 63 ∧ chr ',' ∉ name := by
  simp only [copyName, Option.bind_eq_bind, Option.bind_eq_some_iff, Option.pure_def,
    Option.some.injEq, Prod.mk.injEq] at h
  obtain ⟨⟨tok, r⟩, hsep, name', hstore, rfl, rfl⟩ := h
  obtain ⟨s, rfl, hfree, rfl⟩ := eq_some_of_strsep hsep
  rw [store] at hstore
  split at hstore
  · rename_i hlen
    obtain rfl := Option.some.inj hstore
    exact ⟨by simp [nameText], Nat.le_of_lt_succ hlen, hfree⟩
  · exact absurd hstore (by simp)

/-- The names of an array, each followed by another token. -/
theorem of_readArray_copyName {n : ℕ} {p : Option CStr} {t : CStr}
    {ns : { ns : List CStr // ns.length = n }} (h : readArray copyName n p = some (ns, some t)) :
    p = some (ns.1.flatMap nameText ++ t) ∧ ∀ name ∈ ns.1, name.length ≤ 63 ∧ chr ',' ∉ name := by
  induction n generalizing p with
  | zero =>
      simp only [readArray, Option.some.injEq, Prod.mk.injEq] at h
      obtain ⟨rfl, rfl⟩ := h
      simp
  | succ n ih =>
      simp only [readArray, Option.bind_eq_bind, Option.bind_eq_some_iff, Option.pure_def,
        Option.some.injEq, Prod.mk.injEq] at h
      obtain ⟨⟨name, q⟩, hname, ⟨rest, r⟩, hrest, rfl, rfl⟩ := h
      obtain ⟨rfl, hnames⟩ := ih hrest
      obtain ⟨rfl, hplain⟩ := of_copyName hname
      refine ⟨by simp, fun x hx => ?_⟩
      rcases List.mem_cons.mp hx with rfl | hx
      · exact hplain
      · exact hnames x hx

/-! ## One line -/

/-- The string `s` holds all tokens of the line `l`, and `r` is what follows the last one, if it
is closed. -/
structure LineOf (l : AaaLineEntry) (s : CStr) (r : Option CStr) : Prop where
  plain : Plain l
  tokens : ∃ id absolute execute last : CStr,
    s = id ++ chr '|' :: ((names l).flatMap nameText ++ (absolute ++ chr ',' :: last)) ∧
    chr '|' ∉ id ∧ chr ',' ∉ absolute ∧ Cut (chr ';') last execute r ∧
    l.id = BitVec.ofInt 32 (atoi id) ∧
    l.param = ⟨BitVec.ofInt 32 (atoi absolute), BitVec.ofInt 32 (atoi execute)⟩

theorem flatMap_names (l : AaaLineEntry) :
    (names l).flatMap nameText = nameText l.login ++ (nameText l.author.exec ++
      (l.author.command.1.flatMap nameText ++ (nameText l.acct.exec ++ (nameText l.acct.connect ++
        l.acct.command.1.flatMap nameText)))) := by
  simp [names]

theorem readNumber_of_cut {c : Byte} {s tok : CStr} {r : Option CStr} (h : Cut c s tok r) :
    readNumber c (some s) = some (BitVec.ofInt 32 (atoi tok), r) := by
  rw [readNumber, bind_of_eq (strsep_eq_some_iff.mpr h)]
  rfl

theorem readLine_of_lineOf {l : AaaLineEntry} {s : CStr} {r : Option CStr} (h : LineOf l s r) :
    readLine (some s) = some (l, r) := by
  obtain ⟨hplain, id, absolute, execute, last, rfl, hid, habsolute, hlast, hidEq, hparam⟩ := h
  have hname : ∀ name ∈ names l, ∀ s, copyName (some (nameText name ++ s)) = some (name, some s) :=
    fun name hn => copyName_append (hplain name hn)
  have hcommand := readArray_flatMap l.author.command fun name hn => hname name (by
    simp [names, hn])
  have hcommand' := readArray_flatMap l.acct.command fun name hn => hname name (by
    simp [names, hn])
  have hfirst : ∀ t, readNumber (chr '|') (some (id ++ chr '|' :: t)) =
      some (BitVec.ofInt 32 (atoi id), some t) := fun t => readNumber_of_cut ⟨hid, rfl⟩
  have hthird : ∀ t, readNumber (chr ',') (some (absolute ++ chr ',' :: t)) =
      some (BitVec.ofInt 32 (atoi absolute), some t) := fun t => readNumber_of_cut ⟨habsolute, rfl⟩
  rw [flatMap_names]
  simp only [List.append_assoc, readLine, hfirst, hname l.login (by simp [names]),
    hname l.author.exec (by simp [names]), hcommand, hname l.acct.exec (by simp [names]),
    hname l.acct.connect (by simp [names]), hcommand', hthird, readNumber_of_cut hlast,
    Option.bind_eq_bind, Option.bind_some]
  rw [← hidEq, ← hparam]
  rfl

/-- A line is read only from a string that holds all of its tokens. -/
theorem lineOf_of_readLine {p r : Option CStr} {l : AaaLineEntry} (h : readLine p = some (l, r)) :
    ∃ s, p = some s ∧ LineOf l s r := by
  simp only [readLine, Option.bind_eq_bind, Option.bind_eq_some_iff, Option.pure_def,
    Option.some.injEq, Prod.mk.injEq] at h
  obtain ⟨⟨id, p₁⟩, hid, ⟨login, p₂⟩, hlogin, ⟨authorExec, p₃⟩, hauthorExec, ⟨authorCommand, p₄⟩,
    hauthorCommand, ⟨acctExec, p₅⟩, hacctExec, ⟨acctConnect, p₆⟩, hacctConnect,
    ⟨acctCommand, p₇⟩, hacctCommand, ⟨absolute, p₈⟩, habsolute, ⟨execute, p₉⟩, hexecute, rfl,
    rfl⟩ := h
  -- from the last token to the first, each pointer that is used is no null pointer
  obtain ⟨last, executeTok, rfl, hlast, rfl⟩ := of_readNumber hexecute
  obtain ⟨s₇, absoluteTok, rfl, ⟨habsoluteTok, rfl⟩, rfl⟩ := of_readNumber habsolute
  obtain ⟨rfl, hacctCommands⟩ := of_readArray_copyName hacctCommand
  obtain ⟨rfl, hconnect⟩ := of_copyName hacctConnect
  obtain ⟨rfl, hacct⟩ := of_copyName hacctExec
  obtain ⟨rfl, hauthorCommands⟩ := of_readArray_copyName hauthorCommand
  obtain ⟨rfl, hauthor⟩ := of_copyName hauthorExec
  obtain ⟨rfl, hloginPlain⟩ := of_copyName hlogin
  obtain ⟨s, idTok, rfl, ⟨hidTok, rfl⟩, rfl⟩ := of_readNumber hid
  refine ⟨_, rfl, ?_, idTok, absoluteTok, executeTok, last, ?_, hidTok, habsoluteTok, hlast, rfl,
    rfl⟩
  · intro name hn
    simp only [names, List.mem_cons, List.mem_append] at hn
    rcases hn with rfl | rfl | hn | rfl | rfl | hn
    · exact hloginPlain
    · exact hauthor
    · exact hauthorCommands name hn
    · exact hacct
    · exact hconnect
    · exact hacctCommands name hn
  · rw [flatMap_names]
    simp

/-! ## All lines -/

/-- The lines one behind the other, from a pointer to what follows them. -/
def LinesOf : List AaaLineEntry → Option CStr → Option CStr → Prop
  | [], p, r => p = r
  | l :: ls, p, r => ∃ s q, p = some s ∧ LineOf l s q ∧ LinesOf ls q r

theorem readArray_readLine_iff {n : ℕ} {ls : { ls : List AaaLineEntry // ls.length = n }}
    {p r : Option CStr} : readArray readLine n p = some (ls, r) ↔ LinesOf ls.1 p r := by
  obtain ⟨ls, rfl⟩ := ls
  induction ls generalizing p with
  | nil => simp [readArray, LinesOf]
  | cons l ls ih =>
      simp only [List.length_cons, readArray, Option.bind_eq_bind, Option.bind_eq_some_iff,
        Option.pure_def, Option.some.injEq, Prod.mk.injEq, Subtype.mk.injEq, List.cons.injEq]
      constructor
      · rintro ⟨⟨l', q⟩, hl, ⟨ls', r'⟩, hls, ⟨rfl, hval⟩, rfl⟩
        obtain ⟨s, rfl, hline⟩ := lineOf_of_readLine hl
        obtain rfl : ls' = ⟨ls, rfl⟩ := Subtype.ext hval
        exact ⟨s, q, rfl, hline, ih.mp hls⟩
      · rintro ⟨s, q, rfl, hline, hrest⟩
        exact ⟨(l, q), readLine_of_lineOf hline, (⟨ls, rfl⟩, r), ih.mpr hrest, ⟨rfl, rfl⟩, rfl⟩

/-- Where the string names the console, all tokens of its line follow; and where the text behind
this line names the vty lines, all tokens of the sixteen lines follow. -/
def Complete (s : CStr) : Prop :=
  ∀ t, strstr (text "con@") s = some (text "con@" ++ t) →
    ∃ l rest, LineOf l t (some rest) ∧
      ∀ u, strstr (text "vty@") rest = some (text "vty@" ++ u) →
        ∃ ls r, ls.length = MAX_VTY ∧ LinesOf ls (some u) r

/-- A struct whose fields are all read from the string, or the default for an empty string. -/
def ReadFrom (s : CStr) (info : AaaLineInfo) : Prop :=
  s = [] ∧ info = defaultLineInfo ∨
    ∃ t rest u r, strstr (text "con@") s = some (text "con@" ++ t) ∧
      LineOf info.console t (some rest) ∧
      strstr (text "vty@") rest = some (text "vty@" ++ u) ∧ LinesOf info.vty.1 (some u) r

/-- The get uses no null token and no token of 64 bytes, and returns a null pointer or a struct
that is read in full. -/
def WellRead (nv : Nvram) : Prop :=
  ∀ allocated, ∃ r, getAaaLineInfo allocated nv = some r ∧
    ∀ info, r = some info → ReadFrom (nv (text "aaa_line_info")) info

theorem strsep_con (t : CStr) :
    strsep (chr '@') (some (text "con@" ++ t)) = some (text "con", some t) :=
  @strsep_append_cons (chr '@') (text "con") (by decide) t

theorem strsep_vty (t : CStr) :
    strsep (chr '@') (some (text "vty@" ++ t)) = some (text "vty", some t) :=
  @strsep_append_cons (chr '@') (text "vty") (by decide) t

theorem wellRead_of_complete {nv : Nvram} (h : Complete (nv (text "aaa_line_info"))) :
    WellRead nv := by
  intro allocated
  unfold getAaaLineInfo
  cases allocated with
  | false => exact ⟨none, rfl, by simp⟩
  | true =>
      rw [if_pos rfl]
      generalize nv (text "aaa_line_info") = s at h ⊢
      cases s with
      | nil => exact ⟨some defaultLineInfo, rfl, by simp [ReadFrom]⟩
      | cons b s =>
          simp only
          cases hcon : strstr (text "con@") (b :: s) with
          | none => exact ⟨none, rfl, by simp⟩
          | some console =>
              obtain ⟨t, rfl⟩ := strstr_eq_some hcon
              obtain ⟨l, rest, hline, hvty⟩ := h t hcon
              simp only [strsep_con, readLine_of_lineOf hline, Option.bind_eq_bind,
                Option.bind_some]
              cases hsearch : strstr (text "vty@") rest with
              | none => exact ⟨none, rfl, by simp⟩
              | some vty =>
                  obtain ⟨u, rfl⟩ := strstr_eq_some hsearch
                  obtain ⟨ls, r, hlen, hlines⟩ := hvty u hsearch
                  have hread := (@readArray_readLine_iff MAX_VTY ⟨ls, hlen⟩ (some u) r).mpr hlines
                  simp only [strsep_vty, hread, Option.bind_some]
                  refine ⟨_, rfl, ?_⟩
                  rintro info ⟨rfl⟩
                  exact Or.inr ⟨t, rest, u, r, hcon, hline, hsearch, hlines⟩

theorem complete_of_wellRead {nv : Nvram} (h : WellRead nv) :
    Complete (nv (text "aaa_line_info")) := by
  obtain ⟨r, hget, -⟩ := h true
  intro t hcon
  unfold getAaaLineInfo at hget
  rw [if_pos rfl] at hget
  generalize nv (text "aaa_line_info") = s at hcon hget
  cases s with
  | nil =>
      have hnone : strstr (text "con@") [] = none := by decide
      rw [hnone] at hcon
      exact absurd hcon (by simp)
  | cons b s =>
      simp only [hcon, strsep_con, Option.bind_eq_bind, Option.bind_some,
        Option.bind_eq_some_iff] at hget
      obtain ⟨⟨l, p⟩, hline, rest, rfl, hget⟩ := hget
      obtain ⟨t', heq, hlineOf⟩ := lineOf_of_readLine hline
      obtain rfl := Option.some.inj heq
      refine ⟨l, rest, hlineOf, fun u hvty => ?_⟩
      simp only [hvty, strsep_vty, Option.bind_some, Option.bind_eq_some_iff] at hget
      obtain ⟨⟨ls, q⟩, hlines, -⟩ := hget
      exact ⟨ls.1, q, ls.2, readArray_readLine_iff.mp hlines⟩

/-- Every stored string is read safely exactly if the marks in it are followed by complete
lines. -/
theorem aaa_line_info_well_read_iff (nv : Nvram) :
    WellRead nv ↔ Complete (nv (text "aaa_line_info")) :=
  ⟨complete_of_wellRead, wellRead_of_complete⟩

/-- A string that ends behind the id of the console. -/
theorem aaa_line_info_truncated :
    ¬ WellRead (Function.update (fun _ => []) (text "aaa_line_info") (text "con@0")) := by
  intro h
  obtain ⟨r, hget, -⟩ := h true
  have hnone : getAaaLineInfo true
      (Function.update (fun _ => []) (text "aaa_line_info") (text "con@0")) = none := by
    decide +kernel
  rw [hnone] at hget
  exact absurd hget (by simp)

end BcmUtils.LineInfo
