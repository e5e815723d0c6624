import BcmUtils.Foundation.Rows
import BcmUtils.Foundation.Words
import BcmUtils.Model.CliPorts
import BcmUtils.Model.Nvram
import BcmUtils.Verification.PortList.RoundTrip

/-! # The items of a typed port list

An item is a port number or a range of ports with the letter of its type in front. Both copies
of the type dispatch of `cli_str2bitmap` give the map of an item, but only the last item may
start with `p`. -/

namespace BcmUtils.CliPorts

open CLib PortList

/-! ## Numbers and ranges -/

/-- A port number or an ascending range of the ports `1..n`. -/
structure PortNumbers (n : ℕ) where
  lo : ℕ
  hi : ℕ
  pos : 1 ≤ lo
  le : lo ≤ hi
  le_max : hi ≤ n

namespace PortNumbers

variable {n : ℕ} (r : PortNumbers n)

def bounds : ℕ × ℕ := (r.lo, r.hi)

def text : CStr := renderRun r.bounds

/-- The map with the bits `lo..hi`. -/
def map : PortMap := BitVec.ofNat 64 (2 ^ (r.hi + 1) - 2 ^ r.lo)

theorem getLsbD_map {k : ℕ} (hk : k < 64) : r.map.getLsbD k = decide (InRange r.bounds k) := by
  have hpow : 2 ^ (r.hi + 1) - 2 ^ r.lo = 2 ^ r.lo * (2 ^ (r.hi + 1 - r.lo) - 1) := by
    have hle := r.le
    rw [Nat.mul_sub, ← Nat.pow_add, Nat.mul_one]
    congr 2
    omega
  rw [map, BitVec.getLsbD_ofNat, hpow, Nat.testBit_two_pow_mul, Nat.testBit_two_pow_sub_one,
    Bool.eq_iff_iff]
  simp only [Bool.and_eq_true, decide_eq_true_eq]
  simp only [InRange, bounds]
  omega

theorem text_ne_nil : r.text ≠ [] := by
  rw [text, renderRun]
  split
  · exact printNat_ne_nil _
  · simp

/-- A text of numbers starts with a digit. -/
theorem exists_text_cons : ∃ b s, r.text = b :: s ∧ isDigit b = true := by
  obtain ⟨b, s, hs⟩ := List.exists_cons_of_ne_nil (printNat_ne_nil r.lo)
  have hb : isDigit b = true := isDigit_of_mem_printNat (n := r.lo) (by simp [hs])
  rw [text, renderRun, bounds]
  split
  · exact ⟨b, s, hs, hb⟩
  · exact ⟨b, s ++ chr '-' :: printNat r.hi, by rw [hs]; rfl, hb⟩

theorem not_mem_text {c : Byte} (hc : isDigit c = false) (hm : c ≠ chr '-') : c ∉ r.text :=
  not_mem_renderRun hc hm _

theorem letter_not_mem_text {c : Byte} (hc : c ∈ portLetters) : c ∉ r.text := by
  have hletters : portLetters = [102, 103, 112, 116, 70, 71, 80, 84] := by decide
  simp only [hletters, List.mem_cons, List.not_mem_nil, or_false] at hc
  rcases hc with rfl | rfl | rfl | rfl | rfl | rfl | rfl | rfl <;>
    exact r.not_mem_text (by decide) (by decide)

variable (hn : n ≤ 28)

include hn

theorem length_text_le : r.text.length ≤ 5 := by
  have h₁ := r.le
  have h₂ := r.le_max
  exact length_renderRun_le (by simp only [bounds]; omega) (by simp only [bounds]; omega)

theorem itemRange_text : itemRange r.text = ((r.lo : ℤ), (r.hi : ℤ)) := by
  have h₁ := r.le
  have h₂ := r.le_max
  exact itemRange_renderRun (by simp only [bounds]; omega) (by simp only [bounds]; omega)

end PortNumbers

/-- The union of the maps of the numbers, as ports of no type. -/
def numbersMap {n : ℕ} (rs : List (PortNumbers n)) : PortMap :=
  rs.foldr (fun r map => r.map ||| map) 0

theorem getLsbD_numbersMap {n : ℕ} (rs : List (PortNumbers n)) {k : ℕ} (hk : k < 64) :
    (numbersMap rs).getLsbD k = decide (∃ r ∈ rs, InRange r.bounds k) := by
  rw [numbersMap, getLsbD_foldr_or, Bool.eq_iff_iff, List.any_eq_true, decide_eq_true_iff]
  simp only [PortNumbers.getLsbD_map _ hk, decide_eq_true_iff]

section

variable {n : ℕ} (hn : n ≤ 28)

include hn

/-- `str2bit` has rows for `PNUM` numbers. -/
theorem str2bit_numbers {rs : List (PortNumbers n)} (hne : rs ≠ []) (B : Build) :
    str2bit B ([chr ','].intercalate (rs.map PortNumbers.text)) =
      if rs.length ≤ B.PNUM then some (numbersMap rs) else none := by
  have hsplit := splitOn_intercalate_map hne fun (r : PortNumbers n) _ =>
    r.not_mem_text (c := chr ',') (by decide) (by decide)
  have hitem : ∀ x ∈ rs.map PortNumbers.text, x ≠ [] ∧ x.length < 8 ∧ (0 : Byte) ∉ x ∧
      (itemRange x).2 < 64 := by
    intro x hx
    obtain ⟨r, -, rfl⟩ := List.mem_map.mp hx
    have hlen := r.length_text_le hn
    have hmax := r.le_max
    refine ⟨r.text_ne_nil, by omega, r.not_mem_text (by decide) (by decide), ?_⟩
    rw [r.itemRange_text hn]
    simp only
    omega
  split
  next hle =>
    obtain ⟨w, hw, hbits⟩ := @str2bit_spec B ([chr ','].intercalate (rs.map PortNumbers.text))
      (by simpa [hsplit] using hle)
      (by rw [hsplit]; exact fun x hx => ⟨(hitem x hx).2.1, (hitem x hx).2.2.1⟩)
      (by rw [hsplit]; exact fun x hx => (hitem x hx).2.2.2)
    rw [hw, Option.some.injEq]
    apply BitVec.eq_of_getLsbD_eq
    intro k hk
    rw [hbits k hk, getLsbD_numbersMap rs hk, decide_eq_decide, hsplit]
    simp only [List.mem_map, exists_exists_and_eq_and, InRange, PortNumbers.bounds]
    constructor
    · rintro ⟨-, r, hr, hlo, hhi⟩
      rw [r.itemRange_text hn] at hlo hhi
      exact ⟨r, hr, by simpa using hlo, by simpa using hhi⟩
    · rintro ⟨r, hr, hlo, hhi⟩
      have hpos := r.pos
      refine ⟨by omega, r, hr, ?_⟩
      rw [r.itemRange_text hn]
      exact ⟨by simpa using hlo, by simpa using hhi⟩
  next hgt =>
    rw [str2bit, splitRows_eq_none (by simpa [hsplit] using hgt)
      (by rw [hsplit]; exact fun x hx => ⟨(hitem x hx).1, by have := (hitem x hx).2.1; omega⟩)]
    rfl

/-- A single number or range takes one row. -/
theorem str2bit_text (r : PortNumbers n) (B : Build) : str2bit B r.text = some r.map := by
  have hread := @str2bit_numbers n hn [r] (by simp) B
  rw [List.map_singleton, List.intercalate_singleton, List.length_singleton,
    if_pos B.one_le] at hread
  simpa [numbersMap] using hread

end

/-- The empty text is one item without a port. -/
theorem str2bit_nil (B : Build) : str2bit B [] = some 0 := by
  obtain ⟨w, hw, hbits⟩ := @str2bit_spec B [] (by simpa using B.one_le) (by simp)
    (by simp [itemRange_nil])
  rw [hw, Option.some.injEq]
  apply BitVec.eq_of_getLsbD_eq
  intro k hk
  rw [hbits k hk]
  simp only [List.splitOn_nil, List.mem_singleton, exists_eq_left, itemRange_nil]
  have hnone : ¬ (0 < k ∧ (0 : ℤ) ≤ k ∧ (k : ℤ) ≤ 0) := by omega
  rw [decide_eq_false hnone]
  simp

/-! ## Types -/

inductive PortType
  | f
  | g
  | t
  | p
  deriving DecidableEq

namespace PortType

variable (B : CliBuild)

/-- The ports of the type are numbered from 1 to this number. -/
def ports : PortType → ℕ
  | f => B.FNUM
  | g => B.GNUM
  | t => TNUM
  | p => B.PNUM

/-- How far the ports of the type are moved up in the map. -/
def offset : PortType → ℕ
  | f => 0
  | g => B.FNUM
  | t => B.GNUM
  | p => 0

/-- What stands in front of the number, in either letter case. -/
def header (upper : Bool) : PortType → CStr
  | f => if upper then text "F0/" else text "f0/"
  | g => if upper then text "G0/" else text "g0/"
  | t => if upper then text "T0/" else text "t0/"
  | p => if upper then text "P" else text "p"

theorem ports_le (type : PortType) : type.ports B ≤ 28 := by
  have hP := B.le_phy
  have hG := B.GNUM_le
  cases type <;> simp only [ports, CliBuild.FNUM, TNUM] <;> omega

theorem ports_add_offset_le (type : PortType) : type.ports B + type.offset B ≤ 34 := by
  have hP := B.le_phy
  have hG := B.GNUM_le
  cases type <;> simp only [ports, offset, CliBuild.FNUM, TNUM] <;> omega

end PortType

/-! ## Items -/

/-- An item such as `f0/1-4` or `P3`. -/
structure PortItem (B : CliBuild) where
  type : PortType
  upper : Bool
  numbers : PortNumbers (type.ports B)

namespace PortItem

variable {B : CliBuild} (item : PortItem B)

def text : CStr := item.type.header item.upper ++ item.numbers.text

/-- The map of an item: its ports, moved up by the offset of its type. -/
def map : PortMap := item.numbers.map <<< item.type.offset B

/-- The bit is one of the map of the item. -/
def Has (k : ℕ) : Prop :=
  InRange (item.numbers.lo + item.type.offset B, item.numbers.hi + item.type.offset B) k

instance (k : ℕ) : Decidable (item.Has k) := inferInstanceAs (Decidable (InRange _ _))

theorem getLsbD_map {k : ℕ} (hk : k < 64) : item.map.getLsbD k = decide (item.Has k) := by
  rw [map, BitVec.getLsbD_shiftLeft, item.numbers.getLsbD_map (by omega), Bool.eq_iff_iff]
  simp only [Bool.and_eq_true, Bool.not_eq_true', decide_eq_true_eq, decide_eq_false_iff_not]
  simp only [Has, InRange, PortNumbers.bounds]
  have hpos := item.numbers.pos
  omega

/-- The bits of an item are bits of a map. -/
theorem lt_of_has {k : ℕ} (h : item.Has k) : k < 64 := by
  have hle := item.numbers.le_max
  have hsum := item.type.ports_add_offset_le B
  have hk := h.2
  simp only at hk
  omega

theorem comma_not_mem_text : chr ',' ∉ item.text := by
  have hheader : chr ',' ∉ item.type.header item.upper := by
    cases item.type <;> cases item.upper <;> decide
  rw [text, List.mem_append, not_or]
  exact ⟨hheader, item.numbers.not_mem_text (by decide) (by decide)⟩

theorem exists_letter : ∃ b ∈ item.text, b ∈ portLetters := by
  have hheader : ∃ b s, item.type.header item.upper = b :: s ∧ b ∈ portLetters := by
    cases item.type <;> cases item.upper <;> exact ⟨_, _, rfl, by decide⟩
  obtain ⟨b, s, hs, hb⟩ := hheader
  exact ⟨b, by simp [text, hs], hb⟩

theorem length_text_le : item.text.length ≤ 8 := by
  have hheader : (item.type.header item.upper).length ≤ 3 := by
    cases item.type <;> cases item.upper <;> decide
  have hnumbers := item.numbers.length_text_le (item.type.ports_le B)
  rw [text, List.length_append]
  omega

end PortItem

/-! ## The type dispatch -/

section

variable (B : CliBuild)

/-- A text with another first letter is of none of the three types. -/
theorem typedPorts_cons {b : Byte} (hf : tolower b ≠ chr 'f') (hg : tolower b ≠ chr 'g')
    (ht : tolower b ≠ chr 't') (s : CStr) (other : Option PortMap) :
    typedPorts B (b :: s) other = other := by
  have hneq : ∀ c : Byte, tolower b ≠ tolower c →
      strncasecmp (b :: s) (c :: [chr '0', chr '/']) 3 = false :=
    fun c hc => strncasecmp_cons_of_ne hc s _ 2
  have hf' := hneq (chr 'f') hf
  have hg' := hneq (chr 'g') hg
  have ht' := hneq (chr 't') ht
  rw [typedPorts, show text "f0/" = chr 'f' :: [chr '0', chr '/'] from rfl,
    show text "g0/" = chr 'g' :: [chr '0', chr '/'] from rfl,
    show text "t0/" = chr 't' :: [chr '0', chr '/'] from rfl]
  simp only [hf', hg', ht', Bool.false_eq_true, if_false]

/-- Numbers without a type are of none of the three types. -/
theorem typedPorts_numbers {n : ℕ} (r : PortNumbers n) (other : Option PortMap) :
    typedPorts B r.text other = other := by
  obtain ⟨b, s, hs, hb⟩ := r.exists_text_cons
  have hne : ∀ c : Byte, isDigit c = false → tolower b ≠ c := by
    intro c hc hbc
    rw [tolower_of_isDigit hb] at hbc
    rw [hbc, hc] at hb
    exact Bool.false_ne_true hb
  rw [hs]
  exact typedPorts_cons B (hne _ (by decide)) (hne _ (by decide)) (hne _ (by decide)) s other

theorem shiftMap_offset {map : PortMap} {n : ℕ} (h : n ≤ 28) :
    shiftMap map n = some (map <<< n) := by
  rw [shiftMap, if_pos (by omega)]
  rfl

end

section

variable {B : CliBuild} (item : PortItem B)

theorem length_header {type : PortType} (hp : type ≠ .p) (upper : Bool) :
    (type.header upper).length = 3 := by
  cases type with
  | p => exact absurd rfl hp
  | f => cases upper <;> rfl
  | g => cases upper <;> rfl
  | t => cases upper <;> rfl

/-- The three cases give the map of an item of their type. -/
theorem typedPorts_text (other : Option PortMap) :
    typedPorts B item.text other = if item.type = .p then other else some item.map := by
  obtain ⟨type, upper, r⟩ := item
  have hread := str2bit_text (type.ports_le B) r B.toBuild
  have hcase : type ≠ .p → ∀ c, strncasecmp (type.header upper ++ r.text) c 3 =
      strncasecmp (type.header upper) c 3 :=
    fun hp c => strncasecmp_append (length_header hp upper) _ _
  have hdrop : type ≠ .p → (type.header upper ++ r.text).drop 3 = r.text :=
    fun hp => List.drop_left' (length_header hp upper)
  have hP := B.le_phy
  have hG := B.GNUM_le
  rw [PortItem.text, typedPorts]
  cases type with
  | f =>
      rw [hcase (by decide), hdrop (by decide), if_pos (by cases upper <;> decide), hread,
        PortItem.map]
      simp [PortType.offset]
  | g =>
      have hshift : (phy (B.FNUM + 1) : ℤ) - phy 1 = (B.FNUM : ℕ) := by
        have hle := r.pos.trans (r.le.trans r.le_max)
        simp only [PortType.ports] at hle
        rw [phy, phy, if_pos (by simp only [CliBuild.FNUM]; omega), if_pos (by omega)]
        push_cast
        omega
      rw [hcase (by decide), hcase (by decide), hdrop (by decide),
        if_neg (by cases upper <;> decide), if_pos (by cases upper <;> decide), bind_of_eq hread,
        hshift, shiftMap_offset (by simp only [CliBuild.FNUM]; omega)]
      rfl
  | t =>
      rw [hcase (by decide), hcase (by decide), hcase (by decide), hdrop (by decide),
        if_neg (by cases upper <;> decide), if_neg (by cases upper <;> decide),
        if_pos (by cases upper <;> decide), bind_of_eq hread, phy, if_pos (by omega),
        shiftMap_offset (by omega)]
      rfl
  | p =>
      rw [if_pos rfl]
      cases upper
      · exact typedPorts_cons B (by decide) (by decide) (by decide) r.text other
      · exact typedPorts_cons B (by decide) (by decide) (by decide) r.text other

/-- In front of a comma an item that starts with `p` is not known. -/
theorem itemBeforeComma_text :
    itemBeforeComma B item.text = some (if item.type = .p then 0 else item.map) := by
  rw [itemBeforeComma, typedPorts_text]
  split <;> rfl

theorem lastItem_text : lastItem B item.text = some item.map := by
  rw [lastItem, typedPorts_text]
  split
  next hp =>
    obtain ⟨type, upper, r⟩ := item
    cases hp
    have hcase : strncasecmp (PortType.p.header upper ++ r.text) (text "p") 1 = true := by
      rw [strncasecmp_append (by cases upper <;> rfl)]
      cases upper <;> decide
    have hdrop : (PortType.p.header upper ++ r.text).drop 1 = r.text := by
      cases upper <;> rfl
    rw [PortItem.text, if_pos hcase, hdrop, str2bit_text (PortType.p.ports_le B) r]
    simp [PortItem.map, PortType.offset]
  next => rfl

end

/-! ## The rounds of the loop -/

section

variable (B : CliBuild) (fuel : ℕ) (bmap : PortMap)

@[simp] theorem loop_null : cliStr2bitmapLoop B fuel none bmap = some bmap := by
  cases fuel <;> rfl

/-- With a type letter somewhere in the rest, the text up to the next comma is one item. -/
theorem loop_comma {x rest : CStr} {b : Byte} {map : PortMap} (hx : chr ',' ∉ x)
    (hlen : x.length < 256) (hmem : b ∈ x ++ chr ',' :: rest) (hb : b ∈ portLetters)
    (hmap : itemBeforeComma B x = some map) :
    cliStr2bitmapLoop B (fuel + 1) (some (x ++ chr ',' :: rest)) bmap =
      cliStr2bitmapLoop B fuel (some rest) (bmap ||| map) := by
  obtain ⟨flag, hflag⟩ := exists_strpbrk hmem hb
  have hround : cliStr2bitmapRound B (x ++ chr ',' :: rest) = some (map, some rest) := by
    simp only [cliStr2bitmapRound, hflag, strchr_append_cons hx, between_append,
      store_of_lt hlen, hmap, Option.bind_eq_bind, Option.bind_some, List.tail_cons]
    rfl
  rw [cliStr2bitmapLoop, bind_of_eq hround]

/-- With a type letter but no comma in it, the rest is the last item. -/
theorem loop_last {x : CStr} {b : Byte} {map : PortMap} (hx : chr ',' ∉ x)
    (hlen : x.length < 256) (hmem : b ∈ x) (hb : b ∈ portLetters)
    (hmap : lastItem B x = some map) :
    cliStr2bitmapLoop B (fuel + 1) (some x) bmap = some (bmap ||| map) := by
  obtain ⟨flag, hflag⟩ := exists_strpbrk hmem hb
  have hround : cliStr2bitmapRound B x = some (map, none) := by
    simp only [cliStr2bitmapRound, hflag, strchr_eq_none.mpr hx, store_of_lt hlen, hmap,
      Option.bind_eq_bind, Option.bind_some]
    rfl
  rw [cliStr2bitmapLoop, bind_of_eq hround]
  exact loop_null B fuel _

/-- Without a type letter, the whole rest is read by `str2bit`. -/
theorem loop_untyped {x : CStr} (hx : ∀ b ∈ x, b ∉ portLetters) :
    cliStr2bitmapLoop B (fuel + 1) (some x) bmap =
      ((store 256 x).bind (str2bit B.toBuild)).map (bmap ||| ·) := by
  have hflag := strpbrk_eq_none.mpr hx
  rw [cliStr2bitmapLoop, cliStr2bitmapRound]
  simp only [hflag]
  by_cases hlen : x.length < 256
  · rw [store_of_lt hlen]
    cases hmap : str2bit B.toBuild x with
    | none => simp [hmap]
    | some map =>
        cases hcomman : strpbrk (text ",-") x with
        | none => simp [hmap, hcomman]
        | some comman => simp [hmap, hcomman, hflag]
  · simp [store, hlen]

end

section

variable {B : CliBuild} (item : PortItem B) (fuel : ℕ) (bmap : PortMap)

theorem loop_item_comma (rest : CStr) :
    cliStr2bitmapLoop B (fuel + 1) (some (item.text ++ chr ',' :: rest)) bmap =
      cliStr2bitmapLoop B fuel (some rest)
        (bmap ||| if item.type = .p then 0 else item.map) := by
  obtain ⟨b, hmem, hb⟩ := item.exists_letter
  have hlen := item.length_text_le
  exact loop_comma B fuel bmap item.comma_not_mem_text (by omega)
    (List.mem_append_left _ hmem) hb (itemBeforeComma_text item)

theorem loop_item_last :
    cliStr2bitmapLoop B (fuel + 1) (some item.text) bmap = some (bmap ||| item.map) := by
  obtain ⟨b, hmem, hb⟩ := item.exists_letter
  have hlen := item.length_text_le
  exact loop_last B fuel bmap item.comma_not_mem_text (by omega) hmem hb (lastItem_text item)

end

/-- Numbers without a type are dropped when a type letter follows later. -/
theorem loop_numbers_comma (B : CliBuild) (fuel : ℕ) (bmap : PortMap) {n : ℕ}
    (r : PortNumbers n) (hn : n ≤ 28) {rest : CStr} {b : Byte} (hmem : b ∈ rest)
    (hb : b ∈ portLetters) :
    cliStr2bitmapLoop B (fuel + 1) (some (r.text ++ chr ',' :: rest)) bmap =
      cliStr2bitmapLoop B fuel (some rest) bmap := by
  have hlen := r.length_text_le hn
  have hloop := loop_comma B fuel bmap (r.not_mem_text (by decide) (by decide)) (by omega)
    (List.mem_append_right _ (List.mem_cons_of_mem _ hmem)) hb
    (typedPorts_numbers B r (some 0))
  rw [hloop]
  simp

end BcmUtils.CliPorts
