import BcmUtils.Foundation.Hex
import BcmUtils.Foundation.Tokens
import BcmUtils.Foundation.Words
import Mathlib.Data.List.DropRight

/-! # Lines of a file and their fields

`fgets`, and `sscanf` for the formats made of words, texts up to a separator and ordinary
characters. -/

namespace CLib

/-! ## Lines -/

/-- The bytes that `fgets` reads into an array of `room + 1` bytes, and the rest of the file. -/
def fgets : ℕ → List Byte → List Byte × List Byte
  | 0, file => ([], file)
  | _ + 1, [] => ([], [])
  | room + 1, b :: file =>
      if b = chr '\n' then ([b], file)
      else ((b :: (fgets room file).1), (fgets room file).2)

/-- The lines that `fgets` delivers up to the end of the file. The fuel outlasts the file. -/
def fgetsLines (room : ℕ) : ℕ → List Byte → List (List Byte)
  | 0, _ => []
  | _ + 1, [] => []
  | fuel + 1, b :: file =>
      (fgets room (b :: file)).1 :: fgetsLines room fuel (fgets room (b :: file)).2

/-- All lines of a file. -/
def fileLines (room : ℕ) (file : List Byte) : List (List Byte) := fgetsLines room file.length file

/-- A line with room for it is read whole. -/
theorem fgets_line {line : List Byte} (hline : chr '\n' ∉ line) {room : ℕ}
    (hroom : line.length < room) (file : List Byte) :
    fgets room (line ++ chr '\n' :: file) = (line ++ [chr '\n'], file) := by
  induction line generalizing room with
  | nil =>
      cases room with
      | zero => simp at hroom
      | succ room => simp [fgets]
  | cons b line ih =>
      cases room with
      | zero => simp at hroom
      | succ room =>
          rw [List.mem_cons, not_or] at hline
          have hrest := ih hline.2 (by simpa using hroom)
          rw [List.cons_append, fgets, if_neg (Ne.symm hline.1), hrest]
          rfl

/-- A file of lines that fit is read line by line. -/
theorem fileLines_flatMap {room : ℕ} {α : Type*} {text : α → List Byte} {xs : List α}
    (h : ∀ x ∈ xs, chr '\n' ∉ text x ∧ (text x).length < room) :
    fileLines room (xs.flatMap fun x => text x ++ [chr '\n']) =
      xs.map fun x => text x ++ [chr '\n'] := by
  have hfuel : ∀ fuel, (xs.flatMap fun x => text x ++ [chr '\n']).length ≤ fuel →
      fgetsLines room fuel (xs.flatMap fun x => text x ++ [chr '\n']) =
        xs.map fun x => text x ++ [chr '\n'] := by
    intro fuel
    induction xs generalizing fuel with
    | nil =>
        intro _
        cases fuel <;> rfl
    | cons x xs ih =>
        intro hlen
        obtain ⟨hline, hroom⟩ := h x List.mem_cons_self
        rw [List.flatMap_cons, List.append_assoc, List.singleton_append] at hlen ⊢
        cases fuel with
        | zero => simp at hlen
        | succ fuel =>
            have hread := fgets_line hline hroom (xs.flatMap fun x => text x ++ [chr '\n'])
            obtain ⟨b, file, hfile⟩ := List.exists_cons_of_ne_nil
              (by simp : text x ++ chr '\n' :: xs.flatMap (fun x => text x ++ [chr '\n']) ≠ [])
            have hrest := ih (fun y hy => h y (List.mem_cons_of_mem _ hy)) fuel (by
              rw [List.length_append, List.length_cons] at hlen
              omega)
            rw [hfile] at hread ⊢
            rw [fgetsLines, hread, hrest]
            rfl
  exact hfuel _ le_rfl

/-! ## Fields -/

/-- A directive of a format of `sscanf`. -/
inductive Directive
  /-- An ordinary character. -/
  | char (c : Byte)
  /-- A blank. -/
  | blank
  /-- `%d`. -/
  | int
  /-- `%x` with its width. -/
  | hex (width : ℕ)
  /-- `%[^c]`. -/
  | upTo (c : Byte)
  deriving DecidableEq

/-- What a conversion stores. -/
inductive Scanned
  | word (w : BitVec 32)
  | text (s : CStr)
  deriving DecidableEq

/-- The bytes that a conversion stores. -/
def Scanned.bytes (e : Endian) : Scanned → List Byte
  | word w => bytesOf e w
  | text s => s ++ [0]

/-- The prefix `0x` of a hex number. -/
def skipHexPrefix : CStr → CStr
  | a :: b :: s => if a = chr '0' ∧ (b = chr 'x' ∨ b = chr 'X') then s else a :: b :: s
  | s => s

/-- `%x` with a width: the number and the string behind it, if there is a number. -/
def scanHex (width : ℕ) (s : CStr) : Option (ℤ × CStr) :=
  let t := s.dropWhile isSpace
  let digits := skipHexPrefix (skipSign (t.take width))
  let n := (digits.takeWhile fun b => (xdigit b).isSome).length
  if n = 0 then none
  else
    let v := (digits.take n).foldl (fun v b => 16 * v + (xdigit b).getD 0) 0
    some (if t.head? = some (chr '-') then -(v : ℤ) else v, digits.drop n ++ t.drop width)

/-- What a directive stores and the string behind it, if the directive matches. -/
def Directive.scan : Directive → CStr → Option (Option Scanned × CStr)
  | char c, s => if s.head? = some c then some (none, s.tail) else none
  | blank, s => some (none, s.dropWhile isSpace)
  | int, s => (scanInt s).map fun r => (some (.word (BitVec.ofInt 32 r.1)), r.2)
  | hex width, s => (scanHex width s).map fun r => (some (.word (BitVec.ofInt 32 r.1)), r.2)
  | upTo c, s =>
      if s.head?.all (· = c) then none
      else some (some (.text (s.takeWhile (· ≠ c))), s.dropWhile (· ≠ c))

/-- `sscanf`: what the conversions store, up to the first directive that does not match. -/
def sscanf : List Directive → CStr → List Scanned
  | [], _ => []
  | d :: ds, s =>
      match d.scan s with
      | none => []
      | some (v, t) => v.toList ++ sscanf ds t

/-- Two hex digits are scanned as the byte that they spell. -/
theorem scanHex_pair {b : Byte} {p : Byte × Byte} (h : IsHexPair b p) (s : CStr) :
    scanHex 2 (p.1 :: p.2 :: s) = some ((b.toNat : ℤ), s) := by
  have hi := hexChar_of_isHex h.1
  have lo := hexChar_of_isHex h.2
  have hspace : (p.1 :: p.2 :: s).dropWhile isSpace = p.1 :: p.2 :: s :=
    List.dropWhile_cons_of_neg (by simp [hi.not_space])
  have hdigits : skipHexPrefix (skipSign [p.1, p.2]) = [p.1, p.2] := by
    simp [skipSign, skipHexPrefix, hi.not_sign, lo.not_prefix]
  have hall : [p.1, p.2].takeWhile (fun b => (xdigit b).isSome) = [p.1, p.2] := by
    simp [hi.value, lo.value]
  have hvalue : 16 * ((b.toNat : ℤ) / 16) + (b.toNat : ℤ) % 16 = b.toNat := by omega
  simp only [scanHex, hspace, List.take_succ_cons, List.take_zero, hdigits, hall]
  simp [hi.value, lo.value, hi.not_sign, hvalue]

/-- `%d` skips blanks. -/
theorem scanInt_dropWhile (s : CStr) : scanInt (s.dropWhile isSpace) = scanInt s := by
  have hidem : (s.dropWhile isSpace).dropWhile isSpace = s.dropWhile isSpace :=
    List.dropWhile_idempotent _ s
  simp only [scanInt, atoi, hidem]

/-- The directive stores something. -/
def Directive.Converts : Directive → Bool
  | char _ | blank => false
  | int | hex _ | upTo _ => true

/-- What the conversion stores is of its kind. -/
def Directive.Stores : Directive → Scanned → Prop
  | int, .word _ | hex _, .word _ | upTo _, .text _ => True
  | _, _ => False

/-- A directive that matches stores what is of its kind, or nothing if it is no conversion. -/
theorem stores_of_scan {d : Directive} {s t : CStr} {stored : Option Scanned}
    (h : d.scan s = some (stored, t)) :
    (d.Converts = false ∧ stored = none) ∨ (d.Converts = true ∧ ∃ v ∈ stored, d.Stores v) := by
  cases d with
  | char c =>
      simp only [Directive.scan, Option.ite_none_right_eq_some, Option.some.injEq,
        Prod.mk.injEq] at h
      exact Or.inl ⟨rfl, h.2.1.symm⟩
  | blank =>
      simp only [Directive.scan, Option.some.injEq, Prod.mk.injEq] at h
      exact Or.inl ⟨rfl, h.1.symm⟩
  | int =>
      obtain ⟨r, -, hr⟩ := Option.map_eq_some_iff.mp h
      exact Or.inr ⟨rfl, _, (congrArg Prod.fst hr).symm, trivial⟩
  | hex width =>
      obtain ⟨r, -, hr⟩ := Option.map_eq_some_iff.mp h
      exact Or.inr ⟨rfl, _, (congrArg Prod.fst hr).symm, trivial⟩
  | upTo c =>
      simp only [Directive.scan, Option.ite_none_left_eq_some, Option.some.injEq,
        Prod.mk.injEq] at h
      exact Or.inr ⟨rfl, _, h.2.1.symm, trivial⟩

/-- The conversions store what is of their kind, in their order. -/
theorem stores_of_sscanf {ds : List Directive} {s : CStr} {k : ℕ} {v : Scanned}
    (h : (sscanf ds s)[k]? = some v) :
    ∃ d, (ds.filter Directive.Converts)[k]? = some d ∧ d.Stores v := by
  induction ds generalizing s k with
  | nil => simp [sscanf] at h
  | cons d ds ih =>
      rw [sscanf] at h
      cases hscan : d.scan s with
      | none => simp [hscan] at h
      | some r =>
          obtain ⟨stored, t⟩ := r
          simp only [hscan] at h
          cases stores_of_scan hscan with
          | inl hchar =>
              rw [hchar.2] at h
              rw [List.filter_cons_of_neg (by simp [hchar.1])]
              exact ih h
          | inr hconv =>
              obtain ⟨hconv, w, rfl, hw⟩ := hconv
              rw [List.filter_cons_of_pos hconv]
              cases k with
              | zero =>
                  obtain rfl := Option.some.inj h
                  exact ⟨d, rfl, hw⟩
              | succ k => exact ih h

theorem mem_of_mem_skipSign {s : CStr} {b : Byte} (h : b ∈ skipSign s) : b ∈ s := by
  cases s with
  | nil => exact h
  | cons a s =>
      rw [skipSign] at h
      split at h
      · exact List.mem_cons_of_mem _ h
      · exact h

theorem mem_of_mem_skipHexPrefix {s : CStr} {b : Byte} (h : b ∈ skipHexPrefix s) : b ∈ s := by
  cases s with
  | nil => exact h
  | cons a s =>
      cases s with
      | nil => exact h
      | cons a' s =>
          rw [skipHexPrefix] at h
          split at h
          · exact List.mem_cons_of_mem _ (List.mem_cons_of_mem _ h)
          · exact h

theorem mem_of_mem_dropWhile {p : Byte → Bool} {s : CStr} {b : Byte} (h : b ∈ s.dropWhile p) :
    b ∈ s :=
  (List.dropWhile_sublist p).subset h

theorem mem_of_scanInt {s t : CStr} {v : ℤ} (h : scanInt s = some (v, t)) {b : Byte}
    (hb : b ∈ t) : b ∈ s := by
  rw [scanInt] at h
  split at h
  · cases h
  · rename_i c u hdigits
    rw [Option.ite_none_right_eq_some, Option.some.injEq, Prod.mk.injEq] at h
    rw [← h.2.2] at hb
    have hmem := mem_of_mem_dropWhile hb
    rw [← hdigits] at hmem
    exact mem_of_mem_dropWhile (mem_of_mem_skipSign hmem)

theorem mem_of_scanHex {width : ℕ} {s t : CStr} {v : ℤ} (h : scanHex width s = some (v, t))
    {b : Byte} (hb : b ∈ t) : b ∈ s := by
  simp only [scanHex, Option.ite_none_left_eq_some, Option.some.injEq, Prod.mk.injEq] at h
  rw [← h.2.2] at hb
  cases List.mem_append.mp hb with
  | inl hb =>
      have hmem := mem_of_mem_skipSign (mem_of_mem_skipHexPrefix (List.mem_of_mem_drop hb))
      exact mem_of_mem_dropWhile (List.mem_of_mem_take hmem)
  | inr hb => exact mem_of_mem_dropWhile (List.mem_of_mem_drop hb)

/-- What a directive leaves and the text that it stores are parts of the string. -/
theorem mem_of_scan {d : Directive} {s t : CStr} {stored : Option Scanned}
    (h : d.scan s = some (stored, t)) :
    (∀ b ∈ t, b ∈ s) ∧ ∀ u, stored = some (.text u) → ∀ b ∈ u, b ∈ s := by
  cases d with
  | char c =>
      simp only [Directive.scan, Option.ite_none_right_eq_some, Option.some.injEq,
        Prod.mk.injEq] at h
      obtain ⟨-, rfl, rfl⟩ := h
      exact ⟨fun b hb => List.mem_of_mem_tail hb, by simp⟩
  | blank =>
      simp only [Directive.scan, Option.some.injEq, Prod.mk.injEq] at h
      obtain ⟨rfl, rfl⟩ := h
      exact ⟨fun b hb => mem_of_mem_dropWhile hb, by simp⟩
  | int =>
      obtain ⟨r, hr, heq⟩ := Option.map_eq_some_iff.mp h
      obtain ⟨rfl, rfl⟩ := Prod.mk.inj heq
      exact ⟨fun b hb => mem_of_scanInt hr hb, by simp⟩
  | hex width =>
      obtain ⟨r, hr, heq⟩ := Option.map_eq_some_iff.mp h
      obtain ⟨rfl, rfl⟩ := Prod.mk.inj heq
      exact ⟨fun b hb => mem_of_scanHex hr hb, by simp⟩
  | upTo c =>
      simp only [Directive.scan, Option.ite_none_left_eq_some, Option.some.injEq,
        Prod.mk.injEq] at h
      obtain ⟨-, rfl, rfl⟩ := h
      refine ⟨fun b hb => mem_of_mem_dropWhile hb, fun u hu b hb => ?_⟩
      simp only [Option.some.injEq, Scanned.text.injEq] at hu
      exact (List.takeWhile_sublist _).subset (hu ▸ hb)

theorem mem_of_mem_sscanf {ds : List Directive} {s u : CStr} (h : Scanned.text u ∈ sscanf ds s) :
    ∀ b ∈ u, b ∈ s := by
  induction ds generalizing s with
  | nil => simp [sscanf] at h
  | cons d ds ih =>
      rw [sscanf] at h
      cases hscan : d.scan s with
      | none => simp [hscan] at h
      | some r =>
          obtain ⟨stored, t⟩ := r
          obtain ⟨hrest, htext⟩ := mem_of_scan hscan
          simp only [hscan, List.mem_append, Option.mem_toList] at h
          cases h with
          | inl h => exact htext u h
          | inr h => exact fun b hb => hrest b (ih h b hb)

/-- The stores of `sscanf` through pointers to the offsets. -/
def scanStores (e : Endian) (offs : List ℕ) (vs : List Scanned) : List (ℕ × List Byte) :=
  List.zipWith (fun off v => (off, v.bytes e)) offs vs

theorem mem_scanStores {e : Endian} {offs : List ℕ} {vs : List Scanned} {w : ℕ × List Byte}
    (h : w ∈ scanStores e offs vs) : w.1 ∈ offs ∧ 0 < w.2.length := by
  induction offs generalizing vs with
  | nil => simp [scanStores] at h
  | cons off offs ih =>
      cases vs with
      | nil => simp [scanStores] at h
      | cons v vs =>
          rw [scanStores, List.zipWith_cons_cons] at h
          cases List.mem_cons.mp h with
          | inl h =>
              rw [h]
              refine ⟨List.mem_cons_self, ?_⟩
              cases v with
              | word w => simp [Scanned.bytes]
              | text s => simp [Scanned.bytes]
          | inr h =>
              have hrest := ih h
              exact ⟨List.mem_cons_of_mem _ hrest.1, hrest.2⟩

end CLib
