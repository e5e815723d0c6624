import BcmUtils.Model.MacList
import BcmUtils.Verification.MacText.Agreement

/-! # Lines of the MAC dump -/

namespace BcmUtils.MacList

open CLib
open MacText (MacSpelling pairText)

/-- A well-formed line of the dump. -/
structure MacLine where
  spelling : MacSpelling
  vid : BitVec 32
  port : Fin 64
  tgid : BitVec 32
  method : BitVec 32

/-- Four numbers with a blank between them. -/
def numbersText (v p t m : ℤ) : CStr :=
  printInt v ++ chr ' ' :: (printInt p ++ chr ' ' :: (printInt t ++ chr ' ' :: printInt m))

namespace MacLine

variable (l : MacLine)

/-- `"aa-bb-cc-dd-ee-ff vid port tgid method"`. -/
def text : CStr :=
  l.spelling.separated (chr '-') ++ chr ' ' ::
    numbersText l.vid.toInt (l.port : ℕ) l.tgid.toInt l.method.toInt

/-- The port that the line's port is mapped to. -/
def mapped : ℤ := phy2port.getD l.port 0

/-- The line's port is a known one. -/
def Known : Prop := l.mapped ≠ 0 ∧ l.mapped ≠ -1

instance : Decidable l.Known := inferInstanceAs (Decidable (_ ∧ _))

end MacLine

/-! ## The numbers -/

theorem scanInt_blank {v : ℤ} (hv : IsInt v) {c : Byte} (hc : isDigit c = false) (t : CStr) :
    scanInt ((chr ' ' :: (printInt v ++ c :: t)).dropWhile isSpace) = some (v, c :: t) := by
  rw [List.dropWhile_cons_of_pos (by decide), scanInt_dropWhile, scanInt_printInt_cons hv hc]

/-- The four numbers are scanned as they were printed. -/
theorem sscanf_vidFormat {v p t m : ℤ} (hv : IsInt v) (hp : IsInt p) (ht : IsInt t)
    (hm : IsInt m) :
    sscanf vidFormat (numbersText v p t m ++ [chr '\n']) =
      [v, p, t, m].map fun x => Scanned.word (BitVec.ofInt 32 x) := by
  have hdigit : isDigit (chr ' ') = false := by decide
  have hend : isDigit (chr '\n') = false := by decide
  rw [numbersText]
  simp only [List.append_assoc, List.cons_append]
  simp only [vidFormat, sscanf, Directive.scan, scanInt_printInt_cons hv hdigit,
    scanInt_blank hp hdigit, scanInt_blank ht hdigit, scanInt_blank hm hend, Option.map_some]
  rfl

/-! ## The address -/

/-- Two pairs of digits are scanned as two bytes. -/
theorem sscanf_macFormat {a b : Byte} {p q : Byte × Byte} (hp : IsHexPair a p)
    (hq : IsHexPair b q) (s : CStr) :
    sscanf macFormat (p.1 :: p.2 :: chr '-' :: q.1 :: q.2 :: s) =
      [a, b].map fun x => Scanned.word (BitVec.ofInt 32 x.toNat) := by
  simp only [macFormat, sscanf, Directive.scan, scanHex_pair hp, scanHex_pair hq,
    Option.map_some, List.head?_cons, List.tail_cons, if_true]
  rfl

/-- The first of the bytes that hold a scanned byte. -/
def firstByte (e : Endian) (b : Byte) : Byte :=
  match e with
  | .little => b
  | .big => 0

theorem bytesOf_scanned (e : Endian) (b : Byte) :
    (bytesOf e (BitVec.ofInt 32 b.toNat))[0]? = some (firstByte e b) := by
  have hb := b.toNat_lt
  have hword : (BitVec.ofInt 32 (b.toNat : ℤ)).toNat = b.toNat := by
    rw [BitVec.toNat_ofInt]
    omega
  cases e with
  | little => simp [bytesOf, firstByte]
  | big =>
      have hzero : b.toNat / 256 ^ 3 = 0 := Nat.div_eq_of_lt (by omega)
      simp only [bytesOf, hword, List.map_cons, List.getElem?_cons_zero, hzero]
      rfl

/-- The stores of the bytes of an address, each as a word. -/
def macStores (e : Endian) (bs : List Byte) : List (ℕ × List Byte) :=
  bs.zipIdx.map fun p => (p.2, bytesOf e (BitVec.ofInt 32 p.1.toNat))

theorem macStores_concat (e : Endian) (bs : List Byte) (b : Byte) :
    macStores e (bs ++ [b]) =
      macStores e bs ++ [(bs.length, bytesOf e (BitVec.ofInt 32 b.toNat))] := by
  simp [macStores, List.zipIdx_append]

/-- Each word overwrites what the words in front of it left in its bytes, so the first byte of
each one remains. -/
theorem covered_macStores (e : Endian) {bs : List Byte} {j : ℕ} (hj : j < bs.length) :
    covered (macStores e bs) j = (bs.map (firstByte e))[j]? := by
  induction bs using List.reverseRecOn with
  | nil => simp at hj
  | append_singleton bs b ih =>
      rw [List.length_append, List.length_singleton] at hj
      rw [macStores_concat, covered_append, covered, covered, Option.none_or, List.map_append]
      by_cases hlast : j < bs.length
      · rw [putAt_of_lt hlast, Option.none_or, ih hlast,
          List.getElem?_append_left (by rwa [List.length_map])]
      · obtain rfl : j = bs.length := by omega
        have hput := putAt_add bs.length (bytesOf e (BitVec.ofInt 32 b.toNat)) 0
        rw [Nat.add_zero] at hput
        rw [hput, bytesOf_scanned, List.getElem?_append_right (by rw [List.length_map]),
          List.length_map, Nat.sub_self]
        rfl

theorem fits_macStores (e : Endian) (bs : List Byte) (n : ℕ) :
    Fits n (macStores e bs) ↔ bs = [] ∨ bs.length + 3 ≤ n := by
  induction bs using List.reverseRecOn with
  | nil => simp [Fits, macStores]
  | append_singleton bs b ih =>
      have hsplit : Fits n (macStores e (bs ++ [b])) ↔
          Fits n (macStores e bs) ∧ bs.length + 4 ≤ n := by
        rw [macStores_concat, Fits, List.forall_mem_append]
        simp [Fits]
      rw [hsplit, ih, List.length_append, List.length_singleton]
      simp only [List.append_eq_nil_iff, List.cons_ne_self, and_false, false_or]
      constructor
      · intro h
        omega
      · intro h
        exact ⟨Or.inr (by omega), by omega⟩

/-! ## The bytes of a line -/

theorem hexPair_of_mem {mac : List Byte} {pairs : List (Byte × Byte)}
    (h : List.Forall₂ IsHexPair mac pairs) {p : Byte × Byte} (hp : p ∈ pairs) :
    ∃ b, IsHexPair b p := by
  induction h with
  | nil => simp at hp
  | cons hb _ ih =>
      cases List.mem_cons.mp hp with
      | inl heq => exact ⟨_, heq ▸ hb⟩
      | inr hp => exact ih hp

/-- A line holds no byte that ends a string or a line. -/
theorem not_mem_text (l : MacLine) {c : Byte} (hc : c = 0 ∨ c = chr '
') : c ∉ l.text := by
  have hdigit : isDigit c = false := by
    cases hc with
    | inl hc => rw [hc]; decide
    | inr hc => rw [hc]; decide
  have hhyphen : c ≠ chr '-' := by
    cases hc with
    | inl hc => rw [hc]; decide
    | inr hc => rw [hc]; decide
  have hblank : c ≠ chr ' ' := by
    cases hc with
    | inl hc => rw [hc]; decide
    | inr hc => rw [hc]; decide
  have hhex : ∀ {d : ℕ} {b : Byte}, IsHex d b → c ≠ b := by
    rintro d b hb rfl
    have hchar := hexChar_of_isHex hb
    cases hc with
    | inl hc => exact hchar.ne_zero hc
    | inr hc =>
        have hspace := hchar.not_space
        rw [hc] at hspace
        exact absurd hspace (by decide)
  have hmac : c ∉ l.spelling.separated (chr '-') := by
    intro h
    cases mem_intercalate h with
    | inl h => exact hhyphen h
    | inr h =>
        obtain ⟨x, hx, hmem⟩ := h
        obtain ⟨p, hp, rfl⟩ := List.mem_map.mp hx
        obtain ⟨b, hb⟩ := hexPair_of_mem l.spelling.spelled hp
        simp only [pairText, List.mem_cons, List.not_mem_nil, or_false] at hmem
        cases hmem with
        | inl h => exact hhex hb.1 h
        | inr h => exact hhex hb.2 h
  have hnumber := fun v => not_mem_printInt hdigit hhyphen v
  simp [MacLine.text, numbersText, hmac, hnumber, hblank]

theorem lineAt_of_not_mem {line : List Byte} (h : (0 : Byte) ∉ line) (off : ℕ) :
    lineAt off line = line.drop off := by
  rw [lineAt, List.takeWhile_eq_self_iff]
  intro b hb
  simpa using fun hzero : b = 0 => h (hzero ▸ List.mem_of_mem_drop hb)

theorem exists_ofFn {α β : Type*} {R : α → β → Prop} {as : List α} {bs : List β}
    (h : List.Forall₂ R as bs) {n : ℕ} (hn : as.length = n) :
    ∃ (a : Fin n → α) (b : Fin n → β), as = List.ofFn a ∧ bs = List.ofFn b ∧
      ∀ k, R (a k) (b k) := by
  subst hn
  have hlen := h.length_eq
  refine ⟨as.get, fun k => bs.get (k.cast hlen), (List.ofFn_get as).symm, ?_, ?_⟩
  · apply List.ext_getElem
    · simp [hlen]
    · intro k hk hk'
      simp
  · intro k
    exact h.get k.2 (hlen ▸ k.2)

/-- What stands at the offsets that are scanned. -/
structure Strings (l : MacLine) (p : Fin 6 → Byte × Byte) (line : List Byte) : Prop where
  first : ∃ t, lineAt 0 line = (p 0).1 :: (p 0).2 :: chr '-' :: (p 1).1 :: (p 1).2 :: t
  second : ∃ t, lineAt 6 line = (p 2).1 :: (p 2).2 :: chr '-' :: (p 3).1 :: (p 3).2 :: t
  third : ∃ t, lineAt 12 line = (p 4).1 :: (p 4).2 :: chr '-' :: (p 5).1 :: (p 5).2 :: t
  numbers : lineAt 18 line =
    numbersText l.vid.toInt (l.port : ℕ) l.tgid.toInt l.method.toInt ++ [chr '\n']

theorem strings_of_line {l : MacLine} {p : Fin 6 → Byte × Byte}
    (hp : l.spelling.pairs = List.ofFn p) : Strings l p (l.text ++ [chr '\n']) := by
  have hzero : (0 : Byte) ∉ l.text ++ [chr '\n'] := by
    rw [List.mem_append, not_or]
    exact ⟨not_mem_text l (Or.inl rfl), by decide⟩
  have htext : l.text ++ [chr '\n'] =
      (p 0).1 :: (p 0).2 :: chr '-' :: (p 1).1 :: (p 1).2 :: chr '-' ::
      (p 2).1 :: (p 2).2 :: chr '-' :: (p 3).1 :: (p 3).2 :: chr '-' ::
      (p 4).1 :: (p 4).2 :: chr '-' :: (p 5).1 :: (p 5).2 :: chr ' ' ::
      (numbersText l.vid.toInt (l.port : ℕ) l.tgid.toInt l.method.toInt ++ [chr '\n']) := by
    rw [MacLine.text, MacSpelling.separated, hp]
    simp [List.ofFn_succ, pairText, List.intercalate_cons_cons]
  have hdrop := lineAt_of_not_mem hzero
  rw [htext] at hdrop ⊢
  exact ⟨⟨_, hdrop 0⟩, ⟨_, hdrop 6⟩, ⟨_, hdrop 12⟩, hdrop 18⟩

/-- The conversions of a line store the bytes of the address as words, and set the numbers. -/
theorem scanMacLine_eq {slack : ℕ} (e : Endian) (l : MacLine) (f : MacFrame slack) :
    scanMacLine e (l.text ++ [chr '\n']) f = (f.mac.copyAll (macStores e l.spelling.mac)).map
      fun mac =>
        { mac
          vid := l.vid
          port := BitVec.ofInt 32 (l.port : ℕ)
          tgid := l.tgid
          mtype := l.method } := by
  obtain ⟨b, p, hb, hp, hpairs⟩ := exists_ofFn l.spelling.spelled l.spelling.length_mac
  obtain ⟨⟨t₁, h₁⟩, ⟨t₂, h₂⟩, ⟨t₃, h₃⟩, hnumbers⟩ := strings_of_line hp
  have hport : IsInt ((l.port : ℕ) : ℤ) := by
    have := l.port.2
    simp only [IsInt, intMin, intMax]
    omega
  have hvalues := sscanf_vidFormat (isInt_toInt l.vid) hport (isInt_toInt l.tgid)
    (isInt_toInt l.method)
  have hsplit : macStores e l.spelling.mac =
      scanStores e [0, 1] ([b 0, b 1].map fun x => Scanned.word (BitVec.ofInt 32 x.toNat)) ++
      (scanStores e [2, 3] ([b 2, b 3].map fun x => Scanned.word (BitVec.ofInt 32 x.toNat)) ++
      scanStores e [4, 5] ([b 4, b 5].map fun x => Scanned.word (BitVec.ofInt 32 x.toNat))) := by
    rw [hb]
    simp [List.ofFn_succ, macStores, scanStores, Scanned.bytes]
  have hcopy : ∀ (ws vs : List (ℕ × List Byte)) (mac : Block (6 + slack)),
      mac.copyAll (ws ++ vs) = (mac.copyAll ws).bind fun mac => mac.copyAll vs := by
    intro ws vs mac
    exact List.foldlM_append
  rw [scanMacLine, h₁, h₂, h₃, hnumbers, hvalues, sscanf_macFormat (hpairs 0) (hpairs 1),
    sscanf_macFormat (hpairs 2) (hpairs 3), sscanf_macFormat (hpairs 4) (hpairs 5), hsplit, hcopy]
  simp only [hcopy]
  cases f.mac.copyAll (scanStores e [0, 1]
      ([b 0, b 1].map fun x => Scanned.word (BitVec.ofInt 32 x.toNat))) with
  | none => rfl
  | some mac =>
      simp only [Option.bind_eq_bind, Option.bind_some]
      cases mac.copyAll (scanStores e [2, 3]
          ([b 2, b 3].map fun x => Scanned.word (BitVec.ofInt 32 x.toNat))) with
      | none => rfl
      | some mac =>
          simp [scannedWord, Option.map_eq_bind]

end BcmUtils.MacList
