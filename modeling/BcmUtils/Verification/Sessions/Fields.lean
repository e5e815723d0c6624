import BcmUtils.Foundation.Fields
import BcmUtils.Model.Sessions

/-! # The fields that a session line sets -/

namespace BcmUtils.Sessions

open CLib

/-- What an entry of the block tells of a session. -/
structure VtyInfo where
  remoteIp : CStr
  remotePort : BitVec 32
  localIp : CStr
  localPort : BitVec 32
  lineId : BitVec 32
  pid : BitVec 32
  deriving DecidableEq

/-- An entry that no session has set. -/
def VtyInfo.empty : VtyInfo := ⟨[], 0, [], 0, 0, 0⟩

/-- The addresses end within their fields. -/
structure VtyInfo.Fits (v : VtyInfo) : Prop where
  remote : v.remoteIp.length < 64
  locally : v.localIp.length < 64

/-- The bytes of an entry. -/
def VtyInfo.bytes (e : Endian) (v : VtyInfo) : List Byte :=
  padRow 64 v.remoteIp ++ (bytesOf e v.remotePort ++ (padRow 64 v.localIp ++
    (bytesOf e v.localPort ++ (bytesOf e v.lineId ++ bytesOf e v.pid))))

/-- A line of one of the two files. -/
inductive Session
  | telnet (line : CStr)
  | ssh (line : CStr)
  deriving DecidableEq

/-- The text that a conversion stored, if it did. -/
def textOf : Option Scanned → CStr
  | some (.text s) => s
  | _ => []

/-- The word that a conversion stored, if it did. -/
def wordIn : Option Scanned → BitVec 32
  | some (.word w) => w
  | _ => 0

namespace Session

/-- What a line tells of its session. -/
def info : Session → VtyInfo
  | telnet line =>
      let vs := sscanf telnetFormat line
      ⟨textOf vs[0]?, wordIn vs[1]?, textOf vs[2]?, wordIn vs[3]?, wordIn vs[4]?, 0⟩
  | ssh line =>
      let vs := sscanf sshFormat line
      ⟨textOf vs[0]?, wordIn vs[1]?, [], 22, wordIn vs[3]?, wordIn vs[2]?⟩

/-- The stores of a line into an entry. -/
def stores (e : Endian) (lineCnt : ℕ) : Session → List (ℕ × List Byte)
  | telnet line => telnetStores e lineCnt line
  | ssh line => sshStores e lineCnt line

end Session

/-! ## The entry of a line -/

/-- The widths of the fields. -/
def widths : List ℕ := [64, 4, 64, 4, 4, 4]

/-- The bytes that a conversion stored, if it did. -/
def stored (e : Endian) (v : Option Scanned) : List Byte := v.elim [] (Scanned.bytes e)

/-- The conversions of telnet go to the first five fields. -/
theorem setFields_telnet (e : Endian) : ∀ vs : List Scanned,
    setFields [0, 1, 2, 3, 4] (vs.map (Scanned.bytes e)) [[], [], [], [], [], []] =
      [stored e vs[0]?, stored e vs[1]?, stored e vs[2]?, stored e vs[3]?, stored e vs[4]?, []]
  | [] => rfl
  | [_] => rfl
  | [_, _] => rfl
  | [_, _, _] => rfl
  | [_, _, _, _] => rfl
  | _ :: _ :: _ :: _ :: _ :: _ => rfl

/-- The conversions of ssh go to the remote fields, the process and the line. -/
theorem setFields_ssh (e : Endian) : ∀ vs : List Scanned,
    setFields [0, 1, 5, 4] (vs.map (Scanned.bytes e)) [[], [], [], [], [], []] =
      [stored e vs[0]?, stored e vs[1]?, [], [], stored e vs[3]?, stored e vs[2]?]
  | [] => rfl
  | [_] => rfl
  | [_, _] => rfl
  | [_, _, _] => rfl
  | _ :: _ :: _ :: _ :: _ => rfl

/-- A text with room for its terminator fills its field. -/
theorem padRow_text {e : Endian} {v : Option Scanned}
    (hkind : ∀ x ∈ v, ∃ s, x = .text s) (hlen : (textOf v).length < 64) :
    padRow 64 (stored e v) = padRow 64 (textOf v) := by
  cases v with
  | none => rfl
  | some x =>
      obtain ⟨s, rfl⟩ := hkind x rfl
      have hroom : 64 - s.length = 64 - (s ++ [0]).length + 1 := by
        rw [textOf] at hlen
        rw [List.length_append, List.length_singleton]
        omega
      simp only [stored, Option.elim_some, Scanned.bytes, textOf, padRow, hroom,
        List.replicate_succ, List.append_assoc, List.singleton_append]

/-- A word fills its field. -/
theorem padRow_word {e : Endian} {v : Option Scanned} (hkind : ∀ x ∈ v, ∃ w, x = .word w) :
    padRow 4 (stored e v) = bytesOf e (wordIn v) := by
  cases v with
  | none => cases e <;> rfl
  | some x =>
      obtain ⟨w, rfl⟩ := hkind x rfl
      simp [stored, Scanned.bytes, wordIn, padRow]

theorem text_of_stores {ds : List Directive} {s : CStr} {k : ℕ} {c : Byte}
    (h : (ds.filter Directive.Converts)[k]? = some (.upTo c)) :
    ∀ x ∈ (sscanf ds s)[k]?, ∃ u, x = .text u := by
  intro x hx
  obtain ⟨d, hd, hstores⟩ := stores_of_sscanf hx
  obtain rfl := Option.some.inj (h.symm.trans hd)
  cases x with
  | text u => exact ⟨u, rfl⟩
  | word w => exact hstores.elim

theorem word_of_stores {ds : List Directive} {s : CStr} {k : ℕ}
    (h : (ds.filter Directive.Converts)[k]? = some .int) :
    ∀ x ∈ (sscanf ds s)[k]?, ∃ w, x = .word w := by
  intro x hx
  obtain ⟨d, hd, hstores⟩ := stores_of_sscanf hx
  obtain rfl := Option.some.inj (h.symm.trans hd)
  cases x with
  | text u => exact hstores.elim
  | word w => exact ⟨w, rfl⟩

theorem length_stored_text {e : Endian} {v : Option Scanned} (hkind : ∀ x ∈ v, ∃ s, x = .text s)
    (hlen : (textOf v).length < 64) : (stored e v).length ≤ 64 := by
  cases v with
  | none => simp [stored]
  | some x =>
      obtain ⟨s, rfl⟩ := hkind x rfl
      rw [textOf] at hlen
      simp only [stored, Option.elim_some, Scanned.bytes, List.length_append,
        List.length_singleton]
      omega

theorem length_stored_word {e : Endian} {v : Option Scanned}
    (hkind : ∀ x ∈ v, ∃ w, x = .word w) : (stored e v).length ≤ 4 := by
  cases v with
  | none => simp [stored]
  | some x =>
      obtain ⟨w, rfl⟩ := hkind x rfl
      simp [stored, Scanned.bytes]

/-- The empty fields of an entry. -/
def noFields : List (List Byte) := [[], [], [], [], [], []]

theorem fieldsFit_noFields : FieldsFit widths noFields := by
  simp [FieldsFit, widths, noFields]

theorem recordBytes_noFields : recordBytes widths noFields = List.replicate vtyInfoSize 0 := by
  decide

theorem padRow_zero (e : Endian) : padRow 4 [] = bytesOf e 0 := by
  cases e <;> rfl

theorem scanStores_eq {e : Endian} {base : ℕ} {offs js : List ℕ}
    (h : offs = js.map fun j => base + (widths.take j).sum) (vs : List Scanned) :
    scanStores e offs vs = List.zipWith (fun j src => (base + (widths.take j).sum, src)) js
      (vs.map (Scanned.bytes e)) := by
  rw [scanStores, h, List.zipWith_map_left, List.zipWith_map_right]

section

variable {n k : ℕ} (e : Endian) {line : CStr} {pre post : List Byte}
  (hpre : pre.length = k * vtyInfoSize) {b : Block n}
  (hb : b.1 = pre ++ (List.replicate vtyInfoSize 0 ++ post))

include hpre hb

/-- A line of telnet with addresses that fit fills its entry. -/
theorem telnetStores_spec (hfits : (Session.telnet line).info.Fits) :
    ∃ b', b.copyAll (telnetStores e k line) = some b' ∧
      b'.1 = pre ++ ((Session.telnet line).info.bytes e ++ post) := by
  have h₀ := @text_of_stores telnetFormat line 0 (chr ',') rfl
  have h₁ := @word_of_stores telnetFormat line 1 rfl
  have h₂ := @text_of_stores telnetFormat line 2 (chr ',') rfl
  have h₃ := @word_of_stores telnetFormat line 3 rfl
  have h₄ := @word_of_stores telnetFormat line 4 rfl
  have hset : FieldsFit widths (setFields [0, 1, 2, 3, 4]
      ((sscanf telnetFormat line).map (Scanned.bytes e)) noFields) := by
    rw [noFields, setFields_telnet]
    exact .cons (length_stored_text h₀ hfits.remote) (.cons (length_stored_word h₁)
      (.cons (length_stored_text h₂ hfits.locally) (.cons (length_stored_word h₃)
        (.cons (length_stored_word h₄) (.cons (by simp) .nil)))))
  rw [← recordBytes_noFields] at hb
  obtain ⟨b', hcopy, hb'⟩ := copyAll_record fieldsFit_noFields (by decide) (by decide) hset hb
  refine ⟨b', ?_, ?_⟩
  · have hoffs : ([0, 64, 68, 132, 136].map fun off => k * vtyInfoSize + off) =
        [0, 1, 2, 3, 4].map fun j => pre.length + (widths.take j).sum := by
      simp [widths, hpre]
    rw [telnetStores, scanStores_eq hoffs, hcopy]
  · rw [hb', noFields, setFields_telnet]
    simp only [recordBytes, widths, List.zipWith_cons_cons, List.zipWith_nil_right,
      List.flatten_cons, List.flatten_nil, List.append_nil, padRow_text h₀ hfits.remote,
      padRow_word h₁, padRow_text h₂ hfits.locally, padRow_word h₃, padRow_word h₄,
      padRow_zero e]
    rfl

/-- A line of ssh with an address that fits fills its entry. -/
theorem sshStores_spec (hfits : (Session.ssh line).info.Fits) :
    ∃ b', b.copyAll (sshStores e k line) = some b' ∧
      b'.1 = pre ++ ((Session.ssh line).info.bytes e ++ post) := by
  have h₀ := @text_of_stores sshFormat line 0 (chr ',') rfl
  have h₁ := @word_of_stores sshFormat line 1 rfl
  have h₂ := @word_of_stores sshFormat line 2 rfl
  have h₃ := @word_of_stores sshFormat line 3 rfl
  have hset : FieldsFit widths (setFields [0, 1, 5, 4]
      ((sscanf sshFormat line).map (Scanned.bytes e)) noFields) := by
    rw [noFields, setFields_ssh]
    exact .cons (length_stored_text h₀ hfits.remote) (.cons (length_stored_word h₁)
      (.cons (by simp) (.cons (by simp) (.cons (length_stored_word h₃)
        (.cons (length_stored_word h₂) .nil)))))
  rw [← recordBytes_noFields] at hb
  obtain ⟨b₁, hcopy, hb₁⟩ := copyAll_record fieldsFit_noFields (by decide) (by decide) hset hb
  have hempty : ∀ j ∈ [3], (setFields [0, 1, 5, 4]
      ((sscanf sshFormat line).map (Scanned.bytes e)) noFields)[j]? = some [] := by
    intro j hj
    rw [List.mem_singleton.mp hj, noFields, setFields_ssh]
    rfl
  have hport : FieldsFit widths (setFields [3] [bytesOf e 22] (setFields [0, 1, 5, 4]
      ((sscanf sshFormat line).map (Scanned.bytes e)) noFields)) :=
    hset.set (j := 3) (w := 4) rfl (by simp)
  obtain ⟨b₂, hcopy₂, hb₂⟩ := copyAll_record hset (by decide) hempty hport hb₁
  refine ⟨b₂, ?_, ?_⟩
  · have hoffs : ([0, 64, 140, 136].map fun off => k * vtyInfoSize + off) =
        [0, 1, 5, 4].map fun j => pre.length + (widths.take j).sum := by
      simp [widths, hpre]
    rw [sshStores, scanStores_eq hoffs, ← hpre, Block.copyAll, List.foldlM_append]
    exact (bind_of_eq hcopy _).trans hcopy₂
  · have hportRow : padRow 4 (bytesOf e 22) = bytesOf e 22 :=
      @padRow_word e (some (.word 22)) (by simp)
    rw [hb₂, noFields, setFields_ssh]
    simp only [recordBytes, widths, setFields, List.set_cons_succ, List.set_cons_zero,
      List.zipWith_cons_cons, List.zipWith_nil_right, List.flatten_cons, List.flatten_nil,
      List.append_nil, padRow_text h₀ hfits.remote, padRow_word h₁, padRow_word h₂,
      padRow_word h₃, hportRow]
    rfl

end

end BcmUtils.Sessions
