import BcmUtils.Foundation.Stores
import BcmUtils.Foundation.Words

/-! # Records with fields

A table of records in memory, each filled by copies to the start of its fields. Over zeros
every field is then read back, as a string or as a word. -/

namespace CLib

/-- A field of a record: its offset, its width, and the bytes copied to its start. -/
structure Field where
  off : ℕ
  width : ℕ
  bytes : List Byte

namespace Field

def store (f : Field) : ℕ × List Byte := (f.off, f.bytes)

/-- A field that ends where the other one starts, or before. -/
def Before (f g : Field) : Prop := f.off + f.width ≤ g.off

/-- The bytes stay within the field. -/
def Fits (f : Field) : Prop := f.bytes.length ≤ f.width

/-- The memory holds the bytes in the field, and zeros behind them. -/
def Window (memory : List Byte) (f : Field) : Prop :=
  (memory.drop f.off).take f.width = padRow f.width f.bytes

end Field

/-- What the copies leave of a field over zeros. -/
theorem window_of_fields {fs : List Field} (hbefore : fs.Pairwise Field.Before)
    (hfits : ∀ f ∈ fs, f.Fits) {memory : List Byte} {n : ℕ}
    (hget : ∀ j : ℕ, j < n → memory[j]? = (covered (fs.map Field.store) j).or (some 0))
    {f : Field} (hf : f ∈ fs) (hn : f.off + f.width ≤ n) : f.Window memory := by
  obtain ⟨pre, post, rfl⟩ := List.append_of_mem hf
  have hlen : f.bytes.length ≤ f.width := hfits f hf
  have hsplit := List.pairwise_append.mp hbefore
  have hpre : ∀ j : ℕ, f.off ≤ j → covered (pre.map Field.store) j = none := by
    intro j hj
    refine covered_of_le fun w hw => ?_
    obtain ⟨g, hg, rfl⟩ := List.mem_map.mp hw
    have hg' : g.bytes.length ≤ g.width := hfits g (List.mem_append_left _ hg)
    have : g.off + g.width ≤ f.off := hsplit.2.2 g hg f List.mem_cons_self
    simp only [Field.store]
    omega
  have hpost : ∀ j : ℕ, j < f.off + f.width → covered (post.map Field.store) j = none := by
    intro j hj
    refine covered_of_lt fun w hw => ?_
    obtain ⟨g, hg, rfl⟩ := List.mem_map.mp hw
    have : f.off + f.width ≤ g.off := (List.pairwise_cons.mp hsplit.2.1).1 g hg
    simp only [Field.store]
    omega
  have hbyte : ∀ k : ℕ, k < f.width → memory[f.off + k]? = f.bytes[k]?.or (some 0) := by
    intro k hk
    rw [hget _ (by omega), List.map_append, covered_append, List.map_cons, covered,
      hpre _ (by omega), hpost _ (by omega), Option.none_or, Option.or_none, Field.store,
      putAt_add]
  apply List.ext_getElem?
  intro k
  by_cases hk : k < f.width
  · rw [List.getElem?_take_of_lt hk, List.getElem?_drop, hbyte k hk, padRow]
    by_cases hb : k < f.bytes.length
    · rw [List.getElem?_append_left hb, List.getElem?_eq_getElem hb]
      rfl
    · rw [List.getElem?_append_right (by omega), List.getElem?_eq_none (by omega),
        List.getElem?_replicate, if_pos (by omega)]
      rfl
  · rw [List.getElem?_eq_none (by rw [List.length_take]; omega), List.getElem?_eq_none (by
      rw [padRow, List.length_append, List.length_replicate]
      omega)]

/-- A text with room for its terminator is read from its field. -/
theorem readStr_of_window {memory : List Byte} {off width : ℕ} {s : CStr} (hs : (0 : Byte) ∉ s)
    (hlen : s.length < width) (h : Field.Window memory ⟨off, width, s⟩) :
    readStr off memory = some s := by
  have hget : ∀ k : ℕ, k < width → memory[off + k]? = (padRow width s)[k]? := by
    intro k hk
    have hw : (memory.drop off).take width = padRow width s := h
    rw [← hw, List.getElem?_take_of_lt hk, List.getElem?_drop]
  apply readStr_of_getElem? hs
  · intro k hk
    rw [hget k (by omega), padRow, List.getElem?_append_left hk]
  · rw [hget _ hlen, padRow, List.getElem?_append_right le_rfl, List.getElem?_replicate,
      if_pos (by omega)]

/-- A field that is filled holds the bytes copied to it. -/
theorem take_of_window {memory : List Byte} {off width : ℕ} {s : List Byte}
    (hlen : s.length = width) (h : Field.Window memory ⟨off, width, s⟩) :
    (memory.drop off).take width = s := by
  have hw : (memory.drop off).take width = padRow width s := h
  rw [hw, padRow, hlen, Nat.sub_self, List.replicate_zero, List.append_nil]

/-! ## Tables -/

section

variable {α : Type} (fields : ℕ → α → List Field) (size : ℕ)

/-- The fields of a record of `size` bytes that starts at a given offset, in the order of the
memory. -/
structure Layout : Prop where
  before : ∀ base a, (fields base a).Pairwise Field.Before
  within : ∀ base a, ∀ f ∈ fields base a, base ≤ f.off ∧ f.off + f.width ≤ base + size

/-- The fields of the records from slot `i` on. -/
def tableFields : ℕ → List α → List Field
  | _, [] => []
  | i, a :: as => fields (i * size) a ++ tableFields (i + 1) as

variable {fields size}

/-- The offsets and widths of a record say whether its fields are laid out in order. -/
theorem layout_of_widths (widths : List (ℕ × ℕ))
    (hfields : ∀ base a, (fields base a).map (fun f => (f.off, f.width)) =
      widths.map fun p => (base + p.1, p.2))
    (hbefore : widths.Pairwise fun p q => p.1 + p.2 ≤ q.1)
    (hwithin : ∀ p ∈ widths, p.1 + p.2 ≤ size) : Layout fields size where
  before base a := by
    have hpairs : ((fields base a).map fun f => (f.off, f.width)).Pairwise
        fun p q => p.1 + p.2 ≤ q.1 := by
      rw [hfields, List.pairwise_map]
      exact hbefore.imp fun {p q} h => by
        change base + p.1 + p.2 ≤ base + q.1
        omega
    rw [List.pairwise_map] at hpairs
    exact hpairs
  within base a f hf := by
    have hmem := List.mem_map_of_mem (f := fun f : Field => (f.off, f.width)) hf
    rw [hfields] at hmem
    obtain ⟨p, hp, heq⟩ := List.mem_map.mp hmem
    obtain ⟨hoff, hwidth⟩ := Prod.mk.inj heq
    have hend := hwithin p hp
    omega

theorem mem_tableFields {i : ℕ} {as : List α} {f : Field} (h : f ∈ tableFields fields size i as) :
    ∃ a ∈ as, ∃ k, i ≤ k ∧ k < i + as.length ∧ f ∈ fields (k * size) a := by
  induction as generalizing i with
  | nil => simp [tableFields] at h
  | cons a as ih =>
      rcases List.mem_append.mp h with h | h
      · exact ⟨a, List.mem_cons_self, i, le_rfl, by simp, h⟩
      · obtain ⟨b, hb, k, hle, hlt, hf⟩ := ih h
        rw [List.length_cons]
        exact ⟨b, List.mem_cons_of_mem _ hb, k, by omega, by omega, hf⟩

theorem mem_tableFields_of_getElem? {i k : ℕ} {as : List α} {a : α} (h : as[k]? = some a)
    {f : Field} (hf : f ∈ fields ((i + k) * size) a) : f ∈ tableFields fields size i as := by
  induction as generalizing i k with
  | nil => simp at h
  | cons b as ih =>
      cases k with
      | zero =>
          obtain rfl := Option.some.inj h
          exact List.mem_append_left _ hf
      | succ k =>
          refine List.mem_append_right _ (ih h ?_)
          rwa [Nat.add_assoc, Nat.add_comm 1]

theorem Layout.bounds (hl : Layout fields size) {i : ℕ} {as : List α} {f : Field}
    (h : f ∈ tableFields fields size i as) :
    i * size ≤ f.off ∧ f.off + f.width ≤ (i + as.length) * size := by
  obtain ⟨a, -, k, hle, hlt, hf⟩ := mem_tableFields h
  obtain ⟨hoff, hend⟩ := hl.within _ _ f hf
  have hstart := Nat.mul_le_mul_right size hle
  have hstop := Nat.mul_le_mul_right size (Nat.succ_le_of_lt hlt)
  rw [Nat.succ_mul] at hstop
  exact ⟨hstart.trans hoff, hend.trans hstop⟩

theorem Layout.pairwise (hl : Layout fields size) (i : ℕ) (as : List α) :
    (tableFields fields size i as).Pairwise Field.Before := by
  induction as generalizing i with
  | nil => exact List.Pairwise.nil
  | cons a as ih =>
      refine List.pairwise_append.mpr ⟨hl.before _ a, ih (i + 1), fun f hf g hg => ?_⟩
      have hend := (hl.within _ _ f hf).2
      have hstart := (hl.bounds hg).1
      rw [Nat.succ_mul] at hstart
      exact hend.trans hstart

end

/-! ## One record stored field by field -/

/-- The bytes of a record with fields of the given widths. -/
def recordBytes (ws : List ℕ) (fs : List (List Byte)) : List Byte :=
  (List.zipWith padRow ws fs).flatten

/-- The fields with the numbers `js` set, one after the other. -/
def setFields : List ℕ → List (List Byte) → List (List Byte) → List (List Byte)
  | j :: js, src :: srcs, fs => setFields js srcs (fs.set j src)
  | _, _, fs => fs

theorem length_padRow_of_le {w : ℕ} {f : List Byte} (h : f.length ≤ w) :
    (padRow w f).length = w := by
  simp only [padRow, List.length_append, List.length_replicate]
  omega

/-- Bytes copied to an empty field fill its start. -/
theorem splice_record {ws : List ℕ} {fs : List (List Byte)}
    (hfits : List.Forall₂ (fun w f => f.length ≤ w) ws fs) {j w : ℕ} (hw : ws[j]? = some w)
    (hj : fs[j]? = some []) {src : List Byte} (hsrc : src.length ≤ w) (pre post : List Byte) :
    splice (pre.length + (ws.take j).sum) src (pre ++ (recordBytes ws fs ++ post)) =
      pre ++ (recordBytes ws (fs.set j src) ++ post) := by
  induction hfits generalizing j pre with
  | nil => simp at hw
  | @cons v f ws fs hf hfits ih =>
      cases j with
      | zero =>
          obtain rfl := Option.some.inj hw
          obtain rfl := Option.some.inj hj
          have hzeros : padRow v [] = List.replicate src.length 0 ++
              List.replicate (v - src.length) 0 := by
            rw [padRow, ← List.replicate_add, List.nil_append, List.length_nil]
            congr 1
            omega
          have hcopy : splice pre.length src (pre ++ (List.replicate src.length 0 ++
              (List.replicate (v - src.length) 0 ++ (recordBytes ws fs ++ post)))) =
              pre ++ (src ++ (List.replicate (v - src.length) 0 ++
                (recordBytes ws fs ++ post))) := by
            simp [splice]
          simp only [recordBytes, List.zipWith_cons_cons, List.flatten_cons, List.set_cons_zero,
            List.take_zero, List.sum_nil, Nat.add_zero] at hcopy ⊢
          rw [hzeros, List.append_assoc, List.append_assoc, hcopy, padRow]
          simp only [List.append_assoc]
      | succ j =>
          have hnext := ih hw hj (pre ++ padRow v f)
          rw [List.length_append, length_padRow_of_le hf] at hnext
          simp only [recordBytes, List.zipWith_cons_cons, List.flatten_cons, List.set_cons_succ,
            List.take_succ_cons, List.sum_cons, List.append_assoc, Nat.add_assoc] at hnext ⊢
          exact hnext

/-- The fields of a record fit their widths. -/
abbrev FieldsFit (ws : List ℕ) (fs : List (List Byte)) : Prop :=
  List.Forall₂ (fun w f => f.length ≤ w) ws fs

theorem length_recordBytes {ws : List ℕ} {fs : List (List Byte)} (h : FieldsFit ws fs) :
    (recordBytes ws fs).length = ws.sum := by
  induction h with
  | nil => rfl
  | cons hf _ ih =>
      rw [recordBytes] at ih ⊢
      rw [List.zipWith_cons_cons, List.flatten_cons, List.length_append, length_padRow_of_le hf, ih,
        List.sum_cons]

theorem FieldsFit.set {ws : List ℕ} {fs : List (List Byte)} (h : FieldsFit ws fs) {j w : ℕ}
    (hw : ws[j]? = some w) {src : List Byte} (hsrc : src.length ≤ w) :
    FieldsFit ws (fs.set j src) := by
  induction h generalizing j with
  | nil => simp at hw
  | cons hf hfits ih =>
      cases j with
      | zero =>
          obtain rfl := Option.some.inj hw
          exact .cons hsrc hfits
      | succ j => exact .cons hf (ih hw)

theorem sum_take_add_le {ws : List ℕ} {j w : ℕ} (hw : ws[j]? = some w) :
    (ws.take j).sum + w ≤ ws.sum := by
  obtain ⟨hlt, rfl⟩ := List.getElem?_eq_some_iff.mp hw
  have hsum := List.sum_take_add_sum_drop ws (j + 1)
  rw [List.take_succ_eq_append_getElem hlt, List.sum_append, List.sum_singleton] at hsum
  omega

theorem FieldsFit.exists_width {ws : List ℕ} {fs : List (List Byte)} (h : FieldsFit ws fs) {j : ℕ}
    {f : List Byte} (hf : fs[j]? = some f) : ∃ w, ws[j]? = some w ∧ f.length ≤ w := by
  induction h generalizing j with
  | nil => simp at hf
  | @cons w g ws fs hg _ ih =>
      cases j with
      | zero =>
          obtain rfl := Option.some.inj hf
          exact ⟨w, rfl, hg⟩
      | succ j => exact ih hf

theorem setFields_of_not_mem {js : List ℕ} {j : ℕ} (h : j ∉ js) (srcs fs : List (List Byte)) :
    (setFields js srcs fs)[j]? = fs[j]? := by
  induction js generalizing srcs fs with
  | nil => rfl
  | cons i js ih =>
      cases srcs with
      | nil => rfl
      | cons src srcs =>
          rw [List.mem_cons, not_or] at h
          rw [setFields, ih h.2, List.getElem?_set_ne (Ne.symm h.1)]

/-- Copies to different empty fields set each of them. -/
theorem copyAll_record {n : ℕ} {ws : List ℕ} {fs : List (List Byte)} (hfits : FieldsFit ws fs)
    {js : List ℕ} (hnodup : js.Nodup) (hempty : ∀ j ∈ js, fs[j]? = some [])
    {srcs : List (List Byte)} (hset : FieldsFit ws (setFields js srcs fs)) {pre post : List Byte}
    {b : Block n} (hb : b.1 = pre ++ (recordBytes ws fs ++ post)) :
    ∃ b', b.copyAll (List.zipWith (fun j src => (pre.length + (ws.take j).sum, src)) js srcs) =
        some b' ∧
      b'.1 = pre ++ (recordBytes ws (setFields js srcs fs) ++ post) := by
  induction js generalizing srcs fs b with
  | nil => exact ⟨b, rfl, hb⟩
  | cons j js ih =>
      cases srcs with
      | nil => exact ⟨b, rfl, hb⟩
      | cons src srcs =>
          have hj := hempty j List.mem_cons_self
          obtain ⟨hnotin, hnodup⟩ := List.nodup_cons.mp hnodup
          have hstays : (setFields (j :: js) (src :: srcs) fs)[j]? = some src := by
            rw [setFields, setFields_of_not_mem hnotin,
              List.getElem?_set_self (List.getElem?_eq_some_iff.mp hj).1]
          obtain ⟨w, hw, hsrc⟩ := hset.exists_width hstays
          have hlen := b.2
          rw [hb, List.length_append, List.length_append, length_recordBytes hfits] at hlen
          have hend := sum_take_add_le hw
          have hroom : pre.length + (ws.take j).sum + src.length ≤ n := by omega
          obtain ⟨b₁, hcopy, hb₁⟩ := Block.copy_of_le (b := b) hroom
          rw [hb, splice_record hfits hw hj hsrc] at hb₁
          have hempty' : ∀ i ∈ js, (fs.set j src)[i]? = some [] := by
            intro i hi
            have hne : j ≠ i := by
              rintro rfl
              exact hnotin hi
            rw [List.getElem?_set_ne hne]
            exact hempty i (List.mem_cons_of_mem _ hi)
          obtain ⟨b₂, hrun, hb₂⟩ := ih (hfits.set hw hsrc) hnodup hempty' hset hb₁
          refine ⟨b₂, ?_, hb₂⟩
          rw [Block.copyAll, List.zipWith_cons_cons, List.foldlM_cons, hcopy]
          exact hrun

end CLib
