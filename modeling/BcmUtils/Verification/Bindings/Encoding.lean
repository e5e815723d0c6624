import BcmUtils.Foundation.Hex
import BcmUtils.Model.Bindings
import BcmUtils.Verification.PortList.Bounds

/-! # The strings written for bindings and ARP entries

Both lists are stored exactly if their text stays within the block allocated by the number of
records and within the message to the configuration manager. -/

namespace BcmUtils.Bindings

open CLib

/-! ## Storing -/

/-- The room for a text of `total` bytes made from `count` records. -/
def Room (name : CStr) (len count total : ℕ) : Prop :=
  total < len * count ∧ name.length + 1 + total < 4500

instance (name : CStr) (len count total : ℕ) : Decidable (Room name len count total) :=
  inferInstanceAs (Decidable (_ ∧ _))

theorem setTexts_eq (name : CStr) (len : ℕ) {count : ℕ} {xs : List CStr}
    (hx : ∀ x ∈ xs, x.length < 140) (nv : Nvram) :
    setTexts name len count xs nv =
      if Room name len count xs.flatten.length then
        some (CLI_SUCCESS, Function.update nv name xs.flatten)
      else none := by
  have hcap : ((len : ℤ) * (count : ℤ)).toNat = len * count := by
    rw [← Int.natCast_mul, Int.toNat_natCast]
  have hmessage : (name ++ chr '=' :: xs.flatten).length = name.length + 1 + xs.flatten.length := by
    rw [List.length_append, List.length_cons]
    omega
  rw [setTexts]
  simp only [hcap]
  by_cases hzero : 0 < len * count
  · rw [bind_of_eq (store_of_lt (by simpa using hzero)), appendTexts_eq hx (by simpa using hzero),
      List.nil_append]
    by_cases hfit : xs.flatten.length < len * count
    · rw [if_pos hfit, bind_of_eq rfl, scfgmgrSet, setMessage, store, hmessage]
      by_cases hmsg : name.length + 1 + xs.flatten.length < 4500
      · rw [if_pos hmsg, if_pos ⟨hfit, hmsg⟩]
        rfl
      · rw [if_neg hmsg, if_neg fun h => hmsg h.2]
        rfl
    · rw [if_neg hfit, if_neg fun h => hfit h.1]
      rfl
  · rw [store, if_neg (by simpa using hzero), if_neg fun h => hzero ((Nat.zero_le _).trans_lt h.1)]
    rfl

/-! ## Hexadecimal bytes and addresses -/

theorem hexDigit_of_isHex {d : ℕ} {b : Byte} (h : IsHex d b) :
    ∃ x, hexDigit b = some x ∧ x.toNat = d := by
  have hdigit : hexDigit b = some (UInt8.ofNat d) := by
    refine h.forall_digits (p := fun d b => hexDigit b = some (UInt8.ofNat d)) ?_ ?_
    · decide +kernel
    · decide +kernel
  have hlt := h.lt
  exact ⟨_, hdigit, UInt8.toNat_ofNat_of_lt' (by simp only [UInt8.size]; omega)⟩

theorem str2macByte_pair {b : Byte} {p : Byte × Byte} (h : IsHexPair b p) (v : Byte) :
    str2macByte p.1 p.2 v = b := by
  have hb := b.toNat_lt
  have hsixteen : (16 : Byte).toNat = 16 := rfl
  obtain ⟨hi, hhi, hhi'⟩ := hexDigit_of_isHex h.1
  obtain ⟨lo, hlo, hlo'⟩ := hexDigit_of_isHex h.2
  simp only [str2macByte, hhi, hlo]
  apply UInt8.toNat_inj.mp
  rw [UInt8.toNat_add, UInt8.toNat_mul, hsixteen]
  omega

/-- `cli_str2mac` sets every byte of the array from the two digits that follow at the offset. -/
theorem cliStr2mac_pairs {mac : List Byte} {pairs : List (Byte × Byte)}
    (h : List.Forall₂ IsHexPair mac pairs) (pre t : CStr) {val : List Byte}
    (hval : val.length = mac.length) :
    cliStr2mac (pre ++ (pairs.flatMap (fun p => [p.1, p.2]) ++ t)) pre.length val = some mac := by
  induction h generalizing pre val with
  | nil =>
      obtain rfl := List.eq_nil_of_length_eq_zero hval
      rfl
  | @cons b p mac pairs hp hrest ih =>
      cases val with
      | nil => cases hval
      | cons v val =>
          have hlo := charAt_append (pre ++ [p.1]) p.2 (pairs.flatMap (fun p => [p.1, p.2]) ++ t)
          have hnext := ih (pre ++ [p.1, p.2]) (Nat.succ.inj hval)
          simp only [List.append_assoc, List.cons_append, List.nil_append, List.length_append,
            List.length_cons, List.length_nil] at hlo hnext
          rw [List.flatMap_cons, List.cons_append, List.singleton_append, List.cons_append,
            List.cons_append, cliStr2mac, bind_of_eq (charAt_append pre _ _), bind_of_eq hlo,
            bind_of_eq hnext, str2macByte_pair hp]
          rfl

/-- The digits of a byte spell it, and are no separators. -/
theorem printHex_spec (b : Byte) :
    IsHexPair b (hexChar (b / 16), hexChar (b % 16)) ∧
      chr '|' ∉ printHex b ∧ chr ';' ∉ printHex b := by
  have hall : ∀ n : Fin 256,
      IsHexPair (UInt8.ofNat n) (hexChar (UInt8.ofNat n / 16), hexChar (UInt8.ofNat n % 16)) ∧
        chr '|' ∉ printHex (UInt8.ofNat n) ∧ chr ';' ∉ printHex (UInt8.ofNat n) := by
    decide +kernel
  have hb := hall ⟨b.toNat, b.toNat_lt⟩
  simpa using hb

theorem not_mem_flatMap_printHex {c : Byte} (hc : c = chr '|' ∨ c = chr ';') (mac : List Byte) :
    c ∉ mac.flatMap printHex := by
  rw [List.mem_flatMap]
  rintro ⟨b, -, hb⟩
  rcases hc with rfl | rfl
  · exact (printHex_spec b).2.1 hb
  · exact (printHex_spec b).2.2 hb

theorem length_flatMap_printHex (mac : List Byte) :
    (mac.flatMap printHex).length = 2 * mac.length :=
  @length_flatMap_eq _ printHex 2 (fun _ => rfl) mac

/-- `cli_str2mac` reads the bytes whose digits follow at the offset. -/
theorem cliStr2mac_flatMap (pre : CStr) (mac : List Byte) (t : CStr) :
    cliStr2mac (pre ++ (mac.flatMap printHex ++ t)) pre.length (List.replicate mac.length 0) =
      some mac := by
  have hpairs : List.Forall₂ IsHexPair mac
      (mac.map fun b => (hexChar (b / 16), hexChar (b % 16))) := by
    rw [List.forall₂_map_right_iff, List.forall₂_same]
    exact fun b _ => (printHex_spec b).1
  have hread := cliStr2mac_pairs hpairs pre t (List.length_replicate (a := (0 : Byte)))
  rw [List.flatMap_map] at hread
  exact hread

theorem inetPart_printNat (b : Byte) : inetPart (printNat b.toNat) = some b := by
  have hall : ∀ n : Fin 256, inetPart (printNat n) = some (UInt8.ofNat n) := by
    decide +kernel
  have hb := hall ⟨b.toNat, b.toNat_lt⟩
  simpa using hb

/-- `inet_pton` inverts `inet_ntoa`. -/
theorem inetPton_inetNtoa {addr : List Byte} (h : addr.length = 4) :
    inetPton (inetNtoa addr) = some addr := by
  have hparts : (inetNtoa addr).splitOn (chr '.') = addr.map fun b => printNat b.toNat :=
    splitOn_intercalate_map (List.ne_nil_of_length_pos (by simp [h]))
      fun _ _ => not_mem_printNat (by decide) _
  rw [inetPton, hparts, List.length_map, if_pos h]
  refine mapM_of_getElem? (by simp) fun k x b hx hb => ?_
  rw [List.getElem?_map, hb] at hx
  obtain rfl := Option.some.inj hx
  exact inetPart_printNat b

theorem not_mem_inetNtoa {c : Byte} (hc : isDigit c = false) (hdot : c ≠ chr '.')
    (addr : List Byte) : c ∉ inetNtoa addr := by
  induction addr with
  | nil => simp [inetNtoa]
  | cons b addr ih =>
      have hb := not_mem_printNat hc b.toNat
      cases addr with
      | nil => simpa [inetNtoa] using hb
      | cons b' addr =>
          have htext : inetNtoa (b :: b' :: addr) =
              printNat b.toNat ++ chr '.' :: inetNtoa (b' :: addr) := by
            simp [inetNtoa, List.intercalate]
          rw [htext, List.mem_append, List.mem_cons]
          tauto

theorem length_inetNtoa_le {addr : List Byte} (h : addr.length = 4) :
    (inetNtoa addr).length ≤ 15 := by
  have hwidth : ∀ b : Byte, (printNat b.toNat).length ≤ 3 := fun b =>
    length_printNat_le (by omega) (by have := b.toNat_lt; omega)
  obtain ⟨a, rest, rfl⟩ := List.exists_cons_of_length_eq_add_one h
  obtain ⟨b, rest, rfl⟩ := List.exists_cons_of_length_eq_add_one (by simpa using h)
  obtain ⟨c, rest, rfl⟩ := List.exists_cons_of_length_eq_add_one (by simpa using h)
  obtain ⟨d, rest, rfl⟩ := List.exists_cons_of_length_eq_add_one (by simpa using h)
  obtain rfl := List.eq_nil_of_length_eq_zero (by simpa using h)
  have ha := hwidth a
  have hb := hwidth b
  have hc := hwidth c
  have hd := hwidth d
  have htext : inetNtoa [a, b, c, d] = printNat a.toNat ++ chr '.' :: (printNat b.toNat ++
      chr '.' :: (printNat c.toNat ++ chr '.' :: printNat d.toNat)) := by
    simp [inetNtoa, List.intercalate]
  rw [htext]
  simp only [List.length_append, List.length_cons]
  omega

end BcmUtils.Bindings
