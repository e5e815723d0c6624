import BcmUtils.Foundation.CString

/-! # Hex digits

Digits in either letter case, and bytes spelled by two of them. -/

namespace CLib

/-- The value of a hex digit. -/
def xdigit (b : Byte) : Option ℕ :=
  if 48 ≤ b ∧ b ≤ 57 then some (b.toNat - 48)
  else if 97 ≤ b ∧ b ≤ 102 then some (b.toNat - 97 + 10)
  else if 65 ≤ b ∧ b ≤ 70 then some (b.toNat - 65 + 10)
  else none

/-- The character stands for the digit, in either letter case. -/
def IsHex (d : ℕ) (b : Byte) : Prop :=
  (text "0123456789abcdef")[d]? = some b ∨ (text "0123456789ABCDEF")[d]? = some b

instance (d : ℕ) (b : Byte) : Decidable (IsHex d b) := inferInstanceAs (Decidable (_ ∨ _))

/-- The two characters spell the byte. -/
def IsHexPair (b : Byte) (p : Byte × Byte) : Prop :=
  IsHex (b.toNat / 16) p.1 ∧ IsHex (b.toNat % 16) p.2

instance (b : Byte) (p : Byte × Byte) : Decidable (IsHexPair b p) :=
  inferInstanceAs (Decidable (_ ∧ _))

theorem IsHex.lt {d : ℕ} {b : Byte} (h : IsHex d b) : d < 16 := by
  cases h with
  | inl h => exact (List.getElem?_eq_some_iff.mp h).1
  | inr h => exact (List.getElem?_eq_some_iff.mp h).1

/-- What holds of the sixteen digits in both letter cases holds of every hex digit. -/
theorem IsHex.forall_digits {p : ℕ → Byte → Prop} {d : ℕ} {b : Byte} (h : IsHex d b)
    (hlower : ∀ k < 16, ∀ c ∈ (text "0123456789abcdef")[k]?, p k c)
    (hupper : ∀ k < 16, ∀ c ∈ (text "0123456789ABCDEF")[k]?, p k c) : p d b := by
  have hlt := h.lt
  cases h with
  | inl h => exact hlower d hlt b h
  | inr h => exact hupper d hlt b h

/-- A hex digit has its value, and it is no blank, no sign, no `x` and no terminator. -/
structure HexChar (d : ℕ) (b : Byte) : Prop where
  value : xdigit b = some d
  not_space : isSpace b = false
  not_sign : b ≠ chr '-' ∧ b ≠ chr '+'
  not_prefix : b ≠ chr 'x' ∧ b ≠ chr 'X'
  ne_zero : b ≠ 0

instance (d : ℕ) (b : Byte) : Decidable (HexChar d b) :=
  decidable_of_iff (_ ∧ _ ∧ _ ∧ _ ∧ _)
    ⟨fun h => ⟨h.1, h.2.1, h.2.2.1, h.2.2.2.1, h.2.2.2.2⟩, fun h => ⟨h.1, h.2, h.3, h.4, h.5⟩⟩

theorem hexChar_of_isHex {d : ℕ} {b : Byte} (h : IsHex d b) : HexChar d b :=
  h.forall_digits (by decide +kernel) (by decide +kernel)

end CLib
