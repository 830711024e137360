import StepGrid.Number.Digits
import Mathlib.Data.List.Basic

/-! Numbers in decimal digits. No zero stands before them, and they tell the number: reading the
digits gives it back. -/

namespace StepGrid.Proofs.DecimalTexts

section Naturals

/-- Only zero itself is rendered with a zero at its head. -/
theorem head?_toDigits {number : Nat} (positive : 0 < number) : (Nat.toDigits 10 number).head? ≠ some '0' := by
  induction number using Nat.strongRecOn with
  | ind number ih =>
    rw [Nat.toDigits_eq_if (by decide)]
    split
    next small =>
      have listed : ∀ digit < 10, 0 < digit → [Nat.digitChar digit].head? ≠ some '0' := by decide
      exact listed number small positive
    next large =>
      rw [List.head?_append_of_ne_nil _ Nat.toDigits_ne_nil]
      exact ih (number / 10) (Nat.div_lt_self positive (by decide)) (by omega)

theorem number_eq_ofDigitChars (digits : List Char) (read : Nat) :
    Digits.number read digits = Nat.ofDigitChars 10 digits read := by
  induction digits generalizing read with
  | nil => rfl
  | cons char rest ih =>
    rw [Nat.ofDigitChars_cons, ← ih, Nat.mul_comm]
    rfl

theorem number_toDigits (number : Nat) : Digits.number 0 (Nat.toDigits 10 number) = number := by
  rw [number_eq_ofDigitChars, Nat.ofDigitChars_toDigits (by decide) (by decide)]

theorem toDigits_injective : Function.Injective (Nat.toDigits 10) :=
  Function.LeftInverse.injective number_toDigits

theorem toList_toString (number : Nat) : (toString number).toList = Nat.toDigits 10 number := by
  rw [Nat.toString_eq_repr, Nat.repr_eq_ofList_toDigits, String.toList_ofList]

end Naturals

section Integers

def rendered (value : Int) : List Char := (toString value).toList

theorem rendered_eq (value : Int) : rendered value =
    if 0 ≤ value then Nat.toDigits 10 value.toNat else '-' :: Nat.toDigits 10 (-value).toNat := by
  rw [rendered, Int.toString_eq_repr, Int.repr_eq_if]
  split <;> simp [Nat.repr_eq_ofList_toDigits]

theorem isDigit_of_mem_rendered {value : Int} {char : Char} (member : char ∈ rendered value) :
    char.isDigit = true ∨ char = '-' := by
  have digit {number : Nat} (member : char ∈ Nat.toDigits 10 number) : char.isDigit = true :=
    Nat.isDigit_of_mem_toDigits (by decide) (by decide) member
  rw [rendered_eq] at member
  split at member
  next => exact .inl (digit member)
  next =>
    rcases List.mem_cons.mp member with sign | later
    · exact .inr sign
    · exact .inl (digit later)

theorem rendered_ne_nil (value : Int) : rendered value ≠ [] := by
  rw [rendered_eq]
  split
  · exact Nat.toDigits_ne_nil
  · exact List.cons_ne_nil _ _

/-- A sign never stands alone. -/
theorem rendered_ne_hyphen (value : Int) : rendered value ≠ ['-'] := by
  rw [rendered_eq]
  split
  · intro same
    have digit : '-'.isDigit = true :=
      Nat.isDigit_of_mem_toDigits (by decide) (by decide) (same ▸ List.mem_singleton_self '-')
    cases digit
  · exact fun same => Nat.toDigits_ne_nil (List.cons.inj same).2

theorem rendered_natCast (number : Nat) : rendered number = Nat.toDigits 10 number := by
  rw [rendered_eq, if_pos (Int.natCast_nonneg number), Int.toNat_natCast]

theorem rendered_injective : Function.Injective rendered := by
  have noSign {number other : Nat} : Nat.toDigits 10 number ≠ '-' :: Nat.toDigits 10 other := by
    intro same
    have digit : '-'.isDigit = true :=
      Nat.isDigit_of_mem_toDigits (by decide) (by decide) (same ▸ List.mem_cons_self)
    cases digit
  intro first second same
  rw [rendered_eq, rendered_eq] at same
  split at same <;> split at same
  · have := toDigits_injective same
    omega
  · exact absurd same noSign
  · exact absurd same.symm noSign
  · have := toDigits_injective (List.cons.inj same).2
    omega

end Integers

end StepGrid.Proofs.DecimalTexts
