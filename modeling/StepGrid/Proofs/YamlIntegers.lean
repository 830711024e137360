import StepGrid.Proofs.DecimalTexts
import StepGrid.Proofs.YamlScalars
import StepGrid.Yaml.Core

/-! Integers of a document. The digits of a number are a word and are read as the number; a text
of digits and a sign is nothing else. -/

namespace StepGrid.Proofs.YamlIntegers
open Yaml Core DecimalTexts YamlScalars

section Naturals

private theorem digit?_of_isDigit {char : Char} (digit : char.isDigit = true) : digit? 10 char = some
    (Digits.value char) := by
  have ascii : Digits.isDigit char = true := digit
  have range : Digits.value char < 10 := by
    obtain ⟨low, high⟩ := Char.isDigit_iff_toNat.mp digit
    have zero : '0'.toNat = 48 := rfl
    have nine : '9'.toNat = 57 := rfl
    rw [Digits.value]
    omega
  simp only [digit?, ascii, if_true, if_pos range]

private theorem digits?_of_isDigit {digits : List Char} (ascii : ∀ char ∈ digits, char.isDigit = true) (read : Nat) :
    digits? 10 read digits = some (Nat.ofDigitChars 10 digits read) := by
  induction digits generalizing read with
  | nil => rfl
  | cons char rest ih =>
    obtain ⟨first, others⟩ := List.forall_mem_cons.mp ascii
    rw [digits?, digit?_of_isDigit first]
    dsimp only
    rw [ih others, Nat.ofDigitChars_cons, Nat.mul_comm, Digits.value]

theorem natural?_eq_digits? {text : List Char} (filled : text ≠ []) (head : text.head? ≠ some '0') :
    natural? text = digits? 10 0 text := by
  unfold natural?
  split
  next => exact absurd rfl filled
  all_goals first | exact absurd rfl head | rfl

private theorem natural?_toDigits (number : Nat) : natural? (Nat.toDigits 10 number) = some number := by
  rcases Nat.eq_zero_or_pos number with rfl | positive
  · rfl
  rw [natural?_eq_digits? Nat.toDigits_ne_nil (head?_toDigits positive),
    digits?_of_isDigit fun char member => Nat.isDigit_of_mem_toDigits (by decide) (by decide) member,
    Nat.ofDigitChars_toDigits (by decide) (by decide)]

end Naturals

section Integers

theorem isWordChar_of_mem_rendered {value : Int} {char : Char} (member : char ∈ rendered value) :
    isWordChar char = true := by
  rcases isDigit_of_mem_rendered member with digit | rfl
  · simp [isWordChar, Char.isAlphanum, digit]
  · decide

theorem isNull_rendered (value : Int) : isNull (rendered value) = false := by
  have other (char : Char) (noDigit : char.isDigit = false) (noSign : char ≠ '-') : char ∉ rendered value := by
    intro member
    rcases isDigit_of_mem_rendered member with digit | sign
    · cases noDigit.symm.trans digit
    · exact noSign sign
  have absent {text : List Char} {char : Char} (member : char ∈ text) (missing : char ∉ rendered value) :
      rendered value ≠ text := by
    rintro rfl
    exact missing member
  simp only [isNull, Bool.or_eq_false_iff, beq_eq_false_iff_ne]
  refine ⟨⟨⟨absent List.mem_cons_self (other _ ?_ ?_), absent List.mem_cons_self (other _ ?_ ?_)⟩,
    absent List.mem_cons_self (other _ ?_ ?_)⟩, absent List.mem_cons_self (other _ ?_ ?_)⟩ <;> decide

private theorem integer?_rendered (value : Int) : integer? (rendered value) = some value := by
  rw [rendered_eq]
  split
  next positive =>
    have digits (char : Char) : char ∈ Nat.toDigits 10 value.toNat → char.isDigit = true :=
      Nat.isDigit_of_mem_toDigits (by decide) (by decide)
    unfold integer?
    split
    next same => exact absurd (digits '+' (by simp [same])) (by decide)
    next same => exact absurd (digits '-' (by simp [same])) (by decide)
    next =>
      rw [natural?_toDigits]
      exact congrArg some (Int.toNat_of_nonneg positive)
  next negative =>
    have back : -((-value).toNat : Int) = value := by omega
    rw [integer?, natural?_toDigits]
    exact congrArg some back

theorem word?_rendered (value : Int64) : word? (rendered value.toInt) = some value.toInt := by
  have low := value.le_toInt
  have high := value.toInt_lt
  have fits : Digits.isWord value.toInt = true := by
    simp only [Digits.isWord, Bool.and_eq_true, decide_eq_true_eq]
    omega
  rw [word?, integer?_rendered, Option.filter_some, if_pos fits]

end Integers

end StepGrid.Proofs.YamlIntegers
