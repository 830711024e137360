/-! Decimal digits and the numbers they make. -/

namespace StepGrid.Digits

/-- The digits of ASCII alone; no number is read from any other. -/
def isDigit (char : Char) : Bool := '0' ≤ char && char ≤ '9'

def value (digit : Char) : Nat := digit.toNat - '0'.toNat

/-- The number that digits make after a number already read. -/
def number (read : Nat) (digits : List Char) : Nat :=
  digits.foldl (fun number digit => number * 10 + value digit) read

/-- A number of at least one digit and nothing else. -/
def natural? (text : List Char) : Option Nat :=
  if text.isEmpty || !text.all isDigit then none else some (number 0 text)

/-- Whether a number has 64 bits with its sign. -/
def isWord (number : Int) : Bool :=
  -9223372036854775808 ≤ number && number ≤ 9223372036854775807

end StepGrid.Digits
