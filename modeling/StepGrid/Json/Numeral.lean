import StepGrid.Json.Fault
import StepGrid.Json.Value
import StepGrid.Number.Digits

/-! Numerals of JSON and their values. A numeral without fraction and exponent that
fits 64 bits is an integer. Any other is a double: its leading digits that fit 64 bits
are rounded, then scaled by powers of ten, each step rounded once more. -/

namespace StepGrid.Json

structure Exponent where
  negative : Bool
  digits : List Char
deriving Repr

structure Numeral where
  negative : Bool
  whole : List Char
  fraction : Option (List Char)
  exponent : Option Exponent
deriving Repr

namespace Numeral

/-- One more than the greatest number of 64 bits. -/
def wordLimit : Nat := 18446744073709551616

/-- A number of at most 64 bits and the power of ten it is to be scaled by. -/
structure Scaled where
  significand : Nat
  exponent : Int
deriving Repr, DecidableEq

/-- Digits are taken up while they fit; each one after that is a factor of ten. -/
def takeWhole (significand : Nat) : List Char → Scaled
  | [] => ⟨significand, 0⟩
  | digit :: rest =>
    let next := significand * 10 + Digits.value digit
    if next < wordLimit then takeWhole next rest
    else ⟨significand, rest.length + 1⟩

/-- Digits after the point are taken up while they fit; those after that are dropped. -/
def takeFraction (scaled : Scaled) : List Char → Scaled
  | [] => scaled
  | digit :: rest =>
    let next := scaled.significand * 10 + Digits.value digit
    if next < wordLimit then takeFraction ⟨next, scaled.exponent - 1⟩ rest else scaled

def isWhole (numeral : Numeral) : Bool := numeral.fraction.isNone && numeral.exponent.isNone

/-- Multiplies by powers of ten, `10 ^ 308` at a time when dividing; none if the result
is no finite double. -/
def scale (value : Binary64) (exponent : Int) : Option Binary64 :=
  if exponent.natAbs ≤ 308 then
    let power := Binary64.ofNat (Nat.pow 10 exponent.natAbs)
    if 0 ≤ exponent then
      let product := value.multiply power
      if product.isFinite then some product else none
    else some (value.divide power)
  else if value.isZero then some value
  else if 0 ≤ exponent then none
  else scale (value.divide (Binary64.ofNat (Nat.pow 10 308))) (exponent + 308)
termination_by exponent.natAbs

def exponentLimit : Nat := 2147483647

/-- The number of digits after the one that takes the exponent out of range, if one does. -/
def excess (value : Nat) : List Char → Option Nat
  | [] => none
  | digit :: rest =>
    let next := value * 10 + Digits.value digit
    if exponentLimit < next then some rest.length else excess next rest

/-- The value of a numeral; where it is out of range, how many of its last bytes are not
needed to see that. -/
def value (numeral : Numeral) : Except Nat Number :=
  let whole := takeWhole 0 numeral.whole
  if numeral.isWhole && whole.exponent == 0 &&
      (!numeral.negative || (0 < whole.significand && whole.significand ≤ 9223372036854775808)) then
    .ok (.integer (if numeral.negative then -whole.significand else whole.significand))
  else
    let scaled := takeFraction whole (numeral.fraction.getD [])
    let signed (value : Binary64) : Number := .double (if numeral.negative then value.negate else value)
    let finish (exponent : Int) : Except Nat Number :=
      match scale (Binary64.ofNat scaled.significand) exponent with
      | some value => .ok (signed value)
      | none => .error 0
    match numeral.exponent with
    | none => finish scaled.exponent
    | some ⟨negative, digits⟩ =>
      match excess 0 digits with
      | some left =>
        if scaled.significand ≠ 0 ∧ negative = false then .error left
        else .ok (signed (Binary64.ofNat 0))
      | none =>
        let shift : Int := Digits.number 0 digits
        finish (if negative then scaled.exponent - shift else scaled.exponent + shift)

end Numeral

end StepGrid.Json
