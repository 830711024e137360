import StepGrid.Number.Binary64

/-! The fewest decimal digits that read back as a given double, and of those the
nearest. Two doubles bound the interval of reals that round to a third; on each
decimal grid only the two neighbours of the value can be its shortest form. -/

namespace StepGrid

/-- The number `digits * 10 ^ exponent`. -/
structure Decimal where
  digits : Nat
  exponent : Int
deriving DecidableEq, Repr, Inhabited

/-- Which neighbour wins when a value lies half way between two shortest forms. -/
inductive HalfRule where
  | even
  | up
deriving DecidableEq, Repr

namespace Binary64

def decimalLength (value : Nat) : Nat := (Nat.toDigits 10 value).length

/-- The exponent of the leading decimal digit of a nonzero value. -/
def decimalOrder (value : Binary64) : Int :=
  if one ≤ value.units then decimalLength (value.units / one) - 1
  else -(decimalLength (one / value.units) : Int)

/-- The neighbour of a value on the grid of multiples of `10 ^ exponent`, if one of
them still rounds to the value. All quantities are in quarters of `2 ^ -1074`. -/
def onGrid? (value : Binary64) (rule : HalfRule) (exponent : Int) : Option Nat :=
  let finer := Nat.pow 10 (-exponent).toNat
  let coarser := Nat.pow 10 exponent.toNat
  let step := Nat.pow 2 value.shift
  let center := 4 * value.units * finer
  let below := (if value.significand = binade ∧ 0 < value.shift then step else 2 * step) * finer
  let above := 2 * step * finer
  let cell := 4 * one * coarser
  let lower := center / cell
  let behind := center - lower * cell
  let beyond := (lower + 1) * cell - center
  let closed := value.significand % 2 = 0
  let lowerHits := behind < below ∨ (closed ∧ behind = below)
  let upperHits := beyond < above ∨ (closed ∧ beyond = above)
  if lowerHits ∧ upperHits then
    if behind < beyond then some lower
    else if beyond < behind then some (lower + 1)
    else match rule with
      | .even => some (lower + lower % 2)
      | .up => some (lower + 1)
  else if lowerHits then some lower
  else if upperHits then some (lower + 1)
  else none

/-- The shortest form of a nonzero finite value. -/
def shortest (value : Binary64) (rule : HalfRule) : Decimal :=
  let order := value.decimalOrder
  let found := (List.range 17).findSome? fun (count : Nat) =>
    let exponent := order - (count : Int)
    (value.onGrid? rule exponent).map fun digits =>
      if digits = Nat.pow 10 (count + 1) then ⟨1, order + 1⟩ else ⟨digits, exponent⟩
  found.getD ⟨0, 0⟩

end Binary64

/-- How a format writes a double: which half wins, and between which exponents of the
leading digit the form is positional. -/
structure DoubleFormat where
  half : HalfRule
  least : Option Int
  most : Option Int

namespace DoubleFormat

def isPositional (format : DoubleFormat) (order : Int) : Bool :=
  format.least.all (· ≤ order) && format.most.all (order ≤ ·)

private def zeros (count : Int) : String := String.ofList (List.replicate count.toNat '0')

def positional (digits : List Char) (exponent : Int) : String :=
  let split := (digits.length : Int) + exponent
  if 0 ≤ exponent then String.ofList digits ++ zeros exponent ++ ".0"
  else if 0 < split then
    String.ofList (digits.take split.toNat) ++ "." ++ String.ofList (digits.drop split.toNat)
  else "0." ++ zeros (-split) ++ String.ofList digits

def scientific (digits : List Char) (order : Int) : String :=
  let mantissa := match digits with
    | first :: second :: rest => String.ofList (first :: '.' :: second :: rest)
    | short => String.ofList short
  mantissa ++ (if order < 0 then "e-" else "e+") ++ toString order.natAbs

def magnitude (format : DoubleFormat) (value : Binary64) : String :=
  if value.isZero then "0.0"
  else
    let decimal := value.shortest format.half
    let digits := Nat.toDigits 10 decimal.digits
    let order := decimal.exponent + digits.length - 1
    if format.isPositional order then positional digits decimal.exponent
    else scientific digits order

def write (format : DoubleFormat) (value : Binary64) : String :=
  let sign := if value.isNegative then "-" else ""
  if value.isFinite then sign ++ format.magnitude value
  else if value.magnitude = Binary64.infinityWord then sign ++ "inf"
  else "NaN"

end DoubleFormat

end StepGrid
