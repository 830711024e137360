/-! Doubles as 64-bit words, with exact natural-number arithmetic behind them. A
nonnegative double is `significand * 2 ^ shift` units of `2 ^ -1074`, and every
operation rounds its exact result once, to the nearest double, ties to even. -/

namespace StepGrid

structure Binary64 where
  bits : UInt64
deriving DecidableEq, Repr, Inhabited

namespace Binary64

/-- The quotient rounded to the nearest natural number, a half to the even one. -/
def divideEven (dividend divisor : Nat) : Nat :=
  let quotient := dividend / divisor
  let twice := 2 * (dividend % divisor)
  if twice < divisor then quotient
  else if divisor < twice then quotient + 1
  else quotient + quotient % 2

/-- The number of significands in a binade. -/
def binade : Nat := 0x10000000000000

/-- One in units of `2 ^ -1074`. -/
def one : Nat := Nat.pow 2 1074

def infinityWord : Nat := 0x7ff0000000000000

def signWord : Nat := 0x8000000000000000

/-- Consecutive doubles have consecutive words, so rounding up past the last
significand of a binade needs no case of its own. -/
def wordOfRatio (numerator denominator : Nat) : Nat :=
  let units := numerator * one
  let shift := (units / denominator).log2 - 52
  min infinityWord (shift * binade + divideEven units (denominator * Nat.pow 2 shift))

def ofWord (negative : Bool) (word : Nat) : Binary64 :=
  ⟨UInt64.ofNat (if negative then signWord + word else word)⟩

/-- The double nearest to a quotient. -/
def ofRatio (negative : Bool) (numerator denominator : Nat) : Binary64 :=
  ofWord negative (wordOfRatio numerator denominator)

def ofNat (value : Nat) : Binary64 := ofRatio false value 1

def isNegative (value : Binary64) : Bool := signWord ≤ value.bits.toNat

/-- The word without its sign. -/
def magnitude (value : Binary64) : Nat := value.bits.toNat % signWord

def isFinite (value : Binary64) : Bool := value.magnitude < infinityWord

def isZero (value : Binary64) : Bool := value.magnitude == 0

def negate (value : Binary64) : Binary64 := ofWord (!value.isNegative) value.magnitude

def shift (value : Binary64) : Nat := value.magnitude / binade - 1

def significand (value : Binary64) : Nat := value.magnitude - value.shift * binade

/-- The absolute value in units of `2 ^ -1074`. -/
def units (value : Binary64) : Nat := value.significand * Nat.pow 2 value.shift

/-- The product of two finite doubles. -/
def multiply (left right : Binary64) : Binary64 :=
  ofRatio (left.isNegative != right.isNegative) (left.units * right.units) (one * one)

/-- The quotient of two finite doubles, the second not zero. -/
def divide (left right : Binary64) : Binary64 :=
  ofRatio (left.isNegative != right.isNegative) left.units right.units

/-- Numerator and denominator are rounded before they are divided. -/
def ofFraction (value : Rat) : Binary64 :=
  let quotient := (ofNat value.num.natAbs).divide (ofNat value.den)
  if value.num < 0 then quotient.negate else quotient

/-- Sixteen hexadecimal digits, the most significant first. -/
def hex (value : Binary64) : String :=
  let digits := Nat.toDigits 16 value.bits.toNat
  String.ofList (List.replicate (16 - digits.length) '0' ++ digits)

end Binary64

end StepGrid
