import StepGrid.Number.Digits
import StepGrid.Number.Shortest

/-! What the text of a plain scalar means: null, a boolean, an integer, a float, or the
text itself. -/

namespace StepGrid.Yaml

inductive Value where
  | null
  | boolean (value : Bool)
  | integer (value : Int)
  | float (value : Binary64)
  | text (value : String)
deriving DecidableEq, Repr

namespace Core
open Digits (isDigit)

def isNull (text : List Char) : Bool :=
  text == ['~'] || text == "null".toList || text == "Null".toList || text == "NULL".toList

def boolean? (text : List Char) : Option Bool :=
  if text = "true".toList ∨ text = "True".toList ∨ text = "TRUE".toList then some true
  else if text = "false".toList ∨ text = "False".toList ∨ text = "FALSE".toList then some false
  else none

def digit? (radix : Nat) (char : Char) : Option Nat :=
  let value :=
    if isDigit char then Digits.value char
    else if 'a' ≤ char && char ≤ 'z' then char.toNat - 'a'.toNat + 10
    else if 'A' ≤ char && char ≤ 'Z' then char.toNat - 'A'.toNat + 10
    else radix
  if value < radix then some value else none

def digits? (radix : Nat) (value : Nat) : List Char → Option Nat
  | [] => some value
  | char :: rest =>
    match digit? radix char with
    | some digit => digits? radix (value * radix + digit) rest
    | none => none

/-- A number without sign. In decimal, only zero itself starts with a zero. -/
def natural? : List Char → Option Nat
  | [] => none
  | '0' :: 'x' :: [] => none
  | '0' :: 'x' :: digits => digits? 16 0 digits
  | '0' :: 'o' :: [] => none
  | '0' :: 'o' :: digits => digits? 8 0 digits
  | '0' :: 'b' :: [] => none
  | '0' :: 'b' :: digits => digits? 2 0 digits
  | '0' :: _ :: _ => none
  | digits => digits? 10 0 digits

def integer? : List Char → Option Int
  | '+' :: rest => (natural? rest).map fun value => value
  | '-' :: rest => (natural? rest).map fun value => -value
  | rest => (natural? rest).map fun value => value

/-- An integer of at most 64 bits with its sign. -/
def word? (text : List Char) : Option Int :=
  (integer? text).filter Digits.isWord

/-- Whether a number is an integer of 128 bits, with sign if it is negative. -/
def isWide (value : Int) : Bool := -170141183460469231731687303715884105728 ≤ value &&
    value < 340282366920938463463374607431768211456

/-- Digits after a zero are no number. -/
def isZeroPadded (text : List Char) : Bool :=
  let digits := match text with
    | '-' :: rest => rest
    | '+' :: rest => rest
    | rest => rest
  match digits with
  | '0' :: second :: rest => (second :: rest).all isDigit
  | _ => false

/-- The double nearest to `digits * 10 ^ exponent`, if it is finite. -/
def nearest? (negative : Bool) (digits : Nat) (exponent : Int) : Option Binary64 :=
  let order := exponent + (Nat.toDigits 10 digits).length
  if digits = 0 ∨ order < -400 then some (.ofRatio negative 0 1)
  else if 400 < order then none
  else
    let value := Binary64.ofRatio negative (digits * Nat.pow 10 exponent.toNat)
      (Nat.pow 10 (-exponent).toNat)
    if value.isFinite then some value else none

def exponent? : List Char → Option Int
  | '+' :: digits => if digits.isEmpty then none else (digits? 10 0 digits).map fun value => value
  | '-' :: digits => if digits.isEmpty then none else (digits? 10 0 digits).map fun value => -value
  | digits => if digits.isEmpty then none else (digits? 10 0 digits).map fun value => value

/-- The value of decimal digits around a point, with the text of an exponent after them. -/
def decimal? (negative : Bool) (whole fraction rest : List Char) : Option Binary64 :=
  if whole.isEmpty && fraction.isEmpty then none
  else do
    let digits ← digits? 10 0 (whole ++ fraction)
    let exponent ← match rest with
      | [] => some 0
      | mark :: exponent => if mark = 'e' ∨ mark = 'E' then exponent? exponent else none
    nearest? negative digits (exponent - fraction.length)

def unsignedFloat? (negative : Bool) (text : List Char) : Option Binary64 :=
  let whole := text.takeWhile isDigit
  match text.dropWhile isDigit with
  | '.' :: after => decimal? negative whole (after.takeWhile isDigit) (after.dropWhile isDigit)
  | after => decimal? negative whole [] after

def isInfinity (text : List Char) : Bool :=
  text == ".inf".toList || text == ".Inf".toList || text == ".INF".toList

def isNotNumber (text : List Char) : Bool :=
  text == ".nan".toList || text == ".NaN".toList || text == ".NAN".toList

def infinity (negative : Bool) : Binary64 := .ofWord negative Binary64.infinityWord

def notNumber : Binary64 := .ofWord false 0x7ff8000000000000

def float? (text : List Char) : Option Binary64 :=
  if isNotNumber text then some notNumber
  else match text with
    | '+' :: rest => if isInfinity rest then some (infinity false) else unsignedFloat? false rest
    | '-' :: rest => if isInfinity rest then some (infinity true) else unsignedFloat? true rest
    | rest => if isInfinity rest then some (infinity false) else unsignedFloat? false rest

/-- The meaning of a plain scalar without a tag. -/
def resolve (text : List Char) : Value :=
  if text.isEmpty || isNull text then .null
  else match boolean? text with
    | some value => .boolean value
    | none =>
      match (integer? text).filter isWide with
      | some value => .integer value
      | none =>
        match if isZeroPadded text then none else float? text with
        | some value => .float value
        | none => .text (String.ofList text)

end Core

end StepGrid.Yaml
