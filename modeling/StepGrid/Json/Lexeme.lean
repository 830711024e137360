import StepGrid.Json.Numeral

/-! JSON texts as lexemes. Each lexeme keeps the text from its first character on, so
that what is wrong with it can be placed. A text is cut up to its first malformed
lexeme; whether that lexeme is at fault, or its place, is the reader's to say. -/

namespace StepGrid.Json

inductive Lexeme.Kind where
  | openList | closeList | openObject | closeObject | comma | colon
  | literal (value : Json)
  | text (value : String)
  | brokenText (failure : Failure)
  | brokenValue (failure : Failure)
deriving Repr

structure Lexeme where
  kind : Lexeme.Kind
  source : List Char
deriving Repr

namespace Lexeme
open Digits (isDigit)

def isSpace (char : Char) : Bool := char = ' ' || char = '\t' || char = '\n' || char = '\r'

/-- What a lexeme is, with the text after it. A malformed one has nothing after it. -/
abbrev Cut := Kind × List Char

def brokenText (fault : Fault) (rest : List Char) : Cut := (.brokenText (.at fault rest), [])

def brokenValue (fault : Fault) (rest : List Char) : Cut := (.brokenValue (.at fault rest), [])

def hexValue? (digit : Char) : Option Nat :=
  if isDigit digit then some (Digits.value digit)
  else if 'a' ≤ digit && digit ≤ 'f' then some (digit.toNat - 'a'.toNat + 10)
  else if 'A' ≤ digit && digit ≤ 'F' then some (digit.toNat - 'A'.toNat + 10)
  else none

def unit? (first second third fourth : Char) : Option Nat := do
  let a ← hexValue? first
  let b ← hexValue? second
  let c ← hexValue? third
  let d ← hexValue? fourth
  some (((a * 16 + b) * 16 + c) * 16 + d)

/-- Where four hexadecimal digits should stand and do not: four bytes are taken if there
are four. -/
def brokenUnit (rest : List Char) : Cut :=
  (.brokenText (if Text.byteLength rest < 4 then ⟨.endInString, 0⟩
    else ⟨.invalidEscape, Text.byteLength rest - 4⟩), [])

def simpleEscape? : Char → Option Char
  | '"' => some '"'
  | '\\' => some '\\'
  | '/' => some '/'
  | 'b' => some '\x08'
  | 'f' => some '\x0c'
  | 'n' => some '\n'
  | 'r' => some '\r'
  | 't' => some '\t'
  | _ => none

def isLeading (unit : Nat) : Bool := 0xd800 ≤ unit && unit ≤ 0xdbff

def isTrailing (unit : Nat) : Bool := 0xdc00 ≤ unit && unit ≤ 0xdfff

/-- The text after an opening quote, its characters so far in reverse. After the first
half of a surrogate pair nothing may follow but the escape of the second. -/
def cutText (lead : Option Nat) (taken : List Char) : List Char → Cut
  | [] => brokenText .endInString []
  | char :: rest =>
    if char = '\\' then
      match rest with
      | [] => brokenText .endInString []
      | 'u' :: digits =>
        match digits with
        | a :: b :: c :: d :: tail =>
          match unit? a b c d, lead with
          | none, _ => brokenUnit digits
          | some unit, none =>
            if isTrailing unit then (.brokenText ⟨.loneSurrogate, Text.byteLength tail⟩, [])
            else if isLeading unit then cutText (some unit) taken tail
            else cutText none (Char.ofNat unit :: taken) tail
          | some unit, some first =>
            if isTrailing unit then
              cutText none (Char.ofNat ((first - 0xd800) * 1024 + (unit - 0xdc00) + 0x10000) :: taken) tail
            else (.brokenText ⟨.loneSurrogate, Text.byteLength tail⟩, [])
        | short => brokenUnit short
      | escaped :: tail =>
        if lead.isSome then brokenText .unfinishedSurrogatePair (escaped :: tail)
        else match simpleEscape? escaped with
          | some value => cutText none (value :: taken) tail
          | none => brokenText .invalidEscape (escaped :: tail)
    else if lead.isSome then brokenText .unfinishedSurrogatePair (char :: rest)
    else if char = '"' then (.text (String.ofList taken.reverse), rest)
    else if char.toNat < 0x20 then brokenText .controlCharacter (char :: rest)
    else cutText none (char :: taken) rest

/-- Where a digit is missing. -/
def brokenDigits (rest : List Char) : Cut :=
  brokenValue (if rest.isEmpty then .endInValue else .invalidNumber) rest

/-- The value of a whole numeral, with the text after it. -/
def evaluate (numeral : Numeral) (rest : List Char) : Cut :=
  match numeral.value with
  | .ok value => (.literal (.number value), rest)
  | .error unneeded => (.brokenValue ⟨.numberOutOfRange, Text.byteLength rest + unneeded⟩, [])

/-- Whether a minus sign leads, with the text after the sign if there is one. -/
def cutSign : List Char → Bool × List Char
  | '-' :: rest => (true, rest)
  | '+' :: rest => (false, rest)
  | rest => (false, rest)

/-- The digits of an exponent after its sign. -/
def cutScale (numeral : Numeral) (negative : Bool) (text : List Char) : Cut :=
  match text.takeWhile isDigit with
  | [] => brokenDigits text
  | digits => evaluate { numeral with exponent := some ⟨negative, digits⟩ } (text.dropWhile isDigit)

/-- The exponent of a numeral, if its mark comes next. -/
def cutExponent (numeral : Numeral) : List Char → Cut
  | [] => evaluate numeral []
  | mark :: rest =>
    if mark = 'e' || mark = 'E' then cutScale numeral (cutSign rest).1 (cutSign rest).2
    else evaluate numeral (mark :: rest)

/-- The fraction of a numeral, if its point comes next. -/
def cutFraction (numeral : Numeral) : List Char → Cut
  | '.' :: rest =>
    match rest.takeWhile isDigit with
    | [] => brokenDigits rest
    | fraction => cutExponent { numeral with fraction := some fraction } (rest.dropWhile isDigit)
  | rest => cutExponent numeral rest

/-- A numeral after its sign. -/
def cutNumeral (negative : Bool) (text : List Char) : Cut :=
  match text.takeWhile isDigit with
  | [] => brokenDigits text
  | '0' :: _ :: _ => brokenValue .invalidNumber (text.drop 1)
  | whole => cutFraction ⟨negative, whole, none, none⟩ (text.dropWhile isDigit)

/-- The rest of a word of the grammar. -/
def cutWord (value : Json) : List Char → List Char → Cut
  | [], text => (.literal value, text)
  | _, [] => brokenValue .endInValue []
  | expected :: others, char :: rest =>
    if char = expected then cutWord value others rest else brokenValue .expectedIdentifier (char :: rest)

def cut (char : Char) (rest : List Char) : Cut :=
  match char with
  | '[' => (.openList, rest)
  | ']' => (.closeList, rest)
  | '\x7b' => (.openObject, rest)
  | '\x7d' => (.closeObject, rest)
  | ',' => (.comma, rest)
  | ':' => (.colon, rest)
  | '"' => cutText none [] rest
  | 'n' => cutWord .null ['u', 'l', 'l'] rest
  | 't' => cutWord (.bool true) ['r', 'u', 'e'] rest
  | 'f' => cutWord (.bool false) ['a', 'l', 's', 'e'] rest
  | '-' => cutNumeral true rest
  | _ =>
    if isDigit char then cutNumeral false (char :: rest)
    else brokenValue .expectedValue (char :: rest)

theorem cutText_suffix (lead : Option Nat) (taken text : List Char) : (cutText lead taken text).2 <:+ text := by
  fun_induction cutText lead taken text with
  | case1 | case2 | case3 | case4 | case8 | case9 | case10 | case12 | case13 | case15 => exact List.nil_suffix
  | case5 _ a b c d _ _ _ _ _ ih => exact ih.trans ⟨['\\', 'u', a, b, c, d], rfl⟩
  | case6 _ a b c d _ _ _ _ _ ih => exact ih.trans ⟨['\\', 'u', a, b, c, d], rfl⟩
  | case7 _ a b c d _ _ _ _ _ ih => exact ih.trans ⟨['\\', 'u', a, b, c, d], rfl⟩
  | case11 _ _ escaped _ _ _ _ _ ih => exact ih.trans ⟨['\\', escaped], rfl⟩
  | case14 => exact List.suffix_cons _ _
  | case16 _ _ _ _ _ _ _ _ ih => exact ih.trans (List.suffix_cons _ _)

theorem evaluate_suffix (numeral : Numeral) (rest : List Char) : (evaluate numeral rest).2 <:+ rest := by
  unfold evaluate
  split
  · exact List.suffix_refl _
  · exact List.nil_suffix

theorem cutSign_suffix (text : List Char) : (cutSign text).2 <:+ text := by
  fun_cases cutSign text
  · exact List.suffix_cons _ _
  · exact List.suffix_cons _ _
  · exact List.suffix_refl _

theorem cutScale_suffix (numeral : Numeral) (negative : Bool) (text : List Char) :
    (cutScale numeral negative text).2 <:+ text := by
  fun_cases cutScale numeral negative text
  · exact List.nil_suffix
  · exact (evaluate_suffix _ _).trans (List.dropWhile_suffix _)

theorem cutExponent_suffix (numeral : Numeral) (text : List Char) : (cutExponent numeral text).2 <:+ text := by
  fun_cases cutExponent numeral text
  · exact evaluate_suffix _ _
  next rest _ =>
    have scaled := cutScale_suffix numeral (cutSign rest).1 (cutSign rest).2
    exact (scaled.trans (cutSign_suffix rest)).trans (List.suffix_cons _ _)
  · exact evaluate_suffix _ _

theorem cutFraction_suffix (numeral : Numeral) (text : List Char) : (cutFraction numeral text).2 <:+ text := by
  fun_cases cutFraction numeral text
  · exact List.nil_suffix
  · exact ((cutExponent_suffix _ _).trans (List.dropWhile_suffix _)).trans (List.suffix_cons _ _)
  · exact cutExponent_suffix _ _

theorem cutNumeral_suffix (negative : Bool) (text : List Char) :
    (cutNumeral negative text).2 <:+ text.dropWhile isDigit := by
  fun_cases cutNumeral negative text
  · exact List.nil_suffix
  · exact List.nil_suffix
  · exact cutFraction_suffix _ _

theorem cutWord_suffix (value : Json) (word text : List Char) : (cutWord value word text).2 <:+ text := by
  fun_induction cutWord value word text with
  | case1 => exact List.suffix_refl _
  | case2 | case4 => exact List.nil_suffix
  | case3 _ _ _ ih => exact ih.trans (List.suffix_cons _ _)

/-- What is left after a lexeme is the end of the text, or nothing. -/
theorem cut_suffix (char : Char) (rest : List Char) : (cut char rest).2 <:+ rest := by
  fun_cases cut char rest
  case case11 => exact (cutNumeral_suffix _ _).trans (List.dropWhile_suffix _)
  case case12 digit _ _ _ _ _ _ _ _ _ _ _ =>
    have taken := cutNumeral_suffix false (char :: rest)
    rw [List.dropWhile_cons_of_pos digit] at taken
    rw [if_pos digit]
    exact taken.trans (List.dropWhile_suffix _)
  case case13 other _ _ _ _ _ _ _ _ _ _ _ =>
    rw [if_neg other]
    exact List.nil_suffix
  case case7 => exact cutText_suffix _ _ _
  case case8 => exact cutWord_suffix _ _ _
  case case9 => exact cutWord_suffix _ _ _
  case case10 => exact cutWord_suffix _ _ _
  all_goals exact List.suffix_refl _

end Lexeme

/-- The lexemes of a text, up to the first malformed one, before those already cut. -/
def Lexeme.scan (found : List Lexeme) : List Char → List Lexeme
  | [] => found.reverse
  | char :: rest =>
    if Lexeme.isSpace char then scan found rest
    else scan (⟨(Lexeme.cut char rest).1, char :: rest⟩ :: found) (Lexeme.cut char rest).2
termination_by text => text.length
decreasing_by
  · exact Nat.lt_succ_self _
  · exact Nat.lt_succ_of_le (Lexeme.cut_suffix _ _).length_le

def lexemes (text : List Char) : List Lexeme := Lexeme.scan [] text

end StepGrid.Json
