import StepGrid.Yaml.Mark
import StepGrid.Yaml.Core
import StepGrid.Text.Quoted

/-! What can be wrong with the frontmatter of a source, and the words for it. -/

namespace StepGrid.Frontmatter

/-- What stands where something else was wanted. -/
inductive Found where
  | value (value : Yaml.Value)
  | sequence
  | mapping
deriving DecidableEq, Repr

namespace Found

/-- Floats are always positional; of two equally near shortest forms the upper one. -/
def floatFormat : DoubleFormat := ⟨.up, none, none⟩

/-- An integer of more than 64 bits is shown with its width. -/
def integerPhrase (value : Int) : String :=
  let width :=
    if 18446744073709551616 ≤ value then " as u128"
    else if value < -9223372036854775808 then " as i128"
    else ""
  "integer `" ++ toString value ++ "`" ++ width

def phrase : Found → String
  | value .null => "unit value"
  | value (.boolean true) => "boolean `true`"
  | value (.boolean false) => "boolean `false`"
  | value (.integer number) => integerPhrase number
  | value (.float number) => "floating point `" ++ floatFormat.write number ++ "`"
  | value (.text text) => "string " ++ Text.quoted text
  | sequence => "sequence"
  | mapping => "map"

end Found

inductive Cause where
  | wrongType (found : Found) (expected : String)
  | wrongText (text : String) (expected : String)
  | unknownField (name : String)
  | duplicateField (name : String)
deriving DecidableEq, Repr

namespace Cause

def phrase : Cause → String
  | wrongType found expected => "invalid type: " ++ found.phrase ++ ", expected " ++ expected
  | wrongText text expected =>
    "invalid value: string " ++ Text.quoted text ++ ", expected " ++ expected
  | unknownField name =>
    "unknown field `" ++ name ++
      "`, expected one of `title`, `bpm`, `tempo`, `steps-per-bar`, `velocity`, `channel`"
  | duplicateField name => "duplicate field `" ++ name ++ "`"

end Cause

/-- A fault of the fields has a place, and the key under which the value stands; the
words for malformed YAML are nowhere fixed. -/
inductive Fault where
  | malformed
  | field (key : Option String) (cause : Cause) (mark : Yaml.Mark)
deriving DecidableEq, Repr

namespace Fault

/-- The very first character of a text is no place worth telling. -/
def location (mark : Yaml.Mark) : String :=
  if mark.isStart then ""
  else " at line " ++ toString (mark.line + 1) ++ " column " ++ toString (mark.column + 1)

def phrase : Fault → String
  | malformed => "malformed YAML"
  | field none cause mark => cause.phrase ++ location mark
  | field (some key) cause mark => key ++ ": " ++ cause.phrase ++ location mark

end Fault

end StepGrid.Frontmatter
