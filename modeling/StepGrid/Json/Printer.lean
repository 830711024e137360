import StepGrid.Json.Value

/-! The text of JSON values, compact or with one member a line. -/

namespace StepGrid.Json

/-- Doubles are positional from `1e-5` up to below `1e16`; of two equally near shortest
forms the one with the even last digit is written. -/
def doubleFormat : DoubleFormat := ⟨.even, some (-5), some 15⟩

def Number.render : Number → String
  | .integer value => toString value
  | .double value => doubleFormat.write value

private def hexDigit (value : Nat) : Char := (Nat.digitChar value)

/-- Quotes, backslashes and the characters below U+0020 are escaped, all else stands
as it is. -/
def escape (char : Char) : List Char :=
  if char = '"' then ['\\', '"']
  else if char = '\\' then ['\\', '\\']
  else if char = '\x08' then ['\\', 'b']
  else if char = '\x0c' then ['\\', 'f']
  else if char = '\n' then ['\\', 'n']
  else if char = '\r' then ['\\', 'r']
  else if char = '\t' then ['\\', 't']
  else if char.toNat < 0x20 then
    ['\\', 'u', '0', '0', hexDigit (char.toNat / 16), hexDigit (char.toNat % 16)]
  else [char]

def quote (text : String) : String :=
  "\"" ++ String.ofList (text.toList.flatMap escape) ++ "\""

mutual

def render : Json → String
  | null => "null"
  | bool value => if value then "true" else "false"
  | number value => value.render
  | string text => quote text
  | array items => "[" ++ renderItems "" items ++ "]"
  | object members => "\x7b" ++ renderMembers "" members ++ "\x7d"

/-- The items from some item on, each after the first with a comma before it. -/
def renderItems (text : String) : List Json → String
  | [] => text
  | item :: rest =>
    renderItems (text ++ (if text.isEmpty then "" else ",") ++ item.render) rest

def renderMembers (text : String) : List (String × Json) → String
  | [] => text
  | (key, value) :: rest =>
    renderMembers (text ++ (if text.isEmpty then "" else ",") ++ quote key ++ ":" ++ value.render) rest

end

private def lineAt (depth : Nat) : String := "\n" ++ String.ofList (List.replicate (2 * depth) ' ')

mutual

/-- Every item and member on a line of its own, two blanks deeper than its container;
what holds nothing stays on one line. -/
def renderLines (depth : Nat) : Json → String
  | array [] => "[]"
  | array (item :: rest) => itemLines depth ("[" ++ lineAt (depth + 1) ++ item.renderLines (depth + 1)) rest
  | object [] => "\x7b\x7d"
  | object ((key, value) :: rest) =>
    memberLines depth ("\x7b" ++ lineAt (depth + 1) ++ quote key ++ ": " ++ value.renderLines (depth + 1)) rest
  | plain => plain.render
termination_by json => sizeOf json

def itemLines (depth : Nat) (text : String) : List Json → String
  | [] => text ++ lineAt depth ++ "]"
  | item :: rest =>
    itemLines depth (text ++ "," ++ lineAt (depth + 1) ++ item.renderLines (depth + 1)) rest
termination_by items => sizeOf items

def memberLines (depth : Nat) (text : String) : List (String × Json) → String
  | [] => text ++ lineAt depth ++ "\x7d"
  | (key, value) :: rest =>
    memberLines depth
      (text ++ "," ++ lineAt (depth + 1) ++ quote key ++ ": " ++ value.renderLines (depth + 1)) rest
termination_by members => sizeOf members

end

end StepGrid.Json
