import StepGrid.Number.Shortest

/-! JSON values. An object is its members in written order; values that are read have
their members sorted by key, each key once. -/

namespace StepGrid

inductive Json.Number where
  | integer (value : Int)
  | double (value : Binary64)
deriving DecidableEq, Repr

inductive Json where
  | null
  | bool (value : Bool)
  | number (value : Json.Number)
  | string (text : String)
  | array (items : List Json)
  | object (members : List (String × Json))
deriving Repr, Inhabited

namespace Json

inductive Kind where
  | null | boolean | number | string | list | object
deriving DecidableEq, Repr

def kind : Json → Kind
  | null => .null
  | bool _ => .boolean
  | number _ => .number
  | string _ => .string
  | array _ => .list
  | object _ => .object

def items? : Json → Option (List Json)
  | array items => some items
  | _ => none

def text? : Json → Option String
  | string text => some text
  | _ => none

/-- Of neighbours with one key, the last one. -/
def lastOfKey : List (String × Json) → List (String × Json)
  | first :: second :: rest =>
    if first.1 = second.1 then lastOfKey (second :: rest) else first :: lastOfKey (second :: rest)
  | short => short

/-- An object whose members are sorted by key; of equal keys the last member stays. -/
def sortedObject (members : List (String × Json)) : Json :=
  object (lastOfKey (members.mergeSort fun first second => decide (first.1 ≤ second.1)))

/-- An object with its own members sorted. -/
def withSortedKeys : Json → Json
  | object members => sortedObject members
  | other => other

end Json

end StepGrid
