import StepGrid.Json.Lexeme

/-! Reading a JSON text: a stack of unfinished containers takes one lexeme after the
other. The first lexeme that does not fit decides what is wrong. -/

namespace StepGrid.Json

/-- Where a value goes once it is complete. What came before it is in reverse. -/
inductive Slot where
  | whole
  | item (items : List Json)
  | member (members : List (String × Json)) (key : String)

/-- What has to come next. -/
inductive Need where
  | value (slot : Slot)
  | afterItem (items : List Json)
  | key (members : List (String × Json))
  | colon (members : List (String × Json)) (key : String)
  | afterMember (members : List (String × Json))
  | nothing (value : Json)

structure Progress where
  need : Need
  outer : List Slot

namespace Progress

def start : Progress := ⟨.value .whole, []⟩

def fill (value : Json) : Slot → Need
  | .whole => .nothing value
  | .item items => .afterItem (value :: items)
  | .member members key => .afterMember ((key, value) :: members)

/-- A container is complete. -/
def close (value : Json) : List Slot → Progress
  | [] => ⟨.nothing value, []⟩
  | slot :: outer => ⟨fill value slot, outer⟩

/-- Containers stand in each other at most this deep. -/
def depthLimit : Nat := 127

def descend (slot : Slot) (outer : List Slot) (need : Need) (source : List Char) :
    Except Failure Progress :=
  if outer.length < depthLimit then .ok ⟨need, slot :: outer⟩ else .error (.at .tooDeep source)

def takeValue (slot : Slot) (outer : List Slot) (lexeme : Lexeme) : Except Failure Progress :=
  match lexeme.kind with
  | .literal value => .ok ⟨fill value slot, outer⟩
  | .text text => .ok ⟨fill (.string text) slot, outer⟩
  | .openList => descend slot outer (.value (.item [])) lexeme.source
  | .openObject => descend slot outer (.key []) lexeme.source
  | .brokenText failure => .error failure
  | .brokenValue failure => .error failure
  | .closeList =>
    match slot with
    | .item [] => .ok (close (.array []) outer)
    | .item _ => .error (.at .trailingComma lexeme.source)
    | _ => .error (.at .expectedValue lexeme.source)
  | _ => .error (.at .expectedValue lexeme.source)

def takeKey (members : List (String × Json)) (outer : List Slot) (lexeme : Lexeme) :
    Except Failure Progress :=
  match lexeme.kind with
  | .text key => .ok ⟨.colon members key, outer⟩
  | .brokenText failure => .error failure
  | .closeObject =>
    match members with
    | [] => .ok (close (.object []) outer)
    | _ => .error (.at .trailingComma lexeme.source)
  | _ => .error (.at .keyNotString lexeme.source)

def step (progress : Progress) (lexeme : Lexeme) : Except Failure Progress :=
  match progress.need with
  | .value slot => takeValue slot progress.outer lexeme
  | .key members => takeKey members progress.outer lexeme
  | .afterItem items =>
    match lexeme.kind with
    | .comma => .ok ⟨.value (.item items), progress.outer⟩
    | .closeList => .ok (close (.array items.reverse) progress.outer)
    | _ => .error (.at .expectedCommaOrBracket lexeme.source)
  | .colon members key =>
    match lexeme.kind with
    | .colon => .ok ⟨.value (.member members key), progress.outer⟩
    | _ => .error (.at .expectedColon lexeme.source)
  | .afterMember members =>
    match lexeme.kind with
    | .comma => .ok ⟨.key members, progress.outer⟩
    | .closeObject => .ok (close (sortedObject members.reverse) progress.outer)
    | _ => .error (.at .expectedCommaOrBrace lexeme.source)
  | .nothing _ => .error (.at .trailingCharacters lexeme.source)

/-- The value of a text that ends here. -/
def finish (progress : Progress) : Except Failure Json :=
  match progress.need with
  | .nothing value => .ok value
  | .value (.item []) | .afterItem _ => .error ⟨.endInList, 0⟩
  | .value _ | .key (_ :: _) => .error ⟨.endInValue, 0⟩
  | .key [] | .colon _ _ | .afterMember _ => .error ⟨.endInObject, 0⟩

def run (progress : Progress) : List Lexeme → Except Failure Json
  | [] => progress.finish
  | lexeme :: rest =>
    match progress.step lexeme with
    | .ok next => run next rest
    | .error failure => .error failure

end Progress

def read (text : List Char) : Except Failure Json := Progress.start.run (lexemes text)

end StepGrid.Json
