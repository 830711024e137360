import StepGrid.Yaml.Mark

/-! The tokens of a YAML text. -/

namespace StepGrid.Yaml

inductive ScalarStyle where
  | plain
  | singleQuoted
  | doubleQuoted
  | literal
  | folded
deriving DecidableEq, Repr

/-- The bytes of a text in ASCII. -/
def octets (text : List Char) : List UInt8 := text.map fun char => UInt8.ofNat char.toNat

/-- A tag as it is written: the handle that stands for a prefix, and the rest, in which any
byte may be escaped. -/
structure TagName where
  handle : List Char
  suffix : List UInt8
deriving DecidableEq, Repr

inductive Token.Kind where
  | streamEnd
  | version (major minor : Nat)
  | tagDirective (handle : List Char) (expansion : List UInt8)
  | documentStart
  | documentEnd
  | blockSequence
  | blockMapping
  | blockEnd
  | flowSequence
  | flowSequenceEnd
  | flowMapping
  | flowMappingEnd
  | blockEntry
  | flowEntry
  | key
  | value
  | aliasOf (name : List Char)
  | anchor (name : List Char)
  | tag (name : TagName)
  | scalar (style : ScalarStyle) (text : List Char)
deriving DecidableEq, Repr

structure Token where
  kind : Token.Kind
  mark : Mark
deriving DecidableEq, Repr

/-- What of a text is still to be read, and where it starts. -/
structure Cursor where
  rest : List Char
  mark : Mark
deriving DecidableEq, Repr

namespace Cursor

/-- Past some characters at the head of the rest. -/
def past (cursor : Cursor) (taken : List Char) : Cursor :=
  ⟨cursor.rest.drop taken.length, taken.foldl Mark.after cursor.mark⟩

def skip (cursor : Cursor) (count : Nat) : Cursor := cursor.past (cursor.rest.take count)

/-- The characters of a class at the head of the rest. -/
def run (cursor : Cursor) (inClass : Char → Bool) : List Char := cursor.rest.takeWhile inClass

def skipRun (cursor : Cursor) (inClass : Char → Bool) : Cursor := cursor.past (cursor.run inClass)

end Cursor

def isBlank (char : Char) : Bool := char = ' ' || char = '\t'

/-- Whether a token may end before this text: at a blank, a break or the end. -/
def endsWord : List Char → Bool
  | [] => true
  | char :: _ => isBlank char || isBreak char

/-- Letters, digits, hyphens and underscores. -/
def isWordChar (char : Char) : Bool := char.isAlphanum || char = '-' || char = '_'

/-- A line that starts or ends a document. -/
def startsDocumentMark : List Char → Bool
  | '-' :: '-' :: '-' :: rest => endsWord rest
  | '.' :: '.' :: '.' :: rest => endsWord rest
  | _ => false

end StepGrid.Yaml
