import StepGrid.Frontmatter.Reader
import StepGrid.Json.Reader

/-! A source: a bar matrix in JSON, with an optional block of settings between the first
two lines `---`. The block is blank to the JSON reader, so places keep their lines. -/

namespace StepGrid

structure Source where
  settings : Settings.Layer
  matrix : Json

namespace Source

def isDelimiter (line : List Char) : Bool := Text.trim line == ['-', '-', '-']

/-- The lines before, inside and after the first block. -/
structure Block where
  before : List (List Char)
  inside : List (List Char)
  after : List (List Char)
deriving DecidableEq, Repr

def block? (lines : List (List Char)) : Option Block :=
  match lines.dropWhile (!isDelimiter ·) with
  | [] => none
  | _ :: rest =>
    match rest.dropWhile (!isDelimiter ·) with
    | [] => none
    | _ :: after =>
      some ⟨lines.takeWhile (!isDelimiter ·), rest.takeWhile (!isDelimiter ·), after⟩

/-- The matrix with a blank line for each line of the block. -/
def Block.body (block : Block) : List Char :=
  Text.joinLines (block.before ++ List.replicate (block.inside.length + 2) [] ++ block.after)

def Block.metadata (block : Block) : List Char := Text.joinLines block.inside

/-- The settings of a YAML text. -/
def readSettings (text : List Char) : Except Error Settings.Layer :=
  (Frontmatter.read text).mapError .metadata

/-- The value of a JSON text; what is wrong with one is told at its place. -/
def readMatrix (text : List Char) : Except Error Json :=
  (Json.read text).mapError fun failure => .unreadable failure.fault (.withLeft text failure.left)

def read (text : List Char) : Except Error Source :=
  match block? (Text.lines text) with
  | none => do return ⟨{}, ← readMatrix text⟩
  | some block => do
    let settings ← readSettings block.metadata
    return ⟨settings, ← readMatrix block.body⟩

end Source

end StepGrid
