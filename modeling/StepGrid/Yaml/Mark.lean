/-! Places in a YAML text, all counted from zero: lines and columns in characters, the
index in bytes. -/

namespace StepGrid.Yaml

/-- The characters that end a line once carriage returns are out of the way. -/
def isBreak (char : Char) : Bool := char = '\n' || char = '\u2028' || char = '\u2029'

structure Mark where
  line : Nat
  column : Nat
  index : Nat
deriving DecidableEq, Repr, Inhabited

namespace Mark

def start : Mark := ⟨0, 0, 0⟩

def after (mark : Mark) (char : Char) : Mark :=
  let index := mark.index + char.utf8Size
  if isBreak char then ⟨mark.line + 1, 0, index⟩ else ⟨mark.line, mark.column + 1, index⟩

def isStart (mark : Mark) : Bool := mark.line = 0 && mark.column = 0

end Mark

end StepGrid.Yaml
