/-! Places in a text, counted in bytes of its UTF-8 form. A reader that stops early
knows only how many bytes it left, so a place is told from the end. -/

namespace StepGrid.Text

def byteLength (text : List Char) : Nat :=
  text.foldl (fun total char => total + char.utf8Size) 0

/-- A line, counted from one, and the bytes since its start. -/
structure Position where
  line : Nat
  column : Nat
deriving DecidableEq, Repr

namespace Position

def start : Position := ⟨1, 0⟩

def after (position : Position) (char : Char) : Position :=
  if char = '\n' then ⟨position.line + 1, 0⟩
  else ⟨position.line, position.column + char.utf8Size⟩

/-- The place some bytes further on, possibly inside a character. -/
def advance (position : Position) : List Char → Nat → Position
  | [], _ => position
  | char :: rest, bytes =>
    if char.utf8Size ≤ bytes then (position.after char).advance rest (bytes - char.utf8Size)
    else ⟨position.line, position.column + bytes⟩

/-- The place in a text that has the given number of bytes after it. -/
def withLeft (text : List Char) (left : Nat) : Position :=
  start.advance text (byteLength text - left)

end Position

end StepGrid.Text
