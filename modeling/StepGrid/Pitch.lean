import StepGrid.Number.Digits

/-! Note names such as `C4`, `A#3` or `Db-1` and the keys that they stand for. `C4` is
key 60, and an octave has twelve keys. -/

namespace StepGrid.Pitch

/-- The spellings of the pitch classes and their semitones above C. -/
def classes : List (String × Nat) :=
  [("C", 0), ("C#", 1), ("Db", 1), ("D", 2), ("D#", 3), ("Eb", 3), ("E", 4), ("F", 5), ("F#", 6),
    ("Gb", 6), ("G", 7), ("G#", 8), ("Ab", 8), ("A", 9), ("A#", 10), ("Bb", 10), ("B", 11)]

/-- The highest key. -/
def highest : Nat := 127

def semitone? (spelling : String) : Option Nat := classes.lookup spelling

/-- The spelling of a pitch class ends after the letter, or after one accidental. -/
def splitName : List Char → Option (List Char × List Char)
  | [] => none
  | letter :: rest =>
    if 'A' ≤ letter ∧ letter ≤ 'G' then
      match rest with
      | '#' :: octave => some ([letter, '#'], octave)
      | 'b' :: octave => some ([letter, 'b'], octave)
      | octave => some ([letter], octave)
    else none

/-- An octave is written in digits, with a minus sign below zero. -/
def octave? : List Char → Option Int
  | '-' :: digits => (Digits.natural? digits).map fun value => -value
  | digits => (Digits.natural? digits).map fun value => value

/-- The key of a note name, where there is one. -/
def ofName? (name : String) : Option Nat := do
  let (spelling, octave) ← splitName name.toList
  let octave ← octave? octave
  let semitone ← semitone? (String.ofList spelling)
  let key := 12 * (octave + 1) + semitone
  if 0 ≤ key ∧ key ≤ highest then some key.toNat else none

end StepGrid.Pitch
