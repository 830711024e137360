import StepGrid.Json.Value

/-! The cells of a grid: rests, sustains, notes and chords. -/

namespace StepGrid

inductive Step where
  | rest
  | sustain
  | note (name : String)
  | chord (names : List String)
deriving DecidableEq, Repr

namespace Step

def restMark : String := "."

def sustainMark : String := "-"

/-- The names of a chord in the order of their first occurrences, after those kept so
far; none if something is no name. -/
def chordNames (kept : List String) : List Json → Option (List String)
  | [] => some kept
  | item :: others =>
    match item.text? with
    | none => none
    | some name =>
      if name ∈ kept then chordNames kept others else chordNames (kept ++ [name]) others

/-- The step that a value of a matrix stands for. -/
def classify : Json → Option Step
  | .string text =>
    if text = restMark then some rest
    else if text = sustainMark then some sustain
    else some (note text)
  | .array [] => some rest
  | .array items => (chordNames [] items).map chord
  | _ => none

/-- The names that sound from this step on. -/
def names : Step → List String
  | rest => []
  | sustain => []
  | note name => [name]
  | chord names => names

def isSustain : Step → Bool
  | sustain => true
  | _ => false

end Step

/-- A step in its bar, both counted from zero. A step may be placed before the first
bar, or before the first step of its bar. -/
structure PlacedStep where
  bar : Int
  step : Int
  value : Step
deriving DecidableEq, Repr

/-- A step at a place that is given in words without signs. They are read as words with signs. -/
def PlacedStep.ofWords (bar step : UInt64) (value : Step) : PlacedStep :=
  ⟨bar.toInt64.toInt, step.toInt64.toInt, value⟩

end StepGrid
