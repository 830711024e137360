import StepGrid.Frontmatter.Fault
import StepGrid.Json.Fault
import StepGrid.Json.Printer

/-! Everything that can keep a source from becoming a MIDI file, told by its cause. -/

namespace StepGrid

/-- A field of an event that does not fit its place in a MIDI message. -/
inductive MessageField where
  | channel (value : Nat)
  | pitch (value : Nat)
  | velocity (value : Nat)
deriving DecidableEq, Repr

/-- A part of a file that is told with its length. -/
inductive FilePart where
  | text
  | track
deriving DecidableEq, Repr

inductive Error where
  | unreadable (fault : Json.Fault) (position : Text.Position)
  | notBars (found : Json.Kind)
  | notSteps (bar : Nat) (found : Json.Kind)
  | barLength (bar actual expected : Nat)
  | unsupportedStep (bar step : Nat) (value : Json)
  | unknownNote (name : String)
  | metadata (fault : Frontmatter.Fault)
  | emptyBars
  | stepsPerBar (given : Int)
  | tempo (given : Int)
  | channel (given : Int)
  | unplayable (start : Rat) (field : MessageField)
  | gap (ticks : Nat)
  | oversized (part : FilePart)
  | stoppedTempo

namespace Error

/-- The kinds of error that callers tell apart. -/
inductive Kind where
  | sequenceFormat
  | barLength
  | unsupportedStep
  | noteName
  | metadata
  | setting (name : String)
  | encoding
  | arithmetic
deriving DecidableEq, Repr

def kind : Error → Kind
  | unreadable .. => .sequenceFormat
  | notBars .. => .sequenceFormat
  | notSteps .. => .sequenceFormat
  | barLength .. => .barLength
  | unsupportedStep .. => .unsupportedStep
  | unknownNote .. => .noteName
  | metadata .. => .metadata
  | emptyBars => .setting "steps-per-bar"
  | stepsPerBar .. => .setting "steps-per-bar"
  | tempo .. => .setting "tempo"
  | channel .. => .setting "channel"
  | unplayable .. => .encoding
  | gap .. => .encoding
  | oversized .. => .encoding
  | stoppedTempo => .arithmetic

end Error

/-- A fraction in lowest terms, a whole number without its denominator. -/
def fractionText (value : Rat) : String :=
  if value.den = 1 then toString value.num else toString value.num ++ "/" ++ toString value.den

def Json.Kind.phrase : Json.Kind → String
  | .null => "null"
  | .boolean => "a boolean"
  | .number => "a number"
  | .string => "a string"
  | .list => "a list"
  | .object => "an object"

def MessageField.phrase : MessageField → String
  | .channel value => "channel " ++ toString value ++ " is outside 0-15"
  | .pitch value => "pitch " ++ toString value ++ " is outside 0-127"
  | .velocity value => "velocity " ++ toString value ++ " is outside 1-127"

def FilePart.phrase : FilePart → String
  | .text => "varlen slice exceeds 28 bits"
  | .track => "chunk size exceeds 32 bits"

namespace Error

def detail : Error → String
  | unreadable fault ⟨line, column⟩ =>
    "could not parse JSON at line " ++ toString line ++ ", column " ++ toString column ++ ": " ++
      fault.phrase ++ " at line " ++ toString line ++ " column " ++ toString column
  | notBars found => "expected a list of bars, found " ++ found.phrase
  | notSteps bar found =>
    "bar " ++ toString (bar + 1) ++ " must be a list of steps, found " ++ found.phrase
  | barLength bar actual expected =>
    "Bar " ++ toString (bar + 1) ++ " has " ++ toString actual ++ " steps; expected " ++
      toString expected
  | unsupportedStep bar step value =>
    "Unsupported step value at bar " ++ toString (bar + 1) ++ ", step " ++ toString (step + 1) ++
      ": " ++ value.render
  | unknownNote name => name
  | metadata fault => fault.phrase
  | emptyBars => "must be at least 1"
  | stepsPerBar given => "must be at least 1, got " ++ toString given
  | tempo given => "must be between 4 and 60000000 BPM, got " ++ toString given
  | channel given => "must be between 0 and 15, got " ++ toString given
  | unplayable start field => "note at beat " ++ fractionText start ++ ": " ++ field.phrase
  | gap ticks =>
    "gap of " ++ toString ticks ++ " ticks between events is too long for a MIDI file"
  | oversized part => part.phrase
  | stoppedTempo => "a beat has no length at tempo 0"

/-- The words that open every message of a kind. -/
def Kind.heading : Kind → String
  | sequenceFormat => "Invalid sequence format: "
  | barLength => ""
  | unsupportedStep => ""
  | noteName => "Invalid note: "
  | metadata => "Invalid metadata: "
  | setting name => "Invalid setting '" ++ name ++ "': "
  | encoding => "MIDI encoding failed: "
  | arithmetic => ""

def message (error : Error) : String := error.kind.heading ++ error.detail

end Error

end StepGrid
