import StepGrid.Number.Digits
import StepGrid.Settings

/-! The arguments of the command line. A flag that takes a value takes the next argument,
whatever that looks like; of a flag given twice the last one counts. -/

namespace StepGrid.CommandLine

inductive Flag where
  | help
  | sequence
  | output
  | tempo
  | stepsPerBar
  | velocity
  | channel
  | events
deriving DecidableEq, Repr

namespace Flag

def ofArgument? (argument : String) : Option Flag :=
  if argument = "-h" ∨ argument = "--help" then some help
  else if argument = "-s" ∨ argument = "--sequence" then some sequence
  else if argument = "-o" ∨ argument = "--output" then some output
  else if argument = "--bpm" then some tempo
  else if argument = "--steps-per-bar" then some stepsPerBar
  else if argument = "--velocity" then some velocity
  else if argument = "--channel" then some channel
  else if argument = "--events" then some events
  else none

def name : Flag → String
  | help => "--help"
  | sequence => "--sequence"
  | output => "--output"
  | tempo => "--bpm"
  | stepsPerBar => "--steps-per-bar"
  | velocity => "--velocity"
  | channel => "--channel"
  | events => "--events"

end Flag

/-- An argument that should have been a flag: a hyphen alone is none. -/
def looksLikeFlag (argument : String) : Bool :=
  match argument.toList with
  | '-' :: _ :: _ => true
  | _ => false

def signed? : List Char → Option Int
  | '+' :: digits => (Digits.natural? digits).map fun value => value
  | '-' :: digits => (Digits.natural? digits).map fun value => -value
  | digits => (Digits.natural? digits).map fun value => value

/-- A number of 64 bits: a sign or none, and digits. -/
def integer? (argument : String) : Option Int :=
  (signed? argument.toList).filter Digits.isWord

inductive Input where
  | file (path : String)
  | inline (text : String)
deriving DecidableEq, Repr

structure Invocation where
  input : Input
  output : String
  events : Bool
  overrides : Settings.Layer
deriving DecidableEq, Repr

inductive UsageFault where
  | missingValue (flag : Flag)
  | invalidNumber (flag : Flag) (value : String)
  | unknownOption (argument : String)
  | unexpectedArgument (argument : String)
  | notOneInput
deriving DecidableEq, Repr

def UsageFault.phrase : UsageFault → String
  | missingValue flag => "Missing value for " ++ flag.name
  | invalidNumber flag value => "Invalid number for " ++ flag.name ++ ": " ++ value
  | unknownOption argument => "Unknown option: " ++ argument
  | unexpectedArgument argument => "Unexpected argument: " ++ argument
  | notOneInput => "Give exactly one of an input file or --sequence"

/-- What the arguments ask for. -/
inductive Demand where
  | help
  | invoke (invocation : Invocation)
  | wrong (fault : UsageFault)
deriving DecidableEq, Repr

/-- What is known from the arguments so far. -/
structure Draft where
  path : Option String := none
  sequence : Option String := none
  output : String := "output.mid"
  events : Bool := false
  overrides : Settings.Layer := {}
deriving DecidableEq, Repr

namespace Draft

def finish (draft : Draft) : Demand :=
  match draft.path, draft.sequence with
  | some path, none => .invoke ⟨.file path, draft.output, draft.events, draft.overrides⟩
  | none, some text => .invoke ⟨.inline text, draft.output, draft.events, draft.overrides⟩
  | _, _ => .wrong .notOneInput

def override (draft : Draft) (flag : Flag) (value : Int) : Draft :=
  let overrides := draft.overrides
  match flag with
  | .tempo => { draft with overrides := { overrides with tempo := some value } }
  | .stepsPerBar => { draft with overrides := { overrides with stepsPerBar := some value } }
  | .velocity => { draft with overrides := { overrides with velocity := some value } }
  | .channel => { draft with overrides := { overrides with channel := some value } }
  | _ => draft

/-- A flag with its value. -/
def set (draft : Draft) (flag : Flag) (value : String) : Except UsageFault Draft :=
  match flag with
  | .sequence => .ok { draft with sequence := some value }
  | .output => .ok { draft with output := value }
  | flag =>
    match integer? value with
    | some number => .ok (draft.override flag number)
    | none => .error (.invalidNumber flag value)

/-- An argument that belongs to no flag. -/
def place (draft : Draft) (argument : String) : Except UsageFault Draft :=
  if looksLikeFlag argument then .error (.unknownOption argument)
  else if draft.path.isSome then .error (.unexpectedArgument argument)
  else .ok { draft with path := some argument }

def parse (draft : Draft) : List String → Demand
  | [] => draft.finish
  | argument :: rest =>
    match Flag.ofArgument? argument with
    | some .help => .help
    | some .events => parse { draft with events := true } rest
    | some flag =>
      match rest with
      | [] => .wrong (.missingValue flag)
      | value :: others =>
        match draft.set flag value with
        | .ok next => parse next others
        | .error fault => .wrong fault
    | none =>
      match draft.place argument with
      | .ok next => parse next rest
      | .error fault => .wrong fault

end Draft

def demand (arguments : List String) : Demand := ({} : Draft).parse arguments

end StepGrid.CommandLine
