import StepGrid.CommandLine.Run
import StepGrid.Proofs.MidiWritable

/-! The exit codes of failures. A source fails with a code from 2 to 6, whichever stage
refuses it, and what has been compiled fails in writing with 7: it has a tempo. -/

namespace StepGrid.Proofs.CommandFaults
open CommandLine Score Voice ScoreMeaning SettingsChecks MidiWritable

/-- The exit codes of what can be wrong with a source. -/
inductive SourceCode : Error.Kind → Nat → Prop
  | sequenceFormat : SourceCode .sequenceFormat 2
  | barLength : SourceCode .barLength 3
  | unsupportedStep : SourceCode .unsupportedStep 4
  | noteName : SourceCode .noteName 5
  | metadata : SourceCode .metadata 6
  | setting (name : String) : SourceCode (.setting name) 6

def OfSource (error : Error) : Prop := SourceCode error.kind (exitCode error.kind)

private theorem ofSource_of_readMatrix {text : List Char} {error : Error}
    (failed : Source.readMatrix text = .error error) :
    OfSource error := by
  unfold Source.readMatrix at failed
  cases read : Json.read text with
  | ok matrix =>
    rw [read] at failed
    cases failed
  | error failure =>
    rw [read] at failed
    cases failed
    exact .sequenceFormat

private theorem ofSource_of_readSettings {text : List Char} {error : Error}
    (failed : Source.readSettings text = .error error) :
    OfSource error := by
  unfold Source.readSettings at failed
  cases read : Frontmatter.read text with
  | ok layer =>
    rw [read] at failed
    cases failed
  | error fault =>
    rw [read] at failed
    cases failed
    exact .metadata

private theorem ofSource_of_read {text : List Char} {error : Error} (failed : Source.read text = .error error) :
    OfSource error := by
  unfold Source.read at failed
  split at failed
  next =>
    rcases bind_eq_error.mp failed with matrix | ⟨_, _, last⟩
    · exact ofSource_of_readMatrix matrix
    · cases last
  next =>
    rcases bind_eq_error.mp failed with settings | ⟨_, _, rest⟩
    · exact ofSource_of_readSettings settings
    · rcases bind_eq_error.mp rest with matrix | ⟨_, _, last⟩
      · exact ofSource_of_readMatrix matrix
      · cases last

/-- A setting is only refused by its own check. -/
theorem ofSource_of_resolve {layer : Settings.Layer} {error : Error}
    (failed : Settings.resolve layer = .error error) :
    OfSource error := by
  rcases resolve_eq_error.mp failed with ⟨_, _, _, rfl⟩ | ⟨_, ⟨_, _, _, rfl⟩ | ⟨_, _, _, _, rfl⟩⟩
  · exact .setting "tempo"
  · exact .setting "steps-per-bar"
  · exact .setting "channel"

private theorem ofSource_of_bars {width : Nat} {matrix : Json} {error : Error}
    (failed : Matrix.bars width matrix = .error error) : OfSource error := by
  unfold Matrix.bars at failed
  split at failed
  next =>
    cases failed
    exact .sequenceFormat
  next =>
    obtain ⟨⟨value, index⟩, _, refused⟩ := exists_of_mapM_eq_error failed
    dsimp only at refused
    unfold Matrix.bar at refused
    split at refused
    next =>
      cases refused
      exact .sequenceFormat
    next =>
      split at refused <;> cases refused
      exact .barLength

private theorem ofSource_of_flatten {width : Nat} {matrix : Json} {error : Error}
    (failed : Matrix.flatten width matrix = .error error) : OfSource error := by
  unfold Matrix.flatten at failed
  split at failed
  next =>
    cases failed
    exact .setting _
  next =>
    rcases bind_eq_error.mp failed with bars | ⟨rows, _, rest⟩
    · exact ofSource_of_bars bars
    · obtain ⟨cell, _, refused⟩ := exists_of_mapM_eq_error rest
      unfold Matrix.Cell.place at refused
      split at refused <;> cases refused
      exact .unsupportedStep

private theorem ofSource_of_compile {steps : List PlacedStep} {stepsPerBar channel : Nat} {velocity : Int}
    {error : Error} (failed : compile steps stepsPerBar channel velocity = .error error) : OfSource error := by
  -- Before any name is looked at, the grid and the channel are checked once more.
  cases made : ofGrid stepsPerBar channel velocity with
  | error refused =>
    rw [compile, performGrid, made] at failed
    cases failed
    unfold ofGrid at made
    split at made
    next =>
      cases made
      exact .setting _
    next =>
      split at made <;> cases made
      exact .setting _
  | ok voice =>
    rw [compile_eq_perform made] at failed
    split at failed <;> cases failed
    exact .noteName

/-- Every stage from a text to its notes fails with a code of a source. -/
theorem ofSource_of_compileWith {text : List Char} {overrides : Settings.Layer} {error : Error}
    (failed : Pipeline.compileWith text overrides = .error error) : OfSource error := by
  rcases bind_eq_error.mp failed with read | ⟨source, _, rest⟩
  · exact ofSource_of_read read
  · rcases bind_eq_error.mp rest with resolved | ⟨settings, _, rest⟩
    · exact ofSource_of_resolve resolved
    · rcases bind_eq_error.mp rest with played | ⟨_, _, last⟩
      · rw [compileMatrix_eq_bind] at played
        rcases bind_eq_error.mp played with flattened | ⟨_, _, compiled⟩
        · exact ofSource_of_flatten flattened
        · exact ofSource_of_compile compiled
      · cases last

/-- Compiled notes have a tempo and fit their messages, so that only a silence, a title or the
whole track can be too long for their file. -/
theorem exitCode_of_file {text : List Char} {overrides : Settings.Layer} {compiled : Pipeline.Compiled}
    {error : Error}
    (done : Pipeline.compileWith text overrides = .ok compiled)
    (failed : Midi.file compiled.events compiled.settings = .error error) : exitCode error.kind = 7 := by
  obtain ⟨_, _, _, _, writable⟩ := writable_of_compileWith done
  rcases bind_eq_error.mp failed with unmade | ⟨track, _, unfit⟩
  · obtain ⟨_, _, rfl⟩ := writable.gaps _ unmade
    rfl
  · unfold Midi.Track.file at unfit
    split at unfit <;> cases unfit
    rfl

end StepGrid.Proofs.CommandFaults
