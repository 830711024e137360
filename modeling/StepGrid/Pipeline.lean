import StepGrid.Midi.File
import StepGrid.Score.Compile
import StepGrid.Source

/-! From the text of a source to its notes, and on to its MIDI file. Settings that are
given beside the source win over those in it. -/

namespace StepGrid.Pipeline

/-- The notes of a source and the settings they were made with. -/
structure Compiled where
  events : List NoteEvent
  settings : Settings

def compileWith (text : List Char) (overrides : Settings.Layer) : Except Error Compiled := do
  let source ← Source.read text
  let settings ← Settings.resolve (source.settings.merge overrides)
  let events ← Score.compileMatrix source.matrix settings
  return ⟨events, settings⟩

def compile (text : List Char) : Except Error (List NoteEvent) :=
  (compileWith text {}).map (·.events)

def midiFile (text : List Char) (overrides : Settings.Layer) : Except Error Midi.Bytes := do
  let compiled ← compileWith text overrides
  Midi.file compiled.events compiled.settings

end StepGrid.Pipeline
