import StepGrid.Grid.Matrix
import StepGrid.Score.Voice

/-! The notes of a whole grid. Either every step plays or there are no notes at all. -/

namespace StepGrid.Score

/-- All notes or the first error, with what was noted down until then. -/
structure Performance where
  records : List Record
  outcome : Except Error (List NoteEvent)

/-- Plays the steps after those whose notes and records, in reverse, are at hand. -/
def perform (voice : Voice) (events : List NoteEvent) (records : List Record) :
    List PlacedStep → Performance
  | [] => ⟨records.reverse, .ok events.reverse⟩
  | placed :: after =>
    let turn := voice.play placed after
    match turn.outcome with
    | .error error => ⟨(turn.records.reverse ++ records).reverse, .error error⟩
    | .ok struck =>
      perform voice (struck.reverse ++ events) (turn.records.reverse ++ records) turn.rest
termination_by steps => steps.length
decreasing_by exact Nat.lt_succ_of_le (Voice.play_rest_length_le voice placed after)

def performGrid (steps : List PlacedStep) (stepsPerBar channel : Nat) (velocity : Int) : Performance :=
  match Voice.ofGrid stepsPerBar channel velocity with
  | .error error => ⟨[], .error error⟩
  | .ok voice => perform voice [] [] steps

/-- The notes of placed steps. -/
def compile (steps : List PlacedStep) (stepsPerBar channel : Nat) (velocity : Int) :
    Except Error (List NoteEvent) :=
  (performGrid steps stepsPerBar channel velocity).outcome

/-- Plays a bar matrix. Success is noted down last. -/
def performMatrix (matrix : Json) (settings : Settings) : Performance :=
  match Matrix.flatten settings.stepsPerBar matrix with
  | .error error => ⟨[], .error error⟩
  | .ok steps =>
    let performance := performGrid steps settings.stepsPerBar settings.channel settings.velocity
    match performance.outcome with
    | .error error => ⟨performance.records, .error error⟩
    | .ok events =>
      ⟨performance.records ++ [.compiled steps.length events.length], .ok events⟩

/-- The notes of a bar matrix. -/
def compileMatrix (matrix : Json) (settings : Settings) : Except Error (List NoteEvent) :=
  (performMatrix matrix settings).outcome

end StepGrid.Score
