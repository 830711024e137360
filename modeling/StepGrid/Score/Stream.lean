import StepGrid.Score.Voice

/-! The notes of a grid one at a time. Nothing is looked at before it is asked for, and
after an error the stream is at its end. -/

namespace StepGrid

structure NoteStream where
  voice : Voice
  steps : List PlacedStep
  pending : List NoteEvent

namespace NoteStream

/-- A stream at its first step. -/
def ofSteps (steps : List PlacedStep) (stepsPerBar channel : Nat) (velocity : Int) :
    Except Error NoteStream :=
  (Voice.ofGrid stepsPerBar channel velocity).map fun voice => ⟨voice, steps, []⟩

/-- One answer of a stream, with what was noted down on the way to it. -/
structure Answer where
  item : Option (Except Error NoteEvent)
  records : List Record
  stream : NoteStream

def seek (voice : Voice) (records : List Record) : List PlacedStep → Answer
  | [] => ⟨none, records, ⟨voice, [], []⟩⟩
  | placed :: after =>
    let turn := voice.play placed after
    match turn.outcome with
    | .error error => ⟨some (.error error), records ++ turn.records, ⟨voice, [], []⟩⟩
    | .ok (event :: pending) =>
      ⟨some (.ok event), records ++ turn.records, ⟨voice, turn.rest, pending⟩⟩
    | .ok [] => seek voice (records ++ turn.records) turn.rest
termination_by steps => steps.length
decreasing_by exact Nat.lt_succ_of_le (Voice.play_rest_length_le voice placed after)

def next (stream : NoteStream) : Answer :=
  match stream.pending with
  | event :: pending => ⟨some (.ok event), [], { stream with pending }⟩
  | [] => seek stream.voice [] stream.steps

/-- The answers to so many questions. -/
def take (stream : NoteStream) : Nat → List Answer
  | 0 => []
  | count + 1 => stream.next :: stream.next.stream.take count

end NoteStream

end StepGrid
