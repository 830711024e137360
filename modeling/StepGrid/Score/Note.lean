import StepGrid.Json.Value

/-! Sounding notes with exact times in beats. -/

namespace StepGrid

structure NoteEvent where
  track : Nat
  channel : Nat
  pitch : Nat
  velocity : Nat
  start : Rat
  duration : Rat
deriving DecidableEq, Repr

namespace NoteEvent

/-- The time at which a note stops sounding. -/
def finish (event : NoteEvent) : Rat := event.start + event.duration

/-- Times are written as doubles. -/
def toJson (event : NoteEvent) : Json :=
  .object [
    ("track", .number (.integer event.track)),
    ("channel", .number (.integer event.channel)),
    ("pitch", .number (.integer event.pitch)),
    ("start", .number (.double (.ofFraction event.start))),
    ("duration", .number (.double (.ofFraction event.duration))),
    ("velocity", .number (.integer event.velocity))]

end NoteEvent

end StepGrid
