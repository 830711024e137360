import StepGrid.Score.Note
import StepGrid.Settings

/-! The track of a MIDI file. Starts and ends of notes are rounded to ticks on their own,
so notes that meet still meet. On one tick all releases come before all strikes, and a
note lasts at least a tick. -/

namespace StepGrid.Midi

def ticksPerBeat : Nat := 960

/-- The longest time between two events of a track. -/
def longestGap : Nat := 0x0fffffff

/-- The nearest tick, a half going up; times before zero are at tick zero. -/
def ticks (beats : Rat) : Nat := (beats * ticksPerBeat + 1 / 2).floor.toNat

inductive Message where
  | strike (channel key velocity : Nat)
  | release (channel key : Nat)
deriving DecidableEq, Repr

namespace Message

def isStrike : Message → Bool
  | strike .. => true
  | release .. => false

end Message

/-- A message at its tick. -/
structure Timed where
  tick : Nat
  message : Message
deriving DecidableEq, Repr

namespace Timed

/-- Sorting by this order keeps messages of one tick and kind as they are. -/
def precedes (first second : Timed) : Bool :=
  first.tick < second.tick ||
    (first.tick == second.tick && (!first.message.isStrike || second.message.isStrike))

def ofEvent (event : NoteEvent) : List Timed :=
  let on := ticks event.start
  [⟨on, .strike event.channel event.pitch event.velocity⟩,
    ⟨max (ticks event.finish) (on + 1), .release event.channel event.pitch⟩]

end Timed

/-- A field that has no place in a message, if there is one. -/
def misfit? (event : NoteEvent) : Option MessageField :=
  if highestChannel < event.channel then some (.channel event.channel)
  else if 127 < event.pitch then some (.pitch event.pitch)
  else if event.velocity < 1 ∨ 127 < event.velocity then some (.velocity event.velocity)
  else none

def checkFields (event : NoteEvent) : Except Error Unit :=
  match misfit? event with
  | some field => .error (.unplayable event.start field)
  | none => .ok ()

/-- The messages of all notes in the order of the track. -/
def schedule (events : List NoteEvent) : List Timed :=
  (events.flatMap Timed.ofEvent).mergeSort Timed.precedes

inductive TrackEvent.Kind where
  | trackName (text : String)
  | tempo (microseconds : Nat)
  | note (message : Message)
  | endOfTrack
deriving DecidableEq, Repr

structure TrackEvent where
  delta : Nat
  kind : TrackEvent.Kind
deriving DecidableEq, Repr

abbrev Track := List TrackEvent

/-- The tempo has 24 bits in a file. -/
def tempoRange : Nat := 0x1000000

/-- The time between two events has 28 bits in a file. -/
def gapRange : Nat := 0x10000000

/-- Messages told by the time since the one before, after those in reverse. -/
def spread (done : Track) (now : Nat) : List Timed → Except Error Track
  | [] => .ok done.reverse
  | timed :: rest =>
    if longestGap < timed.tick - now then .error (.gap (timed.tick - now))
    else spread (⟨(timed.tick - now) % gapRange, .note timed.message⟩ :: done) timed.tick rest

def Track.ofEvents (events : List NoteEvent) (settings : Settings) : Except Error Track := do
  events.forM checkFields
  let microseconds ← settings.microsecondsPerBeat
  let notes ← spread [] 0 (schedule events)
  let name := settings.title.toList.map fun title => ⟨0, .trackName title⟩
  return name ++ [⟨0, .tempo (microseconds % tempoRange)⟩] ++ notes ++ [⟨0, .endOfTrack⟩]

end StepGrid.Midi
