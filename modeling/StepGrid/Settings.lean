import StepGrid.Error

/-! Settings come in layers, each of which may leave any of them unset. Later layers win
setting by setting; what no layer sets has a default. -/

namespace StepGrid

/-- The nearest velocity of a sounding note. -/
def clampVelocity (velocity : Int) : Nat := (max 1 (min velocity 127)).toNat

def highestChannel : Nat := 15

structure Settings where
  title : Option String := none
  tempo : Nat := 120
  stepsPerBar : Nat := 4
  velocity : Nat := 100
  channel : Nat := 0
deriving DecidableEq, Repr

/-- Settings as they are given, unchecked. -/
structure Settings.Layer where
  title : Option String := none
  tempo : Option Int := none
  stepsPerBar : Option Int := none
  velocity : Option Int := none
  channel : Option Int := none
deriving DecidableEq, Repr

namespace Settings

/-- The slowest tempo whose length of a beat fits a MIDI file. -/
def slowestTempo : Nat := 4

def fastestTempo : Nat := 60000000

/-- What the upper layer sets, else what the lower one sets. -/
def Layer.merge (lower upper : Layer) : Layer where
  title := upper.title.or lower.title
  tempo := upper.tempo.or lower.tempo
  stepsPerBar := upper.stepsPerBar.or lower.stepsPerBar
  velocity := upper.velocity.or lower.velocity
  channel := upper.channel.or lower.channel

def checkTempo (given : Int) : Except Error Nat :=
  if slowestTempo ≤ given ∧ given ≤ fastestTempo then .ok given.toNat else .error (.tempo given)

def checkStepsPerBar (given : Int) : Except Error Nat :=
  if 1 ≤ given then .ok given.toNat else .error (.stepsPerBar given)

def checkChannel (given : Int) : Except Error Nat :=
  if 0 ≤ given ∧ given ≤ highestChannel then .ok given.toNat else .error (.channel given)

/-- Settings in range. A velocity out of range is moved into it, all else is refused. -/
def resolve (layer : Layer) : Except Error Settings := do
  let base : Settings := {}
  let tempo ← layer.tempo.elim (.ok base.tempo) checkTempo
  let stepsPerBar ← layer.stepsPerBar.elim (.ok base.stepsPerBar) checkStepsPerBar
  let channel ← layer.channel.elim (.ok base.channel) checkChannel
  let velocity := layer.velocity.elim base.velocity clampVelocity
  return { title := layer.title, tempo, stepsPerBar, velocity, channel }

/-- The length of a beat in microseconds, rounded down. -/
def microsecondsPerBeat (settings : Settings) : Except Error Nat :=
  if settings.tempo = 0 then .error .stoppedTempo else .ok (60000000 / settings.tempo)

def toJson (settings : Settings) : Json :=
  .object [
    ("title", settings.title.elim .null .string),
    ("tempo", .number (.integer settings.tempo)),
    ("stepsPerBar", .number (.integer settings.stepsPerBar)),
    ("velocity", .number (.integer settings.velocity)),
    ("channel", .number (.integer settings.channel))]

end Settings

end StepGrid
