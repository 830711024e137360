import StepGrid.Grid.Step
import StepGrid.Pitch
import StepGrid.Score.Note
import StepGrid.Score.Record
import StepGrid.Settings

/-! A voice plays the steps of a grid one after the other. A note or chord takes the
sustains after it along; a sustain that is reached on its own has nothing to hold. -/

namespace StepGrid

/-- Every bar spans four beats, however many steps it has. -/
def beatsPerBar : Nat := 4

/-- What all notes of a grid have in common. -/
structure Voice where
  stepLength : Rat
  channel : Nat
  velocity : Nat
deriving DecidableEq, Repr

namespace Voice

/-- Bars have at least one step, and their number of steps has 63 bits. -/
def ofGrid (stepsPerBar channel : Nat) (velocity : Int) : Except Error Voice :=
  if stepsPerBar = 0 ∨ 9223372036854775808 ≤ stepsPerBar then .error (.stepsPerBar stepsPerBar)
  else if highestChannel < channel then .error (.channel channel)
  else .ok ⟨mkRat beatsPerBar stepsPerBar, channel, clampVelocity velocity⟩

def start (voice : Voice) (placed : PlacedStep) : Rat :=
  ((placed.bar * beatsPerBar : Int) : Rat) + voice.stepLength * placed.step

def pitch (name : String) : Except Error Nat :=
  match Pitch.ofName? name with
  | some pitch => .ok pitch
  | none => .error (.unknownNote name)

/-- What comes of one step: the notes it sounds and the steps left to play. -/
structure Turn where
  records : List Record
  outcome : Except Error (List NoteEvent)
  rest : List PlacedStep

/-- The number of sustains at the head of some steps. -/
def heldSteps (steps : List PlacedStep) : Nat := (steps.takeWhile (·.value.isSustain)).length

def event (voice : Voice) (start duration : Rat) (pitch : Nat) : NoteEvent where
  track := 0
  channel := voice.channel
  pitch := pitch
  velocity := voice.velocity
  start := start
  duration := duration

/-- A name without a key ends the playing, whatever follows it. -/
def strike (voice : Voice) (placed : PlacedStep) (after : List PlacedStep) : Turn :=
  match placed.value.names.mapM pitch with
  | .error error => ⟨[], .error error, []⟩
  | .ok pitches =>
    let length := heldSteps after + 1
    let start := voice.start placed
    ⟨[.struck placed.bar placed.step pitches.length start length],
      .ok (pitches.map (voice.event start (voice.stepLength * length))),
      after.dropWhile (·.value.isSustain)⟩

def play (voice : Voice) (placed : PlacedStep) (after : List PlacedStep) : Turn :=
  match placed.value with
  | .rest => ⟨[], .ok [], after⟩
  | .sustain => ⟨[.orphan placed.bar placed.step], .ok [], after⟩
  | .note _ => voice.strike placed after
  | .chord _ => voice.strike placed after

theorem strike_rest_length_le (voice : Voice) (placed : PlacedStep) (after : List PlacedStep) :
    (voice.strike placed after).rest.length ≤ after.length := by
  unfold strike
  split
  · exact Nat.zero_le _
  · exact (List.dropWhile_sublist _).length_le

theorem play_rest_length_le (voice : Voice) (placed : PlacedStep) (after : List PlacedStep) :
    (voice.play placed after).rest.length ≤ after.length := by
  unfold play
  split
  · exact Nat.le_refl _
  · exact Nat.le_refl _
  · exact strike_rest_length_le voice placed after
  · exact strike_rest_length_le voice placed after

end Voice

end StepGrid
