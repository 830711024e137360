import StepGrid.Proofs.ScoreWords
import StepGrid.Score.Stream

/-! Playing one note at a time in machine words. A stream counts the steps that are behind it in a
word, and a step is played in words when its notes are asked for. Over a row in reach the answers are
those of a stream without any bounds. -/

namespace StepGrid.Proofs.StreamWords
open Voice NoteStream ScoreMeaning ScoreWords WordFractions

section Asking
variable (arithmetic : Arithmetic)

/-- The next answer from a place on, and the place of the stream after it. -/
def seekInWords (voice : Voice) (records : List Record) (place : Nat) : List PlacedStep → Option (Answer × Nat)
  | [] => some (⟨none, records, ⟨voice, [], []⟩⟩, place)
  | placed :: after => do
    let move ← playInWords arithmetic voice place placed after
    let rest := after.drop (move.next - (place + 1))
    match move.outcome with
    | .error error => return (⟨some (.error error), records ++ move.records, ⟨voice, rest, []⟩⟩, move.next)
    | .ok (event :: pending) => return (⟨some (.ok event), records ++ move.records, ⟨voice, rest, pending⟩⟩, move.next)
    | .ok [] => seekInWords voice (records ++ move.records) move.next rest
termination_by steps => steps.length
decreasing_by exact Nat.lt_succ_of_le (List.drop_sublist _ _).length_le

def nextInWords (stream : NoteStream) (place : Nat) : Option (Answer × Nat) :=
  match stream.pending with
  | event :: pending => some (⟨some (.ok event), [], { stream with pending }⟩, place)
  | [] => seekInWords arithmetic stream.voice [] place stream.steps

def takeInWords (stream : NoteStream) (place : Nat) : Nat → Option (List Answer)
  | 0 => some []
  | count + 1 => do
    let (answer, next) ← nextInWords arithmetic stream place
    return answer :: (← takeInWords answer.stream next count)

/-- The answers of a stream from its first step on. -/
def answersInWords (steps : List PlacedStep) (stepsPerBar channel : Nat) (velocity : Int) (count : Nat) :
    Option (Except Error (List Answer)) := do
  match ← voiceInWords arithmetic stepsPerBar channel velocity with
  | .error error => return .error error
  | .ok voice => return .ok (← takeInWords arithmetic ⟨voice, steps, []⟩ 0 count)

end Asking

private theorem rest_of_failed {voice : Voice} {placed : PlacedStep} {after : List PlacedStep} {error : Error}
    (failed : (voice.play placed after).outcome = .error error) : (voice.play placed after).rest = [] := by
  cases step : placed.value with
  | rest | sustain => simp [play, step] at failed
  | note _ | chord _ =>
    simp only [play, step, strike] at failed ⊢
    split
    next => rfl
    next pitches found =>
      rw [found] at failed
      cases failed

/-- The steps that a stream has left are those of the row from some place on. -/
structure Along (row : List PlacedStep) (voice : Voice) (stream : NoteStream) (place : Nat) : Prop where
  voice : stream.voice = voice
  steps : row.drop place = stream.steps

section Row
variable {arithmetic : Arithmetic} (exact : arithmetic.Exact) {stepsPerBar : Nat} (positive : 0 < stepsPerBar)
  (narrow : stepsPerBar < 2 ^ 63) {row : List PlacedStep} (reaches : Reaches stepsPerBar row) {voice : Voice}
  (stepLength : voice.stepLength = 4 / stepsPerBar)
include exact positive narrow reaches stepLength

theorem seekInWords_eq (records : List Record) (steps : List PlacedStep) : ∀ {place : Nat}, row.drop place = steps →
    ∃ next, seekInWords arithmetic voice records place steps = some (seek voice records steps, next) ∧
      Along row voice (seek voice records steps).stream next := by
  -- As for a whole row, the steps that are left are always the row from the place on.
  fun_induction seek voice records steps with
  | case1 records =>
    intro place rest
    rw [seekInWords]
    exact ⟨place, rfl, rfl, rest⟩
  | case2 records placed after turn error =>
    rename_i failed
    intro place rest
    obtain ⟨next, made, left, behind⟩ := playInWords_eq exact positive narrow reaches stepLength rest
    have ended : turn.rest = [] := rest_of_failed failed
    refine ⟨next, ?_, rfl, by rw [behind, ended]⟩
    rw [seekInWords, bind_of_eq_some made]
    dsimp only
    rw [failed, left, ended]
    rfl
  | case3 records placed after turn event pending =>
    rename_i struck
    intro place rest
    obtain ⟨next, made, left, behind⟩ := playInWords_eq exact positive narrow reaches stepLength rest
    refine ⟨next, ?_, rfl, behind⟩
    rw [seekInWords, bind_of_eq_some made]
    dsimp only
    rw [struck, left]
    rfl
  | case4 records placed after turn =>
    rename_i silent ih
    intro place rest
    obtain ⟨next, made, left, behind⟩ := playInWords_eq exact positive narrow reaches stepLength rest
    rw [seekInWords, bind_of_eq_some made]
    dsimp only
    rw [silent, left]
    exact ih behind

theorem nextInWords_eq {stream : NoteStream} {place : Nat} (along : Along row voice stream place) :
    ∃ next, nextInWords arithmetic stream place = some (stream.next, next) ∧ Along row voice stream.next.stream next := by
  obtain ⟨_, steps, pending⟩ := stream
  obtain ⟨rfl, rest⟩ := along
  cases pending with
  | cons event pending => exact ⟨place, rfl, rfl, rest⟩
  | nil => exact seekInWords_eq exact positive narrow reaches stepLength [] steps rest

theorem takeInWords_eq {stream : NoteStream} {place : Nat} (along : Along row voice stream place) (count : Nat) :
    takeInWords arithmetic stream place count = some (stream.take count) := by
  induction count generalizing stream place with
  | zero => rfl
  | succ count ih =>
    obtain ⟨next, answered, after⟩ := nextInWords_eq exact positive narrow reaches stepLength along
    rw [takeInWords, bind_of_eq_some answered]
    dsimp only
    rw [bind_of_eq_some (ih after)]
    rfl

end Row

/-- A stream over a row in reach answers in words as it does without any bounds. -/
theorem answersInWords_eq {arithmetic : Arithmetic} (exact : arithmetic.Exact) {stepsPerBar channel : Nat}
    {velocity : Int}
    {row : List PlacedStep} {stream : NoteStream} (opened : ofSteps row stepsPerBar channel velocity = .ok stream)
    (reaches : Reaches stepsPerBar row) (count : Nat) :
    answersInWords arithmetic row stepsPerBar channel velocity count = some (.ok (stream.take count)) := by
  unfold ofSteps at opened
  rw [answersInWords, bind_of_eq_some (voiceInWords_eq exact stepsPerBar channel velocity)]
  cases made : ofGrid stepsPerBar channel velocity with
  | error error =>
    rw [made] at opened
    cases opened
  | ok voice =>
    rw [made] at opened
    cases opened
    obtain ⟨⟨positive, narrow, _⟩, rfl⟩ := ofGrid_eq_ok.mp made
    dsimp only
    rw [bind_of_eq_some (takeInWords_eq exact positive narrow reaches rfl ⟨rfl, rfl⟩ count)]
    rfl

end StepGrid.Proofs.StreamWords
