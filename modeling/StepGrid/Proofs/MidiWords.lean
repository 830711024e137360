import StepGrid.Proofs.MidiWritable
import StepGrid.Proofs.ScoreWords

/-! Writing a track in machine words. Every time of a grid is a count of some fraction of a
beat, at most four for each step of the grid. This bounds the parts of every fraction on the
way from steps to ticks, and so all of compiling and writing fits into words. -/

namespace StepGrid.Proofs.MidiWords
open Digits Midi MidiSchedule MidiTicks MidiTimeline MidiWritable Score Voice ScoreMeaning ScoreTimes ScoreWords WordFractions

section Writing
variable (arithmetic : Arithmetic)

def ticksInWords (beats : Rat) : Option Nat := do
  let exact ← arithmetic.product beats (ticksPerBeat : Int)
  let nearest ← arithmetic.rounded exact
  return nearest.toNat

def messagesInWords (event : NoteEvent) : InWords (List Timed) := do
  let on ← ticksInWords arithmetic event.start
  let finish ← arithmetic.sum event.start event.duration
  let off ← ticksInWords arithmetic finish
  let least ← unsigned? (on + 1)
  checkFields event
  return [⟨on, .strike event.channel event.pitch event.velocity⟩, ⟨max off least, .release event.channel event.pitch⟩]

def spreadInWords (done : Track) (now : Nat) : List Timed → InWords Track
  | [] => return done.reverse
  | timed :: rest => do
    let gap ← unsigned? (timed.tick - now)
    if longestGap < gap then throw (.gap gap)
    else spreadInWords (⟨gap % gapRange, .note timed.message⟩ :: done) timed.tick rest

def trackInWords (events : List NoteEvent) (settings : Settings) : InWords Track := do
  let messages ← events.mapM (messagesInWords arithmetic)
  let microseconds ← settings.microsecondsPerBeat
  let notes ← spreadInWords [] 0 (messages.flatten.mergeSort Timed.precedes)
  let name := settings.title.toList.map fun title => ⟨0, .trackName title⟩
  return name ++ [⟨0, .tempo (microseconds % tempoRange)⟩] ++ notes ++ [⟨0, .endOfTrack⟩]

end Writing

/-- The room that is asked for before the messages are made, and for a whole track after. -/
def room (events : List NoteEvent) : Option Nat := do
  let messages ← unsigned? (events.length * 2)
  unsigned? (messages + 3)

/-- A note by its steps: how many come before it and how many it lasts. -/
structure OnSteps (stepsPerBar count : Nat) (event : NoteEvent) (first length : Nat) : Prop where
  bound : first + length ≤ count
  start : event.start = (4 * first : Nat) / stepsPerBar
  duration : event.duration = (4 * length : Nat) / stepsPerBar

theorem OnSteps.finish {stepsPerBar count first length : Nat} {event : NoteEvent}
    (placed : OnSteps stepsPerBar count event first length) :
    event.finish = (4 * first + 4 * length : Nat) / stepsPerBar := by
  rw [NoteEvent.finish, placed.start, placed.duration, ← add_div, ← Nat.cast_add]

private theorem onSteps_of_compile {stepsPerBar channel : Nat} {velocity : Int} {matrix : Json}
    {steps : List PlacedStep} {events : List NoteEvent} (flattened : Matrix.flatten stepsPerBar matrix = .ok steps)
    (compiled : compile steps stepsPerBar channel velocity = .ok events) :
    ∀ event ∈ events, ∃ first length, OnSteps stepsPerBar steps.length event first length := by
  obtain ⟨_, _, rfl⟩ := compile_eq_ok compiled
  intro event member
  have aligned := aligned_of_flatten flattened channel (clampVelocity velocity)
  obtain ⟨index, inside, _, starts, ends⟩ := times_of_mem_notes aligned member
  have bound := runAfter_le inside
  refine ⟨index, 1 + runAfter steps index, by omega, ?_, ?_⟩
  · rw [starts]
    push_cast
    ring
  · have lasts : event.duration = event.finish - event.start := (add_sub_cancel_left ..).symm
    rw [lasts, starts, ends]
    push_cast
    ring

section Ticks
variable {arithmetic : Arithmetic} (exact : arithmetic.Exact) {stepsPerBar : Nat} (positive : 0 < stepsPerBar)
  (narrow : stepsPerBar < 2 ^ 63)
include positive

theorem ticks_lt_of_count {count : Nat} (few : count ≤ 2 ^ 52) : ticks ((count : Rat) / stepsPerBar) < 2 ^ 62 := by
  have early : (count / stepsPerBar : Rat) ≤ 4 * (2 ^ 50 : Nat) := by
    have whole : (1 : Rat) ≤ stepsPerBar := by exact_mod_cast positive
    have bound : (count : Rat) ≤ (2 ^ 52 : Nat) := by exact_mod_cast few
    have divided := div_le_self (Nat.cast_nonneg count) whole
    push_cast at bound ⊢
    linarith
  have late := ticks_le early
  omega

include exact narrow

theorem ticksInWords_eq {count : Nat} (few : count ≤ 2 ^ 52) :
    ticksInWords arithmetic (count / stepsPerBar) = some (ticks (count / stepsPerBar)) := by
  have scaledUp : (count / stepsPerBar * ((ticksPerBeat : Int) : Rat)) = (960 * count : Nat) / stepsPerBar := by
    rw [ticksPerBeat]
    push_cast
    ring
  have made : arithmetic.product (count / stepsPerBar) ((ticksPerBeat : Int) : Rat) = some ((960 * count : Nat) / stepsPerBar : Rat) :=
    product_count exact positive narrow (stored_div positive (by omega) narrow) (stored_intCast rfl) scaledUp (by omega)
  have stored : Stored ((960 * count : Nat) / stepsPerBar) := stored_div positive (by omega) narrow
  have nearest := exact.rounded stored
  rw [ticksInWords, bind_of_eq_some made, bind_of_eq_some nearest, ticks_eq_roundAway, ← scaledUp]
  rfl

private theorem run_messagesInWords {count first length : Nat} {event : NoteEvent} (few : count ≤ 2 ^ 50)
    (placed : OnSteps stepsPerBar count event first length) :
    (messagesInWords arithmetic event).run = some ((checkFields event).map fun _ => Timed.ofEvent event) := by
  have bound := placed.bound
  have on : ticksInWords arithmetic event.start = some (ticks event.start) := by
    rw [placed.start]
    exact ticksInWords_eq exact positive narrow (by omega)
  have sum : arithmetic.sum event.start event.duration = some event.finish := by
    rw [placed.finish, placed.start, placed.duration]
    exact sum_counts exact positive narrow (by omega)
  have off : ticksInWords arithmetic event.finish = some (ticks event.finish) := by
    rw [placed.finish]
    exact ticksInWords_eq exact positive narrow (by omega)
  have least : unsigned? (ticks event.start + 1) = some (ticks event.start + 1) := by
    have small : ticks event.start < 2 ^ 62 := by
      rw [placed.start]
      exact ticks_lt_of_count positive (by omega)
    exact unsigned?_of_eq rfl (by omega)
  rw [messagesInWords, run_bind_some on, run_bind_some sum, run_bind_some off, run_bind_some least]
  cases checkFields event with
  | error error => rfl
  | ok _ => rfl

private theorem run_messages {events : List NoteEvent} {count : Nat} (few : count ≤ 2 ^ 50)
    (placed : ∀ event ∈ events, ∃ first length, OnSteps stepsPerBar count event first length) :
    (events.mapM (messagesInWords arithmetic)).run =
      some ((events.forM checkFields).map fun _ => events.map Timed.ofEvent) := by
  have each : ∀ event ∈ events, (messagesInWords arithmetic event).run =
      some ((checkFields event).map fun _ => Timed.ofEvent event) := by
    intro event member
    obtain ⟨first, length, onSteps⟩ := placed event member
    exact run_messagesInWords exact positive narrow few onSteps
  rw [run_mapM each, mapM_checked]

end Ticks

private theorem run_spreadInWords {done : Track} {now : Nat} {timed : List Timed}
    (forward : (now :: timed.map (·.tick)).Pairwise (· ≤ ·))
    (small : ∀ one ∈ timed, one.tick < 2 ^ 63) : (spreadInWords done now timed).run = some (spread done now timed) := by
  induction timed generalizing done now with
  | nil => rfl
  | cons one rest ih =>
    obtain ⟨smallOne, smallRest⟩ := List.forall_mem_cons.mp small
    obtain ⟨later, forwardRest⟩ := List.pairwise_cons.mp forward
    have reached : now ≤ one.tick := later one.tick (by simp)
    have gap : unsigned? (one.tick - now) = some (one.tick - now) := unsigned?_of_eq (by omega) (by omega)
    rw [spreadInWords, run_bind_some gap, spread]
    split
    next => rfl
    next => exact ih forwardRest smallRest

private theorem tick_lt_of_schedule {stepsPerBar count : Nat} {events : List NoteEvent} (positive : 0 < stepsPerBar)
    (few : count ≤ 2 ^ 50) (placed : ∀ event ∈ events, ∃ first length, OnSteps stepsPerBar count event first length) :
    ∀ one ∈ schedule events, one.tick < 2 ^ 63 := by
  intro one member
  obtain ⟨event, present, same⟩ := mem_schedule.mp member
  obtain ⟨first, length, onSteps⟩ := placed event present
  have bound := onSteps.bound
  have start : on event < 2 ^ 62 := by
    rw [on, onSteps.start]
    exact ticks_lt_of_count positive (by omega)
  have finish : ticks event.finish < 2 ^ 62 := by
    rw [onSteps.finish]
    exact ticks_lt_of_count positive (by omega)
  have both := on_lt_off event
  have last : off event < 2 ^ 63 := by
    unfold off
    omega
  rcases same with rfl | rfl
  · exact both.trans last
  · exact last

private theorem run_trackInWords {arithmetic : Arithmetic} (exact : arithmetic.Exact) {stepsPerBar count : Nat}
    {events : List NoteEvent} (positive : 0 < stepsPerBar) (narrow : stepsPerBar < 2 ^ 63) (few : count ≤ 2 ^ 50)
    (placed : ∀ event ∈ events, ∃ first length, OnSteps stepsPerBar count event first length) (settings : Settings) :
    (trackInWords arithmetic events settings).run = some (Track.ofEvents events settings) := by
  have plain : Track.ofEvents events settings = ((events.forM checkFields).map fun _ => events.map Timed.ofEvent) >>=
      fun messages => settings.microsecondsPerBeat >>= fun microseconds =>
        spread [] 0 (messages.flatten.mergeSort Timed.precedes) >>= fun notes =>
          pure (settings.title.toList.map (⟨0, .trackName ·⟩) ++ [⟨0, .tempo (microseconds % tempoRange)⟩] ++ notes ++
            [⟨0, .endOfTrack⟩]) := by
    unfold Track.ofEvents
    cases events.forM checkFields <;> rfl
  rw [plain]
  refine run_bind (run_messages exact positive narrow few placed) fun messages checked => ?_
  refine run_bind rfl fun microseconds _ => ?_
  refine run_bind ?_ fun notes _ => rfl
  have sorted : messages.flatten.mergeSort Timed.precedes = schedule events := by
    cases passed : events.forM checkFields with
    | error error => simp [passed, Except.map] at checked
    | ok _ =>
      rw [passed] at checked
      cases checked
      rw [schedule, List.flatMap_def]
  rw [sorted]
  exact run_spreadInWords (forward_schedule events) (tick_lt_of_schedule positive few placed)

/-- A time on a grid of so many steps: its parts in lowest terms, its numerator over the number
of steps in a bar, and the parts of the ticks it makes are all words. -/
structure Bounded (stepsPerBar count : Nat) (time : Rat) : Prop where
  divides : time.den ∣ stepsPerBar
  numerator : 0 ≤ time.num ∧ time.num ≤ 4 * count
  common : 0 ≤ scaled time stepsPerBar ∧ scaled time stepsPerBar ≤ 4 * count
  ticksDivide : (time * 960).den ∣ stepsPerBar
  ticks : 0 ≤ (time * 960).num ∧ (time * 960).num ≤ 3840 * count
  words : ∀ number ∈ [time.num, time.den, scaled time stepsPerBar, (time * 960).num, (time * 960).den],
    isWord number = true

theorem bounded_of_count {stepsPerBar steps count : Nat} (positive : 0 < stepsPerBar) (narrow : stepsPerBar < 2 ^ 63)
    (few : count < 2 ^ 50) (within : steps ≤ count) : Bounded stepsPerBar count ((4 * steps : Nat) / stepsPerBar) := by
  have product : ((4 * steps : Nat) / stepsPerBar * 960 : Rat) = (3840 * steps : Nat) / stepsPerBar := by
    push_cast
    ring
  obtain ⟨numLow, numHigh⟩ := num_range positive (4 * steps)
  obtain ⟨ticksLow, ticksHigh⟩ := num_range positive (3840 * steps)
  have stored : Stored ((4 * steps : Nat) / stepsPerBar) := stored_div positive (by omega) narrow
  have ticksStored : Stored ((3840 * steps : Nat) / stepsPerBar) := stored_div positive (by omega) narrow
  have whole := scaled_unit positive (4 * steps)
  rw [← product] at ticksLow ticksHigh ticksStored
  refine ⟨den_dvd, ⟨numLow, by omega⟩, ⟨by omega, by omega⟩, product ▸ den_dvd, ⟨ticksLow, by omega⟩, ?_⟩
  simp only [List.forall_mem_cons, List.not_mem_nil, false_imp_iff, implies_true, and_true]
  exact ⟨stored.1, stored.2, whole ▸ isWord_of_lt (by omega) (by omega), ticksStored.1, ticksStored.2⟩

/-- A matrix of less than 2 ^ 50 steps is compiled and written in words alone. The times of its
notes are small, all numbers on the way to them and to their ticks fit, and the notes and the
track come out as they are without any bounds. -/
theorem enough_words {arithmetic : Arithmetic} (exact : arithmetic.Exact) {matrix : Json} {stepsPerBar channel : Nat}
    {velocity : Int} {steps : List PlacedStep} {events : List NoteEvent}
    (flattened : Matrix.flatten stepsPerBar matrix = .ok steps) (few : steps.length < 2 ^ 50)
    (compiled : compile steps stepsPerBar channel velocity = .ok events) :
    (∀ event ∈ events, Bounded stepsPerBar steps.length event.start ∧ Bounded stepsPerBar steps.length event.duration ∧
      Bounded stepsPerBar steps.length event.finish) ∧
    (∀ (index : Nat) (placed : PlacedStep), steps[index]? = some placed →
      isWord (placed.bar * 4) = true ∧ isWord (runAfter steps index + 1) = true) ∧
    (performGridInWords arithmetic steps stepsPerBar channel velocity).map (·.outcome) = some (.ok events) ∧
    (∀ settings, (trackInWords arithmetic events settings).run = some (Track.ofEvents events settings)) ∧
    (events.length < 2 ^ 62 → (room events).isSome) := by
  obtain ⟨positive, narrow, _⟩ := bounds_of_compile compiled
  have placed := onSteps_of_compile flattened compiled
  refine ⟨?times, ?places, ?notes, ?track, ?room⟩
  case times =>
    intro event member
    obtain ⟨first, length, onSteps⟩ := placed event member
    have bound := onSteps.bound
    rw [onSteps.finish, onSteps.start, onSteps.duration, ← Nat.mul_add]
    exact ⟨bounded_of_count positive narrow few (by omega), bounded_of_count positive narrow few (by omega),
      bounded_of_count positive narrow few bound⟩
  case places =>
    intro index one found
    obtain ⟨bar, _⟩ := GridPlaces.placed_of_flatten flattened found
    have inside := (List.getElem?_eq_some_iff.mp found).1
    have run := runAfter_le inside
    have early := Nat.div_le_self index stepsPerBar
    rw [bar]
    exact ⟨isWord_of_lt (by positivity) (by omega), isWord_of_lt (by omega) (by omega)⟩
  case notes =>
    rw [performGridInWords_eq exact (reaches_of_flatten flattened narrow few), Option.map_some]
    exact congrArg some compiled
  case track => exact run_trackInWords exact positive narrow few.le placed
  case room =>
    intro fewNotes
    have messages : unsigned? (events.length * 2) = some (events.length * 2) := unsigned?_of_eq rfl (by omega)
    have all : unsigned? ((events.length * 2 : Nat) + 3) = some (events.length * 2 + 3) := unsigned?_of_eq rfl (by omega)
    rw [room, bind_of_eq_some messages, all, Option.isSome_some]

/-- A note and a chord that are held over a bar line on a grid of three. -/
theorem enough_words_held_chord :
    ∃ steps events, Matrix.flatten 3 (.array [.array [.string "C4", .string "-", .array [.string "E4", .string "G4"]],
        .array [.string "-", .string ".", .string "-"]]) = .ok steps ∧
      compile steps 3 9 100 = .ok events ∧ events.map (·.finish) = [8 / 3, 16 / 3, 16 / 3] ∧
      (∀ event ∈ events, (event.finish * 960).num ≤ 3840 * 6) ∧ isWord (runAfter steps 2 + 1) = true ∧
      (performGridInWords checked steps 3 9 100).map (·.outcome) = some (.ok events) ∧
      (trackInWords checked events {}).run = some (.ok [⟨0, .tempo 500000⟩, ⟨0, .note (.strike 9 60 100)⟩,
        ⟨2560, .note (.release 9 60)⟩, ⟨0, .note (.strike 9 64 100)⟩, ⟨0, .note (.strike 9 67 100)⟩,
        ⟨2560, .note (.release 9 64)⟩, ⟨0, .note (.release 9 67)⟩, ⟨0, .endOfTrack⟩]) ∧
      (room events).isSome = true := by
  have flattened : Matrix.flatten 3 (.array [.array [.string "C4", .string "-", .array [.string "E4", .string "G4"]],
      .array [.string "-", .string ".", .string "-"]]) = .ok
        [⟨0, 0, .note "C4"⟩, ⟨0, 1, .sustain⟩, ⟨0, 2, .chord ["E4", "G4"]⟩,
          ⟨1, 0, .sustain⟩, ⟨1, 1, .rest⟩, ⟨1, 2, .sustain⟩] := rfl
  have compiled : compile [⟨0, 0, .note "C4"⟩, ⟨0, 1, .sustain⟩, ⟨0, 2, .chord ["E4", "G4"]⟩,
      ⟨1, 0, .sustain⟩, ⟨1, 1, .rest⟩, ⟨1, 2, .sustain⟩] 3 9 100 =
        .ok [⟨0, 9, 60, 100, 0, 8 / 3⟩, ⟨0, 9, 64, 100, 8 / 3, 8 / 3⟩, ⟨0, 9, 67, 100, 8 / 3, 8 / 3⟩] := by cbv
  obtain ⟨bounded, fits, made, written, roomy⟩ := enough_words exact_checked flattened (by decide) compiled
  refine ⟨_, _, flattened, compiled, by decide +kernel, ?_, (fits 2 _ rfl).2, made, ?_, roomy (by decide)⟩
  · exact fun event member => (bounded event member).2.2.ticks.2
  · exact (written {}).trans (by cbv)

end StepGrid.Proofs.MidiWords
