import StepGrid.Proofs.PitchNames
import StepGrid.Proofs.ScoreTimes
import StepGrid.Proofs.WordFractions

/-! Playing a grid in machine words. Places, lengths and keys are counted in words, and times
are fractions of words; whatever does not fit ends the whole run. A row whose steps are all in
reach is played this way as it is without any bounds, and so are the steps of a matrix that has
less than 2 ^ 50 of them. -/

namespace StepGrid.Proofs.ScoreWords
open Digits Score Voice ScoreMeaning ScoreTimes PitchNames WordFractions

/-- What is computed in words and may be refused for what it is. -/
abbrev InWords := ExceptT Error Option

theorem run_bind {first : InWords α} {next : α → InWords β} {plain : Except Error α} {plainNext : α → Except Error β}
    (same : first.run = some plain) (sameNext : ∀ value, plain = .ok value → (next value).run = some (plainNext value)) :
    (first >>= next).run = some (plain >>= plainNext) := by
  rw [ExceptT.run_bind, same]
  cases plain with
  | error error => rfl
  | ok value => exact sameNext value rfl

theorem run_bind_some {first : Option α} {value : α} (same : first = some value) (next : α → InWords β) :
    ((first : InWords α) >>= next).run = (next value).run := by
  rw [same]
  rfl

theorem run_mapM {f : α → InWords β} {plain : α → Except Error β} {items : List α}
    (same : ∀ item ∈ items, (f item).run = some (plain item)) : (items.mapM f).run = some (items.mapM plain) := by
  induction items with
  | nil => rfl
  | cons item items ih =>
    obtain ⟨sameItem, sameItems⟩ := List.forall_mem_cons.mp same
    rw [List.mapM_cons, List.mapM_cons]
    exact run_bind sameItem fun _ _ => run_bind (ih sameItems) fun _ _ => rfl

section Keys

def parts? (name : String) : Option (Int × Nat) := do
  let (spelling, text) ← Pitch.splitName name.toList
  let octave ← wordOctave? text
  let semitone ← Pitch.semitone? (String.ofList spelling)
  return (octave, semitone)

def keyInWords (name : String) : InWords Nat :=
  match parts? name with
  | none => throw (.unknownNote name)
  | some (octave, semitone) => do
    let raised ← signed? (octave + 1)
    let lowest ← signed? (12 * raised)
    let key ← signed? (lowest + semitone)
    if 0 ≤ key ∧ key ≤ Pitch.highest then return key.toNat else throw (.unknownNote name)

theorem ofName?_eq_parts? (name : String) :
    Pitch.ofName? name = (parts? name).bind fun (octave, semitone) =>
      if 0 ≤ 12 * (octave + 1) + semitone ∧ 12 * (octave + 1) + semitone ≤ Pitch.highest
        then some (12 * (octave + 1) + semitone).toNat else none := by
  rw [← keyBy?_wordOctave?]
  simp only [keyBy?, parts?, Option.bind_eq_bind, Option.bind_assoc]
  rfl

private theorem range_of_parts? {name : String} {octave : Int} {semitone : Nat}
    (read : parts? name = some (octave, semitone)) :
    -2147483648 ≤ octave ∧ octave ≤ 2147483647 ∧ semitone ≤ 11 := by
  obtain ⟨⟨_, text⟩, _, rest⟩ := Option.bind_eq_some_iff.mp read
  obtain ⟨word, digits, rest⟩ := Option.bind_eq_some_iff.mp rest
  obtain ⟨_, listed, last⟩ := Option.bind_eq_some_iff.mp rest
  cases last
  rw [wordOctave?_eq] at digits
  obtain ⟨_, _, fits⟩ := Option.bind_eq_some_iff.mp digits
  cases eq_of_inWord? fits
  unfold inWord? at fits
  split at fits
  next inside => exact ⟨inside.1, inside.2, semitone_le listed⟩
  next => cases fits

/-- Octaves of 32 bits leave room enough for all that is done with them. -/
theorem run_keyInWords (name : String) : (keyInWords name).run = some (pitch name) := by
  rw [pitch, ofName?_eq_parts?, keyInWords]
  cases read : parts? name with
  | none => rfl
  | some parts =>
    obtain ⟨octave, semitone⟩ := parts
    obtain ⟨low, high, bound⟩ := range_of_parts? read
    have raised : signed? (octave + 1) = some (octave + 1) := signed?_of_isWord (isWord_iff.mpr (by omega))
    have lowest : signed? (12 * (octave + 1)) = some (12 * (octave + 1)) := signed?_of_isWord (isWord_iff.mpr (by omega))
    have key : signed? (12 * (octave + 1) + semitone) = some (12 * (octave + 1) + semitone) :=
      signed?_of_isWord (isWord_iff.mpr (by omega))
    dsimp only
    rw [run_bind_some raised, run_bind_some lowest, run_bind_some key, Option.bind_some]
    dsimp only
    split
    next => rfl
    next => rfl

end Keys

section Playing
variable (arithmetic : Arithmetic)

def voiceInWords (stepsPerBar channel : Nat) (velocity : Int) : Option (Except Error Voice) :=
  if stepsPerBar = 0 ∨ 9223372036854775808 ≤ stepsPerBar then some (.error (.stepsPerBar stepsPerBar))
  else if highestChannel < channel then some (.error (.channel channel))
  else do
    let stepLength ← arithmetic.quotient beatsPerBar stepsPerBar
    return .ok ⟨stepLength, channel, clampVelocity velocity⟩

def startInWords (voice : Voice) (placed : PlacedStep) : Option Rat := do
  let bar ← signed? placed.bar
  let beats ← signed? (bar * beatsPerBar)
  let step ← signed? placed.step
  let offset ← arithmetic.product voice.stepLength step
  arithmetic.sum beats offset

def pastHeld (place : Nat) : List PlacedStep → Option Nat
  | [] => some place
  | placed :: after =>
    if placed.value.isSustain then do pastHeld (← unsigned? (place + 1)) after else some place

def runFrom (place : Nat) (after : List PlacedStep) : Option (Nat × Int) := do
  let next ← pastHeld (← unsigned? (place + 1)) after
  let length ← signed? (← unsigned? (next - place))
  return (next, length)

/-- What comes of one step, and the place of the next one to play. -/
structure Move where
  records : List Record
  outcome : Except Error (List NoteEvent)
  next : Nat

def strikeInWords (voice : Voice) (place : Nat) (placed : PlacedStep) (after : List PlacedStep) : Option Move := do
  let (next, length) ← runFrom place after
  let start ← startInWords arithmetic voice placed
  let duration ← arithmetic.product voice.stepLength length
  match ← (placed.value.names.mapM keyInWords).run with
  | .error error => return ⟨[], .error error, place + 1 + after.length⟩
  | .ok pitches =>
    let _ ← unsigned? (placed.bar + 1)
    let _ ← unsigned? (placed.step + 1)
    return ⟨[.struck placed.bar placed.step pitches.length start length.toNat],
      .ok (pitches.map (voice.event start duration)), next⟩

def playInWords (voice : Voice) (place : Nat) (placed : PlacedStep) (after : List PlacedStep) : Option Move :=
  match placed.value with
  | .rest => do return ⟨[], .ok [], ← unsigned? (place + 1)⟩
  | .sustain => do
    let _ ← unsigned? (placed.bar + 1)
    let _ ← unsigned? (placed.step + 1)
    return ⟨[.orphan placed.bar placed.step], .ok [], ← unsigned? (place + 1)⟩
  | .note _ => strikeInWords arithmetic voice place placed after
  | .chord _ => strikeInWords arithmetic voice place placed after

/-- Plays the steps from a place on, after those whose notes and records, in reverse, are at
hand. -/
def performInWords (voice : Voice) (place : Nat) (events : List NoteEvent) (records : List Record) :
    List PlacedStep → Option Performance
  | [] => some ⟨records.reverse, .ok events.reverse⟩
  | placed :: after => do
    let move ← playInWords arithmetic voice place placed after
    match move.outcome with
    | .error error => return ⟨(move.records.reverse ++ records).reverse, .error error⟩
    | .ok struck =>
      performInWords voice move.next (struck.reverse ++ events) (move.records.reverse ++ records)
        (after.drop (move.next - (place + 1)))
termination_by steps => steps.length
decreasing_by exact Nat.lt_succ_of_le (List.drop_sublist _ _).length_le

def performGridInWords (steps : List PlacedStep) (stepsPerBar channel : Nat) (velocity : Int) : Option Performance := do
  match ← voiceInWords arithmetic stepsPerBar channel velocity with
  | .error error => return ⟨[], .error error⟩
  | .ok voice => performInWords arithmetic voice 0 [] [] steps

end Playing

/-- A place whose parts are words and whose time is a fraction of words. -/
structure InReach (stepsPerBar : Nat) (placed : PlacedStep) : Prop where
  bar : 0 ≤ placed.bar
  step : 0 ≤ placed.step ∧ placed.step < 2 ^ 63
  time : Stored (4 * (placed.bar + placed.step / stepsPerBar))

/-- A row that is not too long for words, and whose steps are all in reach. Where a rest stands is of
no account. -/
structure Reaches (stepsPerBar : Nat) (row : List PlacedStep) : Prop where
  few : row.length < 2 ^ 61
  steps : ∀ placed ∈ row, placed.value ≠ .rest → InReach stepsPerBar placed

theorem pastHeld_eq {place : Nat} {after : List PlacedStep} (few : place + after.length < 2 ^ 64) :
    pastHeld place after = some (place + heldSteps after) := by
  induction after generalizing place with
  | nil => rfl
  | cons placed rest ih =>
    rw [List.length_cons] at few
    rw [pastHeld, heldSteps_cons]
    by_cases sustained : placed.value = .sustain
    · have next : unsigned? (place + 1) = some (place + 1) := unsigned?_of_eq rfl (by omega)
      rw [if_pos (isSustain_iff.mpr sustained), if_pos sustained, next]
      exact (ih (by omega)).trans (congrArg some (by omega))
    · rw [if_neg (isSustain_iff.not.mpr sustained), if_neg sustained]
      rfl

theorem runFrom_eq {place : Nat} {after : List PlacedStep} (few : place + 1 + after.length < 2 ^ 63) :
    runFrom place after = some (place + 1 + heldSteps after, ((heldSteps after + 1 : Nat) : Int)) := by
  have held := heldSteps_le_length after
  have first : unsigned? (place + 1) = some (place + 1) := unsigned?_of_eq rfl (by omega)
  have past : pastHeld (place + 1) after = some (place + 1 + heldSteps after) := pastHeld_eq (by omega)
  have counted : unsigned? ((place + 1 + heldSteps after : Nat) - place) = some (heldSteps after + 1) :=
    unsigned?_of_eq (by omega) (by omega)
  have fits : signed? (heldSteps after + 1 : Nat) = some ((heldSteps after + 1 : Nat) : Int) :=
    signed?_of_isWord (isWord_of_lt (by omega) (by omega))
  rw [runFrom, bind_of_eq_some first, bind_of_eq_some past, bind_of_eq_some counted, bind_of_eq_some fits]
  rfl

private theorem drop_heldSteps (after : List PlacedStep) :
    after.drop (heldSteps after) = after.dropWhile (·.value.isSustain) := by
  have parts := List.takeWhile_append_dropWhile (p := (·.value.isSustain)) (l := after)
  exact (congrArg (List.drop _) parts.symm).trans List.drop_left

/-- What comes of a step at some place is what comes of its turn, and the same steps are left. -/
def Makes (place : Nat) (after : List PlacedStep) (turn : Turn) (move : Option Move) : Prop :=
  ∃ next, place < next ∧ move = some ⟨turn.records, turn.outcome, next⟩ ∧ after.drop (next - (place + 1)) = turn.rest

theorem split_of_drop {row : List PlacedStep} {place : Nat} {placed : PlacedStep} {after : List PlacedStep}
    (rest : row.drop place = placed :: after) :
    row[place]? = some placed ∧ place + 1 + after.length = row.length ∧ row.drop (place + 1) = after := by
  have length := congrArg List.length rest
  rw [List.length_drop, List.length_cons] at length
  refine ⟨?_, by omega, ?_⟩
  · rw [← List.head?_drop, rest]
    rfl
  · rw [← List.tail_drop, rest]
    rfl

/-- Places are in reach well beyond the longest rows. -/
theorem inReach_of_lt {stepsPerBar bar step : Nat} {placed : PlacedStep} (positive : 0 < stepsPerBar)
    (narrow : stepsPerBar < 2 ^ 63)
    (barPlace : placed.bar = bar) (stepPlace : placed.step = step) (near : stepsPerBar * bar + step < 2 ^ 61) :
    InReach stepsPerBar placed where
  bar := by omega
  step := by omega
  time := by
    have some : (stepsPerBar : Rat) ≠ 0 := by exact_mod_cast positive.ne'
    have counted : (4 * (placed.bar + placed.step / stepsPerBar) : Rat) = (4 * (stepsPerBar * bar + step) : Nat) / stepsPerBar := by
      rw [barPlace, stepPlace]
      push_cast
      field_simp
    rw [counted]
    exact stored_div positive (by omega) narrow

section Time
variable {stepsPerBar : Nat} {placed : PlacedStep} (reach : InReach stepsPerBar placed) {voice : Voice}
  (stepLength : voice.stepLength = 4 / stepsPerBar)
include reach

theorem InReach.offset_nonneg : (0 : Rat) ≤ 4 * (placed.step / stepsPerBar) := by
  have step : (0 : Rat) ≤ placed.step := by exact_mod_cast reach.step.1
  exact mul_nonneg (by decide) (div_nonneg step (Nat.cast_nonneg _))

theorem InReach.stored : Stored (((placed.bar * 4 : Int) : Rat) + 4 * (placed.step / stepsPerBar)) := by
  have same : ((placed.bar * 4 : Int) : Rat) + 4 * (placed.step / stepsPerBar) = 4 * (placed.bar + placed.step / stepsPerBar) := by
    push_cast
    ring
  rw [same]
  exact reach.time

private theorem InReach.beats_lt : placed.bar * 4 < 2 ^ 63 := by
  have bar := reach.bar
  exact whole_lt_of_stored_add (by omega) reach.offset_nonneg reach.stored

private theorem placeFits : unsigned? (placed.bar + 1) = some (placed.bar + 1).toNat ∧
    unsigned? (placed.step + 1) = some (placed.step + 1).toNat := by
  have bar := reach.bar
  have beats := reach.beats_lt
  have step := reach.step
  exact ⟨unsigned?_of_eq (by omega) (by omega), unsigned?_of_eq (by omega) (by omega)⟩

include stepLength

theorem startInWords_eq {arithmetic : Arithmetic} (exact : arithmetic.Exact) (stored : Stored voice.stepLength) :
    startInWords arithmetic voice placed = some (voice.start placed) := by
  have bar := reach.bar
  have beats := reach.beats_lt
  have step := reach.step
  have offset : voice.stepLength * (placed.step : Rat) = 4 * (placed.step / stepsPerBar) := by
    rw [stepLength]
    ring
  have barFits : signed? placed.bar = some placed.bar := signed?_of_isWord (isWord_iff.mpr (by omega))
  have beatsFit : signed? (placed.bar * beatsPerBar) = some (placed.bar * beatsPerBar) :=
    signed?_of_isWord (isWord_iff.mpr (by rw [beatsPerBar]; omega))
  have stepFits : isWord placed.step = true := isWord_iff.mpr (by omega)
  have made : arithmetic.product voice.stepLength placed.step = some (4 * (placed.step / stepsPerBar) : Rat) := by
    rw [← offset]
    apply exact.product stored (stored_intCast stepFits)
    rw [offset]
    exact stored_of_stored_add (by omega) reach.offset_nonneg reach.stored
  rw [startInWords, bind_of_eq_some barFits, bind_of_eq_some beatsFit, bind_of_eq_some (signed?_of_isWord stepFits),
    bind_of_eq_some made, Voice.start, offset]
  exact sum_whole (by omega) reach.offset_nonneg reach.stored exact

end Time

section Row
variable {arithmetic : Arithmetic} (exact : arithmetic.Exact) {stepsPerBar : Nat} (positive : 0 < stepsPerBar)
  (narrow : stepsPerBar < 2 ^ 63) {row : List PlacedStep} (reaches : Reaches stepsPerBar row) {voice : Voice}
  (stepLength : voice.stepLength = 4 / stepsPerBar)
include positive narrow stepLength

private theorem stored_stepLength : Stored voice.stepLength := by
  have counted : Stored ((4 : Nat) / stepsPerBar) := stored_div positive (by decide) narrow
  rwa [stepLength]

include exact

private theorem product_stepLength {count : Nat} (few : count < 2 ^ 61) :
    arithmetic.product voice.stepLength (count : Int) = some (voice.stepLength * count) := by
  have same : voice.stepLength * ((count : Int) : Rat) = (4 * count : Nat) / stepsPerBar := by
    rw [stepLength]
    push_cast
    ring
  rw [product_count exact positive narrow (stored_stepLength positive narrow stepLength)
    (stored_intCast (isWord_of_lt (by omega) (by omega))) same (by omega), ← same]
  rfl

include reaches

private theorem makes_strike {place : Nat} {placed : PlacedStep} {after : List PlacedStep}
    (rest : row.drop place = placed :: after) (sounding : placed.value ≠ .rest) :
    Makes place after (voice.strike placed after) (strikeInWords arithmetic voice place placed after) := by
  obtain ⟨found, length, _⟩ := split_of_drop rest
  have few := reaches.few
  have held := heldSteps_le_length after
  have run : runFrom place after = some (place + 1 + heldSteps after, ((heldSteps after + 1 : Nat) : Int)) :=
    runFrom_eq (by omega)
  have reach := reaches.steps placed (List.mem_of_getElem? found) sounding
  have start := startInWords_eq reach stepLength exact (stored_stepLength positive narrow stepLength)
  have duration : arithmetic.product voice.stepLength ((heldSteps after + 1 : Nat) : Int) =
      some (voice.stepLength * (heldSteps after + 1 : Nat)) := product_stepLength exact positive narrow stepLength (by omega)
  have keys : (placed.value.names.mapM keyInWords).run = some (placed.value.names.mapM pitch) :=
    run_mapM fun name _ => run_keyInWords name
  rw [strikeInWords, bind_of_eq_some run]
  dsimp only
  rw [bind_of_eq_some start, bind_of_eq_some duration, bind_of_eq_some keys, Voice.strike]
  cases placed.value.names.mapM pitch with
  -- A name that is unknown ends the run, so any place behind the step will do.
  | error error => exact ⟨place + 1 + after.length, by omega, rfl, by simp⟩
  | ok pitches =>
    obtain ⟨bar, step⟩ := placeFits reach
    dsimp only
    rw [bind_of_eq_some bar, bind_of_eq_some step, Int.toNat_natCast]
    refine ⟨place + 1 + heldSteps after, by omega, rfl, ?_⟩
    rw [Nat.add_sub_cancel_left]
    exact drop_heldSteps after

private theorem makes_play {place : Nat} {placed : PlacedStep} {after : List PlacedStep}
    (rest : row.drop place = placed :: after) :
    Makes place after (voice.play placed after) (playInWords arithmetic voice place placed after) := by
  obtain ⟨found, length, _⟩ := split_of_drop rest
  have few := reaches.few
  have next : unsigned? (place + 1) = some (place + 1) := unsigned?_of_eq rfl (by omega)
  unfold playInWords Voice.play
  cases step : placed.value with
  | rest =>
    dsimp only
    rw [bind_of_eq_some next]
    exact ⟨place + 1, by omega, rfl, by simp⟩
  | sustain =>
    have sounding : placed.value ≠ .rest := by simp [step]
    obtain ⟨bar, step⟩ := placeFits (reaches.steps placed (List.mem_of_getElem? found) sounding)
    dsimp only
    rw [bind_of_eq_some bar, bind_of_eq_some step, bind_of_eq_some next]
    exact ⟨place + 1, by omega, rfl, by simp⟩
  | note _ | chord _ => exact makes_strike exact positive narrow reaches stepLength rest (by simp [step])

/-- A step is played in words as it is without any bounds, and the steps that are left are those of the
row from the next place on. -/
theorem playInWords_eq {place : Nat} {placed : PlacedStep} {after : List PlacedStep}
    (rest : row.drop place = placed :: after) :
    ∃ next, playInWords arithmetic voice place placed after =
        some ⟨(voice.play placed after).records, (voice.play placed after).outcome, next⟩ ∧
      after.drop (next - (place + 1)) = (voice.play placed after).rest ∧ row.drop next = (voice.play placed after).rest := by
  obtain ⟨next, later, made, left⟩ := makes_play exact positive narrow reaches stepLength rest
  obtain ⟨_, _, behind⟩ := split_of_drop rest
  refine ⟨next, made, left, ?_⟩
  rw [← left, ← behind, List.drop_drop, Nat.add_sub_cancel' later]

/-- A run in words is the run of the exact player, from any place of the row on. -/
theorem performInWords_eq (events : List NoteEvent) (records : List Record) (steps : List PlacedStep) :
    ∀ {place : Nat}, row.drop place = steps →
      performInWords arithmetic voice place events records steps = some (perform voice events records steps) := by
  -- The steps that are left are always the row from the place on, which gives each its bar and step.
  fun_induction perform voice events records steps with
  | case1 events records =>
    intro place _
    rw [performInWords]
  | case2 events records placed after turn error =>
    rename_i failed
    intro place rest
    obtain ⟨next, made, _⟩ := playInWords_eq exact positive narrow reaches stepLength rest
    rw [performInWords, bind_of_eq_some made]
    dsimp only
    rw [failed]
    rfl
  | case3 events records placed after turn struck succeeded =>
    rename_i ih
    intro place rest
    obtain ⟨next, made, left, behind⟩ := playInWords_eq exact positive narrow reaches stepLength rest
    rw [performInWords, bind_of_eq_some made]
    dsimp only
    rw [succeeded, left]
    exact ih behind

end Row

theorem voiceInWords_eq {arithmetic : Arithmetic} (exact : arithmetic.Exact) (stepsPerBar channel : Nat)
    (velocity : Int) :
    voiceInWords arithmetic stepsPerBar channel velocity = some (ofGrid stepsPerBar channel velocity) := by
  unfold voiceInWords ofGrid
  split
  next => rfl
  next inside =>
    split
    next => rfl
    next =>
      have made : arithmetic.quotient beatsPerBar stepsPerBar = some (mkRat beatsPerBar stepsPerBar) := by
        rw [exact.quotient (by decide) (isWord_of_lt (by omega) (by omega)) (by omega), Rat.mkRat_eq_div, Int.cast_natCast,
          Int.cast_natCast]
      rw [bind_of_eq_some made]
      rfl

theorem reaches_of_flatten {stepsPerBar : Nat} {matrix : Json} {row : List PlacedStep}
    (flattened : Matrix.flatten stepsPerBar matrix = .ok row) (narrow : stepsPerBar < 2 ^ 63) (few : row.length < 2 ^ 50) :
    Reaches stepsPerBar row where
  few := by omega
  steps := by
    intro placed member _
    obtain ⟨index, found⟩ := List.mem_iff_getElem?.mp member
    obtain ⟨bar, step, _⟩ := GridPlaces.placed_of_flatten flattened found
    have inside := (List.getElem?_eq_some_iff.mp found).1
    have whole := Nat.div_add_mod index stepsPerBar
    exact inReach_of_lt (GridPlaces.flatten_eq_ok.mp flattened).1 narrow bar step (by omega)

/-- Words are enough for a row whose steps are all in reach, whatever comes of it. -/
theorem performGridInWords_eq {arithmetic : Arithmetic} (exact : arithmetic.Exact) {stepsPerBar : Nat}
    {row : List PlacedStep} (reaches : Reaches stepsPerBar row) (channel : Nat) (velocity : Int) :
    performGridInWords arithmetic row stepsPerBar channel velocity = some (performGrid row stepsPerBar channel velocity) := by
  rw [performGridInWords, bind_of_eq_some (voiceInWords_eq exact stepsPerBar channel velocity), performGrid]
  cases made : ofGrid stepsPerBar channel velocity with
  | error error => rfl
  | ok voice =>
    obtain ⟨⟨positive, narrow, _⟩, rfl⟩ := ofGrid_eq_ok.mp made
    exact performInWords_eq exact positive narrow reaches rfl [] [] row rfl

end StepGrid.Proofs.ScoreWords
