import Mathlib
import StepGrid.Proofs.GridNormalForm
import StepGrid.Proofs.StreamAnswers

/-! What is noted down about a row of steps: where each note or chord is struck and how long it
is held, and each sustain that has nothing to hold. It is told here by place, looking back
from a sustain to the step it would hold. Played at once or note by note, a row leaves the
same lines, and none about the first step with an unknown name or any step after it. -/

namespace StepGrid.Proofs.ScoreRecords
open Score Voice ScoreMeaning ScoreTimes GridNormalForm StreamAnswers

def placeLine (stepsPerBar index : Nat) : String :=
  "bar " ++ toString (index / stepsPerBar + 1) ++ " step " ++ toString (index % stepsPerBar + 1)

/-- Whether the nearest step before a place that is no sustain is a rest, or missing. -/
def nothingHeld (steps : List PlacedStep) (index : Nat) : Bool := (lastBefore? steps index).all (· = .rest)

/-- The lines about the step at a place: one for a note or a chord, and one for a sustain that
has nothing to hold. -/
def linesAt (steps : List PlacedStep) (stepsPerBar index : Nat) : List String :=
  match stepAt steps index with
  | .rest => []
  | .sustain =>
    if nothingHeld steps index then
      ["WARN " ++ placeLine stepsPerBar index ++ ": sustain with no preceding note, ignored"]
    else []
  | step =>
    ["DEBUG " ++ placeLine stepsPerBar index ++ ": " ++ toString step.names.length ++ " note(s) at beat " ++
      fractionText (index * (4 / stepsPerBar)) ++ " for " ++ toString (1 + runAfter steps index) ++ " step(s)"]

def linesBefore (steps : List PlacedStep) (stepsPerBar : Nat) : List String :=
  (List.range (spoiledPlace steps)).flatMap (linesAt steps stepsPerBar)

/-- What is noted down about some steps while a note is held, or while none is. -/
def told (voice : Voice) (holding : Bool) : List PlacedStep → List Record
  | [] => []
  | placed :: after =>
    match unknown? placed.value.names, placed.value with
    | some _, _ => []
    | none, .rest => told voice false after
    | none, .sustain =>
      if holding then told voice true after else .orphan placed.bar placed.step :: told voice false after
    | none, step =>
      .struck placed.bar placed.step step.names.length (voice.start placed) (heldSteps after + 1) :: told voice true after

section Telling
variable (voice : Voice) {placed : PlacedStep} (after : List PlacedStep)

theorem told_of_unknown (holding : Bool) {name : String} (missing : unknown? placed.value.names = some name) :
    told voice holding (placed :: after) = [] := by
  simp only [told, missing]

theorem told_of_rest (holding : Bool) (rests : placed.value = .rest) :
    told voice holding (placed :: after) = told voice false after := by
  simp only [told, rests, Step.names, unknown?, List.find?_nil]

theorem told_of_sustain (holding : Bool) (sustained : placed.value = .sustain) :
    told voice holding (placed :: after) =
      if holding then told voice true after else .orphan placed.bar placed.step :: told voice false after := by
  simp only [told, sustained, Step.names, unknown?, List.find?_nil]

theorem told_of_struck (holding : Bool) (struck : isStruck placed.value = true)
    (known : unknown? placed.value.names = none) :
    told voice holding (placed :: after) =
      .struck placed.bar placed.step placed.value.names.length (voice.start placed) (heldSteps after + 1) ::
        told voice true after := by
  cases step : placed.value with
  | rest | sustain =>
    rw [step] at struck
    cases struck
  | note _ | chord _ =>
    rw [step] at known
    simp only [told, step, known]

/-- Whether a note is held matters to sustains alone. -/
theorem told_eq_told (one other : Bool) (plain : placed.value ≠ .sustain) :
    told voice one (placed :: after) = told voice other (placed :: after) := by
  cases missing : unknown? placed.value.names with
  | some name => rw [told_of_unknown voice after one missing, told_of_unknown voice after other missing]
  | none =>
    cases step : placed.value with
    | sustain => exact absurd step plain
    | rest => rw [told_of_rest voice after one step, told_of_rest voice after other step]
    | note _ | chord _ =>
      have struck : isStruck placed.value = true := by rw [step]; rfl
      rw [told_of_struck voice after one struck missing, told_of_struck voice after other struck missing]

/-- The sustains that a note takes along are passed over in silence. -/
theorem told_dropWhile (steps : List PlacedStep) :
    told voice false (steps.dropWhile (·.value.isSustain)) = told voice true steps := by
  induction steps with
  | nil => rfl
  | cons placed after ih =>
    rw [List.dropWhile_cons]
    split
    next sustained => rw [ih, told_of_sustain voice after true (isSustain_iff.mp sustained), if_pos rfl]
    next plain => exact told_eq_told voice after false true (isSustain_iff.not.mp plain)

end Telling

section Playing
variable (voice : Voice)

/-- One step of playing notes down what is told of its step, and leaves the rest to be told. -/
theorem records_play {placed : PlacedStep} (after : List PlacedStep) (known : unknown? placed.value.names = none) :
    (voice.play placed after).records ++ told voice false (voice.play placed after).rest =
      told voice false (placed :: after) := by
  cases step : placed.value with
  | rest =>
    rw [told_of_rest voice after false step]
    simp only [play, step, List.nil_append]
  | sustain =>
    rw [told_of_sustain voice after false step]
    simp only [play, step]
    rfl
  | note _ | chord _ =>
    have struck : isStruck placed.value = true := by rw [step]; rfl
    have rest := (strike_of_known voice after known).2
    have pitches : (placed.value.names.filterMap Pitch.ofName?).length = placed.value.names.length := by
      rw [← List.length_map some, map_some_filterMap known, List.length_map]
    rw [told_of_struck voice after false struck known, ← told_dropWhile voice after, ← rest, ← pitches]
    simp only [play, step, strike, mapM_pitch]
    rw [step] at known
    simp only [known]
    rfl

private theorem records_play_of_unknown {placed : PlacedStep} (after : List PlacedStep) {name : String}
    (missing : unknown? placed.value.names = some name) : (voice.play placed after).records = [] := by
  cases step : placed.value with
  | rest | sustain => simp [step, Step.names, unknown?] at missing
  | note _ | chord _ =>
    simp only [play, step]
    rw [strike, mapM_pitch, missing]

private theorem records_perform (events : List NoteEvent) (records : List Record) (steps : List PlacedStep) :
    (perform voice events records steps).records = records.reverse ++ told voice false steps := by
  -- The induction is on the steps left; what was noted down before stays in front.
  fun_induction perform voice events records steps with
  | case1 events records => exact (List.append_nil _).symm
  | case2 events records placed after turn error failed =>
    cases missing : unknown? placed.value.names with
    | none => cases failed.symm.trans (play_of_known voice after missing).1
    | some name =>
      have silent : turn.records = [] := records_play_of_unknown voice after missing
      rw [told_of_unknown voice after false missing, silent]
      simp
  | case3 events records placed after turn struck succeeded ih =>
    cases missing : unknown? placed.value.names with
    | some name => cases succeeded.symm.trans (play_of_unknown voice after missing)
    | none =>
      rw [ih, List.reverse_append, List.reverse_reverse, List.append_assoc]
      exact congrArg (records.reverse ++ ·) (records_play voice after missing)

end Playing

section Asking

def untold (stream : NoteStream) : List Record := told stream.voice false stream.steps

/-- An answer notes down the first part of what a stream has yet to note down, and an answer
without an item all of it. -/
structure Notes (answer : NoteStream.Answer) (store : List Record) : Prop where
  records : answer.records ++ untold answer.stream = store
  ended : answer.item = none → untold answer.stream = []

private theorem seek_notes (voice : Voice) (records : List Record) (steps : List PlacedStep) :
    Notes (NoteStream.seek voice records steps) (records ++ told voice false steps) := by
  -- The induction is on the steps passed over; what they note down stays in front.
  fun_induction NoteStream.seek voice records steps with
  | case1 records => exact ⟨rfl, fun _ => rfl⟩
  | case2 records placed after turn error failed =>
    cases missing : unknown? placed.value.names with
    | none => cases failed.symm.trans (play_of_known voice after missing).1
    | some name =>
      have silent : turn.records = [] := records_play_of_unknown voice after missing
      rw [told_of_unknown voice after false missing, silent]
      exact ⟨List.append_nil _, fun _ => rfl⟩
  | case3 records placed after turn event pending struck =>
    cases missing : unknown? placed.value.names with
    | some name => cases struck.symm.trans (play_of_unknown voice after missing)
    | none =>
      rw [← records_play voice after missing, ← List.append_assoc]
      exact ⟨rfl, fun gone => absurd gone (Option.some_ne_none _)⟩
  | case4 records placed after turn silent ih =>
    cases missing : unknown? placed.value.names with
    | some name => cases silent.symm.trans (play_of_unknown voice after missing)
    | none =>
      rw [← records_play voice after missing, ← List.append_assoc]
      exact ih

private theorem next_notes (stream : NoteStream) : Notes stream.next (untold stream) := by
  obtain ⟨voice, steps, pending⟩ := stream
  cases pending with
  | nil => exact seek_notes voice [] steps
  | cons event pending => exact ⟨rfl, fun gone => absurd gone (Option.some_ne_none _)⟩

/-- Once a stream has answered that there is nothing left, everything is noted down, and
nothing is added however often it is asked again. -/
theorem records_take (stream : NoteStream) {count : Nat} (enough : (future stream).length < count) :
    (stream.take count).flatMap (·.records) = untold stream := by
  induction count generalizing stream with
  | zero => cases enough
  | succ count ih =>
    have step := next_takes stream
    obtain ⟨records, ended⟩ := next_notes stream
    rw [NoteStream.take, List.flatMap_cons, ← records]
    congr 1
    cases left : future stream with
    | cons item items =>
      refine ih stream.next.stream ?_
      rw [step.stream, left]
      rw [left, List.length_cons] at enough
      exact Nat.lt_of_succ_lt_succ enough
    | nil =>
      cases count with
      | zero => exact (ended (by rw [step.item, left]; rfl)).symm
      | succ count =>
        refine ih stream.next.stream ?_
        rw [step.stream, left]
        exact Nat.succ_pos count

/-- The first answer without an item comes after all that a stream has in store. -/
theorem item_take (stream : NoteStream) {count call : Nat} (inside : call < count) :
    ∃ answer, (stream.take count)[call]? = some answer ∧ (answer.item = none ↔ (future stream).length ≤ call) := by
  have items := congrArg (·[call]?) (items_take stream count)
  simp only [List.getElem?_map, List.getElem?_range inside, Option.map_some] at items
  obtain ⟨answer, found, item⟩ := Option.map_eq_some_iff.mp items
  exact ⟨answer, found, by rw [item, List.getElem?_eq_none_iff]⟩

end Asking

section Places

theorem any_isStruck_eq (steps : List PlacedStep) (index : Nat) :
    (lastBefore? steps index).any isStruck = !nothingHeld steps index := by
  unfold nothingHeld
  cases found : lastBefore? steps index with
  | none => rfl
  | some step =>
    have plain := List.find?_some found
    cases step with
    | sustain => cases plain
    | rest | note _ | chord _ => rfl

theorem placeText_eq {stepsPerBar index : Nat} (bounded : index < 2 ^ 63) :
    Record.placeText (index / stepsPerBar : Nat) (index % stepsPerBar : Nat) = placeLine stepsPerBar index := by
  have word {number : Nat} (small : number ≤ index) :
      toString (((number : Int) + 1) % 18446744073709551616) = toString (number + 1) := by
    have same : ((number : Int) + 1) % 18446744073709551616 = (number + 1 : Nat) := by omega
    rw [same]
    rfl
  unfold Record.placeText
  dsimp only
  rw [word (Nat.div_le_self _ _), word (Nat.mod_le _ _), placeLine]

private theorem text_struck (bar step : Int) (notes : Nat) (start : Rat) (length : Nat) :
    (Record.struck bar step notes start length).text =
      "DEBUG " ++ Record.placeText bar step ++ ": " ++ toString notes ++ " note(s) at beat " ++
        fractionText start ++ " for " ++ toString length ++ " step(s)" := rfl

private theorem text_orphan (bar step : Int) :
    (Record.orphan bar step).text = "WARN " ++ Record.placeText bar step ++ ": sustain with no preceding note, ignored" := rfl

def Placed (voice : Voice) (stepsPerBar : Nat) (steps : List PlacedStep) : Prop :=
  ∀ (index : Nat) placed, steps[index]? = some placed →
    placed.bar = (index / stepsPerBar : Nat) ∧ placed.step = (index % stepsPerBar : Nat) ∧
    voice.start placed = index * (4 / stepsPerBar)

/-- What is told of some steps of a row is what their places tell. -/
theorem map_text_told {voice : Voice} {stepsPerBar : Nat} (before after : List PlacedStep)
    (places : Placed voice stepsPerBar (before ++ after)) (inMemory : (before ++ after).length < 2 ^ 63) :
    (told voice (!nothingHeld (before ++ after) before.length) after).map Record.text =
      (List.range (spoiledPlace after)).flatMap fun offset =>
        linesAt (before ++ after) stepsPerBar (before.length + offset) := by
  induction after generalizing before with
  | nil => rfl
  | cons placed after ih =>
    cases missing : unknown? placed.value.names with
    | some name =>
      rw [told_of_unknown voice after _ missing, spoiledPlace_of_unknown after missing]
      rfl
    | none =>
      have inside : before.length < (before ++ placed :: after).length := by simp
      have here : stepAt (before ++ placed :: after) before.length = placed.value := by
        rw [stepAt_eq_getElem inside]
        simp
      have others := ih (before ++ [placed]) (by simpa using places) (by simpa using inMemory)
      rw [List.append_assoc, List.singleton_append, List.length_append, List.length_singleton, ← any_isStruck_eq,
        lastBefore?_succ inside, here] at others
      have rest : (List.range (spoiledPlace (placed :: after))).flatMap (fun offset =>
            linesAt (before ++ placed :: after) stepsPerBar (before.length + offset)) =
          linesAt (before ++ placed :: after) stepsPerBar before.length ++
            (List.range (spoiledPlace after)).flatMap fun offset =>
              linesAt (before ++ placed :: after) stepsPerBar (before.length + 1 + offset) := by
        rw [spoiledPlace_of_known after missing, List.range_succ_eq_map, List.flatMap_cons, List.flatMap_map, Nat.add_zero]
        congr 2
        funext offset
        rw [Nat.succ_eq_add_one, Nat.add_assoc before.length 1, Nat.add_comm 1]
      rw [rest, ← others, linesAt, here]
      obtain ⟨bar, stepOf, start⟩ := places before.length placed (by simp)
      have place : Record.placeText placed.bar placed.step = placeLine stepsPerBar before.length := by
        rw [bar, stepOf, placeText_eq (inside.trans inMemory)]
      cases step : placed.value with
      | rest =>
        rw [told_of_rest voice after _ step]
        rfl
      | sustain =>
        rw [told_of_sustain voice after _ step, if_pos rfl, any_isStruck_eq]
        cases nothingHeld (before ++ placed :: after) before.length with
        | true => simp [text_orphan, place]
        | false => simp
      | note _ | chord _ =>
        have struck : isStruck placed.value = true := by rw [step]; rfl
        have run : runAfter (before ++ placed :: after) before.length = heldSteps after := by
          rw [runAfter, List.append_cons, List.drop_left' (by simp)]
        rw [told_of_struck voice after _ struck missing, List.map_cons, text_struck, place, start, step, run,
          Nat.add_comm 1]
        rfl

private theorem placed_of_flatten_row {stepsPerBar : Nat} {matrix : Json} {steps : List PlacedStep}
    (flattened : Matrix.flatten stepsPerBar matrix = .ok steps) (channel velocity : Nat) :
    Placed ⟨4 / stepsPerBar, channel, velocity⟩ stepsPerBar steps := by
  intro index placed found
  obtain ⟨bar, step, _⟩ := GridPlaces.placed_of_flatten flattened found
  have start := aligned_of_flatten flattened channel velocity index placed found
  rw [Nat.zero_add] at start
  exact ⟨bar, step, start⟩

/-- What is told of a whole row of a matrix. -/
theorem map_text_told_row {stepsPerBar : Nat} {matrix : Json} {steps : List PlacedStep}
    (flattened : Matrix.flatten stepsPerBar matrix = .ok steps) (inMemory : steps.length < 2 ^ 63) (channel velocity : Nat) :
    (told ⟨4 / stepsPerBar, channel, velocity⟩ false steps).map Record.text = linesBefore steps stepsPerBar := by
  have whole := map_text_told [] steps (placed_of_flatten_row flattened channel velocity) inMemory
  simp only [List.nil_append, List.length_nil, Nat.zero_add] at whole
  exact whole

end Places

/-- A row of bars with too many steps for a machine has no bars. -/
theorem eq_nil_of_wide {stepsPerBar : Nat} {matrix : Json} {steps : List PlacedStep}
    (flattened : Matrix.flatten stepsPerBar matrix = .ok steps) (inMemory : steps.length < 2 ^ 63)
    (wide : 2 ^ 63 ≤ stepsPerBar) : steps = [] := by
  obtain ⟨_, bars, rfl, _⟩ := GridPlaces.flatten_eq_ok.mp flattened
  have length := GridRow.length_of_flatten flattened
  rcases Nat.eq_zero_or_pos bars.length with none | some
  · rw [none, Nat.zero_mul] at length
    exact List.length_eq_zero_iff.mp length
  · have long := Nat.le_mul_of_pos_left stepsPerBar some
    omega

private theorem records_performMatrix {matrix : Json} {settings : Settings} {steps : List PlacedStep}
    (flattened : Matrix.flatten settings.stepsPerBar matrix = .ok steps) :
    (performMatrix matrix settings).records =
      (performGrid steps settings.stepsPerBar settings.channel settings.velocity).records ++
        match compileMatrix matrix settings with
        | .ok events => [.compiled steps.length events.length]
        | .error _ => [] := by
  unfold compileMatrix performMatrix
  rw [flattened]
  cases outcome : (performGrid steps settings.stepsPerBar settings.channel settings.velocity).outcome with
  | error error => simp only [outcome, List.append_nil]
  | ok events => simp only [outcome]

/-- The lines about a matrix are those about its steps before the first one with an unknown
name, and a last one exactly if it compiles. Asked for note by note, its row leaves the same
lines until the first answer without a note, and none afterwards. -/
theorem lines_of_flatten {matrix : Json} {settings : Settings} {steps : List PlacedStep}
    (flattened : Matrix.flatten settings.stepsPerBar matrix = .ok steps) (lowEnough : settings.channel ≤ 15)
    (inMemory : steps.length < 2 ^ 63) :
    ((performMatrix matrix settings).records.map Record.text = linesBefore steps settings.stepsPerBar ++
      match compileMatrix matrix settings with
      | .ok events =>
        ["INFO compiled " ++ toString steps.length ++ " steps into " ++ toString events.length ++ " note events"]
      | .error _ => []) ∧
    (settings.stepsPerBar < 2 ^ 63 → ∃ stream calls,
      NoteStream.ofSteps steps settings.stepsPerBar settings.channel settings.velocity = .ok stream ∧
      (∀ count, ∀ call < count, ∃ answer, (stream.take count)[call]? = some answer ∧ (answer.item = none ↔ calls ≤ call)) ∧
      ∀ count, calls < count →
        ((stream.take count).flatMap (·.records)).map Record.text = linesBefore steps settings.stepsPerBar) := by
  have positive := (GridPlaces.flatten_eq_ok.mp flattened).1
  have telling := map_text_told_row flattened inMemory settings.channel (clampVelocity settings.velocity)
  constructor
  · have grid : (performGrid steps settings.stepsPerBar settings.channel settings.velocity).records.map Record.text =
        linesBefore steps settings.stepsPerBar := by
      by_cases narrow : settings.stepsPerBar < 2 ^ 63
      · rw [performGrid, ofGrid_eq_ok.mpr ⟨⟨positive, narrow, lowEnough⟩, rfl⟩, ← telling]
        exact congrArg _ (records_perform _ [] [] steps)
      · rw [performGrid, ofGrid, if_pos (by omega), eq_nil_of_wide flattened inMemory (by omega)]
        rfl
    rw [records_performMatrix flattened, List.map_append, grid]
    congr 1
    cases compileMatrix matrix settings <;> rfl
  · intro narrow
    have opened : NoteStream.ofSteps steps settings.stepsPerBar settings.channel settings.velocity = .ok
        ⟨⟨4 / settings.stepsPerBar, settings.channel, clampVelocity settings.velocity⟩, steps, []⟩ := by
      rw [NoteStream.ofSteps, ofGrid_eq_ok.mpr ⟨⟨positive, narrow, lowEnough⟩, rfl⟩]
      rfl
    refine ⟨_, _, opened, fun count call inside => item_take _ inside, fun count enough => ?_⟩
    rw [records_take _ enough]
    exact telling

/-- A sustain before the first note, a note that is held, a sustain after a rest, and a name that
stands for no key. -/
def strayBars : List Json :=
  [.array [.string "-", .string "C4", .string "-"], .array [.string ".", .string "-", .string "X"]]

theorem lines_of_strayBars :
    (performMatrix (.array strayBars) { stepsPerBar := 3 }).records.map Record.text =
      ["WARN bar 1 step 1: sustain with no preceding note, ignored",
        "DEBUG bar 1 step 2: 1 note(s) at beat 4/3 for 2 step(s)",
        "WARN bar 2 step 2: sustain with no preceding note, ignored"] ∧
    ∃ steps stream calls, Matrix.flatten 3 (.array strayBars) = .ok steps ∧ NoteStream.ofSteps steps 3 0 100 = .ok stream ∧
      ∀ count, calls < count → ((stream.take count).flatMap (·.records)).map Record.text =
        (performMatrix (.array strayBars) { stepsPerBar := 3 }).records.map Record.text := by
  have flattened : Matrix.flatten 3 (.array strayBars) = .ok
      [⟨0, 0, .sustain⟩, ⟨0, 1, .note "C4"⟩, ⟨0, 2, .sustain⟩, ⟨1, 0, .rest⟩, ⟨1, 1, .sustain⟩, ⟨1, 2, .note "X"⟩] := rfl
  obtain ⟨records, asked⟩ := @lines_of_flatten _ { stepsPerBar := 3 } _ flattened (by decide) (by decide)
  obtain ⟨stream, calls, opened, _, told⟩ := asked (by decide)
  have failed : compileMatrix (.array strayBars) { stepsPerBar := 3 } = .error (.unknownNote "X") := by cbv
  rw [failed, List.append_nil] at records
  refine ⟨records.trans (by decide +kernel), _, stream, calls, flattened, opened, fun count enough => ?_⟩
  rw [told count enough, records]

end StepGrid.Proofs.ScoreRecords
