import StepGrid.Proofs.FallibleMap
import StepGrid.Score.Compile
import Mathlib.Data.List.Basic
import Mathlib.Data.Rat.Cast.Defs
import Mathlib.Tactic.Ring

/-! What a row of steps means, told without playing it. Every name of a step sounds from
that step on and through the sustains right after it. The first name that stands for no
key spoils the whole row. -/

namespace StepGrid.Proofs.ScoreMeaning
open Score Voice

def unknown? (names : List String) : Option String :=
  names.find? fun name => (Pitch.ofName? name).isNone

def firstUnknown? (steps : List PlacedStep) : Option String := unknown? (steps.flatMap (·.value.names))

def notesOf (voice : Voice) (placed : PlacedStep) (held : Nat) : List NoteEvent :=
  (placed.value.names.filterMap Pitch.ofName?).map
    (voice.event (voice.start placed) (voice.stepLength * ((held + 1 : Nat) : Rat)))

def notes (voice : Voice) : List PlacedStep → List NoteEvent
  | [] => []
  | placed :: after => notesOf voice placed (heldSteps after) ++ notes voice after

theorem unknown?_append (first second : List String) :
    unknown? (first ++ second) = (unknown? first).or (unknown? second) := List.find?_append ..

theorem firstUnknown?_cons (placed : PlacedStep) (after : List PlacedStep) :
    firstUnknown? (placed :: after) = (unknown? placed.value.names).or (firstUnknown? after) := by
  simp only [firstUnknown?, List.flatMap_cons, unknown?_append]

theorem known_cons {placed : PlacedStep} {after : List PlacedStep} (known : firstUnknown? (placed :: after) = none) :
    unknown? placed.value.names = none ∧ firstUnknown? after = none := by
  rwa [firstUnknown?_cons, Option.or_eq_none_iff] at known

theorem names_of_isSustain {step : Step} (sustained : step.isSustain = true) : step.names = [] := by
  cases step <;> simp_all [Step.isSustain, Step.names]

theorem notesOf_of_names_nil {voice : Voice} {placed : PlacedStep} {held : Nat}
    (silent : placed.value.names = []) : notesOf voice placed held = [] := by
  simp [notesOf, silent]

/-- A fold over steps that passes over sustains may leave out the sustains at the head. -/
theorem eq_of_dropWhile {meaning : List PlacedStep → α}
    (passes : ∀ placed after, placed.value.isSustain = true → meaning (placed :: after) = meaning after)
    (steps : List PlacedStep) : meaning (steps.dropWhile (·.value.isSustain)) = meaning steps := by
  induction steps with
  | nil => rfl
  | cons placed after ih =>
    by_cases sustained : placed.value.isSustain = true
    · rw [List.dropWhile_cons, if_pos sustained, ih, passes placed after sustained]
    · rw [List.dropWhile_cons, if_neg sustained]

/-- Sustains sound nothing of their own, so that playing may pass over them. -/
theorem notes_sustain (voice : Voice) (placed : PlacedStep) (after : List PlacedStep)
    (sustained : placed.value.isSustain = true) : notes voice (placed :: after) = notes voice after := by
  rw [notes, notesOf_of_names_nil (names_of_isSustain sustained), List.nil_append]

private theorem firstUnknown?_sustain (placed : PlacedStep) (after : List PlacedStep)
    (sustained : placed.value.isSustain = true) : firstUnknown? (placed :: after) = firstUnknown? after := by
  rw [firstUnknown?_cons, names_of_isSustain sustained]
  rfl

theorem mapM_pitch (names : List String) :
    names.mapM pitch = match unknown? names with
      | some name => .error (.unknownNote name)
      | none => .ok (names.filterMap Pitch.ofName?) := by
  induction names with
  | nil => rfl
  | cons name names ih =>
    rw [List.mapM_cons, ih]
    cases found : Pitch.ofName? name with
    | none => simp [pitch, unknown?, found, bind, Except.bind]
    | some key =>
      have skipped : unknown? (name :: names) = unknown? names := by simp [unknown?, found]
      rw [skipped, List.filterMap_cons_some found]
      cases unknown? names <;> simp [pitch, found, bind, Except.bind, pure, Except.pure]

theorem map_some_filterMap {names : List String} (known : unknown? names = none) :
    (names.filterMap Pitch.ofName?).map some = names.map Pitch.ofName? := by
  induction names with
  | nil => rfl
  | cons name names ih =>
    cases found : Pitch.ofName? name with
    | none => simp [unknown?, found] at known
    | some key =>
      have others : unknown? names = none := by simpa [unknown?, found] using known
      rw [List.filterMap_cons_some found, List.map_cons, List.map_cons, found, ih others]

private theorem strike_of_unknown (voice : Voice) {placed : PlacedStep} (after : List PlacedStep) {name : String}
    (missing : unknown? placed.value.names = some name) :
    (voice.strike placed after).outcome = .error (.unknownNote name) := by
  rw [strike, mapM_pitch, missing]

theorem strike_of_known (voice : Voice) {placed : PlacedStep} (after : List PlacedStep)
    (known : unknown? placed.value.names = none) :
    (voice.strike placed after).outcome = .ok (notesOf voice placed (heldSteps after)) ∧
    (voice.strike placed after).rest = after.dropWhile (·.value.isSustain) := by
  rw [strike, mapM_pitch, known]
  exact ⟨rfl, rfl⟩

theorem play_of_unknown (voice : Voice) {placed : PlacedStep} (after : List PlacedStep) {name : String}
    (missing : unknown? placed.value.names = some name) :
    (voice.play placed after).outcome = .error (.unknownNote name) := by
  cases step : placed.value with
  | rest | sustain => simp [step, Step.names, unknown?] at missing
  | note _ | chord _ =>
    simp only [play, step]
    exact strike_of_unknown voice after missing

/-- The steps left to play mean what all steps after the played one mean. -/
theorem rest_of_known {meaning : List PlacedStep → α}
    (passes : ∀ placed after, placed.value.isSustain = true → meaning (placed :: after) = meaning after)
    (voice : Voice) {placed : PlacedStep} (after : List PlacedStep) (known : unknown? placed.value.names = none) :
    meaning (voice.play placed after).rest = meaning after := by
  cases step : placed.value with
  | rest | sustain => simp only [play, step]
  | note _ | chord _ =>
    have rest := (strike_of_known voice after known).2
    simp only [play, step, rest, eq_of_dropWhile passes]

/-- One step of playing: its notes come out, and the steps left to play have the notes
and the unknown names of all steps after it. -/
theorem play_of_known (voice : Voice) {placed : PlacedStep} (after : List PlacedStep)
    (known : unknown? placed.value.names = none) :
    (voice.play placed after).outcome = .ok (notesOf voice placed (heldSteps after)) ∧
    notes voice (voice.play placed after).rest = notes voice after ∧
    firstUnknown? (voice.play placed after).rest = firstUnknown? after := by
  refine ⟨?_, rest_of_known (notes_sustain voice) voice after known,
    rest_of_known firstUnknown?_sustain voice after known⟩
  cases step : placed.value with
  | rest | sustain =>
    have silent : placed.value.names = [] := by rw [step]; rfl
    simp only [play, step, notesOf_of_names_nil silent]
  | note _ | chord _ =>
    have outcome := (strike_of_known voice after known).1
    simp only [play, step, outcome]

private theorem perform_outcome (voice : Voice) (events : List NoteEvent) (records : List Record)
    (steps : List PlacedStep) :
    (perform voice events records steps).outcome = match firstUnknown? steps with
      | some name => .error (.unknownNote name)
      | none => .ok (events.reverse ++ notes voice steps) := by
  -- The induction is on the steps left; the notes already played stay in front.
  fun_induction perform voice events records steps with
  | case1 events records => simp [firstUnknown?, unknown?, notes]
  | case2 events records placed after turn error failed =>
    cases missing : unknown? placed.value.names with
    | none =>
      have played := (play_of_known voice after missing).1
      exact absurd (failed.symm.trans played) (by simp)
    | some name =>
      have played := play_of_unknown voice after missing
      have same := Except.error.inj (failed.symm.trans played)
      simp [firstUnknown?_cons, missing, same]
  | case3 events records placed after turn struck succeeded ih =>
    cases missing : unknown? placed.value.names with
    | some name =>
      have played := play_of_unknown voice after missing
      exact absurd (succeeded.symm.trans played) (by simp)
    | none =>
      obtain ⟨played, sameNotes, sameUnknown⟩ := play_of_known voice after missing
      have same := Except.ok.inj (succeeded.symm.trans played)
      rw [ih, sameUnknown, sameNotes, firstUnknown?_cons, missing, Option.none_or, notes, same]
      simp

theorem ofGrid_eq_ok {stepsPerBar channel : Nat} {velocity : Int} {voice : Voice} :
    ofGrid stepsPerBar channel velocity = .ok voice ↔
      (1 ≤ stepsPerBar ∧ stepsPerBar < 2 ^ 63 ∧ channel ≤ 15) ∧
      voice = ⟨4 / stepsPerBar, channel, clampVelocity velocity⟩ := by
  have length : mkRat beatsPerBar stepsPerBar = 4 / (stepsPerBar : Rat) := Rat.mkRat_eq_div ..
  unfold ofGrid highestChannel
  split
  next outside =>
    refine ⟨nofun, ?_⟩
    rintro ⟨bounds, -⟩
    omega
  next inside =>
    split
    next tooHigh =>
      refine ⟨nofun, ?_⟩
      rintro ⟨bounds, -⟩
      omega
    next lowEnough =>
      rw [length, Except.ok.injEq]
      exact ⟨fun same => ⟨by omega, same.symm⟩, fun same => same.2.symm⟩

theorem compile_eq_perform {stepsPerBar channel : Nat} {velocity : Int} {voice : Voice}
    (made : ofGrid stepsPerBar channel velocity = .ok voice) (steps : List PlacedStep) :
    compile steps stepsPerBar channel velocity = match firstUnknown? steps with
      | some name => .error (.unknownNote name)
      | none => .ok (notes voice steps) := by
  rw [compile, performGrid, made]
  exact perform_outcome voice [] [] steps

theorem bounds_of_compile {steps : List PlacedStep} {stepsPerBar channel : Nat} {velocity : Int}
    {events : List NoteEvent} (compiled : compile steps stepsPerBar channel velocity = .ok events) :
    1 ≤ stepsPerBar ∧ stepsPerBar < 2 ^ 63 ∧ channel ≤ 15 := by
  cases made : ofGrid stepsPerBar channel velocity with
  | error error => simp [compile, performGrid, made] at compiled
  | ok voice => exact (ofGrid_eq_ok.mp made).1

theorem compile_eq_ok {steps : List PlacedStep} {stepsPerBar channel : Nat} {velocity : Int}
    {events : List NoteEvent} (compiled : compile steps stepsPerBar channel velocity = .ok events) :
    1 ≤ stepsPerBar ∧ firstUnknown? steps = none ∧
    events = notes ⟨4 / stepsPerBar, channel, clampVelocity velocity⟩ steps := by
  have bounds := bounds_of_compile compiled
  rw [compile_eq_perform (ofGrid_eq_ok.mpr ⟨bounds, rfl⟩)] at compiled
  cases missing : firstUnknown? steps with
  | some name => simp [missing] at compiled
  | none =>
    rw [missing] at compiled
    exact ⟨bounds.1, rfl, (Except.ok.inj compiled).symm⟩

/-- What is noted down on the way makes no difference to the notes. -/
theorem compileMatrix_eq_bind (matrix : Json) (settings : Settings) :
    compileMatrix matrix settings = Matrix.flatten settings.stepsPerBar matrix >>= fun steps =>
      compile steps settings.stepsPerBar settings.channel settings.velocity := by
  unfold compileMatrix performMatrix
  cases Matrix.flatten settings.stepsPerBar matrix with
  | error error => rfl
  | ok steps =>
    change _ = compile steps settings.stepsPerBar settings.channel settings.velocity
    rw [compile]
    cases outcome : (performGrid steps settings.stepsPerBar settings.channel settings.velocity).outcome with
    | error error => simp only [outcome]
    | ok notes => simp only [outcome]

theorem compileMatrix_eq_ok {matrix : Json} {settings : Settings} {events : List NoteEvent} :
    compileMatrix matrix settings = .ok events ↔ ∃ steps, Matrix.flatten settings.stepsPerBar matrix = .ok steps ∧
      compile steps settings.stepsPerBar settings.channel settings.velocity = .ok events := by
  rw [compileMatrix_eq_bind, bind_eq_ok]

def stepAt (steps : List PlacedStep) (index : Nat) : Step := (steps[index]?.map (·.value)).getD .rest

/-- So many sustains stand right after a step, and no further one. -/
structure Run (steps : List PlacedStep) (index length : Nat) : Prop where
  sustained : ∀ offset < length, stepAt steps (index + 1 + offset) = .sustain
  ended : stepAt steps (index + 1 + length) ≠ .sustain

def runAfter (steps : List PlacedStep) (index : Nat) : Nat := heldSteps (steps.drop (index + 1))

theorem stepAt_cons_succ (placed : PlacedStep) (after : List PlacedStep) (index : Nat) :
    stepAt (placed :: after) (index + 1) = stepAt after index := by
  simp only [stepAt, List.getElem?_cons_succ]

theorem stepAt_drop (steps : List PlacedStep) (count index : Nat) :
    stepAt (steps.drop count) index = stepAt steps (count + index) := by
  simp only [stepAt, List.getElem?_drop]

theorem isSustain_iff {step : Step} : step.isSustain = true ↔ step = .sustain := by
  cases step <;> simp [Step.isSustain]

theorem heldSteps_cons (placed : PlacedStep) (after : List PlacedStep) :
    heldSteps (placed :: after) = if placed.value = .sustain then heldSteps after + 1 else 0 := by
  unfold heldSteps
  rw [List.takeWhile_cons]
  by_cases sustained : placed.value = .sustain
  · rw [if_pos (isSustain_iff.mpr sustained), if_pos sustained, List.length_cons]
  · rw [if_neg (isSustain_iff.not.mpr sustained), if_neg sustained, List.length_nil]

/-- The steps that a leading run of sustains reaches are those with sustains only
up to them. -/
theorem lt_heldSteps_iff (steps : List PlacedStep) (index : Nat) :
    index < heldSteps steps ↔ ∀ earlier ≤ index, stepAt steps earlier = .sustain := by
  induction steps generalizing index with
  | nil => exact ⟨fun impossible => absurd impossible (Nat.not_lt_zero _), fun all => nomatch all 0 (Nat.zero_le _)⟩
  | cons placed after ih =>
    rw [heldSteps_cons]
    by_cases sustained : placed.value = .sustain
    · rw [if_pos sustained]
      cases index with
      | zero => simpa [stepAt] using sustained
      | succ index =>
        rw [Nat.succ_lt_succ_iff, ih]
        constructor
        · intro all earlier bound
          cases earlier with
          | zero => exact sustained
          | succ earlier => exact (stepAt_cons_succ ..).trans (all earlier (by omega))
        · intro all earlier bound
          exact (stepAt_cons_succ ..).symm.trans (all (earlier + 1) (by omega))
    · rw [if_neg sustained]
      exact ⟨fun impossible => absurd impossible (Nat.not_lt_zero _), fun all => absurd (all 0 (Nat.zero_le _)) sustained⟩

private theorem run_runAfter (steps : List PlacedStep) (index : Nat) : Run steps index (runAfter steps index) := by
  constructor
  · intro offset inside
    rw [← stepAt_drop]
    exact (lt_heldSteps_iff _ offset).mp inside offset (Nat.le_refl _)
  · intro sustained
    rw [← stepAt_drop] at sustained
    apply Nat.lt_irrefl (runAfter steps index)
    refine (lt_heldSteps_iff _ _).mpr fun earlier bound => ?_
    rcases Nat.lt_or_eq_of_le bound with inside | rfl
    · exact (lt_heldSteps_iff _ earlier).mp inside earlier (Nat.le_refl _)
    · exact sustained

theorem notes_eq_flatMap (voice : Voice) (steps : List PlacedStep) :
    notes voice steps = (List.range steps.length).flatMap fun index =>
      steps[index]?.elim [] fun placed => notesOf voice placed (runAfter steps index) := by
  induction steps with
  | nil => rfl
  | cons placed after ih =>
    rw [notes, ih, List.length_cons, List.range_succ_eq_map, List.flatMap_cons, List.flatMap_map]
    rfl

/-- What the step at a place sounds, in beats: one note for each of its names, struck at
the step and held through the run of sustains after it. -/
def declaredAt (steps : List PlacedStep) (stepsPerBar channel : Nat) (velocity : Int) (index : Nat) :
    List NoteEvent :=
  steps[index]?.elim [] fun placed => placed.value.names.filterMap fun name =>
    (Pitch.ofName? name).map fun pitch =>
      { track := 0
        channel := channel
        pitch := pitch
        velocity := if velocity < 1 then 1 else if 127 < velocity then 127 else velocity.toNat
        start := 4 * placed.bar + placed.step * (4 / stepsPerBar)
        duration := (1 + runAfter steps index) * (4 / stepsPerBar) }

theorem clampVelocity_eq (velocity : Int) :
    clampVelocity velocity = if velocity < 1 then 1 else if 127 < velocity then 127 else velocity.toNat := by
  unfold clampVelocity
  split
  · omega
  · split <;> omega

theorem notesOf_eq_declaredAt {steps : List PlacedStep} (stepsPerBar channel : Nat) (velocity : Int) (index : Nat) :
    (steps[index]?.elim [] fun placed =>
      notesOf ⟨4 / stepsPerBar, channel, clampVelocity velocity⟩ placed (runAfter steps index)) =
    declaredAt steps stepsPerBar channel velocity index := by
  unfold declaredAt
  cases steps[index]? with
  | none => rfl
  | some placed =>
    have start : Voice.start ⟨4 / stepsPerBar, channel, clampVelocity velocity⟩ placed =
        4 * placed.bar + placed.step * (4 / stepsPerBar) := by
      simp only [Voice.start, beatsPerBar, Int.cast_mul, Nat.cast_ofNat, Int.cast_ofNat]
      ring
    have duration : (4 / stepsPerBar : Rat) * ((runAfter steps index + 1 : Nat) : Rat) =
        (1 + runAfter steps index) * (4 / stepsPerBar) := by
      push_cast
      ring
    simp only [Option.elim_some, notesOf, List.map_filterMap, start, duration, ← clampVelocity_eq]
    rfl

/-- Compiling a row is reading its meaning. Either some name stands for no key and the
first such name is told, or the notes of all steps come out in order. -/
theorem compile_eq_declared (steps : List PlacedStep) (stepsPerBar channel : Nat) (velocity : Int)
    (positive : 1 ≤ stepsPerBar) (bounded : stepsPerBar ≤ 2 ^ 63 - 1) (lowEnough : channel ≤ 15) :
    (compile steps stepsPerBar channel velocity = match firstUnknown? steps with
      | some name => .error (.unknownNote name)
      | none => .ok ((List.range steps.length).flatMap (declaredAt steps stepsPerBar channel velocity))) ∧
    ∀ index, Run steps index (runAfter steps index) := by
  have made : ofGrid stepsPerBar channel velocity = .ok ⟨4 / stepsPerBar, channel, clampVelocity velocity⟩ :=
    ofGrid_eq_ok.mpr ⟨⟨positive, by omega, lowEnough⟩, rfl⟩
  refine ⟨?_, run_runAfter steps⟩
  rw [compile_eq_perform made, notes_eq_flatMap]
  simp only [notesOf_eq_declaredAt]

/-- A chord with a repeated name on the last step of a bar, held over the bar line, and
after a rest a sustain that holds nothing. -/
theorem compile_across_bars :
    (1 ≤ 3 ∧ 3 ≤ 2 ^ 63 - 1 ∧ 9 ≤ 15) ∧
    (compile [⟨0, 2, .chord ["C4", "Eb4", "C4"]⟩, ⟨1, 0, .sustain⟩, ⟨1, 1, .rest⟩, ⟨1, 2, .sustain⟩, ⟨2, 0, .note "G3"⟩]
      3 9 300 =
      .ok [⟨0, 9, 60, 127, 8 / 3, 8 / 3⟩, ⟨0, 9, 63, 127, 8 / 3, 8 / 3⟩, ⟨0, 9, 60, 127, 8 / 3, 8 / 3⟩,
        ⟨0, 9, 55, 127, 8, 4 / 3⟩]) ∧
    compile [⟨0, 0, .note "C4"⟩, ⟨0, 1, .chord ["E4", "H4", "X"]⟩, ⟨0, 2, .note "Y"⟩] 3 9 300 =
      .error (.unknownNote "H4") := by
  refine ⟨by decide, ?_, ?_⟩
  · rw [(compile_eq_declared _ 3 9 300 (by decide) (by decide) (by decide)).1]
    exact congrArg Except.ok (by decide +kernel)
  · rw [(compile_eq_declared _ 3 9 300 (by decide) (by decide) (by decide)).1]
    rfl

end StepGrid.Proofs.ScoreMeaning
