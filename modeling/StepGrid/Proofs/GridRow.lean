import StepGrid.Proofs.ScoreTimes

/-! A matrix read as a single row of steps. Its notes depend on the steps alone and on how
many stand before each of them; where a bar ends makes no difference. -/

namespace StepGrid.Proofs.GridRow
open Score Voice ScoreMeaning ScoreTimes GridPlaces

def row (bars : List Json) : List Step := (bars.flatMap valuesOf).map stepOf

def held (steps : List Step) : Nat := (steps.takeWhile (·.isSustain)).length

def sound (voice : Voice) (place : Nat) (step : Step) (length : Nat) : List NoteEvent :=
  (step.names.filterMap Pitch.ofName?).map
    (voice.event (place * voice.stepLength) (voice.stepLength * length))

def notesFrom (voice : Voice) (place : Nat) : List Step → List NoteEvent
  | [] => []
  | step :: after => sound voice place step (held after + 1) ++ notesFrom voice (place + 1) after

/-- The notes of a row, or the first of its names that stands for no key. -/
def playRow (voice : Voice) (steps : List Step) : Except Error (List NoteEvent) :=
  match unknown? (steps.flatMap (·.names)) with
  | some name => .error (.unknownNote name)
  | none => .ok (notesFrom voice 0 steps)

theorem row_append (first second : List Json) : row (first ++ second) = row first ++ row second := by
  simp only [row, List.flatMap_append, List.map_append]

theorem length_row {width : Nat} {bars : List Json} (regular : Regular width bars) :
    (row bars).length = bars.length * width := by
  rw [row, List.length_map, length_flatMap_of_length regular.length_valuesOf]

theorem held_cons (step : Step) (after : List Step) :
    held (step :: after) = if step.isSustain then held after + 1 else 0 := by
  rw [held, List.takeWhile_cons]
  split
  next => rfl
  next => rfl

theorem held_append_of_sustains {sustains : List Step} (all : ∀ step ∈ sustains, step.isSustain = true)
    (after : List Step) : held (sustains ++ after) = sustains.length + held after := by
  rw [held, List.takeWhile_append_of_pos all, List.length_append]
  rfl

theorem length_sound {voice : Voice} {place length : Nat} {step : Step} (known : unknown? step.names = none) :
    (sound voice place step length).length = step.names.length := by
  rw [sound, List.length_map, ← List.length_map some, map_some_filterMap known, List.length_map]

theorem sound_of_names_nil {voice : Voice} {place length : Nat} {step : Step} (silent : step.names = []) :
    sound voice place step length = [] := by
  rw [sound, silent]
  rfl

/-- Silent steps take up their places in a row and nothing else. -/
theorem notesFrom_append_of_silent {silent : List Step} (quiet : ∀ step ∈ silent, step.names = []) (voice : Voice)
    (place : Nat) (after : List Step) :
    notesFrom voice place (silent ++ after) = notesFrom voice (place + silent.length) after := by
  induction silent generalizing place with
  | nil => rfl
  | cons step rest ih =>
    obtain ⟨quietStep, quietRest⟩ := List.forall_mem_cons.mp quiet
    rw [List.cons_append, notesFrom, sound_of_names_nil quietStep, List.nil_append, ih quietRest, List.length_cons,
      Nat.add_assoc, Nat.add_comm 1]

theorem heldSteps_eq_held (steps : List PlacedStep) : heldSteps steps = held (steps.map (·.value)) := by
  rw [heldSteps, held, List.takeWhile_map, List.length_map]
  rfl

theorem notes_eq_notesFrom {voice : Voice} {first : Nat} {steps : List PlacedStep}
    (aligned : Aligned voice first steps) :
    notes voice steps = notesFrom voice first (steps.map (·.value)) := by
  induction steps generalizing first with
  | nil => rfl
  | cons placed after ih =>
    rw [notes, ih aligned.tail, notesOf, aligned.head, heldSteps_eq_held]
    rfl

theorem map_value_flatten {width : Nat} {bars : List Json} {steps : List PlacedStep}
    (flattened : Matrix.flatten width (.array bars) = .ok steps) : steps.map (·.value) = row bars := by
  obtain ⟨_, _, same, _, rfl⟩ := flatten_eq_ok.mp flattened
  cases same
  rw [List.map_map, row, List.flatMap_def, ← map_value_cells, List.map_map]
  rfl

theorem length_of_flatten {width : Nat} {bars : List Json} {steps : List PlacedStep}
    (flattened : Matrix.flatten width (.array bars) = .ok steps) : steps.length = bars.length * width := by
  obtain ⟨_, _, same, regular, _⟩ := flatten_eq_ok.mp flattened
  cases same
  rw [← length_row regular, ← map_value_flatten flattened, List.length_map]

/-- A matrix is compiled as a row, whatever its bars. -/
theorem compileMatrix_eq_playRow {bars : List Json} {settings : Settings} (positive : 0 < settings.stepsPerBar)
    (regular : Regular settings.stepsPerBar bars) :
    compileMatrix (.array bars) settings =
      ofGrid settings.stepsPerBar settings.channel settings.velocity >>= fun voice => playRow voice (row bars) := by
  have flattened := flatten_eq_ok.mpr ⟨positive, bars, rfl, regular, rfl⟩
  have names : firstUnknown? ((Matrix.cells (bars.map valuesOf)).map placeOf) = unknown? ((row bars).flatMap (·.names)) := by
    rw [← map_value_flatten flattened, List.flatMap_map]
    rfl
  rw [compileMatrix_eq_bind, flattened]
  change compile _ _ _ _ = _
  cases made : ofGrid settings.stepsPerBar settings.channel settings.velocity with
  | error error =>
    rw [compile, performGrid, made]
    rfl
  | ok voice =>
    have shape := (ofGrid_eq_ok.mp made).2
    have aligned : Aligned voice 0 _ := shape ▸ aligned_of_flatten flattened _ _
    rw [compile_eq_perform made, names, notes_eq_notesFrom aligned, map_value_flatten flattened]
    rfl

theorem playRow_eq_ok {voice : Voice} {steps : List Step} {events : List NoteEvent} :
    playRow voice steps = .ok events ↔ unknown? (steps.flatMap (·.names)) = none ∧ events = notesFrom voice 0 steps := by
  unfold playRow
  cases unknown? (steps.flatMap (·.names)) with
  | none => simp [eq_comm]
  | some name => simp

theorem compileMatrix_array_eq_ok {bars : List Json} {settings : Settings} {events : List NoteEvent} :
    compileMatrix (.array bars) settings = .ok events ↔ Regular settings.stepsPerBar bars ∧
      ∃ voice, ofGrid settings.stepsPerBar settings.channel settings.velocity = .ok voice ∧
        unknown? ((row bars).flatMap (·.names)) = none ∧ events = notesFrom voice 0 (row bars) := by
  constructor
  · intro compiled
    obtain ⟨_, flattened, _⟩ := compileMatrix_eq_ok.mp compiled
    obtain ⟨positive, _, same, regular, _⟩ := flatten_eq_ok.mp flattened
    cases same
    rw [compileMatrix_eq_playRow positive regular, bind_eq_ok] at compiled
    obtain ⟨voice, made, played⟩ := compiled
    exact ⟨regular, voice, made, playRow_eq_ok.mp played⟩
  · rintro ⟨regular, voice, made, played⟩
    rw [compileMatrix_eq_playRow (ofGrid_eq_ok.mp made).1.1 regular, bind_eq_ok]
    exact ⟨voice, made, playRow_eq_ok.mpr played⟩

end StepGrid.Proofs.GridRow
