import StepGrid.Proofs.GridRow

/-! The same music on a finer grid. Each step becomes so many: a note, a chord or a sustain
goes on in sustains, a rest in rests. All notes keep their times, in exact fractions. -/

namespace StepGrid.Proofs.GridRefinement
open Score Voice ScoreMeaning GridPlaces GridRow

/-- What a value goes on in: rests after a rest or an empty chord, sustains after all else. -/
def continuation : Json → String
  | .string text => if text = Step.restMark then Step.restMark else Step.sustainMark
  | .array [] => Step.restMark
  | _ => Step.sustainMark

def refineValue (parts : Nat) (value : Json) : List Json :=
  value :: List.replicate (parts - 1) (.string (continuation value))

def refineBar (parts : Nat) : Json → Json
  | .array values => .array (values.flatMap (refineValue parts))
  | other => other

/-- A matrix with each of its steps in so many parts. -/
def refine (parts : Nat) : Json → Json
  | .array bars => .array (bars.map (refineBar parts))
  | other => other

def filler : Step → Step
  | .rest => .rest
  | _ => .sustain

def refineStep (parts : Nat) (step : Step) : List Step := step :: List.replicate (parts - 1) (filler step)

private theorem names_of_mem_fillers {step one : Step} {count : Nat}
    (member : one ∈ List.replicate count (filler step)) :
    one.names = [] := by
  rw [List.eq_of_mem_replicate member]
  cases step <;> rfl

private theorem isSustain_of_mem_fillers {step one : Step} {count : Nat}
    (sounding : step.names ≠ [] ∨ step.isSustain = true)
    (member : one ∈ List.replicate count (filler step)) : one.isSustain = true := by
  rw [List.eq_of_mem_replicate member]
  cases step with
  | rest => rcases sounding with named | sustained <;> contradiction
  | sustain | note _ | chord _ => rfl

theorem length_cons_replicate {parts : Nat} (positive : 1 ≤ parts) (first other : α) :
    (first :: List.replicate (parts - 1) other).length = parts := by
  rw [List.length_cons, List.length_replicate, Nat.sub_add_cancel positive]

private theorem classify_string (text : String) :
    Step.classify (.string text) = if text = Step.restMark then some .rest
      else if text = Step.sustainMark then some .sustain else some (.note text) := rfl

/-- A value and what it goes on in stand for a step and what that goes on in. -/
theorem classify_continuation {value : Json} {step : Step} (classified : Step.classify value = some step) :
    Step.classify (.string (continuation value)) = some (filler step) := by
  cases value with
  | string text =>
    rw [classify_string] at classified
    rw [continuation]
    split at classified
    next rest =>
      cases classified
      rw [if_pos rest]
      rfl
    next sounding =>
      rw [if_neg sounding]
      split at classified
      next => cases classified; rfl
      next => cases classified; rfl
  | array items =>
    cases items with
    | nil => cases classified; rfl
    | cons item others =>
      obtain ⟨names, _, rfl⟩ := Option.map_eq_some_iff.mp classified
      rfl
  | null | bool _ | number _ | object _ => cases classified

private theorem names_refineStep (parts : Nat) (step : Step) : (refineStep parts step).flatMap
    (·.names) = step.names := by
  have quiet : (List.replicate (parts - 1) (filler step)).flatMap (·.names) = [] :=
    List.flatMap_eq_nil_iff.mpr fun _ => names_of_mem_fillers
  rw [refineStep, List.flatMap_cons, quiet, List.append_nil]

private theorem names_refine (parts : Nat) (steps : List Step) :
    (steps.flatMap (refineStep parts)).flatMap (·.names) = steps.flatMap (·.names) := by
  rw [List.flatMap_assoc]
  simp only [names_refineStep]

/-- A run of sustains has so many times as many steps on the finer grid. -/
theorem held_refine {parts : Nat} (positive : 1 ≤ parts) (steps : List Step) :
    held (steps.flatMap (refineStep parts)) = parts * held steps := by
  induction steps with
  | nil => rfl
  | cons step after ih =>
    rw [List.flatMap_cons, held_cons]
    by_cases sustained : step.isSustain = true
    · have all : ∀ one ∈ refineStep parts step, one.isSustain = true :=
        List.forall_mem_cons.mpr ⟨sustained, fun _ => isSustain_of_mem_fillers (.inr sustained)⟩
      rw [held_append_of_sustains all, ih, refineStep, length_cons_replicate positive, if_pos sustained, Nat.mul_succ,
        Nat.add_comm]
    · rw [refineStep, List.cons_append, held_cons, if_neg sustained, if_neg sustained, Nat.mul_zero]

def coarser (parts : Nat) (voice : Voice) : Voice := { voice with stepLength := parts * voice.stepLength }

private theorem sound_coarser (parts : Nat) (voice : Voice) (place : Nat) (step : Step) (length : Nat) :
    sound voice (place * parts) step (parts * length) = sound (coarser parts voice) place step length := by
  refine List.map_congr_left fun pitch _ => ?_
  simp only [coarser, Voice.event, NoteEvent.mk.injEq, true_and]
  push_cast
  constructor <;> ring

/-- What goes on in sustains is held through them and through all the finer sustains after. -/
theorem sound_refine {parts : Nat} (positive : 1 ≤ parts) (voice : Voice) (place : Nat) (step : Step)
    (after : List Step) :
    sound voice (place * parts) step
        (held (List.replicate (parts - 1) (filler step) ++ after.flatMap (refineStep parts)) + 1) =
      sound (coarser parts voice) place step (held after + 1) := by
  by_cases silent : step.names = []
  · rw [sound_of_names_nil silent, sound_of_names_nil silent]
  · have all : ∀ one ∈ List.replicate (parts - 1) (filler step), one.isSustain = true :=
      fun _ => isSustain_of_mem_fillers (.inl silent)
    have whole : parts - 1 + parts * held after + 1 = parts * (held after + 1) := by
      rw [Nat.mul_succ]
      omega
    rw [held_append_of_sustains all, List.length_replicate, held_refine positive, whole, sound_coarser]

private theorem notesFrom_refine {parts : Nat} (positive : 1 ≤ parts) (voice : Voice) (place : Nat)
    (steps : List Step) :
    notesFrom voice (place * parts) (steps.flatMap (refineStep parts)) = notesFrom (coarser parts voice) place steps := by
  induction steps generalizing place with
  | nil => rfl
  | cons step after ih =>
    have quiet : ∀ one ∈ List.replicate (parts - 1) (filler step), one.names = [] := fun _ => names_of_mem_fillers
    have next : place * parts + 1 + (parts - 1) = (place + 1) * parts := by
      rw [Nat.succ_mul]
      omega
    rw [List.flatMap_cons, refineStep, List.cons_append, notesFrom, notesFrom, sound_refine positive,
      notesFrom_append_of_silent quiet, List.length_replicate, next, ih]

private theorem valuesOf_refineBar (parts : Nat) (bar : Json) :
    valuesOf (refineBar parts bar) = (valuesOf bar).flatMap (refineValue parts) := by
  cases bar <;> rfl

private theorem values_refine (parts : Nat) (bars : List Json) :
    (bars.map (refineBar parts)).flatMap valuesOf = (bars.flatMap valuesOf).flatMap (refineValue parts) := by
  simp only [List.flatMap_map, List.flatMap_assoc, valuesOf_refineBar]

private theorem map_stepOf_refineValue (parts : Nat) {value : Json} {step : Step}
    (classified : Step.classify value = some step) :
    (refineValue parts value).map stepOf = refineStep parts step := by
  have next : stepOf (.string (continuation value)) = filler step := by
    rw [stepOf, classify_continuation classified]
    rfl
  rw [refineValue, List.map_cons, List.map_replicate, next, stepOf, classified]
  rfl

private theorem row_refine {width : Nat} {bars : List Json} (regular : Regular width bars) (parts : Nat) :
    row (bars.map (refineBar parts)) = (row bars).flatMap (refineStep parts) := by
  rw [row, row, values_refine, List.map_flatMap, List.flatMap_map]
  exact List.flatMap_congr fun value member => map_stepOf_refineValue parts (regular.classify member)

private theorem regular_refine {width parts : Nat} {bars : List Json} (regular : Regular width bars)
    (positive : 1 ≤ parts) :
    Regular (width * parts) (bars.map (refineBar parts)) := by
  constructor
  · rw [List.forall_mem_map]
    intro bar member
    cases bar with
    | array values =>
      obtain ⟨_, same, rfl⟩ := regular.even _ member
      cases same
      exact ⟨_, rfl, length_flatMap_of_length fun value _ => length_cons_replicate positive value _⟩
    | null | bool _ | number _ | string _ | object _ =>
      obtain ⟨_, impossible, _⟩ := regular.even _ member
      cases impossible
  · rw [values_refine, List.forall_mem_flatMap]
    intro value member
    have classified := regular.classify member
    rw [refineValue, List.forall_mem_cons, classified]
    refine ⟨rfl, fun other replicated => ?_⟩
    rw [List.eq_of_mem_replicate replicated, classify_continuation classified]
    rfl

/-- Refining a grid changes nothing: the notes are the same with the same times, and a name
that stands for no key is the same. -/
theorem compileMatrix_refine {matrix : Json} {settings : Settings} {steps : List PlacedStep} {parts : Nat}
    (flattened : Matrix.flatten settings.stepsPerBar matrix = .ok steps) (positive : 1 ≤ parts)
    (bounded : settings.stepsPerBar * parts < 2 ^ 63) (lowEnough : settings.channel ≤ 15) :
    compileMatrix (refine parts matrix) { settings with stepsPerBar := settings.stepsPerBar * parts } =
      compileMatrix matrix settings := by
  obtain ⟨nonempty, bars, rfl, regular, _⟩ := flatten_eq_ok.mp flattened
  have bound : settings.stepsPerBar < 2 ^ 63 := Nat.lt_of_le_of_lt (Nat.le_mul_of_pos_right _ positive) bounded
  have fine : ofGrid (settings.stepsPerBar * parts) settings.channel settings.velocity =
      .ok ⟨4 / (settings.stepsPerBar * parts : Nat), settings.channel, clampVelocity settings.velocity⟩ :=
    ofGrid_eq_ok.mpr ⟨⟨Nat.mul_pos nonempty positive, bounded, lowEnough⟩, rfl⟩
  have coarse : ofGrid settings.stepsPerBar settings.channel settings.velocity =
      .ok (coarser parts ⟨4 / (settings.stepsPerBar * parts : Nat), settings.channel, clampVelocity settings.velocity⟩) := by
    refine ofGrid_eq_ok.mpr ⟨⟨nonempty, bound, lowEnough⟩, ?_⟩
    have nonzero : (parts : Rat) ≠ 0 := by exact_mod_cast Nat.ne_of_gt positive
    have nonzeroToo : (settings.stepsPerBar : Rat) ≠ 0 := by exact_mod_cast Nat.ne_of_gt nonempty
    simp only [coarser, Voice.mk.injEq, and_true]
    push_cast
    field_simp
  rw [refine, compileMatrix_eq_playRow (Nat.mul_pos nonempty positive) (regular_refine regular positive),
    compileMatrix_eq_playRow nonempty regular, fine, coarse]
  change playRow _ _ = playRow _ _
  rw [row_refine regular, playRow, playRow, names_refine, ← notesFrom_refine positive, Nat.zero_mul]

/-- A sustain without a note, an empty chord, and a note held over the bar line up to a
chord. -/
def heldOver : Json :=
  .array [.array [.string "-", .array [], .string "C4"],
    .array [.string "-", .array [.string "E4", .string "Ab3"], .string "."]]

theorem compileMatrix_refine_heldOver :
    compileMatrix (refine 2 heldOver) { stepsPerBar := 6 } =
      .ok [⟨0, 0, 60, 100, 8 / 3, 8 / 3⟩, ⟨0, 0, 64, 100, 16 / 3, 4 / 3⟩, ⟨0, 0, 56, 100, 16 / 3, 4 / 3⟩] := by
  let steps : List PlacedStep := [⟨0, 0, .sustain⟩, ⟨0, 1, .rest⟩, ⟨0, 2, .note "C4"⟩, ⟨1, 0, .sustain⟩,
    ⟨1, 1, .chord ["E4", "Ab3"]⟩, ⟨1, 2, .rest⟩]
  have flattened : Matrix.flatten 3 heldOver = .ok steps := rfl
  have made : ofGrid 3 0 100 = .ok ⟨4 / (3 : Nat), 0, clampVelocity 100⟩ :=
    ofGrid_eq_ok.mpr ⟨⟨by decide, by decide, by decide⟩, rfl⟩
  have coarse : compileMatrix heldOver { stepsPerBar := 3 } = .ok (notes ⟨4 / (3 : Nat), 0, clampVelocity 100⟩ steps) :=
    compileMatrix_eq_ok.mpr ⟨steps, flattened, compile_eq_perform made steps⟩
  have refined := @compileMatrix_refine heldOver { stepsPerBar := 3 } steps 2 flattened (by decide) (by decide) (by decide)
  exact refined.trans (coarse.trans (congrArg Except.ok (by decide +kernel)))

end StepGrid.Proofs.GridRefinement
