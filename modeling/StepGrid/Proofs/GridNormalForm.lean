import StepGrid.Proofs.GridChords
import StepGrid.Proofs.GridRow
import StepGrid.Proofs.PianoRoll

/-! What the notes of a matrix keep of its steps. They keep where a step is struck and with
which keys, where it is held and where it is silent, and nothing else: not the spelling of
a key, and not whether a silent step is a rest, an empty chord or a sustain of nothing. -/

namespace StepGrid.Proofs.GridNormalForm
open Score Voice ScoreMeaning ScoreTimes PianoRoll

inductive Mark where
  | struck (pitches : List Nat)
  | hold
  | silent
deriving DecidableEq, Repr

def isStruck : Step → Bool
  | .note _ => true
  | .chord _ => true
  | .rest => false
  | .sustain => false

def lastBefore? (steps : List PlacedStep) (index : Nat) : Option Step :=
  ((steps.take index).map (·.value)).reverse.find? (!·.isSustain)

def markAt (steps : List PlacedStep) (index : Nat) : Mark :=
  match stepAt steps index with
  | .note name => .struck ([name].filterMap Pitch.ofName?)
  | .chord names => .struck (names.filterMap Pitch.ofName?)
  | .sustain => if (lastBefore? steps index).any isStruck then .hold else .silent
  | .rest => .silent

theorem markAt_of_isStruck {steps : List PlacedStep} {index : Nat} (struck : isStruck (stepAt steps index) = true) :
    markAt steps index = .struck ((stepAt steps index).names.filterMap Pitch.ofName?) := by
  unfold markAt
  cases step : stepAt steps index with
  | note name => rfl
  | chord names => rfl
  | rest => rw [step] at struck; cases struck
  | sustain => rw [step] at struck; cases struck

theorem markAt_of_sustain {steps : List PlacedStep} {index : Nat} (sustained : stepAt steps index = .sustain) :
    markAt steps index = if (lastBefore? steps index).any isStruck then .hold else .silent := by
  rw [markAt, sustained]

theorem markAt_of_rest {steps : List PlacedStep} {index : Nat} (rests : stepAt steps index = .rest) :
    markAt steps index = .silent := by
  rw [markAt, rests]

theorem classify_ne_chord_nil (value : Json) : Step.classify value ≠ some (.chord []) := by
  intro classified
  cases value with
  | null | bool _ | number _ | object _ => cases classified
  | string text =>
    rw [Step.classify] at classified
    split at classified
    next => cases classified
    next => split at classified <;> cases classified
  | array items =>
    cases items with
    | nil => cases classified
    | cons item others =>
      obtain ⟨names, found, same⟩ := Option.map_eq_some_iff.mp classified
      cases same
      exact (GridChords.gathers_of_chordNames found).ne_nil (List.cons_ne_nil _ _) rfl

def Filled (steps : List PlacedStep) : Prop := ∀ placed ∈ steps, placed.value ≠ .chord []

private theorem filled_of_flatten {width : Nat} {matrix : Json} {steps : List PlacedStep}
    (flattened : Matrix.flatten width matrix = .ok steps) : Filled steps := by
  intro placed member same
  obtain ⟨index, found⟩ := List.mem_iff_getElem?.mp member
  obtain ⟨_, _, _, _, _, item, _, _, _, _, classified⟩ := GridPlaces.placed_of_flatten flattened found
  exact classify_ne_chord_nil item (same ▸ classified)

theorem stepAt_eq_getElem {steps : List PlacedStep} {index : Nat} (inside : index < steps.length) :
    stepAt steps index = steps[index].value := by
  rw [stepAt, List.getElem?_eq_getElem inside]
  rfl

theorem stepAt_of_length_le {steps : List PlacedStep} {index : Nat} (outside : steps.length ≤ index) :
    stepAt steps index = .rest := by
  rw [stepAt, List.getElem?_eq_none outside]
  rfl

/-- A filled step is struck exactly if it has names. -/
theorem Filled.isStruck_iff {steps : List PlacedStep} (filled : Filled steps) {placed : PlacedStep}
    (member : placed ∈ steps) : isStruck placed.value = true ↔ placed.value.names ≠ [] := by
  have nonempty := filled placed member
  cases step : placed.value with
  | rest | sustain | note _ => simp [isStruck, Step.names]
  | chord names =>
    have named : names ≠ [] := by
      rintro rfl
      exact nonempty step
    exact iff_of_true rfl named

theorem Filled.isStruck_stepAt_iff {steps : List PlacedStep} (filled : Filled steps) (index : Nat) :
    isStruck (stepAt steps index) = true ↔ (stepAt steps index).names ≠ [] := by
  by_cases inside : index < steps.length
  · rw [stepAt_eq_getElem inside]
    exact filled.isStruck_iff (List.getElem_mem inside)
  · rw [stepAt_of_length_le (Nat.le_of_not_lt inside)]
    exact iff_of_false nofun fun named => named rfl

theorem mem_of_lastBefore? {steps : List PlacedStep} {index : Nat} {step : Step}
    (found : lastBefore? steps index = some step) : ∃ placed ∈ steps, placed.value = step := by
  have member := List.mem_of_find?_eq_some found
  rw [List.mem_reverse, List.mem_map] at member
  obtain ⟨placed, taken, same⟩ := member
  exact ⟨placed, List.mem_of_mem_take taken, same⟩

theorem lastBefore?_succ {steps : List PlacedStep} {index : Nat} (inside : index < steps.length) :
    lastBefore? steps (index + 1) =
      if stepAt steps index = .sustain then lastBefore? steps index else some (stepAt steps index) := by
  rw [lastBefore?, List.take_succ_eq_append_getElem inside, List.map_append, List.reverse_append, List.map_singleton,
    List.reverse_singleton, List.singleton_append, List.find?_cons, stepAt_eq_getElem inside]
  cases kind : steps[index].value with
  | sustain => rfl
  | rest | note _ | chord _ => rfl

/-- During a step its nearest predecessor that is no sustain is heard, or itself. -/
theorem sounding_eq_lastBefore? {steps : List PlacedStep} {index : Nat} (inside : index < steps.length) :
    sounding steps index = (lastBefore? steps (index + 1)).elim [] (·.names.map Pitch.ofName?) := by
  induction index with
  | zero =>
    rw [lastBefore?_succ inside, sounding, follow_nil]
    split
    next sustained =>
      rw [sustained]
      rfl
    next => rfl
  | succ index ih =>
    rw [lastBefore?_succ inside, sounding_succ]
    split
    next sustained => rw [sustained, follow, ih (Nat.lt_of_succ_lt inside)]
    next struck =>
      rw [follow_of_ne_sustain struck, follow_nil]
      rfl

/-- The mark of a step told by the keys struck on it and those heard during it. -/
def markOf (onset sound : List (Option Nat)) : Mark :=
  if onset ≠ [] then .struck (onset.filterMap id) else if sound ≠ [] then .hold else .silent

theorem markAt_eq_markOf {steps : List PlacedStep} (filled : Filled steps) {index : Nat}
    (inside : index < steps.length) :
    markAt steps index = markOf ((stepAt steps index).names.map Pitch.ofName?) (sounding steps index) := by
  by_cases struck : isStruck (stepAt steps index) = true
  · have named := (filled.isStruck_stepAt_iff index).mp struck
    rw [markAt_of_isStruck struck, markOf, if_pos (by simpa using named), List.filterMap_map]
    rfl
  · have silent : (stepAt steps index).names = [] := by
      rwa [filled.isStruck_stepAt_iff, not_not] at struck
    rw [markOf, silent, if_neg (by simp), sounding_eq_lastBefore? inside, lastBefore?_succ inside]
    cases step : stepAt steps index with
    | note _ | chord _ =>
      rw [step] at struck
      exact absurd rfl struck
    | rest =>
      rw [markAt_of_rest step]
      rfl
    | sustain =>
      rw [markAt_of_sustain step, if_pos rfl]
      cases last : lastBefore? steps index with
      | none => rfl
      | some before =>
        obtain ⟨placed, member, rfl⟩ := mem_of_lastBefore? last
        have heard := filled.isStruck_iff member
        simp only [Option.any_some, Option.elim_some, heard, ne_eq, List.map_eq_nil_iff]

theorem markAt_of_length_le {steps : List PlacedStep} {index : Nat} (outside : steps.length ≤ index) :
    markAt steps index = .silent :=
  markAt_of_rest (stepAt_of_length_le outside)

private theorem sustain_of_hold {steps : List PlacedStep} {index : Nat} (held : markAt steps index = .hold) :
    stepAt steps index = .sustain := by
  unfold markAt at held
  cases step : stepAt steps index with
  | sustain => rfl
  | rest | note _ | chord _ => simp [step] at held

/-- Through a run of sustains the step before the run stays the nearest one. -/
theorem lastBefore?_of_run {steps : List PlacedStep} {index : Nat} (inside : index < steps.length)
    (struck : stepAt steps index ≠ .sustain) {count : Nat}
    (run : ∀ offset < count, stepAt steps (index + 1 + offset) = .sustain) :
    lastBefore? steps (index + 1 + count) = some (stepAt steps index) := by
  induction count with
  | zero => rw [Nat.add_zero, lastBefore?_succ inside, if_neg struck]
  | succ count ih =>
    have sustained := run count (Nat.lt_succ_self count)
    have insideToo : index + 1 + count < steps.length := by
      apply Nat.lt_of_not_le
      intro outside
      rw [stepAt_of_length_le outside] at sustained
      cases sustained
    rw [← Nat.add_assoc, lastBefore?_succ insideToo, if_pos sustained]
    exact ih fun offset before => run offset (Nat.lt_succ_of_lt before)

/-- A struck step is held through the marks that say so. -/
theorem lt_runAfter_iff {steps : List PlacedStep} {index : Nat} (inside : index < steps.length)
    (struck : isStruck (stepAt steps index) = true) (count : Nat) :
    count < runAfter steps index ↔ ∀ offset ≤ count, markAt steps (index + 1 + offset) = .hold := by
  have notSustain : stepAt steps index ≠ .sustain := by
    intro sustained
    rw [sustained] at struck
    cases struck
  rw [runAfter, lt_heldSteps_iff]
  simp only [stepAt_drop]
  constructor
  · intro run offset bound
    have soFar : ∀ earlier < offset, stepAt steps (index + 1 + earlier) = .sustain :=
      fun earlier less => run earlier (by omega)
    have before := lastBefore?_of_run inside notSustain soFar
    rw [markAt_of_sustain (run offset bound), before, Option.any_some, if_pos struck]
  · intro run offset bound
    exact sustain_of_hold (run offset bound)

theorem isStruck_of_markAt {steps : List PlacedStep} {index : Nat} {pitches : List Nat}
    (marked : markAt steps index = .struck pitches) : isStruck (stepAt steps index) = true := by
  cases step : stepAt steps index with
  | note _ | chord _ => rfl
  | rest =>
    rw [markAt_of_rest step] at marked
    cases marked
  | sustain =>
    rw [markAt_of_sustain step] at marked
    split at marked <;> cases marked

private theorem runAfter_congr {first second : List PlacedStep} (same : markAt first = markAt second) {index : Nat}
    (insideFirst : index < first.length) (insideSecond : index < second.length)
    (struck : isStruck (stepAt first index) = true) : runAfter first index = runAfter second index := by
  have struckToo : isStruck (stepAt second index) = true := by
    apply isStruck_of_markAt
    rw [← same]
    exact markAt_of_isStruck struck
  have bounds (count : Nat) : count < runAfter first index ↔ count < runAfter second index := by
    rw [lt_runAfter_iff insideFirst struck, lt_runAfter_iff insideSecond struckToo, same]
  exact Nat.le_antisymm (Nat.le_of_not_lt fun less => Nat.lt_irrefl _ ((bounds _).mp less))
    (Nat.le_of_not_lt fun less => Nat.lt_irrefl _ ((bounds _).mpr less))

def notesOfMark (voice : Voice) (place held : Nat) : Mark → List NoteEvent
  | .struck pitches => pitches.map (voice.event (place * voice.stepLength) (voice.stepLength * ((held + 1 : Nat) : Rat)))
  | .hold => []
  | .silent => []

theorem notesAt_eq_notesOfMark {voice : Voice} {steps : List PlacedStep} (aligned : Aligned voice 0 steps)
    (filled : Filled steps) (index : Nat) :
    (steps[index]?.elim [] fun placed => notesOf voice placed (runAfter steps index)) =
      notesOfMark voice index (runAfter steps index) (markAt steps index) := by
  by_cases inside : index < steps.length
  · have begins := aligned index steps[index] (List.getElem?_eq_getElem inside)
    rw [List.getElem?_eq_getElem inside, Option.elim_some]
    by_cases struck : isStruck (stepAt steps index) = true
    · rw [markAt_of_isStruck struck, notesOfMark, notesOf, begins, stepAt_eq_getElem inside, Nat.zero_add]
    · have silent : steps[index].value.names = [] := by
        rwa [filled.isStruck_stepAt_iff, not_not, stepAt_eq_getElem inside] at struck
      rw [notesOf_of_names_nil silent]
      cases marked : markAt steps index with
      | struck pitches => exact absurd (isStruck_of_markAt marked) struck
      | hold | silent => rfl
  · have outside := Nat.le_of_not_lt inside
    rw [List.getElem?_eq_none outside, markAt_of_length_le outside]
    rfl

/-- Rows of one length have equal notes exactly if they have equal marks. -/
theorem notes_eq_iff_markAt_eq {voice : Voice} {first second : List PlacedStep} (positive : 0 < voice.stepLength)
    (sameLength : first.length = second.length) (alignedFirst : Aligned voice 0 first)
    (alignedSecond : Aligned voice 0 second) (filledFirst : Filled first) (filledSecond : Filled second)
    (knownFirst : firstUnknown? first = none) (knownSecond : firstUnknown? second = none) :
    notes voice first = notes voice second ↔ markAt first = markAt second := by
  constructor
  · intro same
    funext index
    by_cases inside : index < first.length
    · have insideSecond : index < second.length := sameLength ▸ inside
      have onset := @filter_onset voice 0 first index positive alignedFirst knownFirst
      rw [same, filter_onset positive alignedSecond knownSecond] at onset
      have reached : (0 + index : Nat) * voice.stepLength ≤ (0 + index : Nat) * voice.stepLength := le_refl _
      have before : (0 + index : Nat) * voice.stepLength < (0 + index + 1 : Nat) * voice.stepLength :=
        mul_lt_mul_of_pos_right (by exact_mod_cast Nat.lt_succ_self _) positive
      have sound := filter_sounding positive alignedFirst knownFirst inside reached before
      rw [same, filter_sounding positive alignedSecond knownSecond insideSecond reached before] at sound
      rw [markAt_eq_markOf filledFirst inside, markAt_eq_markOf filledSecond insideSecond, onset, sound]
    · have outside := Nat.le_of_not_lt inside
      rw [markAt_of_length_le outside, markAt_of_length_le (sameLength ▸ outside)]
  · intro same
    rw [notes_eq_flatMap, notes_eq_flatMap, sameLength]
    refine List.flatMap_congr fun index member => ?_
    have insideSecond := List.mem_range.mp member
    have inside : index < first.length := sameLength ▸ insideSecond
    rw [notesAt_eq_notesOfMark alignedFirst filledFirst, notesAt_eq_notesOfMark alignedSecond filledSecond, ← same]
    cases marked : markAt first index with
    | struck pitches => rw [runAfter_congr same inside insideSecond (isStruck_of_markAt marked)]
    | hold | silent => rfl

/-- Two matrices of as many bars have the same notes exactly if their steps have the same
normal form one by one. -/
theorem compileMatrix_eq_iff_marks {first second : List Json} {settings : Settings}
    {firstEvents secondEvents : List NoteEvent} (sameBars : first.length = second.length)
    (compiledFirst : compileMatrix (.array first) settings = .ok firstEvents)
    (compiledSecond : compileMatrix (.array second) settings = .ok secondEvents) :
    ∃ firstSteps secondSteps, Matrix.flatten settings.stepsPerBar (.array first) = .ok firstSteps ∧
      Matrix.flatten settings.stepsPerBar (.array second) = .ok secondSteps ∧
      (firstEvents = secondEvents ↔
        ∀ index < first.length * settings.stepsPerBar, markAt firstSteps index = markAt secondSteps index) := by
  obtain ⟨firstSteps, flattenedFirst, playedFirst⟩ := compileMatrix_eq_ok.mp compiledFirst
  obtain ⟨secondSteps, flattenedSecond, playedSecond⟩ := compileMatrix_eq_ok.mp compiledSecond
  obtain ⟨nonempty, knownFirst, rfl⟩ := compile_eq_ok playedFirst
  obtain ⟨_, knownSecond, rfl⟩ := compile_eq_ok playedSecond
  have positive : (0 : Rat) < 4 / settings.stepsPerBar := div_pos (by norm_num) (by exact_mod_cast nonempty)
  have lengthFirst := GridRow.length_of_flatten flattenedFirst
  have lengthSecond := GridRow.length_of_flatten flattenedSecond
  have sameLength : firstSteps.length = secondSteps.length := by rw [lengthFirst, lengthSecond, sameBars]
  refine ⟨firstSteps, secondSteps, flattenedFirst, flattenedSecond, ?_⟩
  rw [notes_eq_iff_markAt_eq positive sameLength (aligned_of_flatten flattenedFirst _ _)
    (aligned_of_flatten flattenedSecond _ _) (filled_of_flatten flattenedFirst) (filled_of_flatten flattenedSecond)
    knownFirst knownSecond, ← lengthFirst]
  constructor
  · intro same index _
    rw [same]
  · intro same
    funext index
    by_cases inside : index < firstSteps.length
    · exact same index inside
    · have outside := Nat.le_of_not_lt inside
      rw [markAt_of_length_le outside, markAt_of_length_le (sameLength ▸ outside)]

/-- Two bars with a sustain of nothing, an empty chord and keys that have two spellings. -/
def spelled : List Json :=
  [.array [.string "-", .string "A#3", .string "-", .array []],
    .array [.string "-", .array [.string "E4", .string "Ab3"], .string "-", .string "."]]

def respelled : List Json :=
  [.array [.string ".", .string "Bb3", .string "-", .string "."],
    .array [.array [], .array [.string "E4", .string "G#3"], .string "-", .array []]]

def restruck : List Json :=
  [.array [.string ".", .string "Bb3", .string "Bb3", .string "."],
    .array [.array [], .array [.string "E4", .string "G#3"], .string "-", .array []]]

theorem compileMatrix_respelled :
    ∃ events otherEvents, compileMatrix (.array spelled) {} = .ok events ∧
      compileMatrix (.array respelled) {} = .ok events ∧ compileMatrix (.array restruck) {} = .ok otherEvents ∧
      events ≠ otherEvents := by
  have made : ofGrid 4 0 100 = .ok ⟨4 / (4 : Nat), 0, clampVelocity 100⟩ :=
    ofGrid_eq_ok.mpr ⟨⟨by decide, by decide, by decide⟩, rfl⟩
  have compiled (bars : List Json) {steps : List PlacedStep} (flattened : Matrix.flatten 4 (.array bars) = .ok steps)
      (known : firstUnknown? steps = none) :
      compileMatrix (.array bars) {} = .ok (notes ⟨4 / (4 : Nat), 0, clampVelocity 100⟩ steps) := by
    refine compileMatrix_eq_ok.mpr ⟨steps, flattened, ?_⟩
    have played := compile_eq_perform made steps
    rwa [known] at played
  have first := compiled spelled rfl (by decide +kernel)
  have second := compiled respelled rfl (by decide +kernel)
  have other := compiled restruck rfl (by decide +kernel)
  have twoBars : spelled.length = respelled.length := rfl
  have twoBarsToo : respelled.length = restruck.length := rfl
  obtain ⟨_, _, ⟨⟩, ⟨⟩, same⟩ := compileMatrix_eq_iff_marks twoBars first second
  obtain ⟨_, _, ⟨⟩, ⟨⟩, different⟩ := compileMatrix_eq_iff_marks twoBarsToo second other
  have equal := same.mpr (by decide +kernel)
  refine ⟨_, _, first, ?_, other, fun equalToo => ?_⟩
  · rw [equal]
    exact second
  · exact absurd (different.mp (equal.symm.trans equalToo) 2 (by decide)) (by decide +kernel)

end StepGrid.Proofs.GridNormalForm
