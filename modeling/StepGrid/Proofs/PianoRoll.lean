import StepGrid.Proofs.ScoreTimes

/-! A compiled matrix as a piano roll: what sounds during a step. A struck step changes
the sound, a rest ends it, and a sustain leaves it as it is. Compiled notes sound exactly
so, although each of them has its whole length from the start. -/

namespace StepGrid.Proofs.PianoRoll
open Score Voice ScoreMeaning ScoreTimes

def follow (earlier : List (Option Nat)) : Step → List (Option Nat)
  | .rest => []
  | .sustain => earlier
  | .note name => [Pitch.ofName? name]
  | .chord names => names.map Pitch.ofName?

/-- The sound of the step at a place. Before the first step there is none. -/
def sounding (steps : List PlacedStep) : Nat → List (Option Nat)
  | 0 => follow [] (stepAt steps 0)
  | index + 1 => follow (sounding steps index) (stepAt steps (index + 1))

theorem sounding_succ (steps : List PlacedStep) (index : Nat) :
    sounding steps (index + 1) = follow (sounding steps index) (stepAt steps (index + 1)) := rfl

theorem follow_nil (step : Step) : follow [] step = step.names.map Pitch.ofName? := by
  cases step <;> rfl

theorem follow_of_ne_sustain {step : Step} (struck : step ≠ .sustain) (earlier : List (Option Nat)) :
    follow earlier step = follow [] step := by
  cases step with
  | sustain => exact absurd rfl struck
  | rest | note _ | chord _ => rfl

theorem zero_lt_heldSteps_iff (steps : List PlacedStep) : 0 < heldSteps steps ↔ stepAt steps 0 = .sustain := by
  rw [lt_heldSteps_iff]
  simp

theorem succ_lt_heldSteps_iff (steps : List PlacedStep) (index : Nat) :
    index + 1 < heldSteps steps ↔ index < heldSteps steps ∧ stepAt steps (index + 1) = .sustain := by
  simp only [lt_heldSteps_iff]
  constructor
  · intro all
    exact ⟨fun earlier bound => all earlier (by omega), all _ (Nat.le_refl _)⟩
  · rintro ⟨all, last⟩ earlier bound
    rcases Nat.lt_or_eq_of_le bound with inside | rfl
    · exact all earlier (by omega)
    · exact last

private theorem sounding_of_lt_heldSteps {steps : List PlacedStep} {index : Nat} (held : index < heldSteps steps) :
    sounding steps index = [] := by
  induction index with
  | zero => rw [sounding, (zero_lt_heldSteps_iff steps).mp held, follow]
  | succ index ih =>
    obtain ⟨before, sustained⟩ := (succ_lt_heldSteps_iff steps index).mp held
    rw [sounding, sustained, follow, ih before]

/-- The first step of a row sounds through the run of sustains after it. From the end
of that run on the row sounds as if it had no first step. -/
theorem sounding_cons_succ (placed : PlacedStep) (after : List PlacedStep) (index : Nat) :
    sounding (placed :: after) (index + 1) =
      if index < heldSteps after then follow [] placed.value else sounding after index := by
  induction index with
  | zero =>
    rw [sounding_succ, stepAt_cons_succ]
    by_cases sustained : stepAt after 0 = .sustain
    · rw [if_pos ((zero_lt_heldSteps_iff after).mpr sustained), sustained]
      rfl
    · rw [if_neg ((zero_lt_heldSteps_iff after).not.mpr sustained), follow_of_ne_sustain sustained, sounding]
  | succ index ih =>
    rw [sounding_succ, stepAt_cons_succ, ih, sounding_succ]
    by_cases sustained : stepAt after (index + 1) = .sustain
    · simp only [succ_lt_heldSteps_iff, sustained, follow, and_true]
    · have ended : ¬ index + 1 < heldSteps after := fun held => sustained ((succ_lt_heldSteps_iff after index).mp held).2
      rw [if_neg ended, follow_of_ne_sustain sustained, follow_of_ne_sustain sustained (sounding after index)]

section Slot
variable {length time : Rat} {slot : Nat}

/-- A time within a step is at or after the starts of all steps up to this one. -/
theorem start_le_iff (positive : 0 < length) (reached : slot * length ≤ time)
    (inside : time < (slot + 1 : Nat) * length) (place : Nat) : place * length ≤ time ↔ place ≤ slot := by
  constructor
  · intro earlier
    have less : (place : Rat) * length < (slot + 1 : Nat) * length := lt_of_le_of_lt earlier inside
    exact Nat.lt_succ_iff.mp (by exact_mod_cast lt_of_mul_lt_mul_right less positive.le)
  · intro earlier
    have le : (place : Rat) ≤ slot := by exact_mod_cast earlier
    exact le_trans (mul_le_mul_of_nonneg_right le positive.le) reached

end Slot

/-- A test of the times of notes takes all notes of a step or none. -/
theorem filter_notesOf {voice : Voice} {placed : PlacedStep} {held : Nat} {test : NoteEvent → Bool} {kept : Prop}
    [Decidable kept] (same : ∀ event ∈ notesOf voice placed held, test event = true ↔ kept) :
    (notesOf voice placed held).filter test = if kept then notesOf voice placed held else [] := by
  split
  next taken => exact List.filter_eq_self.mpr fun event member => (same event member).mpr taken
  next left =>
    refine List.filter_eq_nil_iff.mpr fun event member passed => ?_
    exact left ((same event member).mp passed)

theorem map_pitch_notesOf {voice : Voice} {placed : PlacedStep} {held : Nat}
    (known : unknown? placed.value.names = none) :
    (notesOf voice placed held).map (some ·.pitch) = placed.value.names.map Pitch.ofName? := by
  rw [notesOf, List.map_map, ← map_some_filterMap known]
  rfl

private theorem le_start {voice : Voice} {first : Nat} {steps : List PlacedStep} {event : NoteEvent}
    (positive : 0 < voice.stepLength) (aligned : Aligned voice first steps) (member : event ∈ notes voice steps) :
    first * voice.stepLength ≤ event.start := by
  obtain ⟨index, _, _, start, _⟩ := times_of_mem_notes aligned member
  rw [start]
  exact mul_le_mul_of_nonneg_right (by exact_mod_cast Nat.le_add_right first index) positive.le

/-- During a step exactly its sound is heard. The induction is on the row: the notes of
its first step are heard through their run, and then only the rest of the row is. -/
theorem filter_sounding {voice : Voice} {first : Nat} {steps : List PlacedStep} {index : Nat} {time : Rat}
    (positive : 0 < voice.stepLength) (aligned : Aligned voice first steps) (known : firstUnknown? steps = none)
    (inside : index < steps.length) (reached : (first + index : Nat) * voice.stepLength ≤ time)
    (before : time < (first + index + 1 : Nat) * voice.stepLength) :
    ((notes voice steps).filter fun event => event.start ≤ time ∧ time < event.start + event.duration).map (some ·.pitch) =
      sounding steps index := by
  induction steps generalizing first index with
  | nil => exact absurd inside (Nat.not_lt_zero _)
  | cons placed after ih =>
    obtain ⟨knownHead, knownTail⟩ := known_cons known
    have startLe := start_le_iff positive reached before
    have head : ((notesOf voice placed (heldSteps after)).filter
        fun event => event.start ≤ time ∧ time < event.start + event.duration) =
          if index < heldSteps after + 1 then notesOf voice placed (heldSteps after) else [] := by
      apply filter_notesOf
      intro event member
      have start := (times_of_mem_notesOf member).1
      have finish := finish_of_mem_notesOf aligned.head member
      rw [decide_eq_true_iff, ← NoteEvent.finish, finish, start, aligned.head, startLe, ← not_le, startLe]
      omega
    rw [notes, List.filter_append, List.map_append, head]
    cases index with
    | zero =>
      have later : (notes voice after).filter
          (fun event => event.start ≤ time ∧ time < event.start + event.duration) = [] := by
        refine List.filter_eq_nil_iff.mpr fun event member heard => ?_
        have begins := le_start positive aligned.tail member
        have started := (decide_eq_true_iff.mp heard).1
        have := (startLe (first + 1)).mp (le_trans begins started)
        omega
      rw [later, if_pos (Nat.succ_pos _), map_pitch_notesOf knownHead, sounding, follow_nil]
      simp [stepAt]
    | succ index =>
      have tail := ih aligned.tail knownTail (by simpa using inside)
        (by rwa [Nat.add_right_comm, Nat.add_assoc]) (by rwa [Nat.add_right_comm first, Nat.add_assoc first])
      simp only [tail, sounding_cons_succ, Nat.succ_lt_succ_iff]
      split
      next held => rw [map_pitch_notesOf knownHead, sounding_of_lt_heldSteps held, follow_nil, List.append_nil]
      next => rfl

theorem filter_onset {voice : Voice} {first : Nat} {steps : List PlacedStep} {index : Nat}
    (positive : 0 < voice.stepLength) (aligned : Aligned voice first steps) (known : firstUnknown? steps = none) :
    ((notes voice steps).filter fun event => event.start = (first + index : Nat) * voice.stepLength).map (some ·.pitch) =
      (stepAt steps index).names.map Pitch.ofName? := by
  induction steps generalizing first index with
  | nil => rfl
  | cons placed after ih =>
    obtain ⟨knownHead, knownTail⟩ := known_cons known
    have head : ((notesOf voice placed (heldSteps after)).filter
        fun event => event.start = (first + index : Nat) * voice.stepLength) =
          if index = 0 then notesOf voice placed (heldSteps after) else [] := by
      apply filter_notesOf
      intro event member
      rw [decide_eq_true_iff, (times_of_mem_notesOf member).1, aligned.head, mul_left_inj' positive.ne', Nat.cast_inj]
      omega
    rw [notes, List.filter_append, List.map_append, head]
    cases index with
    | zero =>
      have later : (notes voice after).filter (fun event => event.start = (first + 0 : Nat) * voice.stepLength) = [] := by
        refine List.filter_eq_nil_iff.mpr fun event member same => ?_
        have begins := le_start positive aligned.tail member
        rw [decide_eq_true_iff.mp same] at begins
        have : first + 1 ≤ first + 0 := by exact_mod_cast le_of_mul_le_mul_right begins positive
        omega
      rw [later, if_pos rfl, map_pitch_notesOf knownHead, List.map_nil, List.append_nil]
      simp [stepAt]
    | succ index =>
      rw [if_neg (Nat.succ_ne_zero _), List.map_nil, List.nil_append, stepAt_cons_succ]
      rw [show first + (index + 1) = first + 1 + index by omega]
      exact ih aligned.tail knownTail

/-- Notes that are heard as their steps tell, in steps of a bar of four beats. -/
structure Plays (steps : List PlacedStep) (stepsPerBar : Nat) (events : List NoteEvent) : Prop where
  sounds : ∀ index < steps.length, ∀ time : Rat,
    4 * index / stepsPerBar ≤ time → time < 4 * (index + 1) / stepsPerBar →
    (events.filter fun event => event.start ≤ time ∧ time < event.start + event.duration).map (some ·.pitch) =
      sounding steps index
  onsets : ∀ index < steps.length,
    (events.filter fun event => event.start = (4 * index / stepsPerBar : Rat)).map (some ·.pitch) =
      (stepAt steps index).names.map Pitch.ofName?
  onGrid : ∀ event ∈ events, (∃ place ≤ steps.length, event.start = 4 * place / stepsPerBar) ∧
    ∃ place ≤ steps.length, event.start + event.duration = 4 * place / stepsPerBar

/-- A compiled matrix is heard step by step, at all times and on every grid. -/
theorem compile_plays {matrix : Json} {stepsPerBar channel : Nat} {velocity : Int} {steps : List PlacedStep}
    {events : List NoteEvent} (flattened : Matrix.flatten stepsPerBar matrix = .ok steps)
    (compiled : compile steps stepsPerBar channel velocity = .ok events) : Plays steps stepsPerBar events := by
  obtain ⟨nonempty, known, rfl⟩ := compile_eq_ok compiled
  have positive : (0 : Rat) < 4 / stepsPerBar := div_pos (by norm_num) (by exact_mod_cast nonempty)
  have aligned := aligned_of_flatten flattened channel (clampVelocity velocity)
  have onPlace (place : Nat) : (4 * place / stepsPerBar : Rat) = (0 + place : Nat) * (4 / stepsPerBar) := by
    rw [Nat.zero_add]
    ring
  constructor
  · intro index inside time reached before
    rw [onPlace] at reached
    rw [← Nat.cast_succ, onPlace] at before
    exact filter_sounding positive aligned known inside reached before
  · intro index inside
    rw [onPlace]
    exact filter_onset positive aligned known
  · intro event member
    obtain ⟨index, inside, _, start, finish⟩ := times_of_mem_notes aligned member
    refine ⟨⟨index, inside.le, ?_⟩, ⟨index + 1 + runAfter steps index, runAfter_le inside, ?_⟩⟩
    · rw [start, onPlace]
    · rw [← NoteEvent.finish, finish, onPlace, Nat.zero_add, Nat.zero_add]

/-- A note held over a bar line on a grid of three, and a chord after it. -/
theorem compile_plays_held_note :
    ∃ steps events, Matrix.flatten 3 (.array [.array [.string "-", .string ".", .string "C4"],
        .array [.string "-", .array [.string "E4", .string "Ab3"], .string "-"]]) = .ok steps ∧
      compile steps 3 0 100 = .ok events ∧ events.length = 3 ∧
      (events.filter fun event => event.start ≤ 5 ∧ 5 < event.start + event.duration).map (some ·.pitch) = [some 60] ∧
      (events.filter fun event => event.start = (4 * (4 : Nat) / (3 : Nat) : Rat)).map (some ·.pitch) = [some 64, some 56] := by
  have flattened : Matrix.flatten 3 (.array [.array [.string "-", .string ".", .string "C4"],
      .array [.string "-", .array [.string "E4", .string "Ab3"], .string "-"]]) = .ok
        [⟨0, 0, .sustain⟩, ⟨0, 1, .rest⟩, ⟨0, 2, .note "C4"⟩,
          ⟨1, 0, .sustain⟩, ⟨1, 1, .chord ["E4", "Ab3"]⟩, ⟨1, 2, .sustain⟩] := rfl
  have compiled := compile_eq_perform (ofGrid_eq_ok.mpr ⟨⟨by decide, by decide, by decide⟩, rfl⟩ :
    ofGrid 3 0 100 = .ok ⟨4 / (3 : Nat), 0, clampVelocity 100⟩)
      [⟨0, 0, .sustain⟩, ⟨0, 1, .rest⟩, ⟨0, 2, .note "C4"⟩,
        ⟨1, 0, .sustain⟩, ⟨1, 1, .chord ["E4", "Ab3"]⟩, ⟨1, 2, .sustain⟩]
  have plays := compile_plays flattened compiled
  refine ⟨_, _, flattened, compiled, rfl, ?_, ?_⟩
  · exact (plays.sounds 3 (by decide) 5 (by norm_num) (by norm_num)).trans (by decide +kernel)
  · exact (plays.onsets 4 (by decide)).trans (by decide +kernel)

end StepGrid.Proofs.PianoRoll
