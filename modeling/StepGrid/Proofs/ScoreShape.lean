import StepGrid.Proofs.MidiWritable

/-! What the settings of a song leave alone. The grid alone has a say in which keys sound, when
they start and how long they last, and in what can go wrong. Title and tempo change nothing in
the notes; channel and velocity are the same for all of them and are those of the settings. -/

namespace StepGrid.Proofs.ScoreShape
open Score Voice ScoreMeaning ScoreOrder MidiWritable SettingsChecks

/-- Two notes of which at most the channels and the velocities differ. -/
structure SameShape (one other : NoteEvent) : Prop where
  track : one.track = other.track
  pitch : one.pitch = other.pitch
  start : one.start = other.start
  duration : one.duration = other.duration

def Voiced (settings : Settings) (events : List NoteEvent) : Prop :=
  ∀ event ∈ events, event.channel = settings.channel ∧ event.velocity = settings.velocity

/-- The same failure twice, or notes of the same shape, each with their own settings. -/
inductive Alike (one other : Settings) : Except Error (List NoteEvent) → Except Error (List NoteEvent) → Prop where
  | failed (error : Error) : Alike one other (.error error) (.error error)
  | played {first second : List NoteEvent} (shape : List.Forall₂ SameShape first second) (voicedFirst : Voiced one first)
      (voicedSecond : Voiced other second) : Alike one other (.ok first) (.ok second)

private theorem notesOf_sameShape {one other : Voice} (sameLength : one.stepLength = other.stepLength)
    (placed : PlacedStep)
    (held : Nat) : List.Forall₂ SameShape (notesOf one placed held) (notesOf other placed held) := by
  have sameStart : one.start placed = other.start placed := by rw [Voice.start, Voice.start, sameLength]
  refine List.forall₂_map_left_iff.mpr (List.forall₂_map_right_iff.mpr (List.forall₂_same.mpr fun pitch _ => ?_))
  exact ⟨rfl, rfl, sameStart, congrArg (· * _) sameLength⟩

/-- Two voices with steps of one length play notes of the same shape. -/
theorem notes_sameShape {one other : Voice} (sameLength : one.stepLength = other.stepLength)
    (steps : List PlacedStep) :
    List.Forall₂ SameShape (notes one steps) (notes other steps) := by
  induction steps with
  | nil => exact .nil
  | cons placed after ih => exact List.rel_append (notesOf_sameShape sameLength placed _) ih

/-- A resolved velocity is in range already, so that clamping it once more leaves it as it is. -/
theorem clampVelocity_of_resolve {layer : Settings.Layer} {settings : Settings}
    (resolved : Settings.resolve layer = .ok settings) : clampVelocity settings.velocity = settings.velocity := by
  obtain ⟨_, _, _, _, velocity⟩ := resolve_eq_ok.mp resolved
  rw [velocity]
  cases layer.velocity with
  | none => rfl
  | some given =>
    obtain ⟨loud, soft⟩ := clampVelocity_range given
    rw [Option.elim_some]
    generalize clampVelocity given = clamped at loud soft
    unfold clampVelocity
    omega

private theorem voiced_notes {settings : Settings} (steady : clampVelocity settings.velocity = settings.velocity)
    (stepLength : Rat)
    (steps : List PlacedStep) : Voiced settings (notes ⟨stepLength, settings.channel, clampVelocity settings.velocity⟩ steps) := by
  intro event member
  obtain ⟨_, _, channel, velocity⟩ := fields_of_mem_notes member
  exact ⟨channel, velocity.trans steady⟩

section TwoRuns
variable {firstLayer secondLayer : Settings.Layer} {one other : Settings}
  (firstResolved : Settings.resolve firstLayer = .ok one) (secondResolved : Settings.resolve secondLayer = .ok other)
  (sameGrid : one.stepsPerBar = other.stepsPerBar)
include firstResolved secondResolved sameGrid

private theorem compile_alike (steps : List PlacedStep) :
    Alike one other (compile steps one.stepsPerBar one.channel one.velocity)
      (compile steps other.stepsPerBar other.channel other.velocity) := by
  have lowOne := (inRange_of_resolve firstResolved).channel
  have lowOther := (inRange_of_resolve secondResolved).channel
  rw [← sameGrid]
  by_cases grid : 1 ≤ one.stepsPerBar ∧ one.stepsPerBar < 2 ^ 63
  · rw [compile_eq_perform (ofGrid_eq_ok.mpr ⟨⟨grid.1, grid.2, lowOne⟩, rfl⟩),
      compile_eq_perform (ofGrid_eq_ok.mpr ⟨⟨grid.1, grid.2, lowOther⟩, rfl⟩)]
    cases firstUnknown? steps with
    | some name => exact .failed _
    | none =>
      refine .played (notes_sameShape ?_ steps) (voiced_notes (clampVelocity_of_resolve firstResolved) _ steps)
        (voiced_notes (clampVelocity_of_resolve secondResolved) _ steps)
      rfl
  · -- Without steps the grid is refused before the channel is looked at.
    have refused (channel : Nat) (velocity : Int) :
        compile steps one.stepsPerBar channel velocity = .error (.stepsPerBar one.stepsPerBar) := by
      rw [compile, performGrid, ofGrid, if_pos (by omega)]
    rw [refused, refused]
    exact .failed _

private theorem compileMatrix_alike (matrix : Json) :
    Alike one other (compileMatrix matrix one) (compileMatrix matrix other) := by
  rw [compileMatrix_eq_bind, compileMatrix_eq_bind, ← sameGrid]
  cases Matrix.flatten one.stepsPerBar matrix with
  | error error => exact .failed error
  | ok steps =>
    have alike := compile_alike firstResolved secondResolved sameGrid steps
    rwa [← sameGrid] at alike

end TwoRuns

/-- Two settings of one source with the same grid make notes of the same shape, each with the
channel and the velocity of its settings, or fail alike. -/
theorem compileWith_sameShape {text : List Char} {source : Source} {first second : Settings.Layer}
    {one other : Settings}
    (read : Source.read text = .ok source)
    (firstResolved : Settings.resolve (source.settings.merge first) = .ok one)
    (secondResolved : Settings.resolve (source.settings.merge second) = .ok other)
    (sameGrid : one.stepsPerBar = other.stepsPerBar) :
    (∃ error, Pipeline.compileWith text first = .error error ∧ Pipeline.compileWith text second = .error error) ∨
    ∃ firstEvents secondEvents, Pipeline.compileWith text first = .ok ⟨firstEvents, one⟩ ∧
      Pipeline.compileWith text second = .ok ⟨secondEvents, other⟩ ∧ List.Forall₂ SameShape firstEvents secondEvents ∧
      Voiced one firstEvents ∧ Voiced other secondEvents := by
  have compiledBy {overrides : Settings.Layer} {settings : Settings}
      (resolved : Settings.resolve (source.settings.merge overrides) = .ok settings) :
      Pipeline.compileWith text overrides = (compileMatrix source.matrix settings).map (⟨·, settings⟩) := by
    rw [Pipeline.compileWith, read]
    change (Settings.resolve _ >>= _) = _
    rw [resolved]
    change (compileMatrix source.matrix settings >>= _) = _
    cases compileMatrix source.matrix settings <;> rfl
  rw [compiledBy firstResolved, compiledBy secondResolved]
  have alike := compileMatrix_alike firstResolved secondResolved sameGrid source.matrix
  generalize compileMatrix source.matrix one = firstOutcome at alike
  generalize compileMatrix source.matrix other = secondOutcome at alike
  cases alike with
  | failed error => exact .inl ⟨error, rfl, rfl⟩
  | played shape voicedFirst voicedSecond => exact .inr ⟨_, _, rfl, rfl, shape, voicedFirst, voicedSecond⟩

def waltz : List Char := "---\nsteps-per-bar: 3\n---\n[[\"C4\", \"-\", \"E4\"]]".toList

/-- Once it is loud and slow, once soft and on another channel. -/
theorem compileWith_sameShape_waltz :
    ∃ soft, Pipeline.compileWith waltz { tempo := some 60, velocity := some 300 } =
        .ok ⟨[⟨0, 0, 60, 127, 0, 8 / 3⟩, ⟨0, 0, 64, 127, 8 / 3, 4 / 3⟩], { tempo := 60, stepsPerBar := 3, velocity := 127 }⟩ ∧
      Pipeline.compileWith waltz { velocity := some (-5), channel := some 9 } =
        .ok ⟨soft, { stepsPerBar := 3, velocity := 1, channel := 9 }⟩ ∧
      List.Forall₂ SameShape [⟨0, 0, 60, 127, 0, 8 / 3⟩, ⟨0, 0, 64, 127, 8 / 3, 4 / 3⟩] soft := by
  have read : Source.read waltz =
      .ok ⟨{ stepsPerBar := some 3 }, .array [.array [.string "C4", .string "-", .string "E4"]]⟩ := by cbv
  have loudly : Settings.resolve (Settings.Layer.merge { stepsPerBar := some 3 } { tempo := some 60, velocity := some 300 }) =
      .ok { tempo := 60, stepsPerBar := 3, velocity := 127 } := rfl
  have softly : Settings.resolve (Settings.Layer.merge { stepsPerBar := some 3 } { velocity := some (-5), channel := some 9 }) =
      .ok { stepsPerBar := 3, velocity := 1, channel := 9 } := rfl
  have loud : Pipeline.compileWith waltz { tempo := some 60, velocity := some 300 } =
      .ok ⟨[⟨0, 0, 60, 127, 0, 8 / 3⟩, ⟨0, 0, 64, 127, 8 / 3, 4 / 3⟩], { tempo := 60, stepsPerBar := 3, velocity := 127 }⟩ :=
    compileWith_eq_ok.mpr ⟨_, read, loudly, by cbv⟩
  rcases compileWith_sameShape read loudly softly rfl with ⟨error, failed, _⟩ | ⟨_, soft, first, second, shape, _⟩
  · cases failed.symm.trans loud
  · cases first.symm.trans loud
    exact ⟨soft, loud, second, shape⟩

end StepGrid.Proofs.ScoreShape
