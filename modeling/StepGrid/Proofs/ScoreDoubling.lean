import StepGrid.Proofs.GridChords
import StepGrid.Proofs.GridVerdicts
import StepGrid.Proofs.ScoreOrder

/-! Notes of one key. A step ends before the next one is struck, so no later step starts a
key that still sounds. A chord drops the names that it has already, but a key has many
names, and each of them that stands in the chord sounds it. -/

namespace StepGrid.Proofs.ScoreDoubling
open Score Voice ScoreMeaning ScoreTimes GridChords GridVerdicts

private theorem names_of_classify {value : Json} {step : Step} (classified : Step.classify value = some step) :
    step.names.length ≤ 1 ∨ ∃ items, value = .array items ∧ Gathers items step.names := by
  cases value with
  | null | bool _ | number _ | object _ => cases classified
  | string text =>
    left
    rw [Step.classify] at classified
    split at classified
    next =>
      cases classified
      exact Nat.zero_le 1
    next =>
      split at classified
      next =>
        cases classified
        exact Nat.zero_le 1
      next =>
        cases classified
        exact Nat.le_refl 1
  | array items =>
    cases items with
    | nil =>
      cases classified
      exact .inl (Nat.zero_le 1)
    | cons item others =>
      obtain ⟨names, found, rfl⟩ := Option.map_eq_some_iff.mp classified
      exact .inr ⟨_, rfl, gathers_of_chordNames found⟩

def Clear (one other : NoteEvent) : Prop := one.finish ≤ other.start ∨ other.finish ≤ one.start

/-- Two notes that start and end together, of one key that a chord lists under two names. -/
structure Respelled (bars : List Json) (stepsPerBar : Nat) (one other : NoteEvent) : Prop where
  start : one.start = other.start
  duration : one.duration = other.duration
  chord : ∃ bar step items first second, At bars bar step (.array items) ∧
    one.start = 4 * bar + step * (4 / stepsPerBar) ∧ .string first ∈ items ∧ .string second ∈ items ∧
    first ≠ second ∧ Pitch.ofName? first = some one.pitch ∧ Pitch.ofName? second = some other.pitch

/-- Notes of one key are apart in time, or doubled by a chord. -/
def Apart (bars : List Json) (stepsPerBar : Nat) (one other : NoteEvent) : Prop :=
  one.pitch = other.pitch → Clear one other ∨ Respelled bars stepsPerBar one other

theorem Respelled.symm {bars : List Json} {stepsPerBar : Nat} {one other : NoteEvent}
    (doubled : Respelled bars stepsPerBar one other) : Respelled bars stepsPerBar other one := by
  obtain ⟨start, duration, bar, step, items, first, second, found, place, firstMember, secondMember, different, firstKey,
    secondKey⟩ := doubled
  exact ⟨start.symm, duration.symm, bar, step, items, second, first, found, start.symm.trans place, secondMember,
    firstMember, different.symm, secondKey, firstKey⟩

theorem Apart.symm {bars : List Json} {stepsPerBar : Nat} {one other : NoteEvent}
    (apart : Apart bars stepsPerBar one other) : Apart bars stepsPerBar other one :=
  fun same => (apart same.symm).imp Or.symm Respelled.symm

private theorem disjoint_of_clear {one other : NoteEvent} (clear : Clear one other) :
    Disjoint (Set.Ico one.start one.finish) (Set.Ico other.start other.finish) := by
  refine Set.disjoint_left.mpr ?_
  rintro time ⟨oneStarted, oneSounds⟩ ⟨otherStarted, otherSounds⟩
  rcases clear with before | after
  · exact absurd (oneSounds.trans_le before) otherStarted.not_gt
  · exact absurd (otherSounds.trans_le after) oneStarted.not_gt

/-- Two notes of a step have two of its names, and only a chord has so many. -/
theorem notesOf_apart {stepsPerBar channel velocity : Nat} {bars : List Json} {steps : List PlacedStep}
    (flattened : Matrix.flatten stepsPerBar (.array bars) = .ok steps) {placed : PlacedStep} (member : placed ∈ steps)
    (held : Nat) : (notesOf ⟨4 / stepsPerBar, channel, velocity⟩ placed held).Pairwise (Apart bars stepsPerBar) := by
  obtain ⟨index, found⟩ := List.mem_iff_getElem?.mp member
  obtain ⟨barPlace, stepPlace, _, _, row, item, same, bar, items, value, classified⟩ := GridPlaces.placed_of_flatten flattened found
  cases same
  rcases names_of_classify classified with short | ⟨listed, rfl, gathers⟩
  · refine List.pairwise_iff_getElem.mpr fun i j _ inside before => ?_
    rw [notesOf, List.length_map] at inside
    have count := List.length_filterMap_le Pitch.ofName? placed.value.names
    omega
  · refine List.pairwise_map.mpr (List.pairwise_filterMap.mpr (gathers.nodup.imp_of_mem ?_))
    intro first second firstMember secondMember different firstKey firstFound secondKey secondFound _
    refine .inr ⟨rfl, rfl, index / stepsPerBar, index % stepsPerBar, listed, first, second, ?_, ?_,
      (gathers.mem_iff first).mp firstMember, (gathers.mem_iff second).mp secondMember, different, firstFound, secondFound⟩
    · exact ⟨row, bar.trans (congrArg some (items?_eq_some.mp items)), value⟩
    · simp only [Voice.event, Voice.start, beatsPerBar, barPlace, stepPlace, Int.cast_mul, Int.cast_natCast, Nat.cast_ofNat,
        Int.cast_ofNat]
      ring

/-- A key that sounds is not struck again, unless a chord lists it under two names. -/
theorem disjoint_iff_not_respelled {matrix : Json} {settings : Settings} {events : List NoteEvent}
    (compiled : compileMatrix matrix settings = .ok events) :
    ∃ bars, matrix = .array bars ∧ ∀ (i j : Nat) (one other : NoteEvent), i ≠ j → events[i]? = some one →
      events[j]? = some other → one.pitch = other.pitch →
      (Disjoint (Set.Ico one.start (one.start + one.duration)) (Set.Ico other.start (other.start + other.duration)) ↔
        ¬ Respelled bars settings.stepsPerBar one other) := by
  obtain ⟨steps, flattened, played⟩ := compileMatrix_eq_ok.mp compiled
  obtain ⟨_, bars, rfl, _⟩ := GridPlaces.flatten_eq_ok.mp flattened
  obtain ⟨nonempty, _, rfl⟩ := compile_eq_ok played
  have positive : (0 : Rat) < 4 / settings.stepsPerBar := div_pos (by norm_num) (by exact_mod_cast nonempty)
  have aligned := aligned_of_flatten flattened settings.channel (clampVelocity settings.velocity)
  have apart := notes_pairwise_of positive aligned (fun placed member held => notesOf_apart flattened member held)
    fun earlier later _ ended _ => .inl (.inl ended)
  refine ⟨bars, rfl, fun i j one other different oneFound otherFound same => ⟨?_, fun single => ?_⟩⟩
  · -- Notes that start together share at least that time.
    intro disjoint doubled
    obtain ⟨_, placed, _, inside⟩ := mem_notes (List.mem_of_getElem? oneFound)
    obtain ⟨_, other, _, insideToo⟩ := mem_notes (List.mem_of_getElem? otherFound)
    have sounds := lasts_of_mem_notesOf positive inside
    have soundsToo := lasts_of_mem_notesOf positive insideToo
    exact Set.disjoint_left.mp disjoint ⟨le_refl _, sounds⟩ ⟨doubled.start.ge, doubled.start.trans_lt soundsToo⟩
  · have pair : Apart bars settings.stepsPerBar one other := by
      obtain ⟨oneInside, rfl⟩ := List.getElem?_eq_some_iff.mp oneFound
      obtain ⟨otherInside, rfl⟩ := List.getElem?_eq_some_iff.mp otherFound
      rcases Nat.lt_or_gt_of_ne different with before | after
      · exact List.pairwise_iff_getElem.mp apart i j oneInside otherInside before
      · exact (List.pairwise_iff_getElem.mp apart j i otherInside oneInside after).symm
    exact disjoint_of_clear ((pair same).resolve_right single)

/-- A note that is struck twice in a row, then by a chord. -/
theorem disjoint_of_restruck :
    ∃ events, compileMatrix (.array [.array [.string "C4", .string "C4", .array [.string "E4", .string "C4"]]])
        { stepsPerBar := 3 } = .ok events ∧
      events = [⟨0, 0, 60, 100, 0, 4 / 3⟩, ⟨0, 0, 60, 100, 4 / 3, 4 / 3⟩, ⟨0, 0, 64, 100, 8 / 3, 4 / 3⟩,
        ⟨0, 0, 60, 100, 8 / 3, 4 / 3⟩] ∧
      Disjoint (Set.Ico (4 / 3 : Rat) (4 / 3 + 4 / 3)) (Set.Ico (8 / 3) (8 / 3 + 4 / 3)) := by
  have compiled : compileMatrix (.array [.array [.string "C4", .string "C4", .array [.string "E4", .string "C4"]]])
      { stepsPerBar := 3 } = .ok [⟨0, 0, 60, 100, 0, 4 / 3⟩, ⟨0, 0, 60, 100, 4 / 3, 4 / 3⟩, ⟨0, 0, 64, 100, 8 / 3, 4 / 3⟩,
        ⟨0, 0, 60, 100, 8 / 3, 4 / 3⟩] := by cbv
  obtain ⟨_, _, apart⟩ := disjoint_iff_not_respelled compiled
  refine ⟨_, compiled, rfl, (apart 1 3 _ _ (by decide) rfl rfl rfl).mpr fun doubled => ?_⟩
  exact absurd doubled.start (by norm_num)

/-- Two spellings of one key in a chord sound it twice at once. -/
theorem doubled_by_spellings :
    ∃ (events : List NoteEvent) (one other : NoteEvent),
      compileMatrix (.array [.array [.array [.string "C#4", .string "Db4"]]]) { stepsPerBar := 1 } = .ok events ∧
      events[0]? = some one ∧ events[1]? = some other ∧ one.pitch = other.pitch ∧
      ¬ Disjoint (Set.Ico one.start (one.start + one.duration)) (Set.Ico other.start (other.start + other.duration)) := by
  have compiled : compileMatrix (.array [.array [.array [.string "C#4", .string "Db4"]]]) { stepsPerBar := 1 } =
      .ok [⟨0, 0, 61, 100, 0, 4⟩, ⟨0, 0, 61, 100, 0, 4⟩] := by cbv
  have heard : (0 : Rat) ∈ Set.Ico 0 (0 + 4) := by norm_num
  exact ⟨_, _, _, compiled, rfl, rfl, rfl, fun disjoint => Set.disjoint_left.mp disjoint heard heard⟩

end StepGrid.Proofs.ScoreDoubling
