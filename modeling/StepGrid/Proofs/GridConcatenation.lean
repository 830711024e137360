import StepGrid.Proofs.GridRow

/-! Two matrices played as one. Notes of the second start later, and notes that still sound
at the end of the first are held through the sustains at the head of the second. -/

namespace StepGrid.Proofs.GridConcatenation
open Score Voice ScoreMeaning GridPlaces GridRow

def later (beats : Rat) (event : NoteEvent) : NoteEvent := { event with start := event.start + beats }

def longer (beats : Rat) (event : NoteEvent) : NoteEvent := { event with duration := event.duration + beats }

def lengthenLast (count : Nat) (beats : Rat) (events : List NoteEvent) : List NoteEvent :=
  events.take (events.length - count) ++ (events.drop (events.length - count)).map (longer beats)

/-- The number of notes that sound at the end of a row: those of its last step that is no
sustain. A rest there has none. -/
def ringing (steps : List Step) : Nat :=
  (steps.filter (!·.isSustain)).getLast?.elim 0 (·.names.length)

private theorem lengthenLast_all {beats : Rat} {events : List NoteEvent} {count : Nat} (all : events.length ≤ count) :
    lengthenLast count beats events = events.map (longer beats) := by
  rw [lengthenLast, Nat.sub_eq_zero_of_le all]
  rfl

theorem lengthenLast_append {count : Nat} (beats : Rat) (before : List NoteEvent) {events : List NoteEvent}
    (enough : count ≤ events.length) :
    lengthenLast count beats (before ++ events) = before ++ lengthenLast count beats events := by
  have place : (before ++ events).length - count = before.length + (events.length - count) := by
    rw [List.length_append]
    omega
  rw [lengthenLast, lengthenLast, place, List.take_length_add_append, List.drop_length_add_append, List.append_assoc]

private theorem ringing_of_sustains {step : Step} {after : List Step} (held : ∀ one ∈ after, one.isSustain = true) :
    ringing (step :: after) = step.names.length := by
  have none : after.filter (!·.isSustain) = [] := List.filter_eq_nil_iff.mpr (by simpa using held)
  rw [ringing, List.filter_cons, none]
  cases sustained : step.isSustain with
  | true =>
    rw [names_of_isSustain sustained]
    rfl
  | false => rfl

theorem ringing_cons {step : Step} {after : List Step} (struck : ¬ ∀ one ∈ after, one.isSustain = true) :
    ringing (step :: after) = ringing after := by
  have some : after.filter (!·.isSustain) ≠ [] := by
    rw [Ne, List.filter_eq_nil_iff]
    simpa using struck
  unfold ringing
  rw [List.filter_cons]
  split
  next => rw [List.getLast?_cons_of_ne_nil some]
  next => rfl

theorem held_append_of_struck {before : List Step} (struck : ¬ ∀ one ∈ before, one.isSustain = true)
    (after : List Step) : held (before ++ after) = held before := by
  induction before with
  | nil => exact absurd nofun struck
  | cons step rest ih =>
    rw [List.cons_append, held_cons, held_cons]
    split
    next sustained =>
      rw [ih fun all => struck (List.forall_mem_cons.mpr ⟨sustained, all⟩)]
    next => rfl

private theorem sound_add (voice : Voice) (place : Nat) (step : Step) (length more : Nat) :
    sound voice place step (length + more) = (sound voice place step length).map (longer (voice.stepLength * more)) := by
  rw [sound, sound, List.map_map]
  refine List.map_congr_left fun pitch _ => ?_
  simp only [Voice.event, Function.comp_apply, longer, NoteEvent.mk.injEq, true_and]
  push_cast
  ring

private theorem sound_later (voice : Voice) (first place : Nat) (step : Step) (length : Nat) :
    sound voice (first + place) step length = (sound voice place step length).map (later (first * voice.stepLength)) := by
  rw [sound, sound, List.map_map]
  refine List.map_congr_left fun pitch _ => ?_
  simp only [Voice.event, Function.comp_apply, later, NoteEvent.mk.injEq, true_and, and_true]
  push_cast
  ring

/-- A row that starts later has the same notes, all so much later. -/
theorem notesFrom_later (voice : Voice) (first place : Nat) (steps : List Step) :
    notesFrom voice (first + place) steps = (notesFrom voice place steps).map (later (first * voice.stepLength)) := by
  induction steps generalizing place with
  | nil => rfl
  | cons step after ih => rw [notesFrom, notesFrom, List.map_append, sound_later, Nat.add_assoc, ih]

theorem known_cons_row {step : Step} {after : List Step}
    (known : unknown? ((step :: after).flatMap (·.names)) = none) :
    unknown? step.names = none ∧ unknown? (after.flatMap (·.names)) = none := by
  rwa [List.flatMap_cons, unknown?_append, Option.or_eq_none_iff] at known

private theorem ringing_le_length {voice : Voice} {steps : List Step}
    (known : unknown? (steps.flatMap (·.names)) = none)
    (place : Nat) : ringing steps ≤ (notesFrom voice place steps).length := by
  induction steps generalizing place with
  | nil => exact Nat.le_refl 0
  | cons step after ih =>
    obtain ⟨knownStep, knownAfter⟩ := known_cons_row known
    rw [notesFrom, List.length_append, length_sound knownStep]
    by_cases held : ∀ one ∈ after, one.isSustain = true
    · rw [ringing_of_sustains held]
      exact Nat.le_add_right _ _
    · rw [ringing_cons held]
      exact Nat.le_trans (ih knownAfter _) (Nat.le_add_left _ _)

/-- Across a seam only the notes that ring there change. The induction is on the row before
the seam; its first step meets the seam if only sustains stand between. -/
theorem notesFrom_append (voice : Voice) {before : List Step} (known : unknown? (before.flatMap (·.names)) = none)
    (first : Nat) (after : List Step) :
    notesFrom voice first (before ++ after) =
      lengthenLast (ringing before) (voice.stepLength * held after) (notesFrom voice first before) ++
        notesFrom voice (first + before.length) after := by
  induction before generalizing first with
  | nil => rfl
  | cons step rest ih =>
    obtain ⟨knownStep, knownRest⟩ := known_cons_row known
    rw [List.cons_append, notesFrom, notesFrom, List.length_cons, Nat.add_comm rest.length, ← Nat.add_assoc first]
    by_cases sustains : ∀ one ∈ rest, one.isSustain = true
    · have quiet : ∀ one ∈ rest, one.names = [] := fun one member => names_of_isSustain (sustains one member)
      have heldRest : held rest = rest.length := by simpa [held] using held_append_of_sustains sustains []
      have silentRest : notesFrom voice (first + 1) rest = [] := by
        simpa [notesFrom] using notesFrom_append_of_silent quiet voice (first + 1) []
      rw [held_append_of_sustains sustains, notesFrom_append_of_silent quiet, silentRest, heldRest, List.append_nil,
        ringing_of_sustains sustains, lengthenLast_all (length_sound knownStep).le, Nat.add_right_comm, sound_add]
    · rw [held_append_of_struck sustains, ringing_cons sustains, lengthenLast_append _ _ (ringing_le_length knownRest _),
        ih knownRest, List.append_assoc]

theorem regular_append {width : Nat} {first second : List Json} :
    Regular width (first ++ second) ↔ Regular width first ∧ Regular width second := by
  constructor
  · rintro ⟨even, steps⟩
    rw [List.flatMap_append, List.forall_mem_append] at steps
    rw [List.forall_mem_append] at even
    exact ⟨⟨even.1, steps.1⟩, ⟨even.2, steps.2⟩⟩
  · rintro ⟨regularFirst, regularSecond⟩
    refine ⟨List.forall_mem_append.mpr ⟨regularFirst.even, regularSecond.even⟩, ?_⟩
    rw [List.flatMap_append]
    exact List.forall_mem_append.mpr ⟨regularFirst.steps, regularSecond.steps⟩

/-- A bar spans four beats on every grid, so the second row starts four beats later for each
bar of the first. -/
theorem notesFrom_row_append {settings : Settings} {voice : Voice} {first : List Json}
    (made : ofGrid settings.stepsPerBar settings.channel settings.velocity = .ok voice)
    (regular : Regular settings.stepsPerBar first) (known : unknown? ((row first).flatMap (·.names)) = none)
    (second : List Json) :
    notesFrom voice 0 (row first ++ row second) =
      lengthenLast (ringing (row first)) (held (row second) * (4 / settings.stepsPerBar)) (notesFrom voice 0 (row first)) ++
        (notesFrom voice 0 (row second)).map (later (4 * first.length)) := by
  obtain ⟨⟨positive, _⟩, rfl⟩ := ofGrid_eq_ok.mp made
  have bars : ((row first).length : Rat) * (4 / settings.stepsPerBar) = 4 * first.length := by
    have nonzero : (settings.stepsPerBar : Rat) ≠ 0 := by exact_mod_cast Nat.ne_of_gt positive
    rw [length_row regular]
    push_cast
    field_simp
  rw [notesFrom_append _ known, Nat.zero_add, ← Nat.add_zero (row first).length, notesFrom_later, bars, mul_comm]

/-- Two matrices compile as one exactly if each of them compiles. The notes are then those
of the first, the last of them held through the sustains that the second begins with, and
those of the second, as many bars later as the first has. -/
theorem compileMatrix_append {first second : List Json} {settings : Settings} {events : List NoteEvent} :
    compileMatrix (.array (first ++ second)) settings = .ok events ↔
      ∃ firstEvents secondEvents, compileMatrix (.array first) settings = .ok firstEvents ∧
        compileMatrix (.array second) settings = .ok secondEvents ∧
        events = lengthenLast (ringing (row first)) (held (row second) * (4 / settings.stepsPerBar)) firstEvents ++
          secondEvents.map (later (4 * first.length)) := by
  simp only [compileMatrix_array_eq_ok, regular_append, row_append, List.flatMap_append, unknown?_append,
    Option.or_eq_none_iff]
  constructor
  · rintro ⟨⟨regularFirst, regularSecond⟩, voice, made, ⟨knownFirst, knownSecond⟩, rfl⟩
    exact ⟨_, _, ⟨regularFirst, voice, made, knownFirst, rfl⟩, ⟨regularSecond, voice, made, knownSecond, rfl⟩,
      notesFrom_row_append made regularFirst knownFirst second⟩
  · rintro ⟨_, _, ⟨regularFirst, voice, made, knownFirst, rfl⟩, ⟨regularSecond, other, madeToo, knownSecond, rfl⟩, rfl⟩
    cases made.symm.trans madeToo
    exact ⟨⟨regularFirst, regularSecond⟩, voice, made, ⟨knownFirst, knownSecond⟩,
      (notesFrom_row_append made regularFirst knownFirst second).symm⟩

/-- A chord at the end of a bar, held through the whole bar after it and on. -/
theorem compileMatrix_append_held_chord :
    compileMatrix (.array ([.array [.string "C4", .array [.string "E4", .string "G4"]]] ++
        [.array [.string "-", .string "-"], .array [.string "-", .string "C4"]])) { stepsPerBar := 2 } =
      .ok [⟨0, 0, 60, 100, 0, 2⟩, ⟨0, 0, 64, 100, 2, 8⟩, ⟨0, 0, 67, 100, 2, 8⟩, ⟨0, 0, 60, 100, 10, 2⟩] := by
  have made : ofGrid 2 0 100 = .ok ⟨4 / (2 : Nat), 0, clampVelocity 100⟩ :=
    ofGrid_eq_ok.mpr ⟨⟨by decide, by decide, by decide⟩, rfl⟩
  refine compileMatrix_append.mpr ⟨_, _, compileMatrix_eq_ok.mpr ⟨_, rfl, compile_eq_perform made _⟩,
    compileMatrix_eq_ok.mpr ⟨_, rfl, compile_eq_perform made _⟩, ?_⟩
  decide +kernel

end StepGrid.Proofs.GridConcatenation
