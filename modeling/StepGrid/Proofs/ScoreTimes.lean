import StepGrid.Proofs.GridPlaces
import StepGrid.Proofs.ScoreMeaning
import Mathlib.Algebra.Order.Field.Rat
import Mathlib.Tactic.FieldSimp
import Mathlib.Tactic.Linarith

/-! When the notes of a matrix start and end. Steps of a matrix stand one step length
apart, so every time is told by the number of steps before it. -/

namespace StepGrid.Proofs.ScoreTimes
open Score Voice ScoreMeaning

/-- Each step starts as many step lengths after zero as its place tells, when the row
itself starts at the given place. -/
def Aligned (voice : Voice) (first : Nat) (steps : List PlacedStep) : Prop :=
  ∀ (index : Nat) placed, steps[index]? = some placed →
    voice.start placed = ((first + index : Nat) : Rat) * voice.stepLength

theorem Aligned.head {voice : Voice} {first : Nat} {placed : PlacedStep} {after : List PlacedStep}
    (aligned : Aligned voice first (placed :: after)) : voice.start placed = first * voice.stepLength :=
  aligned 0 placed rfl

theorem Aligned.tail {voice : Voice} {first : Nat} {placed : PlacedStep} {after : List PlacedStep}
    (aligned : Aligned voice first (placed :: after)) : Aligned voice (first + 1) after := by
  intro index other found
  rw [aligned (index + 1) other found, Nat.add_right_comm, Nat.add_assoc]

/-- Bars follow one another without a gap, so a matrix is aligned from its first step on. -/
theorem aligned_of_flatten {stepsPerBar : Nat} {matrix : Json} {steps : List PlacedStep}
    (flattened : Matrix.flatten stepsPerBar matrix = .ok steps) (channel velocity : Nat) :
    Aligned ⟨4 / stepsPerBar, channel, velocity⟩ 0 steps := by
  intro index placed found
  obtain ⟨bar, step, _⟩ := GridPlaces.placed_of_flatten flattened found
  have positive : (0 : Rat) < stepsPerBar := by exact_mod_cast (GridPlaces.flatten_eq_ok.mp flattened).1
  have split : (index : Rat) = stepsPerBar * (index / stepsPerBar : Nat) + (index % stepsPerBar : Nat) := by
    exact_mod_cast (Nat.div_add_mod index stepsPerBar).symm
  simp only [Voice.start, beatsPerBar, bar, step, Nat.zero_add, Int.cast_mul, Int.cast_natCast, Nat.cast_ofNat, Int.cast_ofNat]
  rw [split]
  field_simp

theorem heldSteps_le_length (steps : List PlacedStep) : heldSteps steps ≤ steps.length :=
  (List.takeWhile_sublist _).length_le

theorem runAfter_le {steps : List PlacedStep} {index : Nat} (inside : index < steps.length) :
    index + 1 + runAfter steps index ≤ steps.length := by
  have bound := heldSteps_le_length (steps.drop (index + 1))
  rw [List.length_drop] at bound
  unfold runAfter
  omega

theorem times_of_mem_notesOf {voice : Voice} {placed : PlacedStep} {held : Nat} {event : NoteEvent}
    (member : event ∈ notesOf voice placed held) :
    event.start = voice.start placed ∧ event.duration = voice.stepLength * (held + 1 : Nat) := by
  obtain ⟨pitch, _, rfl⟩ := List.mem_map.mp member
  exact ⟨rfl, rfl⟩

theorem finish_of_mem_notesOf {voice : Voice} {placed : PlacedStep} {held place : Nat} {event : NoteEvent}
    (begins : voice.start placed = place * voice.stepLength) (member : event ∈ notesOf voice placed held) :
    event.finish = (place + 1 + held : Nat) * voice.stepLength := by
  obtain ⟨start, duration⟩ := times_of_mem_notesOf member
  rw [NoteEvent.finish, start, duration, begins]
  push_cast
  ring

theorem mem_notes {voice : Voice} {steps : List PlacedStep} {event : NoteEvent} (member : event ∈ notes voice steps) :
    ∃ (index : Nat) (placed : PlacedStep), steps[index]? = some placed ∧
      event ∈ notesOf voice placed (runAfter steps index) := by
  rw [notes_eq_flatMap] at member
  obtain ⟨index, _, inside⟩ := List.mem_flatMap.mp member
  cases found : steps[index]? with
  | none => simp [found] at inside
  | some placed => exact ⟨index, placed, found, by simpa [found] using inside⟩

/-- A note starts with its step and ends after the last step that holds it. -/
theorem times_of_mem_notes {voice : Voice} {first : Nat} {steps : List PlacedStep} {event : NoteEvent}
    (aligned : Aligned voice first steps) (member : event ∈ notes voice steps) :
    ∃ index < steps.length, stepAt steps index ≠ .sustain ∧
      event.start = ((first + index : Nat) : Rat) * voice.stepLength ∧
      event.finish = ((first + index + 1 + runAfter steps index : Nat) : Rat) * voice.stepLength := by
  obtain ⟨index, placed, found, inside⟩ := mem_notes member
  have begins := aligned index placed found
  refine ⟨index, (List.getElem?_eq_some_iff.mp found).1, ?_, ?_, finish_of_mem_notesOf begins inside⟩
  · intro sustained
    have same : placed.value = .sustain := by simpa [stepAt, found] using sustained
    have silent : placed.value.names = [] := by rw [same]; rfl
    rw [notesOf_of_names_nil silent] at inside
    cases inside
  · rw [(times_of_mem_notesOf inside).1, begins]

theorem lasts_of_mem_notesOf {voice : Voice} {placed : PlacedStep} {held : Nat} {event : NoteEvent}
    (positive : 0 < voice.stepLength) (member : event ∈ notesOf voice placed held) : event.start < event.finish := by
  rw [NoteEvent.finish, (times_of_mem_notesOf member).2]
  exact lt_add_of_pos_right _ (mul_pos positive (by exact_mod_cast Nat.succ_pos held))

/-- Of two notes the earlier one is over when the later one starts, unless both belong to
one step. What holds in both cases holds for any two notes of a row. -/
theorem notes_pairwise_of {voice : Voice} {first : Nat} {steps : List PlacedStep}
    {relation : NoteEvent → NoteEvent → Prop}
    (positive : 0 < voice.stepLength) (aligned : Aligned voice first steps)
    (within : ∀ placed ∈ steps, ∀ held, (notesOf voice placed held).Pairwise relation)
    (across : ∀ earlier later, earlier.start < earlier.finish → earlier.finish ≤ later.start → relation earlier later) :
    (notes voice steps).Pairwise relation := by
  induction steps generalizing first with
  | nil => exact .nil
  | cons placed after ih =>
    refine List.pairwise_append.mpr ⟨within placed (by simp) _,
      ih aligned.tail (fun other member => within other (by simp [member])), ?_⟩
    intro earlier earlierMember later laterMember
    obtain ⟨index, _, struck, begins, _⟩ := times_of_mem_notes aligned.tail laterMember
    have released : heldSteps after ≤ index := by
      apply Nat.le_of_not_lt
      intro held
      exact struck ((lt_heldSteps_iff after index).mp held index (Nat.le_refl _))
    have ended : earlier.finish ≤ later.start := by
      rw [finish_of_mem_notesOf aligned.head earlierMember, begins]
      exact mul_le_mul_of_nonneg_right (by exact_mod_cast (by omega)) positive.le
    exact across earlier later (lasts_of_mem_notesOf positive earlierMember) ended

theorem notesOf_pairwise_times (voice : Voice) (placed : PlacedStep) (held : Nat) :
    (notesOf voice placed held).Pairwise fun one other => one.start = other.start ∧ one.duration = other.duration :=
  List.pairwise_map.mpr (List.pairwise_of_forall fun _ _ => ⟨rfl, rfl⟩)

/-- Notes of one chord start together and differ in pitch. -/
theorem notes_pairwise {voice : Voice} {first : Nat} {steps : List PlacedStep} (positive : 0 < voice.stepLength)
    (aligned : Aligned voice first steps)
    (clear : ∀ placed ∈ steps, (placed.value.names.filterMap Pitch.ofName?).Nodup) :
    (notes voice steps).Pairwise fun earlier later =>
      earlier.start ≤ later.start ∧ (earlier.pitch = later.pitch → earlier.finish ≤ later.start) := by
  apply notes_pairwise_of positive aligned
  · intro placed member held
    refine List.pairwise_map.mpr ((clear placed member).imp ?_)
    intro one other different
    exact ⟨le_refl _, fun same => absurd same different⟩
  · intro earlier later lasts ended
    exact ⟨le_trans lasts.le ended, fun _ => ended⟩

end StepGrid.Proofs.ScoreTimes
