import StepGrid.Proofs.GridRow
import Mathlib

/-! The order of compiled notes. Whatever a matrix holds, its notes come out by their starts,
those of one step have one length, and no note reaches into a later step that is struck.
Nothing checks this afterwards: it is how steps are placed and held. -/

namespace StepGrid.Proofs.ScoreOrder
open Score Voice ScoreMeaning ScoreTimes

private theorem le_highest_of_ofName? {name : String} {key : Nat} (found : Pitch.ofName? name = some key) :
    key ≤ Pitch.highest := by
  obtain ⟨_, _, rest⟩ := Option.bind_eq_some_iff.mp found
  obtain ⟨octave, _, rest⟩ := Option.bind_eq_some_iff.mp rest
  obtain ⟨semitone, _, last⟩ := Option.bind_eq_some_iff.mp rest
  dsimp only at last
  split at last
  next inside =>
    cases last
    omega
  next => cases last

theorem fields_of_mem_notes {voice : Voice} {steps : List PlacedStep} {event : NoteEvent}
    (member : event ∈ notes voice steps) :
    event.track = 0 ∧ event.pitch ≤ Pitch.highest ∧ event.channel = voice.channel ∧ event.velocity = voice.velocity := by
  obtain ⟨_, placed, _, inside⟩ := mem_notes member
  obtain ⟨pitch, sounding, rfl⟩ := List.mem_map.mp inside
  obtain ⟨name, _, named⟩ := List.mem_filterMap.mp sounding
  exact ⟨rfl, le_highest_of_ofName? named, rfl, rfl⟩

/-- The notes of a matrix start and end on steps of it, and end after they start. -/
theorem steps_of_compiled {bars : List Json} {settings : Settings} {events : List NoteEvent}
    (compiled : compileMatrix (.array bars) settings = .ok events) :
    0 < settings.stepsPerBar ∧ ∀ event ∈ events, ∃ first last : Nat, first < last ∧
      last ≤ bars.length * settings.stepsPerBar ∧ event.start = first * (4 / settings.stepsPerBar) ∧
      event.finish = last * (4 / settings.stepsPerBar) := by
  obtain ⟨steps, flattened, played⟩ := compileMatrix_eq_ok.mp compiled
  obtain ⟨nonempty, _, rfl⟩ := compile_eq_ok played
  refine ⟨nonempty, fun event member => ?_⟩
  have aligned := aligned_of_flatten flattened settings.channel (clampVelocity settings.velocity)
  obtain ⟨index, inside, _, starts, ends⟩ := times_of_mem_notes aligned member
  rw [Nat.zero_add] at starts ends
  have bound := runAfter_le inside
  rw [GridRow.length_of_flatten flattened] at bound
  exact ⟨index, index + 1 + runAfter steps index, by omega, bound, starts, ends⟩

/-- Compiled notes in order, each step's notes alike in time and over before the next, all
of them within the bars and with fields that fit a message. -/
structure WellFormed (bars : Nat) (settings : Settings) (events : List NoteEvent) : Prop where
  ordered : events.Pairwise fun earlier later => earlier.start ≤ later.start
  together : ∀ one ∈ events, ∀ other ∈ events, one.start = other.start → one.duration = other.duration
  apart : events.Pairwise fun earlier later =>
    earlier.start < later.start → earlier.start + earlier.duration ≤ later.start
  within : ∀ event ∈ events, 0 ≤ event.start ∧ event.start + event.duration ≤ 4 * bars
  whole : ∀ event ∈ events, ∃ count : Nat, 0 < count ∧ event.duration = count * (4 / settings.stepsPerBar)
  channel : settings.channel ≤ 15
  fields : ∀ event ∈ events, event.track = 0 ∧ event.pitch ≤ 127 ∧ event.channel = settings.channel ∧
    event.velocity = max 1 (min settings.velocity 127)

/-- Notes that last equally long if they start together. -/
def Alike (one other : NoteEvent) : Prop := one.start = other.start → one.duration = other.duration

instance : Std.Symm Alike := ⟨fun _ _ same back => (same back.symm).symm⟩

section Order
variable {voice : Voice} {first : Nat} {steps : List PlacedStep} (positive : 0 < voice.stepLength)
  (aligned : Aligned voice first steps)
include positive aligned

private theorem notes_ordered : (notes voice steps).Pairwise fun earlier later => earlier.start ≤ later.start := by
  apply notes_pairwise_of positive aligned
  · exact fun placed _ held => (notesOf_pairwise_times voice placed held).imp fun same => same.1.le
  · exact fun earlier later lasts ended => lasts.le.trans ended

private theorem notes_apart : (notes voice steps).Pairwise fun earlier later =>
    earlier.start < later.start → earlier.finish ≤ later.start := by
  apply notes_pairwise_of positive aligned
  · exact fun placed _ held => (notesOf_pairwise_times voice placed held).imp fun same less => absurd same.1 less.ne
  · exact fun earlier later _ ended _ => ended

private theorem notes_together : ∀ one ∈ notes voice steps, ∀ other ∈ notes voice steps, Alike one other := by
  have pairwise : (notes voice steps).Pairwise Alike := by
    apply notes_pairwise_of positive aligned
    · exact fun placed _ held => (notesOf_pairwise_times voice placed held).imp fun same _ => same.2
    · exact fun earlier later lasts ended same => absurd same (lasts.trans_le ended).ne
  exact fun one oneMember other otherMember => pairwise.forall_of_forall (fun _ _ _ => rfl) oneMember otherMember

end Order

/-- The notes of a matrix are in order, whatever its settings. -/
theorem wellFormed_of_compileMatrix {matrix : Json} {settings : Settings} {events : List NoteEvent}
    (compiled : compileMatrix matrix settings = .ok events) :
    ∃ bars, matrix = .array bars ∧ WellFormed bars.length settings events := by
  obtain ⟨steps, flattened, played⟩ := compileMatrix_eq_ok.mp compiled
  obtain ⟨_, bars, rfl, _⟩ := GridPlaces.flatten_eq_ok.mp flattened
  obtain ⟨nonempty, onSteps⟩ := steps_of_compiled compiled
  obtain ⟨_, _, rfl⟩ := compile_eq_ok played
  have count : (0 : Rat) < settings.stepsPerBar := by exact_mod_cast nonempty
  have positive : (0 : Rat) < 4 / settings.stepsPerBar := div_pos (by norm_num) count
  have aligned := aligned_of_flatten flattened settings.channel (clampVelocity settings.velocity)
  refine ⟨bars, rfl, notes_ordered positive aligned, notes_together positive aligned, notes_apart positive aligned,
    ?_, ?_, ?_, ?_⟩
  · intro event member
    obtain ⟨start, finish, _, bound, starts, ends⟩ := onSteps event member
    have early : (finish : Rat) ≤ bars.length * settings.stepsPerBar := by exact_mod_cast bound
    rw [← NoteEvent.finish, starts, ends]
    refine ⟨mul_nonneg (Nat.cast_nonneg _) positive.le, ?_⟩
    calc (finish * (4 / settings.stepsPerBar) : Rat)
      _ ≤ bars.length * settings.stepsPerBar * (4 / settings.stepsPerBar) :=
          mul_le_mul_of_nonneg_right early positive.le
      _ = 4 * bars.length := by field_simp
  · intro event member
    obtain ⟨start, finish, before, _, starts, ends⟩ := onSteps event member
    refine ⟨finish - start, Nat.sub_pos_of_lt before, ?_⟩
    rw [Nat.cast_sub before.le, sub_mul, ← ends, ← starts, NoteEvent.finish, add_sub_cancel_left]
  · exact (bounds_of_compile played).2.2
  · intro event member
    obtain ⟨track, pitch, channel, velocity⟩ := fields_of_mem_notes member
    have clamped : clampVelocity settings.velocity = max 1 (min settings.velocity 127) := by
      unfold clampVelocity
      omega
    exact ⟨track, pitch, channel, velocity.trans clamped⟩

/-- A chord held over a bar line on a grid of three and a note after it, at a velocity out of
range. -/
theorem wellFormed_held_chord :
    ∃ events, compileMatrix (.array [.array [.string "-", .string ".", .array [.string "E4", .string "C4"]],
        .array [.string "-", .string "G9", .string "-"]]) { stepsPerBar := 3, channel := 15, velocity := 200 } = .ok events ∧
      events = [⟨0, 15, 64, 127, 8 / 3, 8 / 3⟩, ⟨0, 15, 60, 127, 8 / 3, 8 / 3⟩, ⟨0, 15, 127, 127, 16 / 3, 8 / 3⟩] ∧
      WellFormed 2 { stepsPerBar := 3, channel := 15, velocity := 200 } events := by
  have compiled : compileMatrix (.array [.array [.string "-", .string ".", .array [.string "E4", .string "C4"]],
      .array [.string "-", .string "G9", .string "-"]]) { stepsPerBar := 3, channel := 15, velocity := 200 } =
        .ok [⟨0, 15, 64, 127, 8 / 3, 8 / 3⟩, ⟨0, 15, 60, 127, 8 / 3, 8 / 3⟩, ⟨0, 15, 127, 127, 16 / 3, 8 / 3⟩] := by
    cbv
  obtain ⟨bars, matrix, formed⟩ := wellFormed_of_compileMatrix compiled
  cases matrix
  exact ⟨_, compiled, rfl, formed⟩

end StepGrid.Proofs.ScoreOrder
