import StepGrid.Pipeline
import StepGrid.Proofs.MidiTimeline
import StepGrid.Proofs.ScoreOrder
import StepGrid.Proofs.SettingsChecks
import Mathlib

/-! Whatever compiles has a track, unless a silence is too long for one. Settings in range
and keys of names make fields in range, and the times of a matrix are at most those of the
end of its last bar. -/

namespace StepGrid.Proofs.MidiWritable
open Midi MidiSchedule MidiTicks MidiTimeline Score Voice ScoreMeaning ScoreTimes ScoreOrder SettingsChecks

section Fields

structure InRange (settings : Settings) : Prop where
  slow : Settings.slowestTempo ≤ settings.tempo
  fast : settings.tempo ≤ Settings.fastestTempo
  channel : settings.channel ≤ highestChannel

theorem inRange_of_resolve {layer : Settings.Layer} {settings : Settings}
    (resolved : Settings.resolve layer = .ok settings) : InRange settings := by
  obtain ⟨⟨tempoFits, tempo⟩, _, ⟨channelFits, channel⟩, _⟩ := resolve_eq_ok.mp resolved
  have tempoRange : 4 ≤ layer.tempo.getD 120 ∧ layer.tempo.getD 120 ≤ 60000000 :=
    range_of_getD ⟨by decide, by decide⟩ tempoFits
  have channelRange : 0 ≤ layer.channel.getD 0 ∧ layer.channel.getD 0 ≤ 15 :=
    range_of_getD ⟨by decide, by decide⟩ channelFits
  rw [← tempo] at tempoRange
  rw [← channel] at channelRange
  exact ⟨Int.ofNat_le.mp tempoRange.1, Int.ofNat_le.mp tempoRange.2, Int.ofNat_le.mp channelRange.2⟩

/-- The length of a beat is some time, and has 24 bits. -/
theorem InRange.microsecondsPerBeat {settings : Settings} (range : InRange settings) :
    ∃ microseconds, settings.microsecondsPerBeat = .ok microseconds ∧
      1 ≤ microseconds ∧ microseconds < tempoRange := by
  obtain ⟨slow, fast, _⟩ := range
  have moving : 0 < settings.tempo := Nat.lt_of_lt_of_le (by decide) slow
  refine ⟨60000000 / settings.tempo, if_neg moving.ne', Nat.div_pos fast moving, ?_⟩
  have longest : 60000000 / settings.tempo ≤ 60000000 / 4 := Nat.div_le_div_left slow (by decide)
  exact Nat.lt_of_le_of_lt longest (by decide)

theorem clampVelocity_range (velocity : Int) : 1 ≤ clampVelocity velocity ∧ clampVelocity velocity ≤ 127 := by
  unfold clampVelocity
  omega

private theorem misfit?_of_mem_notes {stepLength : Rat} {channel : Nat} {velocity : Int} {steps : List PlacedStep}
    {event : NoteEvent} (low : channel ≤ highestChannel)
    (member : event ∈ notes ⟨stepLength, channel, clampVelocity velocity⟩ steps) : misfit? event = none := by
  obtain ⟨_, key, channelOf, velocityOf⟩ := fields_of_mem_notes member
  obtain ⟨loud, soft⟩ := clampVelocity_range velocity
  exact misfit?_eq_none.mpr ⟨channelOf ▸ low, key, velocityOf ▸ loud, velocityOf ▸ soft⟩

end Fields

section Times

def HasWords (fraction : Rat) : Prop := fraction.num.natAbs < 2 ^ 63 ∧ fraction.den < 2 ^ 63

/-- The ticks after so many steps, before they are rounded. -/
theorem hasWords_of_steps {count stepsPerBar : Nat} (positive : 0 < stepsPerBar) (few : count ≤ 2 ^ 51)
    (narrow : stepsPerBar ≤ 2 ^ 51) : HasWords (count * (4 / stepsPerBar) * ticksPerBeat) := by
  have quotient : (count * (4 / stepsPerBar) * ticksPerBeat : Rat) = Rat.divInt (3840 * count : Nat) stepsPerBar := by
    rw [Rat.divInt_eq_div, ticksPerBeat]
    push_cast
    ring
  -- In lowest terms both parts divide those of the quotient, and 3840 has twelve bits.
  rw [quotient]
  constructor
  · have whole : (stepsPerBar : Int) ≠ 0 := by exact_mod_cast positive.ne'
    have divides := Int.natAbs_dvd_natAbs.mpr (Rat.num_dvd (3840 * count : Nat) whole)
    rcases Nat.eq_zero_or_pos count with rfl | some
    · simp
    · rw [Int.natAbs_natCast] at divides
      exact Nat.lt_of_le_of_lt (Nat.le_of_dvd (by omega) divides) (by omega)
  · have divides := Int.natCast_dvd_natCast.mp (Rat.den_dvd (3840 * count : Nat) stepsPerBar)
    exact Nat.lt_of_le_of_lt (Nat.le_of_dvd positive divides) (by omega)

/-- Nothing of a bar is later than its end, a whole number of ticks. -/
theorem ticks_le {beats : Rat} {bars : Nat} (early : beats ≤ 4 * bars) : ticks beats ≤ 3840 * bars := by
  have floored : ((beats * ticksPerBeat + 1 / 2).floor : Rat) < (3840 * bars + 1 : Int) := by
    have below := Rat.floor_le (beats * ticksPerBeat + 1 / 2)
    have scaled : beats * ticksPerBeat ≤ 4 * bars * ticksPerBeat := mul_le_mul_of_nonneg_right early (by positivity)
    simp only [ticksPerBeat] at below scaled ⊢
    push_cast at below scaled ⊢
    linarith
  have whole := Int.cast_lt.mp floored
  unfold ticks
  omega

end Times

private theorem gap_of_error {events : List NoteEvent} {settings : Settings} {microseconds : Nat} {error : Error}
    (fits : ∀ event ∈ events, misfit? event = none) (beat : settings.microsecondsPerBeat = .ok microseconds)
    (failed : Track.ofEvents events settings = .error error) : ∃ gap, longestGap < gap ∧ error = .gap gap := by
  rw [ofEvents_eq fits beat] at failed
  cases refused : spread [] 0 (schedule events) with
  | ok notes =>
    rw [refused] at failed
    cases failed
  | error cause =>
    rw [refused] at failed
    cases failed
    obtain ⟨size, ⟨_, first, second, _, _, _, far, rfl⟩, rfl⟩ := spread_eq_error.mp refused
    exact ⟨_, Nat.lt_sub_of_add_lt (Nat.add_comm first longestGap ▸ far), rfl⟩

theorem error_iff_farApart {events : List NoteEvent} {settings : Settings} {microseconds : Nat}
    (fits : ∀ event ∈ events, misfit? event = none) (beat : settings.microsecondsPerBeat = .ok microseconds) :
    (∃ error, Track.ofEvents events settings = .error error) ↔ ∃ ticks, Timeline events ticks ∧ FarApart (0 :: ticks) := by
  rw [farApart_timeline, ← not_iff_not, ← delta_le_iff, ofEvents_eq fits beat]
  cases told : spread [] 0 (schedule events) with
  | ok notes => exact iff_of_true nofun (spread_eq_ok.mp told).1
  | error cause =>
    refine iff_of_false (fun none => none ⟨cause, rfl⟩) fun close => ?_
    cases told.symm.trans (spread_eq_ok.mpr ⟨close, rfl⟩)

private theorem off_le_of_compiled {bars : List Json} {settings : Settings} {events : List NoteEvent}
    (compiled : compileMatrix (.array bars) settings = .ok events) :
    ∀ event ∈ events, off event ≤ 3840 * bars.length + 1 := by
  obtain ⟨nonempty, inside⟩ := steps_of_compiled compiled
  intro event member
  obtain ⟨first, last, ordered, bound, starts, ends⟩ := inside event member
  have positive : (0 : Rat) < settings.stepsPerBar := by exact_mod_cast nonempty
  have reach (count : Nat) (within : count ≤ last) :
      (count * (4 / settings.stepsPerBar) : Rat) ≤ 4 * bars.length := by
    have counted : (count : Rat) ≤ bars.length * settings.stepsPerBar := by exact_mod_cast within.trans bound
    rw [← mul_div_assoc, div_le_iff₀ positive]
    linarith
  have onBound : on event ≤ 3840 * bars.length := ticks_le (starts ▸ reach first ordered.le)
  have offBound : ticks event.finish ≤ 3840 * bars.length := ticks_le (ends ▸ reach last (Nat.le_refl _))
  exact Nat.max_le.mpr ⟨Nat.le_succ_of_le offBound, Nat.succ_le_succ onBound⟩

/-- No fraction on the way from times to ticks is too long for a machine, unless a matrix
has more steps than fit in its memory. -/
theorem hasWords_of_compiled {bars : List Json} {settings : Settings} {events : List NoteEvent}
    (compiled : compileMatrix (.array bars) settings = .ok events)
    (small : bars.length * settings.stepsPerBar ≤ 2 ^ 51) :
    ∀ event ∈ events, HasWords (event.start * ticksPerBeat) ∧ HasWords (event.finish * ticksPerBeat) ∧
      ∀ first last, Ends event first last → last < 2 ^ 63 := by
  obtain ⟨nonempty, inside⟩ := steps_of_compiled compiled
  intro event member
  obtain ⟨first, last, ordered, bound, starts, ends⟩ := inside event member
  have someBars : 0 < bars.length := Nat.pos_of_mul_pos_right (Nat.zero_lt_of_lt (ordered.trans_le bound))
  have narrow := (Nat.le_mul_of_pos_left settings.stepsPerBar someBars).trans small
  have fewBars := (Nat.le_mul_of_pos_right bars.length nonempty).trans small
  have late := off_le_of_compiled compiled event member
  rw [starts, ends]
  refine ⟨hasWords_of_steps nonempty ?_ narrow, hasWords_of_steps nonempty (bound.trans small) narrow, ?_⟩
  · exact ordered.le.trans (bound.trans small)
  · rintro _ _ ends
    obtain ⟨_, rfl⟩ := ends_iff.mp ends
    omega

theorem compileWith_eq_ok {text : List Char} {overrides : Settings.Layer} {compiled : Pipeline.Compiled} :
    Pipeline.compileWith text overrides = .ok compiled ↔ ∃ source, Source.read text = .ok source ∧
      Settings.resolve (source.settings.merge overrides) = .ok compiled.settings ∧
      compileMatrix source.matrix compiled.settings = .ok compiled.events := by
  constructor
  · intro done
    obtain ⟨source, read, rest⟩ := bind_eq_ok.mp done
    obtain ⟨settings, resolved, rest⟩ := bind_eq_ok.mp rest
    obtain ⟨events, played, last⟩ := bind_eq_ok.mp rest
    cases last
    exact ⟨source, read, resolved, played⟩
  · rintro ⟨source, read, resolved, played⟩
    exact bind_eq_ok.mpr ⟨source, read, bind_eq_ok.mpr ⟨_, resolved, bind_eq_ok.mpr ⟨_, played, rfl⟩⟩⟩

/-- Notes from so many bars fail to have a track only if a silence is too long for it, and no
silence is in a few bars. The length of a beat is stored as it is, the messages are those of the
notes and stand in order, so that no time is taken from an earlier one, and no fraction outgrows
a machine's. -/
structure Writable (bars stepsPerBar : Nat) (events : List NoteEvent) (settings : Settings) : Prop where
  beat : ∃ microseconds, settings.microsecondsPerBeat = .ok microseconds ∧
    1 ≤ microseconds ∧ microseconds ≤ 2 ^ 24 - 1 ∧
    ∀ track, Track.ofEvents events settings = .ok track → ⟨0, .tempo microseconds⟩ ∈ track
  gaps : ∀ error, Track.ofEvents events settings = .error error → ∃ gap, 0x0fffffff < gap ∧ error = .gap gap
  fails : (∃ error, Track.ofEvents events settings = .error error) ↔
    ∃ ticks, Timeline events ticks ∧ FarApart (0 :: ticks)
  order : Timeline events ((schedule events).map (·.tick))
  words : bars * stepsPerBar ≤ 2 ^ 51 → ∀ event ∈ events, HasWords (event.start * ticksPerBeat) ∧
    HasWords (event.finish * ticksPerBeat) ∧ ∀ first last, Ends event first last → last < 2 ^ 63
  few : bars ≤ 69905 → ∃ track, Track.ofEvents events settings = .ok track

private theorem writable_of_compiled {bars : List Json} {settings : Settings} {events : List NoteEvent}
    (range : InRange settings) (compiled : compileMatrix (.array bars) settings = .ok events) :
    Writable bars.length settings.stepsPerBar events settings := by
  obtain ⟨microseconds, beat, some, narrow⟩ := range.microsecondsPerBeat
  have fits : ∀ event ∈ events, misfit? event = none := by
    obtain ⟨steps, _, played⟩ := compileMatrix_eq_ok.mp compiled
    rw [(compile_eq_ok played).2.2]
    exact fun event member => misfit?_of_mem_notes range.channel member
  refine ⟨⟨microseconds, beat, some, Nat.le_pred_of_lt narrow, fun track made => ?_⟩, ?_, ?_, ?_, ?_, fun few => ?_⟩
  · obtain ⟨_, beatToo, _, rfl⟩ := ofEvents_eq_ok made
    cases beat.symm.trans beatToo
    simp [Nat.mod_eq_of_lt narrow]
  · exact fun error failed => gap_of_error fits beat failed
  · exact error_iff_farApart fits beat
  · exact timeline_schedule events
  · exact hasWords_of_compiled compiled
  · have moving : settings.tempo ≠ 0 := (Nat.lt_of_lt_of_le (by decide) range.slow).ne'
    refine exists_ofEvents fits moving fun event member => ?_
    have late := off_le_of_compiled compiled event member
    unfold longestGap
    omega

/-- Whatever compiles can be written, if no silence is too long. -/
theorem writable_of_compileWith {text : List Char} {overrides : Settings.Layer} {compiled : Pipeline.Compiled}
    (done : Pipeline.compileWith text overrides = .ok compiled) :
    ∃ source bars, Source.read text = .ok source ∧ source.matrix = .array bars ∧
      Writable bars.length compiled.settings.stepsPerBar compiled.events compiled.settings := by
  obtain ⟨source, read, resolved, played⟩ := compileWith_eq_ok.mp done
  obtain ⟨steps, flattened, _⟩ := compileMatrix_eq_ok.mp played
  obtain ⟨_, bars, matrix, _⟩ := GridPlaces.flatten_eq_ok.mp flattened
  rw [matrix] at played
  exact ⟨source, bars, read, matrix, writable_of_compiled (inRange_of_resolve resolved) played⟩

/-- The slowest tempo and the highest key. -/
theorem writable_slow :
    ∃ compiled track, Pipeline.compileWith "[[\"C4\", \"-\", \"G9\"]]".toList
        { stepsPerBar := some 3, tempo := some 4, velocity := some 300 } = .ok compiled ∧
      Track.ofEvents compiled.events compiled.settings = .ok track ∧ ⟨0, .tempo 15000000⟩ ∈ track := by
  have done : Pipeline.compileWith "[[\"C4\", \"-\", \"G9\"]]".toList
      { stepsPerBar := some 3, tempo := some 4, velocity := some 300 } =
        .ok ⟨[⟨0, 0, 60, 127, 0, 8 / 3⟩, ⟨0, 0, 127, 127, 8 / 3, 4 / 3⟩],
          { tempo := 4, stepsPerBar := 3, velocity := 127 }⟩ := by cbv
  have only : Source.read "[[\"C4\", \"-\", \"G9\"]]".toList =
      .ok ⟨{}, .array [.array [.string "C4", .string "-", .string "G9"]]⟩ := by cbv
  obtain ⟨_, bars, read, matrix, writable⟩ := writable_of_compileWith done
  cases only.symm.trans read
  cases matrix
  obtain ⟨_, beat, _, _, stored⟩ := writable.beat
  cases beat
  obtain ⟨track, made⟩ := writable.few (by decide)
  exact ⟨_, track, done, made, stored track made⟩

end StepGrid.Proofs.MidiWritable
