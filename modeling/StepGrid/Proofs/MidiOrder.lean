import StepGrid.Proofs.MidiSchedule
import Mathlib.Algebra.Group.Nat.Defs
import Mathlib.Data.List.Pairwise

/-! What a track makes of its notes. Every note is struck once and released once, at its
own ticks and in a fixed order, and no time between two messages is cut when it is stored. -/

namespace StepGrid.Proofs.MidiOrder
open Midi MidiSchedule

/-- All messages of some notes and no others, in the order of a track. Messages on one tick
come releases first, and else in the order of their notes. -/
structure Tells (events : List NoteEvent) (timed : List Timed) : Prop where
  complete : timed.Perm (events.flatMap fun event => [struck event, released event])
  forward : timed.Pairwise fun first second => first.tick ≤ second.tick
  releasesFirst : timed.Pairwise fun first second => first.tick = second.tick →
    first.message.isStrike = true → second.message.isStrike = true
  strikes : ∀ tick, timed.filter (fun one => decide (one.tick = tick) && one.message.isStrike) =
    (events.filter (on · = tick)).map struck
  releases : ∀ tick, timed.filter (fun one => decide (one.tick = tick) && !one.message.isStrike) =
    (events.filter (off · = tick)).map released
  ownRelease : ∀ event ∈ events, on event < off event ∧
    timed.Pairwise fun first second => first = released event → second ≠ struck event

private theorem releases_flatMap (events : List NoteEvent) :
    (events.flatMap Timed.ofEvent).filter (!·.message.isStrike) = events.map released := by
  induction events with
  | nil => rfl
  | cons event rest ih =>
    rw [List.flatMap_cons, List.filter_append, ih]
    rfl

/-- Messages of one kind on one tick are equal to the sort, so they stay as they are. -/
theorem filter_schedule_of_same {events : List NoteEvent} {kept : Timed → Bool}
    (same : ∀ first second, kept first = true → kept second = true →
      first.tick = second.tick ∧ first.message.isStrike = second.message.isStrike) :
    (schedule events).filter kept = (events.flatMap Timed.ofEvent).filter kept := by
  apply filter_schedule
  apply List.pairwise_of_forall_mem_list
  intro first firstMember second secondMember
  obtain ⟨tick, kind⟩ := same first second (List.mem_filter.mp firstMember).2 (List.mem_filter.mp secondMember).2
  exact precedes_iff.mpr (.inr ⟨tick, fun strike => kind ▸ strike⟩)

private theorem strikes_schedule (events : List NoteEvent) (tick : Nat) :
    (schedule events).filter (fun one => decide (one.tick = tick) && one.message.isStrike) =
      (events.filter (on · = tick)).map struck := by
  rw [filter_schedule_of_same, ← List.filter_filter, strikes_flatMap, List.filter_map]
  · rfl
  · simp only [Bool.and_eq_true, decide_eq_true_iff]
    rintro first second ⟨rfl, strike⟩ ⟨same, strikeToo⟩
    exact ⟨same.symm, strike.trans strikeToo.symm⟩

private theorem releases_schedule (events : List NoteEvent) (tick : Nat) :
    (schedule events).filter (fun one => decide (one.tick = tick) && !one.message.isStrike) =
      (events.filter (off · = tick)).map released := by
  rw [filter_schedule_of_same, ← List.filter_filter, releases_flatMap, List.filter_map]
  · rfl
  · simp only [Bool.and_eq_true, decide_eq_true_iff, Bool.not_eq_true']
    rintro first second ⟨rfl, release⟩ ⟨same, releaseToo⟩
    exact ⟨same.symm, release.trans releaseToo.symm⟩

private theorem tells_schedule (events : List NoteEvent) : Tells events (schedule events) := by
  have sorted := schedule_sorted events
  have forward := sorted.imp tick_le_of_precedes
  refine ⟨schedule_perm events, forward, ?_, strikes_schedule events, releases_schedule events, ?_⟩
  · refine sorted.imp ?_
    intro first second before same strike
    rcases precedes_iff.mp before with less | ⟨_, strikes⟩
    · exact absurd same (Nat.ne_of_lt less)
    · exact strikes strike
  · intro event _
    refine ⟨on_lt_off event, forward.imp ?_⟩
    rintro first second le rfl rfl
    exact absurd le (Nat.not_le_of_lt (on_lt_off event))

/-- A track is the name of its piece, its tempo, all messages of its notes and its end.
Each message is stored with the whole time since the one before, in 28 bits, and adding
these times up gives every message at its own tick. -/
theorem tells_of_ofEvents {events : List NoteEvent} {settings : Settings} {track : Track}
    (made : Track.ofEvents events settings = .ok track) :
    Tells events (messages track) ∧ (∀ event ∈ track, event.delta < 2 ^ 28) ∧
    ∃ microseconds, settings.microsecondsPerBeat = .ok microseconds ∧
      track = settings.title.toList.map (⟨0, .trackName ·⟩) ++ [⟨0, .tempo (microseconds % tempoRange)⟩] ++
        told 0 (messages track) ++ [⟨0, .endOfTrack⟩] := by
  rw [messages_ofEvents made]
  obtain ⟨microseconds, beat, close, rfl⟩ := ofEvents_eq_ok made
  refine ⟨tells_schedule events, ?_, microseconds, beat, rfl⟩
  intro event member
  simp only [List.mem_append, List.mem_map, List.mem_singleton] at member
  rcases member with ((⟨_, _, rfl⟩ | rfl) | note) | rfl
  · exact Nat.two_pow_pos 28
  · exact Nat.two_pow_pos 28
  · exact Nat.lt_succ_of_le (close event note)
  · exact Nat.two_pow_pos 28

/-- A key that is struck again when it is released, and before both notes one that is over
before the piece begins. -/
def meeting : List NoteEvent :=
  [⟨0, 3, 60, 100, 1, 1 / 3⟩, ⟨0, 3, 60, 80, 0, 1⟩, ⟨0, 3, 64, 127, -1 / 2, 1 / 4⟩]

theorem tells_meeting :
    ∃ track, Track.ofEvents meeting { title := some "Canon" } = .ok track ∧ Tells meeting (messages track) ∧
      (messages track).filter (fun one => decide (one.tick = 960) && !one.message.isStrike) = [⟨960, .release 3 60⟩] ∧
      (messages track).filter (fun one => decide (one.tick = 0) && one.message.isStrike) =
        [⟨0, .strike 3 60 80⟩, ⟨0, .strike 3 64 127⟩] := by
  obtain ⟨track, made⟩ : ∃ track, Track.ofEvents meeting { title := some "Canon" } = .ok track :=
    exists_ofEvents (by decide) (by decide) (by decide +kernel)
  have tells := (tells_of_ofEvents made).1
  refine ⟨track, made, tells, ?_, ?_⟩
  · exact (tells.releases 960).trans (by decide +kernel)
  · exact (tells.strikes 0).trans (by decide +kernel)

end StepGrid.Proofs.MidiOrder
