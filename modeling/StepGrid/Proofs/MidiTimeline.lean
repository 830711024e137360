import StepGrid.Proofs.MidiSchedule
import StepGrid.Proofs.MidiTicks
import Mathlib.Data.List.Forall2

/-! The ticks of some notes in the order of time. They are told by the notes alone, each end of a
note going to its nearest tick, and are the ticks at which a track has its messages. Notes have
no track if two neighbours of them are too far apart. -/

namespace StepGrid.Proofs.MidiTimeline
open Midi MidiSchedule MidiTicks

/-- The ticks at which a note is struck and released. -/
structure Ends (event : NoteEvent) (first last : Nat) : Prop where
  strike : Nearest event.start first
  release : ∃ tick, Nearest event.finish tick ∧ last = max tick (first + 1)

structure Timeline (events : List NoteEvent) (ticks : List Nat) : Prop where
  all : ∃ ends : List (Nat × Nat), List.Forall₂ (fun event pair => Ends event pair.1 pair.2) events ends ∧
    ticks.Perm (ends.flatMap fun pair => [pair.1, pair.2])
  sorted : ticks.Pairwise (· ≤ ·)

theorem ends_iff {event : NoteEvent} {first last : Nat} :
    Ends event first last ↔ first = on event ∧ last = off event := by
  constructor
  · rintro ⟨strike, tick, release, rfl⟩
    obtain rfl := nearest_iff.mp strike
    obtain rfl := nearest_iff.mp release
    exact ⟨rfl, rfl⟩
  · rintro ⟨rfl, rfl⟩
    exact ⟨nearest_iff.mpr rfl, _, nearest_iff.mpr rfl, rfl⟩

private theorem forall₂_ends {events : List NoteEvent} {ends : List (Nat × Nat)} :
    List.Forall₂ (fun event pair => Ends event pair.1 pair.2) events ends ↔
      ends = events.map fun event => (on event, off event) := by
  constructor
  · intro each
    induction each with
    | nil => rfl
    | cons both _ ih =>
      obtain ⟨strike, release⟩ := ends_iff.mp both
      rw [List.map_cons, ← ih, ← strike, ← release]
  · rintro rfl
    exact List.forall₂_map_right_iff.mpr (List.forall₂_same.mpr fun event _ => ends_iff.mpr ⟨rfl, rfl⟩)

theorem timeline_iff {events : List NoteEvent} {ticks : List Nat} : Timeline events ticks ↔
    ticks.Perm (events.flatMap fun event => [on event, off event]) ∧ ticks.Pairwise (· ≤ ·) := by
  constructor
  · rintro ⟨⟨ends, each, all⟩, sorted⟩
    rw [forall₂_ends.mp each, List.flatMap_map] at all
    exact ⟨all, sorted⟩
  · rintro ⟨all, sorted⟩
    refine ⟨⟨_, forall₂_ends.mpr rfl, ?_⟩, sorted⟩
    rwa [List.flatMap_map]

theorem timeline_schedule (events : List NoteEvent) : Timeline events ((schedule events).map (·.tick)) := by
  apply timeline_iff.mpr
  constructor
  · have ticks : (events.flatMap Timed.ofEvent).map (·.tick) = events.flatMap fun event => [on event, off event] := by
      rw [List.map_flatMap]
      rfl
    exact ticks ▸ (schedule_perm events).map (·.tick)
  · exact List.pairwise_map.mpr ((schedule_sorted events).imp tick_le_of_precedes)

/-- Notes have one timeline. -/
theorem Timeline.eq_schedule {events : List NoteEvent} {ticks : List Nat} (timeline : Timeline events ticks) :
    ticks = (schedule events).map (·.tick) := by
  obtain ⟨all, sorted⟩ := timeline_iff.mp timeline
  obtain ⟨allToo, sortedToo⟩ := timeline_iff.mp (timeline_schedule events)
  exact List.Perm.eq_of_pairwise (fun _ _ _ _ => Nat.le_antisymm) sorted sortedToo (all.trans allToo.symm)

theorem forward_schedule (events : List NoteEvent) : (0 :: (schedule events).map (·.tick)).Pairwise (· ≤ ·) :=
  List.pairwise_cons.mpr ⟨fun _ _ => Nat.zero_le _, (timeline_schedule events).sorted⟩

section Gaps

def FarApart (ticks : List Nat) : Prop :=
  ∃ before first second after, ticks = before ++ first :: second :: after ∧ first + longestGap < second

theorem not_farApart_singleton (tick : Nat) : ¬ FarApart [tick] := by
  rintro ⟨before, first, second, after, same, _⟩
  have length := congrArg List.length same
  simp at length
  omega

theorem farApart_cons {first second : Nat} {rest : List Nat} :
    FarApart (first :: second :: rest) ↔ first + longestGap < second ∨ FarApart (second :: rest) := by
  constructor
  · rintro ⟨before, one, other, after, same, far⟩
    cases before with
    | nil =>
      obtain ⟨rfl, tail⟩ := List.cons.inj same
      obtain ⟨rfl, _⟩ := List.cons.inj tail
      exact .inl far
    | cons _ before => exact .inr ⟨before, one, other, after, (List.cons.inj same).2, far⟩
  · rintro (far | ⟨before, one, other, after, same, far⟩)
    · exact ⟨[], first, second, rest, rfl, far⟩
    · exact ⟨first :: before, one, other, after, by rw [same]; rfl, far⟩

theorem delta_le_iff {now : Nat} {timed : List Timed} :
    (∀ event ∈ told now timed, event.delta ≤ longestGap) ↔ ¬ FarApart (now :: timed.map (·.tick)) := by
  induction timed generalizing now with
  | nil => exact iff_of_true nofun (not_farApart_singleton now)
  | cons one rest ih =>
    rw [told, List.forall_mem_cons, ih, List.map_cons, farApart_cons, not_or]
    have near : one.tick - now ≤ longestGap ↔ ¬ now + longestGap < one.tick := by omega
    rw [near]

/-- The first neighbours that are further apart than a track can tell, by how far they are. -/
def FirstGap (ticks : List Nat) (size : Nat) : Prop :=
  ∃ before first second after, ticks = before ++ first :: second :: after ∧ ¬ FarApart (before ++ [first]) ∧
    first + longestGap < second ∧ size = second - first

private theorem FirstGap.farApart {ticks : List Nat} {size : Nat} (found : FirstGap ticks size) : FarApart ticks := by
  obtain ⟨before, first, second, after, same, _, far, _⟩ := found
  exact ⟨before, first, second, after, same, far⟩

/-- One more tick in front of the ticks up to some place. -/
theorem farApart_cons_append {first second last : Nat} {rest before after : List Nat}
    (same : second :: rest = before ++ last :: after) :
    FarApart (first :: (before ++ [last])) ↔ first + longestGap < second ∨ FarApart (before ++ [last]) := by
  cases before with
  | nil =>
    cases same
    exact farApart_cons
  | cons _ before =>
    obtain ⟨rfl, _⟩ := List.cons.inj same
    exact farApart_cons

theorem firstGap_cons {first second size : Nat} {rest : List Nat} :
    FirstGap (first :: second :: rest) size ↔ first + longestGap < second ∧ size = second - first ∨
      ¬ first + longestGap < second ∧ FirstGap (second :: rest) size := by
  constructor
  · rintro ⟨before, one, other, after, same, near, far, told⟩
    cases before with
    | nil =>
      cases same
      exact .inl ⟨far, told⟩
    | cons _ before =>
      obtain ⟨rfl, tail⟩ := List.cons.inj same
      obtain ⟨close, nearRest⟩ := not_or.mp ((farApart_cons_append tail).not.mp near)
      exact .inr ⟨close, before, one, other, after, tail, nearRest, far, told⟩
  · rintro (⟨far, told⟩ | ⟨close, before, one, other, after, same, near, far, told⟩)
    · exact ⟨[], first, second, rest, rfl, not_farApart_singleton first, far, told⟩
    · have nearAll := (farApart_cons_append same).not.mpr (not_or.mpr ⟨close, near⟩)
      exact ⟨first :: before, one, other, after, congrArg (first :: ·) same, nearAll, far, told⟩

theorem spread_eq_error {done : Track} {now : Nat} {timed : List Timed} {error : Error} :
    spread done now timed = .error error ↔ ∃ size, FirstGap (now :: timed.map (·.tick)) size ∧ error = .gap size := by
  induction timed generalizing done now with
  | nil =>
    refine iff_of_false nofun ?_
    rintro ⟨_, found, _⟩
    exact not_farApart_singleton now found.farApart
  | cons one rest ih =>
    have apart : longestGap < one.tick - now ↔ now + longestGap < one.tick := by omega
    simp only [spread, List.map_cons, firstGap_cons, apart]
    split
    next far => simp [far, eq_comm]
    next close => simp [close, ih]

end Gaps

theorem farApart_timeline {events : List NoteEvent} :
    (∃ ticks, Timeline events ticks ∧ FarApart (0 :: ticks)) ↔ FarApart (0 :: (schedule events).map (·.tick)) := by
  constructor
  · rintro ⟨ticks, timeline, far⟩
    exact timeline.eq_schedule ▸ far
  · exact fun far => ⟨_, timeline_schedule events, far⟩

end StepGrid.Proofs.MidiTimeline
