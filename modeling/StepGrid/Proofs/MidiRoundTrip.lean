import StepGrid.Proofs.MidiRestrike
import StepGrid.Proofs.ScoreTimes
import Mathlib.Data.List.Find
import Mathlib.Tactic.Positivity

/-! Reading the notes of a matrix back from its track. A strike and the next release of
its key make a note. On grids with steps of at least a tick this gives every note back,
in order and with both of its times rounded on their own. -/

namespace StepGrid.Proofs.MidiRoundTrip
open Midi MidiSchedule MidiTicks MidiRestrike

/-- A note as a reader of a track finds it; without a release it has no end. -/
structure ReadNote where
  channel : Nat
  key : Nat
  velocity : Nat
  struckAt : Nat
  releasedAt : Option Nat
deriving DecidableEq, Repr

def releases (wanted : Nat × Nat) (one : Timed) : Bool := !one.message.isStrike && decide (keyOf one.message = wanted)

def nextRelease (wanted : Nat × Nat) (later : List Timed) : Option Nat :=
  (later.find? (releases wanted)).map (·.tick)

/-- Every strike with the next release of its key, in the order of the strikes. -/
def readNotes : List Timed → List ReadNote
  | [] => []
  | one :: later =>
    match one.message with
    | .strike channel key velocity => ⟨channel, key, velocity, one.tick, nextRelease (channel, key) later⟩ :: readNotes later
    | .release _ _ => readNotes later

def ReadNote.ofEvent (event : NoteEvent) (finish : Nat) : ReadNote :=
  ⟨event.channel, event.pitch, event.velocity, on event, some finish⟩

/-- Notes in the order of their strikes, each key released before it is struck again. -/
structure Playable (events : List NoteEvent) : Prop where
  ordered : events.Pairwise fun first second => on first ≤ on second
  free : events.Pairwise fun first second => key first = key second → off first ≤ on second

theorem Playable.apart {events : List NoteEvent} (playable : Playable events) (wanted : Nat × Nat) :
    Apart (events.filter (key · = wanted)) := by
  refine (playable.free.filter _).imp_of_mem ?_
  intro first second firstMember secondMember free
  have firstKey : key first = wanted := of_decide_eq_true (List.mem_filter.mp firstMember).2
  have secondKey : key second = wanted := of_decide_eq_true (List.mem_filter.mp secondMember).2
  exact free (firstKey.trans secondKey.symm)

/-- Sorting is stable, so strikes keep the order of their notes. -/
theorem Playable.strikes {events : List NoteEvent} (playable : Playable events) :
    (schedule events).filter (·.message.isStrike) = events.map struck := by
  rw [← strikes_flatMap]
  apply filter_schedule
  rw [strikes_flatMap]
  refine List.pairwise_map.mpr (playable.ordered.imp ?_)
  intro first second le
  refine precedes_iff.mpr ?_
  rcases Nat.lt_or_eq_of_le le with less | same
  · exact .inl less
  · exact .inr ⟨same, fun _ => rfl⟩

/-- Among notes that are apart, the first release after a strike is its own. -/
theorem find?_release {row : List NoteEvent} {event : NoteEvent} (apart : Apart row) (member : event ∈ row) :
    (row.flatMap Timed.ofEvent).find? (fun one => !one.message.isStrike && decide (on event < one.tick)) =
      some (released event) := by
  induction row with
  | nil => cases member
  | cons head rest ih =>
    obtain ⟨later, apartRest⟩ := List.pairwise_cons.mp apart
    rw [List.flatMap_cons, ofEvent_eq, List.cons_append, List.cons_append, List.nil_append,
      List.find?_cons_of_neg (by simp [struck, Message.isStrike])]
    rcases List.mem_cons.mp member with rfl | memberRest
    · exact List.find?_cons_of_pos (by simp [released, Message.isStrike, on_lt_off])
    · have past : off head ≤ on event := later event memberRest
      rw [List.find?_cons_of_neg (by simp [released, Message.isStrike, Nat.not_lt_of_le past])]
      exact ih apartRest memberRest

theorem Playable.find?_release {events : List NoteEvent} {event : NoteEvent} (playable : Playable events)
    (member : event ∈ events) :
    (schedule events).find? (fun one => releases (key event) one && decide (on event < one.tick)) =
      some (released event) := by
  have apart := playable.apart (key event)
  have inRow : event ∈ events.filter (key · = key event) := List.mem_filter.mpr ⟨member, decide_eq_true rfl⟩
  rw [← MidiRoundTrip.find?_release apart inRow, ← onKey_schedule (.refl _) apart, onKey, List.find?_filter]
  refine List.find?_congr fun one _ => ?_
  cases strike : one.message.isStrike <;> simp [releases, strike]

theorem Playable.nextRelease_eq {events : List NoteEvent} {event : NoteEvent} (playable : Playable events)
    (member : event ∈ events) {done later : List Timed} (whole : schedule events = done ++ struck event :: later) :
    nextRelease (key event) later = some (off event) := by
  have sorted := schedule_sorted events
  rw [whole] at sorted
  obtain ⟨_, sortedRest, acrossDone⟩ := List.pairwise_append.mp sorted
  have found := playable.find?_release member
  rw [whole, List.find?_append, List.find?_cons_of_neg (by simp [releases, struck, Message.isStrike])] at found
  -- What was read before the strike is not after it, so the release is still to read.
  have nothing : done.find? (fun one => releases (key event) one && decide (on event < one.tick)) = none := by
    refine List.find?_eq_none.mpr fun one before after => ?_
    have early : one.tick ≤ on event := tick_le_of_precedes (acrossDone one before (struck event) (by simp))
    rw [Bool.and_eq_true, decide_eq_true_iff] at after
    omega
  have same : later.find? (releases (key event)) =
      later.find? fun one => releases (key event) one && decide (on event < one.tick) := by
    refine List.find?_congr fun one after => ?_
    cases release : releases (key event) one with
    | false => rfl
    | true =>
      have notStrike : one.message.isStrike = false := by simpa using (Bool.and_eq_true_iff.mp release).1
      rcases precedes_iff.mp ((List.pairwise_cons.mp sortedRest).1 one after) with less | ⟨_, strikes⟩
      · exact (decide_eq_true less).symm
      · exact absurd (strikes rfl) (by simp [notStrike])
  rw [nothing, Option.none_or, ← same] at found
  rw [nextRelease, found]
  rfl

private theorem readNotes_of_strikes {events left : List NoteEvent} (playable : Playable events)
    (part : ∀ event ∈ left, event ∈ events) (done : List Timed) {rest : List Timed}
    (whole : schedule events = done ++ rest) (strikes : rest.filter (·.message.isStrike) = left.map struck) :
    readNotes rest = left.map fun event => .ofEvent event (off event) := by
  -- The strikes among the messages still to read are those of the notes still to find.
  induction rest generalizing done left with
  | nil =>
    have none : left = [] := List.map_eq_nil_iff.mp strikes.symm
    rw [none]
    rfl
  | cons one later ih =>
    have shape : schedule events = (done ++ [one]) ++ later := by rw [whole, List.append_assoc]; rfl
    cases message : one.message with
    | release channel pitch =>
      rw [List.filter_cons, if_neg (by simp [message, Message.isStrike])] at strikes
      simp only [readNotes, message]
      exact ih part _ shape strikes
    | strike channel pitch velocity =>
      rw [List.filter_cons, if_pos (by simp [message, Message.isStrike])] at strikes
      cases left with
      | nil => cases strikes
      | cons event others =>
        obtain ⟨rfl, strikesLater⟩ := List.cons.inj strikes
        have tail := ih (fun other member => part other (by simp [member])) _ shape strikesLater
        have next := playable.nextRelease_eq (part event (by simp)) whole
        rw [List.map_cons, ← tail, ReadNote.ofEvent, ← next]
        rfl

private theorem readNotes_schedule {events : List NoteEvent} (playable : Playable events) :
    readNotes (schedule events) = events.map fun event => .ofEvent event (off event) :=
  readNotes_of_strikes playable (fun _ member => member) [] (List.nil_append _).symm playable.strikes

/-- No chord of a matrix has two names for one key. -/
def ClearChords (matrix : Json) : Prop :=
  ∀ bars, matrix.items? = some bars → ∀ bar ∈ bars, ∀ row, bar.items? = some row → ∀ item ∈ row,
    ∀ step, Step.classify item = some step → step.names.Pairwise fun first second =>
      ∀ pitch, Pitch.ofName? first = some pitch → Pitch.ofName? second ≠ some pitch

theorem ClearChords.nodup {matrix : Json} (clear : ClearChords matrix) {stepsPerBar : Nat} {steps : List PlacedStep}
    (flattened : Matrix.flatten stepsPerBar matrix = .ok steps) {placed : PlacedStep} (member : placed ∈ steps) :
    (placed.value.names.filterMap Pitch.ofName?).Nodup := by
  obtain ⟨index, found⟩ := List.mem_iff_getElem?.mp member
  obtain ⟨_, _, bars, bar, row, item, matrixItems, barFound, barItems, itemFound, classified⟩ :=
    GridPlaces.placed_of_flatten flattened found
  have apart := clear bars matrixItems bar (List.mem_of_getElem? barFound) row barItems item
    (List.mem_of_getElem? itemFound) placed.value classified
  refine List.pairwise_filterMap.mpr (apart.imp ?_)
  intro first second different pitch firstFound other secondFound same
  exact different pitch firstFound (same ▸ secondFound)

/-- A step of a bar of at most 3840 steps is a tick or more, so every note of such a bar
ends after it starts even when both times are rounded. -/
theorem on_lt_finish {stepsPerBar place held : Nat} {event : NoteEvent} (positive : 1 ≤ stepsPerBar)
    (coarse : stepsPerBar ≤ 3840) (starts : event.start = place * (4 / stepsPerBar))
    (ends : event.finish = (place + 1 + held : Nat) * (4 / stepsPerBar)) : on event < ticks event.finish := by
  have some : (0 : Rat) < stepsPerBar := by exact_mod_cast positive
  have few : (stepsPerBar : Rat) ≤ 3840 := by exact_mod_cast coarse
  have step : (1 : Rat) ≤ 4 / stepsPerBar * ticksPerBeat := by
    have scaled : (4 / stepsPerBar * ticksPerBeat : Rat) = 3840 / stepsPerBar := by
      rw [ticksPerBeat]
      push_cast
      ring
    rw [scaled, le_div_iff₀ some, one_mul]
    exact few
  apply ticks_lt
  · rw [starts]
    positivity
  · have lasts : (event.finish - event.start) * ticksPerBeat = (1 + held) * (4 / stepsPerBar * ticksPerBeat) := by
      rw [starts, ends]
      push_cast
      ring
    rw [lasts]
    have longer : (0 : Rat) ≤ held * (4 / stepsPerBar * ticksPerBeat) := by positivity
    linarith

private theorem playable_of_compiled {matrix : Json} {settings : Settings} {events : List NoteEvent}
    (coarse : settings.stepsPerBar ≤ 3840) (clear : ClearChords matrix)
    (compiled : Score.compileMatrix matrix settings = .ok events) :
    Playable events ∧ ∀ event ∈ events, off event = ticks event.finish := by
  obtain ⟨steps, flattened, played⟩ := ScoreMeaning.compileMatrix_eq_ok.mp compiled
  obtain ⟨nonempty, _, same⟩ := ScoreMeaning.compile_eq_ok played
  have positive : (0 : Rat) < 4 / settings.stepsPerBar := div_pos (by norm_num) (by exact_mod_cast nonempty)
  have aligned := ScoreTimes.aligned_of_flatten flattened settings.channel (clampVelocity settings.velocity)
  have exact : ∀ event ∈ events, off event = ticks event.finish := by
    intro event member
    rw [same] at member
    obtain ⟨index, _, _, starts, ends⟩ := ScoreTimes.times_of_mem_notes aligned member
    exact Nat.max_eq_left (on_lt_finish nonempty coarse starts ends)
  have pairwise := ScoreTimes.notes_pairwise positive aligned fun _ member => clear.nodup flattened member
  rw [← same] at pairwise
  refine ⟨⟨?_, ?_⟩, exact⟩
  · exact pairwise.imp fun both => ticks_mono both.1
  · refine pairwise.imp_of_mem ?_
    intro first second firstMember _ both same
    rw [exact first firstMember]
    exact ticks_mono (both.2 (congrArg Prod.snd same))

/-- The track of a compiled matrix reads back as its notes, in their order and with both
times rounded, and every key alternates, on all grids with steps of at least a tick. -/
theorem readNotes_compiled {matrix : Json} {settings : Settings} {events : List NoteEvent} {track : Track}
    (coarse : settings.stepsPerBar ≤ 3840) (clear : ClearChords matrix)
    (compiled : Score.compileMatrix matrix settings = .ok events)
    (made : Track.ofEvents events settings = .ok track) :
    (∀ wanted, Alternating (onKey wanted (messages track))) ∧
    readNotes (messages track) = events.map fun event =>
      ⟨event.channel, event.pitch, event.velocity, ticks event.start, some (ticks event.finish)⟩ := by
  obtain ⟨playable, exact⟩ := playable_of_compiled coarse clear compiled
  rw [messages_ofEvents made]
  constructor
  · intro wanted
    rw [onKey_schedule (.refl _) (playable.apart wanted)]
    exact alternating_flatMap _
  · rw [readNotes_schedule playable]
    refine List.map_congr_left fun event member => ?_
    rw [ReadNote.ofEvent, exact event member]
    rfl

def restruck : Json :=
  .array [.array [.string "C4", .string "-", .array [.string "C4", .string "E4"]],
    .array [.string "-", .string ".", .string "C4"]]

private theorem clearChords_restruck : ClearChords restruck := by
  unfold ClearChords restruck
  simp only [Json.items?, Option.some.injEq, forall_eq', List.forall_mem_cons, List.not_mem_nil, false_imp_iff,
    implies_true, and_true]
  refine ⟨⟨?_, ?_, ?_⟩, ?_, ?_, ?_⟩
  all_goals rintro step ⟨⟩
  case refine_3 =>
    refine List.pairwise_pair.mpr fun pitch first second => ?_
    exact absurd (first.trans second.symm) (by decide +kernel)
  case refine_1 | refine_6 => exact List.pairwise_singleton _ _
  case refine_2 | refine_4 | refine_5 => exact .nil

theorem readNotes_restruck :
    ∃ events track, Score.compileMatrix restruck { stepsPerBar := 3 } = .ok events ∧
      Track.ofEvents events { stepsPerBar := 3 } = .ok track ∧
      readNotes (messages track) = [⟨0, 60, 100, 0, some 2560⟩, ⟨0, 60, 100, 2560, some 5120⟩,
        ⟨0, 64, 100, 2560, some 5120⟩, ⟨0, 60, 100, 6400, some 7680⟩] := by
  let row : List PlacedStep := [⟨0, 0, .note "C4"⟩, ⟨0, 1, .sustain⟩, ⟨0, 2, .chord ["C4", "E4"]⟩,
    ⟨1, 0, .sustain⟩, ⟨1, 1, .rest⟩, ⟨1, 2, .note "C4"⟩]
  let voice : Voice := ⟨4 / (3 : Nat), 0, clampVelocity 100⟩
  let events := ScoreMeaning.notes voice row
  have ofGrid : Voice.ofGrid 3 0 100 = .ok voice :=
    ScoreMeaning.ofGrid_eq_ok.mpr ⟨⟨by decide, by decide, by decide⟩, rfl⟩
  have compiled : Score.compileMatrix restruck { stepsPerBar := 3 } = .ok events :=
    ScoreMeaning.compileMatrix_eq_ok.mpr ⟨row, rfl, ScoreMeaning.compile_eq_perform ofGrid row⟩
  have fits : ∀ event ∈ events, misfit? event = none := by decide +kernel
  have short : ∀ event ∈ events, off event ≤ longestGap := by decide +kernel
  obtain ⟨track, made⟩ : ∃ track, Track.ofEvents events { stepsPerBar := 3 } = .ok track :=
    exists_ofEvents fits (by decide) short
  have read := (readNotes_compiled (by decide) clearChords_restruck compiled made).2
  exact ⟨events, track, compiled, made, read.trans (by decide +kernel)⟩

end StepGrid.Proofs.MidiRoundTrip
