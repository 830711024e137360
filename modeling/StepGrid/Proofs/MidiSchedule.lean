import StepGrid.Midi.Track
import StepGrid.Proofs.FallibleMap
import Mathlib.Data.List.Basic

/-! Reading a track back. Adding up the times between its events gives the messages of
all notes again, sorted by tick and with releases first. -/

namespace StepGrid.Proofs.MidiSchedule
open Midi

def messagesFrom (now : Nat) : Track → List Timed
  | [] => []
  | event :: rest =>
    match event.kind with
    | .note message => ⟨now + event.delta, message⟩ :: messagesFrom (now + event.delta) rest
    | .trackName _ | .tempo _ | .endOfTrack => messagesFrom (now + event.delta) rest

def messages (track : Track) : List Timed := messagesFrom 0 track

def on (event : NoteEvent) : Nat := ticks event.start

/-- The tick at which a note is released, at least one after its strike. -/
def off (event : NoteEvent) : Nat := max (ticks event.finish) (on event + 1)

def struck (event : NoteEvent) : Timed := ⟨on event, .strike event.channel event.pitch event.velocity⟩

def released (event : NoteEvent) : Timed := ⟨off event, .release event.channel event.pitch⟩

theorem ofEvent_eq (event : NoteEvent) : Timed.ofEvent event = [struck event, released event] := rfl

theorem on_lt_off (event : NoteEvent) : on event < off event := Nat.le_max_right _ _

def keyOf : Message → Nat × Nat
  | .strike channel key _ => (channel, key)
  | .release channel key => (channel, key)

def key (event : NoteEvent) : Nat × Nat := (event.channel, event.pitch)

def onKey (key : Nat × Nat) (timed : List Timed) : List Timed := timed.filter fun one => keyOf one.message = key

theorem onKey_append (wanted : Nat × Nat) (first second : List Timed) :
    onKey wanted (first ++ second) = onKey wanted first ++ onKey wanted second := List.filter_append ..

theorem precedes_iff {first second : Timed} :
    Timed.precedes first second = true ↔ first.tick < second.tick ∨
      first.tick = second.tick ∧ (first.message.isStrike = true → second.message.isStrike = true) := by
  cases firstKind : first.message.isStrike <;> simp [Timed.precedes, firstKind]

private theorem precedes_trans (first second third : Timed) (before : Timed.precedes first second = true)
    (after : Timed.precedes second third = true) : Timed.precedes first third = true := by
  rw [precedes_iff] at before after ⊢
  rcases before with less | ⟨same, strikes⟩
  · rcases after with later | ⟨equal, _⟩ <;> omega
  · rcases after with later | ⟨equal, strikesToo⟩
    · omega
    · exact .inr ⟨same.trans equal, fun strike => strikesToo (strikes strike)⟩

private theorem precedes_total (first second : Timed) :
    (Timed.precedes first second || Timed.precedes second first) = true := by
  rw [Bool.or_eq_true, precedes_iff, precedes_iff]
  rcases Nat.lt_trichotomy first.tick second.tick with less | same | more
  · exact .inl (.inl less)
  · cases strike : second.message.isStrike with
    | true => exact .inl (.inr ⟨same, fun _ => rfl⟩)
    | false => exact .inr (.inr ⟨same.symm, nofun⟩)
  · exact .inr (.inl more)

theorem tick_le_of_precedes {first second : Timed} (before : Timed.precedes first second = true) :
    first.tick ≤ second.tick := by
  rcases precedes_iff.mp before with less | ⟨same, _⟩ <;> omega

theorem schedule_sorted (events : List NoteEvent) : (schedule events).Pairwise (Timed.precedes · ·) :=
  List.pairwise_mergeSort precedes_trans precedes_total _

theorem schedule_perm (events : List NoteEvent) : (schedule events).Perm (events.flatMap Timed.ofEvent) :=
  List.mergeSort_perm _ _

/-- Sorting is stable: messages that stand in order already keep it, whatever else stands
between them. -/
theorem filter_schedule {events : List NoteEvent} {kept : Timed → Bool}
    (ordered : ((events.flatMap Timed.ofEvent).filter kept).Pairwise (Timed.precedes · ·)) :
    (schedule events).filter kept = (events.flatMap Timed.ofEvent).filter kept := by
  have part : ((events.flatMap Timed.ofEvent).filter kept).Sublist (schedule events) :=
    List.sublist_mergeSort precedes_trans precedes_total ordered List.filter_sublist
  have inside := part.filter kept
  simp only [List.filter_filter, Bool.and_self] at inside
  exact (inside.eq_of_length ((schedule_perm events).filter kept).length_eq.symm).symm

theorem strikes_flatMap (events : List NoteEvent) :
    (events.flatMap Timed.ofEvent).filter (·.message.isStrike) = events.map struck := by
  induction events with
  | nil => rfl
  | cons event rest ih =>
    rw [List.flatMap_cons, List.filter_append, ih]
    rfl

def told (now : Nat) : List Timed → Track
  | [] => []
  | timed :: rest => ⟨timed.tick - now, .note timed.message⟩ :: told timed.tick rest

/-- A time that is no longer than the longest one is stored whole. -/
theorem mod_gapRange {gap : Nat} (close : ¬ longestGap < gap) : gap % gapRange = gap :=
  Nat.mod_eq_of_lt (Nat.lt_succ_of_le (Nat.le_of_not_lt close))

/-- Messages are told if no time between them is too long, and every time is then stored
as it is. -/
theorem spread_eq_ok {done notes : Track} {now : Nat} {timed : List Timed} :
    spread done now timed = .ok notes ↔
      (∀ event ∈ told now timed, event.delta ≤ longestGap) ∧ notes = done.reverse ++ told now timed := by
  induction timed generalizing done now with
  | nil =>
    rw [spread, told, List.append_nil, Except.ok.injEq, eq_comm]
    exact (and_iff_right nofun).symm
  | cons one rest ih =>
    rw [spread, told, List.forall_mem_cons]
    split
    next far =>
      refine ⟨nofun, ?_⟩
      rintro ⟨⟨close, _⟩, _⟩
      exact absurd far (Nat.not_lt_of_le close)
    next close =>
      rw [ih, mod_gapRange close, List.reverse_cons, List.append_assoc, List.singleton_append,
        and_iff_right (Nat.le_of_not_lt close)]

/-- Times between messages add up to the ticks of the messages, provided these never
go back. -/
theorem messagesFrom_told {now : Nat} {timed : List Timed} {rest : Track}
    (ordered : timed.Pairwise fun first second => first.tick ≤ second.tick) (reached : ∀ one ∈ timed, now ≤ one.tick)
    (silent : ∀ tick, messagesFrom tick rest = []) : messagesFrom now (told now timed ++ rest) = timed := by
  induction timed generalizing now with
  | nil => exact silent now
  | cons one others ih =>
    obtain ⟨later, orderedRest⟩ := List.pairwise_cons.mp ordered
    have sum : now + (one.tick - now) = one.tick := by
      have := reached one (by simp)
      omega
    simp only [told, List.cons_append, messagesFrom, sum]
    rw [ih orderedRest later]

/-- The events of a track: names and tempo, then all messages, then its end. -/
theorem ofEvents_eq_ok {events : List NoteEvent} {settings : Settings} {track : Track}
    (made : Track.ofEvents events settings = .ok track) :
    ∃ microseconds, settings.microsecondsPerBeat = .ok microseconds ∧
      (∀ event ∈ told 0 (schedule events), event.delta ≤ longestGap) ∧
      track = settings.title.toList.map (⟨0, .trackName ·⟩) ++ [⟨0, .tempo (microseconds % tempoRange)⟩] ++
        told 0 (schedule events) ++ [⟨0, .endOfTrack⟩] := by
  unfold Track.ofEvents at made
  obtain ⟨_, _, rest⟩ := bind_eq_ok.mp made
  obtain ⟨microseconds, beat, rest⟩ := bind_eq_ok.mp rest
  obtain ⟨notes, accepted, last⟩ := bind_eq_ok.mp rest
  obtain ⟨close, rfl⟩ := spread_eq_ok.mp accepted
  exact ⟨microseconds, beat, close, (Except.ok.inj last).symm⟩

theorem messages_ofEvents {events : List NoteEvent} {settings : Settings} {track : Track}
    (made : Track.ofEvents events settings = .ok track) : messages track = schedule events := by
  obtain ⟨microseconds, _, _, rfl⟩ := ofEvents_eq_ok made
  have ordered := (schedule_sorted events).imp tick_le_of_precedes
  have read : messagesFrom 0 (told 0 (schedule events) ++ [⟨0, .endOfTrack⟩]) = schedule events :=
    messagesFrom_told ordered (fun _ _ => Nat.zero_le _) (fun _ => rfl)
  cases title : settings.title with
  | none => exact read
  | some name => exact read

private theorem delta_le_of_told {timed : List Timed} (near : ∀ one ∈ timed, one.tick ≤ longestGap) (now : Nat) :
    ∀ event ∈ told now timed, event.delta ≤ longestGap := by
  induction timed generalizing now with
  | nil => exact nofun
  | cons one rest ih =>
    obtain ⟨nearOne, nearRest⟩ := List.forall_mem_cons.mp near
    exact List.forall_mem_cons.mpr ⟨Nat.le_trans (Nat.sub_le _ _) nearOne, ih nearRest one.tick⟩

theorem forM_checkFields {events : List NoteEvent} (fits : ∀ event ∈ events, misfit? event = none) :
    events.forM checkFields = .ok () := by
  induction events with
  | nil => rfl
  | cons event rest ih =>
    have first : checkFields event = .ok () := by rw [checkFields, fits event (by simp)]
    exact bind_eq_ok.mpr ⟨(), first, ih (fun other member => fits other (by simp [member]))⟩

theorem misfit?_of_forM {events : List NoteEvent} (checked : events.forM checkFields = .ok ()) :
    ∀ event ∈ events, misfit? event = none := by
  induction events with
  | nil => exact nofun
  | cons event rest ih =>
    obtain ⟨_, first, others⟩ := bind_eq_ok.mp checked
    refine List.forall_mem_cons.mpr ⟨?_, ih others⟩
    unfold checkFields at first
    split at first
    next => cases first
    next fits => exact fits

theorem misfit?_eq_none {event : NoteEvent} :
    misfit? event = none ↔
      event.channel ≤ highestChannel ∧ event.pitch ≤ 127 ∧ 1 ≤ event.velocity ∧ event.velocity ≤ 127 := by
  unfold misfit?
  split
  next => exact iff_of_false nofun (by omega)
  next =>
    split
    next => exact iff_of_false nofun (by omega)
    next =>
      split
      next => exact iff_of_false nofun (by omega)
      next => exact iff_of_true rfl (by omega)

theorem mem_schedule {events : List NoteEvent} {one : Timed} :
    one ∈ schedule events ↔ ∃ event ∈ events, one = struck event ∨ one = released event := by
  rw [(schedule_perm events).mem_iff, List.mem_flatMap]
  simp only [ofEvent_eq, List.mem_cons, List.not_mem_nil, or_false]

/-- The events of all notes, without those that stand around them in a track. -/
def noteTrack (events : List NoteEvent) : Except Error Track := do
  events.forM checkFields
  spread [] 0 (schedule events)

theorem ofEvents_eq_map (events : List NoteEvent) {settings : Settings} {microseconds : Nat}
    (beat : settings.microsecondsPerBeat = .ok microseconds) :
    Track.ofEvents events settings = (noteTrack events).map fun notes =>
      settings.title.toList.map (⟨0, .trackName ·⟩) ++ [⟨0, .tempo (microseconds % tempoRange)⟩] ++ notes ++
        [⟨0, .endOfTrack⟩] := by
  unfold Track.ofEvents noteTrack
  rw [beat]
  cases events.forM checkFields with
  | error error => rfl
  | ok _ => cases spread [] 0 (schedule events) <;> rfl

/-- Notes that fit their messages have a track unless their messages are too far apart. -/
theorem ofEvents_eq {events : List NoteEvent} {settings : Settings} {microseconds : Nat}
    (fits : ∀ event ∈ events, misfit? event = none) (beat : settings.microsecondsPerBeat = .ok microseconds) :
    Track.ofEvents events settings = (spread [] 0 (schedule events)).map fun notes =>
      settings.title.toList.map (⟨0, .trackName ·⟩) ++ [⟨0, .tempo (microseconds % tempoRange)⟩] ++ notes ++
        [⟨0, .endOfTrack⟩] := by
  rw [ofEvents_eq_map events beat, noteTrack, forM_checkFields fits]
  rfl

/-- Notes that fit their messages have a track if all of them end early enough. -/
theorem exists_ofEvents {events : List NoteEvent} {settings : Settings}
    (fits : ∀ event ∈ events, misfit? event = none) (moving : settings.tempo ≠ 0)
    (short : ∀ event ∈ events, off event ≤ longestGap) : ∃ track, Track.ofEvents events settings = .ok track := by
  have near : ∀ one ∈ schedule events, one.tick ≤ longestGap := by
    intro one member
    obtain ⟨event, present, rfl | rfl⟩ := mem_schedule.mp member
    · exact Nat.le_trans (Nat.le_of_lt (on_lt_off event)) (short event present)
    · exact short event present
  have beat : settings.microsecondsPerBeat = .ok (60000000 / settings.tempo) := if_neg moving
  have accepted : spread [] 0 (schedule events) = .ok (told 0 (schedule events)) :=
    spread_eq_ok.mpr ⟨delta_le_of_told near 0, rfl⟩
  rw [ofEvents_eq fits beat, accepted]
  exact ⟨_, rfl⟩

end StepGrid.Proofs.MidiSchedule
