import StepGrid.Proofs.MessageTexts
import StepGrid.Proofs.MidiWritable

/-! What keeps notes from becoming a track, whatever the notes and the settings are. Fields
are looked at in the order of the notes and before the tempo, gaps in the order of the
track and last of all. -/

namespace StepGrid.Proofs.MidiVerdicts
open Midi MessageTexts MidiSchedule MidiTimeline MidiWritable

section Fields

def Fits (event : NoteEvent) : Prop :=
  event.channel ≤ 15 ∧ event.pitch ≤ 127 ∧ 1 ≤ event.velocity ∧ event.velocity ≤ 127

/-- The first field of a note without a place in a message. -/
inductive Misfit (event : NoteEvent) : MessageField → Prop where
  | channel (high : 15 < event.channel) : Misfit event (.channel event.channel)
  | pitch (channel : event.channel ≤ 15) (high : 127 < event.pitch) : Misfit event (.pitch event.pitch)
  | velocity (channel : event.channel ≤ 15) (pitch : event.pitch ≤ 127)
      (outside : event.velocity = 0 ∨ 127 < event.velocity) : Misfit event (.velocity event.velocity)

theorem misfit?_eq_some {event : NoteEvent} {field : MessageField} :
    misfit? event = some field ↔ Misfit event field := by
  unfold misfit? highestChannel
  constructor
  · intro found
    split at found
    next high =>
      cases found
      exact .channel high
    next channel =>
      split at found
      next high =>
        cases found
        exact .pitch (Nat.le_of_not_lt channel) high
      next pitch =>
        split at found
        next outside =>
          cases found
          exact .velocity (Nat.le_of_not_lt channel) (Nat.le_of_not_lt pitch) (by omega)
        next => cases found
  · rintro (high | ⟨channel, high⟩ | ⟨channel, pitch, outside⟩)
    · rw [if_pos high]
    · rw [if_neg (Nat.not_lt_of_le channel), if_pos high]
    · rw [if_neg (Nat.not_lt_of_le channel), if_neg (Nat.not_lt_of_le pitch), if_pos (by omega)]

theorem fits_iff {event : NoteEvent} : Fits event ↔ misfit? event = none := misfit?_eq_none.symm

theorem checkFields_eq_ok {event : NoteEvent} : checkFields event = .ok () ↔ Fits event := by
  rw [fits_iff, checkFields]
  cases misfit? event <;> simp

theorem checkFields_eq_error {event : NoteEvent} {error : Error} :
    checkFields event = .error error ↔ ∃ field, Misfit event field ∧ error = .unplayable event.start field := by
  simp only [← misfit?_eq_some, checkFields]
  cases misfit? event <;> simp [eq_comm]

theorem forM_checkFields_eq_ok {events : List NoteEvent} :
    events.forM checkFields = .ok () ↔ ∀ event ∈ events, Fits event := by
  simp only [fits_iff]
  exact ⟨misfit?_of_forM, forM_checkFields⟩

end Fields

/-- What is wrong with notes that have no track. -/
inductive Fails (events : List NoteEvent) (settings : Settings) : Error → Prop where
  | unplayable {index : Nat} {event : NoteEvent} {field : MessageField} (found : events[index]? = some event)
      (before : ∀ earlier < index, ∀ one, events[earlier]? = some one → Fits one) (misfit : Misfit event field) :
      Fails events settings (.unplayable event.start field)
  | stoppedTempo (fits : ∀ event ∈ events, Fits event) (stopped : settings.tempo = 0) : Fails events settings .stoppedTempo
  | gap {ticks : List Nat} {size : Nat} (fits : ∀ event ∈ events, Fits event) (moving : settings.tempo ≠ 0)
      (timeline : Timeline events ticks) (first : FirstGap (0 :: ticks) size) : Fails events settings (.gap size)

section Stages
variable {events : List NoteEvent} {settings : Settings} {error : Error}

theorem forM_checkFields_eq_error : events.forM checkFields = .error error ↔ ∃ (index : Nat) (event : NoteEvent)
    (field : MessageField),
    events[index]? = some event ∧ (∀ earlier < index, ∀ one, events[earlier]? = some one → Fits one) ∧
    Misfit event field ∧ error = .unplayable event.start field := by
  simp only [forM_eq_error, checkFields_eq_error, checkFields_eq_ok]
  constructor
  · rintro ⟨index, event, found, ⟨field, misfit, told⟩, before⟩
    exact ⟨index, event, field, found, before, misfit, told⟩
  · rintro ⟨index, event, field, found, before, misfit, told⟩
    exact ⟨index, event, found, ⟨field, misfit, told⟩, before⟩

theorem ofEvents_eq_error : Track.ofEvents events settings = .error error ↔ events.forM checkFields = .error error ∨
    events.forM checkFields = .ok () ∧ (settings.microsecondsPerBeat = .error error ∨
      (∃ microseconds, settings.microsecondsPerBeat = .ok microseconds) ∧ spread [] 0 (schedule events) = .error error) := by
  unfold Track.ofEvents
  simp only [bind_eq_error, pure, Except.pure, reduceCtorEq, and_false, exists_false, or_false]
  constructor
  · rintro (misfit | ⟨_, fits, stopped | ⟨microseconds, moving, far⟩⟩)
    · exact .inl misfit
    · exact .inr ⟨fits, .inl stopped⟩
    · exact .inr ⟨fits, .inr ⟨⟨microseconds, moving⟩, far⟩⟩
  · rintro (misfit | ⟨fits, stopped | ⟨⟨microseconds, moving⟩, far⟩⟩)
    · exact .inl misfit
    · exact .inr ⟨(), fits, .inl stopped⟩
    · exact .inr ⟨(), fits, .inr ⟨microseconds, moving, far⟩⟩

theorem microsecondsPerBeat_eq_error :
    settings.microsecondsPerBeat = .error error ↔ settings.tempo = 0 ∧ error = .stoppedTempo := by
  unfold Settings.microsecondsPerBeat
  split <;> simp_all [eq_comm]

theorem exists_microsecondsPerBeat :
    (∃ microseconds, settings.microsecondsPerBeat = .ok microseconds) ↔ settings.tempo ≠ 0 := by
  unfold Settings.microsecondsPerBeat
  split <;> simp_all

theorem exists_ofEvents_iff : (∃ track, Track.ofEvents events settings = .ok track) ↔ (∀ event ∈ events, Fits event) ∧
    settings.tempo ≠ 0 ∧ ¬ FarApart (0 :: (schedule events).map (·.tick)) := by
  constructor
  · rintro ⟨track, made⟩
    obtain ⟨_, fits, rest⟩ := bind_eq_ok.mp made
    obtain ⟨microseconds, beat, rest⟩ := bind_eq_ok.mp rest
    obtain ⟨notes, accepted, _⟩ := bind_eq_ok.mp rest
    refine ⟨forM_checkFields_eq_ok.mp fits, exists_microsecondsPerBeat.mp ⟨_, beat⟩, ?_⟩
    exact delta_le_iff.mp (spread_eq_ok.mp accepted).1
  · rintro ⟨fits, moving, near⟩
    obtain ⟨microseconds, beat⟩ := exists_microsecondsPerBeat.mpr moving
    have accepted : spread [] 0 (schedule events) = .ok (told 0 (schedule events)) :=
      spread_eq_ok.mpr ⟨delta_le_iff.mpr near, rfl⟩
    rw [ofEvents_eq (fun event member => fits_iff.mp (fits event member)) beat, accepted]
    exact ⟨_, rfl⟩

end Stages

/-- Notes have no track for one reason at most, the one that is found first, and have a track
if there is none. The message of a reason tells its beat and field, or the size of its gap. -/
theorem ofEvents_eq_error_iff_fails (events : List NoteEvent) (settings : Settings) :
    (∀ error, Track.ofEvents events settings = .error error ↔ Fails events settings error) ∧
    ((∃ track, Track.ofEvents events settings = .ok track) ↔ (∀ event ∈ events, Fits event) ∧ settings.tempo ≠ 0 ∧
      ∀ ticks, Timeline events ticks → ¬ FarApart (0 :: ticks)) ∧
    (∀ start field size, Error.message (.unplayable start field) =
        "MIDI encoding failed: " ++ ("note at beat " ++ fractionText start ++ ": " ++ field.phrase) ∧
      Error.message (.gap size) =
        "MIDI encoding failed: " ++ ("gap of " ++ toString size ++ " ticks between events is too long for a MIDI file")) ∧
    (∀ start field other second, Error.message (.unplayable start field) = Error.message (.unplayable other second) →
      start = other ∧ field = second) ∧
    ∀ size other, Error.message (.gap size) = Error.message (.gap other) → size = other := by
  refine ⟨fun error => ?_, ?_, fun start field size => ⟨message_unplayable start field, message_gap size⟩,
    fun _ _ _ _ => message_unplayable_inj, fun _ _ => message_gap_inj⟩
  · rw [ofEvents_eq_error, forM_checkFields_eq_error, forM_checkFields_eq_ok, microsecondsPerBeat_eq_error,
      exists_microsecondsPerBeat, spread_eq_error]
    constructor
    · rintro (⟨index, event, field, found, before, misfit, rfl⟩ | ⟨fits, ⟨stopped, rfl⟩ | ⟨moving, size, first, rfl⟩⟩)
      · exact .unplayable found before misfit
      · exact .stoppedTempo fits stopped
      · exact .gap fits moving (timeline_schedule events) first
    · intro fails
      cases fails with
      | unplayable found before misfit => exact .inl ⟨_, _, _, found, before, misfit, rfl⟩
      | stoppedTempo fits stopped => exact .inr ⟨fits, .inl ⟨stopped, rfl⟩⟩
      | gap fits moving timeline first => exact .inr ⟨fits, .inr ⟨moving, _, timeline.eq_schedule ▸ first, rfl⟩⟩
  · rw [exists_ofEvents_iff]
    constructor
    · rintro ⟨fits, moving, near⟩
      exact ⟨fits, moving, fun ticks timeline => timeline.eq_schedule ▸ near⟩
    · rintro ⟨fits, moving, near⟩
      exact ⟨fits, moving, near _ (timeline_schedule events)⟩

/-- A note out of range is told before a stopped tempo, and by its channel although its
velocity is out of range as well. -/
example : Track.ofEvents [⟨0, 0, 60, 100, 1, 1⟩, ⟨0, 16, 60, 0, 1 / 2, 1⟩, ⟨0, 0, 128, 100, 0, 1⟩] { tempo := 0 } =
    .error (.unplayable (1 / 2) (.channel 16)) := rfl

end StepGrid.Proofs.MidiVerdicts
