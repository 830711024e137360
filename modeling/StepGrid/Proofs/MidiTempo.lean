import StepGrid.Proofs.MidiDecoding

/-! Where a tempo stands in a file. It has three bytes behind the name of the piece, and no
other byte of the file depends on it, nor whether there is a file at all. -/

namespace StepGrid.Proofs.MidiTempo
open Midi MidiReader MidiDecoding MidiSchedule

def nameBytes (title : Option String) : Bytes :=
  title.elim [] fun title => 0x00 :: metaEvent 0x03 title.toUTF8.toList

/-- All bytes of a file in front of its tempo: the header, the length of the track, the name,
and how the event of a tempo begins. -/
def opening (title : Option String) (length : Nat) : Bytes :=
  headerTag ++ [0, 0, 0, 6, 0, 0, 0, 1, 0x03, 0xc0] ++ trackTag ++ bigEndian length 4 ++ nameBytes title ++
    [0x00, 0xff, 0x51, 0x03]

def tempoPlace (title : Option String) : Nat := 26 + (nameBytes title).length

/-- A file with the tempo of its settings, the number of microseconds in a beat. -/
def HasTempo (settings : Settings) (bytes : Bytes) : Prop :=
  ∃ length tempo rest, bytes = opening settings.title length ++ tempo ++ rest ∧ tempo.length = 3 ∧
    number tempo = 60000000 / settings.tempo

/-- Two files of one length with their own tempos and no other difference. -/
structure DifferInTempo (first second : Settings) (one other : Bytes) : Prop where
  length : one.length = other.length
  elsewhere : ∀ index, index < tempoPlace first.title ∨ tempoPlace first.title + 3 ≤ index → one[index]? = other[index]?
  oneTempo : HasTempo first one
  otherTempo : HasTempo second other

private theorem length_opening (title : Option String) (length : Nat) :
    (opening title length).length = tempoPlace title := by
  simp only [opening, headerTag, trackTag, tempoPlace, List.length_append, length_bigEndian, List.length_cons, List.length_nil]
  omega

section Encoding

private theorem encodeEvents_name (title : Option String) (rest : Track) :
    encodeEvents [] none (title.toList.map (⟨0, .trackName ·⟩) ++ rest) = nameBytes title ++ encodeEvents [] none rest := by
  cases title with
  | none => rfl
  | some title => exact encodeEvents_cons none _ rest

private theorem encodeEvents_tempo (microseconds : Nat) (rest : Track) :
    encodeEvents [] none (⟨0, .tempo microseconds⟩ :: rest) =
      [0x00, 0xff, 0x51, 0x03] ++ bigEndian microseconds 3 ++ encodeEvents [] none rest := by
  rw [encodeEvents_cons, TrackEvent.Kind.encode, metaEvent, length_bigEndian]
  rfl

def closing (notes : Track) : Bytes := encodeEvents [] none (notes ++ [ending])

def whole (title : Option String) (microseconds : Nat) (notes : Track) : Track :=
  title.toList.map (⟨0, .trackName ·⟩) ++ [⟨0, .tempo microseconds⟩] ++ notes ++ [ending]

def wholeLength (title : Option String) (notes : Track) : Nat :=
  (nameBytes title).length + (7 + (closing notes).length)

private theorem encodeEvents_whole (title : Option String) (microseconds : Nat) (notes : Track) :
    encodeEvents [] none (whole title microseconds notes) =
      nameBytes title ++ ([0x00, 0xff, 0x51, 0x03] ++ bigEndian microseconds 3 ++ closing notes) := by
  rw [whole, List.append_assoc, List.append_assoc, encodeEvents_name, List.singleton_append, encodeEvents_tempo, closing]

theorem length_encodeEvents_whole (title : Option String) (microseconds : Nat) (notes : Track) :
    (encodeEvents [] none (whole title microseconds notes)).length = wholeLength title notes := by
  rw [encodeEvents_whole, wholeLength]
  simp only [List.length_append, length_bigEndian, List.length_cons, List.length_nil]

private theorem bytes_whole (title : Option String) (microseconds : Nat) (notes : Track) :
    (whole title microseconds notes).bytes =
      opening title (wholeLength title notes) ++ bigEndian microseconds 3 ++ closing notes := by
  have heading : chunk "MThd" header = headerTag ++ [0, 0, 0, 6, 0, 0, 0, 1, 0x03, 0xc0] := by decide +kernel
  have tagged : "MTrk".toUTF8.toList = trackTag := by decide +kernel
  rw [Track.bytes, heading, chunk, tagged, length_encodeEvents_whole, encodeEvents_whole, opening]
  simp only [List.append_assoc]

/-- No tempo makes a track too long. -/
theorem oversized?_whole (title : Option String) (one other : Nat) (notes : Track) :
    (whole title one notes).oversized? = (whole title other notes).oversized? := by
  have texts : (whole title one notes).any (·.kind.isOverlong) = (whole title other notes).any (·.kind.isOverlong) := by
    simp only [whole, List.any_append, List.any_cons, TrackEvent.Kind.isOverlong]
  rw [Track.oversized?, Track.oversized?, texts, length_encodeEvents_whole, length_encodeEvents_whole]

/-- The file of some notes whose tempo is stored as it is. -/
theorem file_eq (events : List NoteEvent) {settings : Settings} (moving : settings.tempo ≠ 0)
    (fits : 60000000 / settings.tempo < tempoRange) :
    Midi.file events settings = noteTrack events >>= fun notes =>
      (whole settings.title (60000000 / settings.tempo) notes).file := by
  have beat : settings.microsecondsPerBeat = .ok (60000000 / settings.tempo) := if_neg moving
  rw [Midi.file, ofEvents_eq_map events beat, Nat.mod_eq_of_lt fits]
  cases noteTrack events <;> rfl

end Encoding

private theorem getElem?_outside {before one other : Bytes} (length : one.length = other.length) (after : Bytes)
    {index : Nat} (outside : index < before.length ∨ before.length + one.length ≤ index) :
    (before ++ one ++ after)[index]? = (before ++ other ++ after)[index]? := by
  rcases outside with early | late
  · rw [List.append_assoc, List.append_assoc, List.getElem?_append_left early, List.getElem?_append_left early]
  · have both : (before ++ one).length = (before ++ other).length := by rw [List.length_append, List.length_append, length]
    have lateOne : (before ++ one).length ≤ index := by rwa [List.length_append]
    rw [List.getElem?_append_right lateOne, List.getElem?_append_right (both ▸ lateOne), both]

theorem microseconds_lt {tempo : Nat} (slow : 4 ≤ tempo) : 60000000 / tempo < tempoRange :=
  Nat.lt_of_le_of_lt (Nat.div_le_div_left slow (by decide)) (by decide)

private theorem hasTempo_opening {settings : Settings} (slow : 4 ≤ settings.tempo) (length : Nat) (after : Bytes) :
    HasTempo settings (opening settings.title length ++ bigEndian (60000000 / settings.tempo) 3 ++ after) :=
  ⟨_, _, _, rfl, length_bigEndian _ _, number_bigEndian (microseconds_lt slow)⟩

/-- Two tempos make the same of some notes, up to the three bytes that each is written in: one
refusal, or two files that nothing else tells apart. -/
theorem file_of_tempos (events : List NoteEvent) (first second : Settings)
    (alike : { first with tempo := second.tempo } = second) (firstRange : 4 ≤ first.tempo ∧ first.tempo ≤ 60000000)
    (secondRange : 4 ≤ second.tempo ∧ second.tempo ≤ 60000000) :
    (∃ error, Midi.file events first = .error error ∧ Midi.file events second = .error error) ∨
      ∃ one other, Midi.file events first = .ok one ∧ Midi.file events second = .ok other ∧
        DifferInTempo first second one other := by
  have title : second.title = first.title := by rw [← alike]
  have firstMoving : first.tempo ≠ 0 := by omega
  have secondMoving : second.tempo ≠ 0 := by omega
  have firstFits := microseconds_lt firstRange.1
  have secondFits := microseconds_lt secondRange.1
  rw [file_eq events firstMoving firstFits, file_eq events secondMoving secondFits, title]
  cases noteTrack events with
  | error error => exact .inl ⟨error, rfl, rfl⟩
  | ok notes =>
    have same (one other : Nat) : (bigEndian one 3).length = (bigEndian other 3).length := by
      rw [length_bigEndian, length_bigEndian]
    dsimp only [bind, Except.bind, Track.file]
    rw [oversized?_whole first.title (60000000 / second.tempo) (60000000 / first.tempo), bytes_whole, bytes_whole]
    cases (whole first.title (60000000 / first.tempo) notes).oversized? with
    | some part => exact .inl ⟨.oversized part, rfl, rfl⟩
    | none =>
      have otherTempo := hasTempo_opening secondRange.1 (wholeLength second.title notes) (closing notes)
      rw [title] at otherTempo
      refine .inr ⟨_, _, rfl, rfl, ?_, fun index outside => ?_, hasTempo_opening firstRange.1 _ _, otherTempo⟩
      · simp only [List.length_append, length_bigEndian]
      · apply getElem?_outside (same _ _)
        rwa [length_opening, length_bigEndian]

def study : Settings := { title := some "Étude", tempo := 90 }

/-- A tempo of three bytes and, for the same piece, the slowest one. -/
theorem file_of_tempos_study :
    ∃ one other, Midi.file [⟨0, 2, 60, 100, 0, 1⟩] study = .ok one ∧
      Midi.file [⟨0, 2, 60, 100, 0, 1⟩] { study with tempo := 4 } = .ok other ∧
      DifferInTempo study { study with tempo := 4 } one other := by
  have files : (Midi.file [⟨0, 2, 60, 100, 0, 1⟩] study).isOk = true := by cbv
  have told := file_of_tempos [⟨0, 2, 60, 100, 0, 1⟩] study { study with tempo := 4 } rfl (by decide) (by decide)
  rcases told with ⟨error, failed, _⟩ | both
  · rw [failed] at files
    cases files
  · exact both

end StepGrid.Proofs.MidiTempo
