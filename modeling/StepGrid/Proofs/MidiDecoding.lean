import Mathlib
import StepGrid.Proofs.MidiReader
import StepGrid.Proofs.MidiSchedule
import StepGrid.Proofs.ByteTexts

/-! A written file read back. A reader that knows nothing of notes finds every event of the
track again, with its time and all its values, and no byte is left over. -/

namespace StepGrid.Proofs.MidiDecoding
open Midi MidiReader MidiSchedule ByteTexts

/-- What a reader finds of an event. A release is written with velocity zero. -/
def foundOf : TrackEvent.Kind → Found
  | .trackName text => .trackName text.toUTF8.toList
  | .tempo microseconds => .tempo microseconds
  | .note (.strike channel key velocity) => .noteOn channel key velocity
  | .note (.release channel key) => .noteOff channel key 0
  | .endOfTrack => .endOfTrack

def eventOf (event : TrackEvent) : FoundEvent := ⟨event.delta, foundOf event.kind⟩

def Fits : TrackEvent.Kind → Prop
  | .trackName text => text.utf8ByteSize < 2 ^ 28
  | .tempo microseconds => microseconds < tempoRange
  | .note (.strike channel key velocity) => channel ≤ 15 ∧ key ≤ 127 ∧ velocity ≤ 127
  | .note (.release channel key) => channel ≤ 15 ∧ key ≤ 127
  | .endOfTrack => True

def ending : TrackEvent := ⟨0, .endOfTrack⟩

theorem readMeta_metaEvent (type : UInt8) {body : Bytes} (fits : body.length < 2 ^ 28) (running : Option UInt8)
    (rest : Bytes) : readMessage running (metaEvent type body ++ rest) = some ⟨ofMeta type body, none, rest⟩ := by
  show readMeta (type :: (variableLength body.length ++ body ++ rest)) = _
  rw [readMeta, readBody_append fits]
  rfl

/-- A message of two bytes after its status, none of which is taken for another status. -/
structure Spoken (message : Message) (first second : UInt8) : Prop where
  body : message.body = [first, second]
  firstLow : first.toNat < 128
  secondLow : second.toNat < 128
  statusHigh : 0x80 ≤ message.status.toNat
  statusLow : message.status.toNat < 0xf0
  two : bodyLength message.status = 2
  found : ofChannel message.status [first, second] = foundOf (.note message)

private theorem exists_spoken {message : Message} (fits : Fits (.note message)) :
    ∃ first second, Spoken message first second := by
  cases message with
  | strike channel key velocity =>
    obtain ⟨channelLow, keyLow, velocityLow⟩ := fits
    have status : (Message.strike channel key velocity).status.toNat = 0x90 + channel := toNat_ofNat (by omega)
    have keyByte : (UInt8.ofNat key).toNat = key := toNat_ofNat (by omega)
    have velocityByte : (UInt8.ofNat velocity).toNat = velocity := toNat_ofNat (by omega)
    have kind : (0x90 + channel) / 16 = 9 := by omega
    have number : (0x90 + channel) % 16 = channel := by omega
    exact ⟨UInt8.ofNat key, UInt8.ofNat velocity, {
      body := rfl
      firstLow := by omega
      secondLow := by omega
      statusHigh := by omega
      statusLow := by omega
      two := by simp [bodyLength, status, kind]
      found := by simp [ofChannel, status, kind, number, keyByte, velocityByte, foundOf] }⟩
  | release channel key =>
    obtain ⟨channelLow, keyLow⟩ := fits
    have status : (Message.release channel key).status.toNat = 0x80 + channel := toNat_ofNat (by omega)
    have keyByte : (UInt8.ofNat key).toNat = key := toNat_ofNat (by omega)
    have kind : (0x80 + channel) / 16 = 8 := by omega
    have number : (0x80 + channel) % 16 = channel := by omega
    exact ⟨UInt8.ofNat key, 0, {
      body := rfl
      firstLow := by omega
      secondLow := by decide
      statusHigh := by omega
      statusLow := by omega
      two := by simp [bodyLength, status, kind]
      found := by simp [ofChannel, status, kind, number, keyByte, foundOf] }⟩

theorem Spoken.readChannel {message : Message} {first second : UInt8} (spoken : Spoken message first second)
    (rest : Bytes) : readChannel message.status (first :: second :: rest) =
      some ⟨foundOf (.note message), some message.status, rest⟩ := by
  have taken : takeBytes (bodyLength message.status) (first :: second :: rest) = some ([first, second], rest) := by
    rw [spoken.two]
    exact takeBytes_append [first, second] rest
  have low : [first, second].all (·.toNat < 128) = true := by
    simp [spoken.firstLow, spoken.secondLow]
  rw [MidiReader.readChannel, taken, ← spoken.found]
  exact if_pos low

/-- A status is read where it is written, and known where it is left out. -/
theorem readMessage_note {message : Message} (fits : Fits (.note message)) (running : Option UInt8) (rest : Bytes) :
    readMessage running ((TrackEvent.Kind.encode running (.note message)).1 ++ rest) =
      some ⟨foundOf (.note message), (TrackEvent.Kind.encode running (.note message)).2, rest⟩ := by
  obtain ⟨first, second, spoken⟩ := exists_spoken fits
  have read := spoken.readChannel rest
  rw [TrackEvent.Kind.encode, spoken.body]
  split
  next same =>
    rw [same]
    exact (if_pos spoken.firstLow).trans read
  next =>
    rw [List.cons_append, readMessage, if_neg (Nat.not_lt_of_le spoken.statusHigh), if_pos spoken.statusLow]
    exact read

private theorem readMessage_encode {kind : TrackEvent.Kind} (fits : Fits kind) (running : Option UInt8)
    (rest : Bytes) :
    readMessage running ((kind.encode running).1 ++ rest) = some ⟨foundOf kind, (kind.encode running).2, rest⟩ := by
  cases kind with
  | trackName text => exact readMeta_metaEvent 0x03 ((length_toUTF8 text).symm ▸ fits) running rest
  | tempo microseconds =>
    have short : (bigEndian microseconds 3).length < 2 ^ 28 := by rw [length_bigEndian]; decide
    have value : ofMeta 0x51 (bigEndian microseconds 3) = .tempo microseconds := by
      rw [ofMeta, if_neg (by decide), if_pos ⟨rfl, length_bigEndian _ _⟩, number_bigEndian fits]
    rw [foundOf, ← value]
    exact readMeta_metaEvent 0x51 short running rest
  | endOfTrack => exact readMeta_metaEvent 0x2f (by decide) running rest
  | note message => exact readMessage_note fits running rest

theorem encodeEvents_append (done : Bytes) (running : Option UInt8) (track : Track) :
    encodeEvents done running track = done.reverse ++ encodeEvents [] running track := by
  induction track generalizing done running with
  | nil => simp [encodeEvents]
  | cons event rest ih =>
    have step (before : Bytes) : encodeEvents before running (event :: rest) =
        encodeEvents ((event.kind.encode running).1.reverse ++ (variableLength event.delta).reverse ++ before)
          (event.kind.encode running).2 rest := rfl
    rw [step, step, ih, ih (_ ++ [])]
    simp

theorem encodeEvents_cons (running : Option UInt8) (event : TrackEvent) (rest : Track) :
    encodeEvents [] running (event :: rest) =
      variableLength event.delta ++ ((event.kind.encode running).1 ++
        encodeEvents [] (event.kind.encode running).2 rest) := by
  show encodeEvents ((event.kind.encode running).1.reverse ++ (variableLength event.delta).reverse ++ [])
    (event.kind.encode running).2 rest = _
  rw [encodeEvents_append]
  simp

/-- Each event is read from its first byte to its last, so the next one is read from its
first byte on, under the status that the writer had. -/
theorem readEvents_encodeEvents {track : Track}
    (fits : ∀ event ∈ track, event.delta < 2 ^ 28 ∧ Fits event.kind ∧ foundOf event.kind ≠ .endOfTrack)
    (running : Option UInt8) :
    readEvents running (encodeEvents [] running (track ++ [ending])) = some ((track ++ [ending]).map eventOf) := by
  -- For any status in force: an event may change it, and reader and writer keep the same.
  induction track generalizing running with
  | nil =>
    have counted := readVariable_variableLength (Nat.two_pow_pos 28)
    have fitsEnding : Fits .endOfTrack := trivial
    have heard := readMessage_encode fitsEnding running
    rw [List.nil_append, encodeEvents_cons]
    exact (readEvents_eq (counted _) (heard _)).trans rfl
  | cons event rest ih =>
    obtain ⟨⟨short, fitsEvent, goesOn⟩, fitsRest⟩ := List.forall_mem_cons.mp fits
    have counted := readVariable_variableLength short
    have heard := readMessage_encode fitsEvent running
    rw [List.cons_append, encodeEvents_cons, readEvents_eq (counted _) (heard _), if_neg goesOn, ih fitsRest]
    rfl

private theorem readTracks_chunk {body : Bytes} {track : List FoundEvent} (fits : body.length < 2 ^ 32)
    (read : readEvents none body = some track) : readTracks 1 (chunk "MTrk" body) = some [track] := by
  have chunked := readChunk_chunk (by decide +kernel : "MTrk".toUTF8.toList = trackTag) fits []
  rw [List.append_nil] at chunked
  rw [readTracks, chunked, Option.bind_eq_bind, Option.bind_some]
  dsimp only
  rw [read]
  rfl

private theorem readFile_bytes {track : Track} (fits : (encodeEvents [] none track).length < 2 ^ 32)
    (read : readEvents none (encodeEvents [] none track) = some (track.map eventOf)) :
    readFile track.bytes = some ⟨0, 960, [track.map eventOf]⟩ := by
  have tagged : "MThd".toUTF8.toList = headerTag := by decide +kernel
  have short : header.length < 2 ^ 32 := by decide
  have chunked := readChunk_chunk tagged short (chunk "MTrk" (encodeEvents [] none track))
  have format : readNumber 2 header = some (0, bigEndian 1 2 ++ bigEndian 960 2) := rfl
  have count : readNumber 2 (bigEndian 1 2 ++ bigEndian 960 2) = some (1, bigEndian 960 2) := rfl
  have division : readNumber 2 (bigEndian 960 2) = some (960, []) := rfl
  have tracks := readTracks_chunk fits read
  rw [Track.bytes, readFile]
  simp only [chunked, format, count, division, tracks, Option.bind_eq_bind, Option.bind_some, if_true]
  rfl

private theorem note_of_told {now : Nat} {timed : List Timed} :
    ∀ event ∈ told now timed, ∃ one ∈ timed, event.kind = .note one.message := by
  induction timed generalizing now with
  | nil => exact nofun
  | cons one rest ih =>
    refine List.forall_mem_cons.mpr ⟨⟨one, List.mem_cons_self, rfl⟩, fun event member => ?_⟩
    obtain ⟨other, present, kind⟩ := ih event member
    exact ⟨other, List.mem_cons_of_mem _ present, kind⟩

private theorem fits_of_schedule {events : List NoteEvent} (fits : ∀ event ∈ events, misfit? event = none) :
    ∀ one ∈ schedule events, Fits (.note one.message) := by
  intro one member
  obtain ⟨event, present, rfl | rfl⟩ := mem_schedule.mp member
  · obtain ⟨channel, pitch, _, velocity⟩ := misfit?_eq_none.mp (fits event present)
    exact ⟨channel, pitch, velocity⟩
  · obtain ⟨channel, pitch, _⟩ := misfit?_eq_none.mp (fits event present)
    exact ⟨channel, pitch⟩

/-- A track whose lengths all have their place is written whole. -/
theorem file_of_short {track : Track} (shortTexts : ∀ event ∈ track, event.kind.isOverlong = false)
    (shortTrack : (encodeEvents [] none track).length < 2 ^ 32) : track.file = .ok track.bytes := by
  have texts : ¬ (track.any (·.kind.isOverlong) = true) := by
    rw [List.any_eq_true]
    rintro ⟨event, member, long⟩
    exact Bool.false_ne_true ((shortTexts event member).symm.trans long)
  have whole : ¬ chunkRange ≤ (encodeEvents [] none track).length := Nat.not_le_of_lt shortTrack
  rw [Track.file, Track.oversized?, if_neg texts, if_neg whole]

private theorem isOverlong_of_told {now : Nat} {timed : List Timed} :
    ∀ event ∈ told now timed, event.kind.isOverlong = false := by
  intro event member
  obtain ⟨one, _, kind⟩ := note_of_told event member
  rw [kind]
  rfl

/-- A file is read back as the track it was written from, byte for byte. -/
theorem readFile_file {events : List NoteEvent} {settings : Settings} {track : Track}
    (made : Track.ofEvents events settings = .ok track)
    (shortTitle : ∀ title ∈ settings.title, title.utf8ByteSize < 2 ^ 28)
    (shortTrack : (encodeEvents [] none track).length < 2 ^ 32) :
    ∃ bytes, Midi.file events settings = .ok bytes ∧ readFile bytes = some ⟨0, 960, [track.map eventOf]⟩ := by
  obtain ⟨_, checked, _⟩ := bind_eq_ok.mp made
  obtain ⟨microseconds, _, close, rfl⟩ := ofEvents_eq_ok made
  refine ⟨_, bind_eq_ok.mpr ⟨_, made, file_of_short ?_ shortTrack⟩, readFile_bytes shortTrack ?_⟩
  · intro event member
    simp only [List.mem_append, List.mem_singleton, List.mem_map] at member
    rcases member with ((⟨title, given, rfl⟩ | rfl) | note) | rfl
    · exact decide_eq_false (Nat.not_le_of_lt (shortTitle title (Option.mem_toList.mp given)))
    · rfl
    · exact isOverlong_of_told event note
    · rfl
  apply readEvents_encodeEvents
  intro event member
  simp only [List.mem_append, List.mem_singleton, List.mem_map] at member
  rcases member with (⟨title, given, rfl⟩ | rfl) | note
  · exact ⟨Nat.two_pow_pos 28, shortTitle title (Option.mem_toList.mp given), nofun⟩
  · exact ⟨Nat.two_pow_pos 28, Nat.mod_lt _ (by decide), nofun⟩
  · obtain ⟨one, scheduled, kind⟩ := note_of_told event note
    have fits := fits_of_schedule (misfit?_of_forM checked) one scheduled
    refine ⟨Nat.lt_succ_of_le (close event note), kind ▸ fits, ?_⟩
    rw [kind]
    cases one.message <;> exact nofun

/-- Two notes of which the second needs no status, and a time of two bytes. -/
theorem readFile_chord :
    ∃ bytes, Midi.file [⟨0, 2, 60, 100, 0, 1⟩, ⟨0, 2, 64, 90, 0, 1⟩] { title := some "Étude", tempo := 90 } =
        .ok bytes ∧
      readFile bytes = some ⟨0, 960, [[⟨0, .trackName [0xc3, 0x89, 0x74, 0x75, 0x64, 0x65]⟩, ⟨0, .tempo 666666⟩,
        ⟨0, .noteOn 2 60 100⟩, ⟨0, .noteOn 2 64 90⟩, ⟨960, .noteOff 2 60 0⟩, ⟨0, .noteOff 2 64 0⟩,
        ⟨0, .endOfTrack⟩]]⟩ := by
  have made :
      Track.ofEvents [⟨0, 2, 60, 100, 0, 1⟩, ⟨0, 2, 64, 90, 0, 1⟩] { title := some "Étude", tempo := 90 } =
        .ok [⟨0, .trackName "Étude"⟩, ⟨0, .tempo 666666⟩, ⟨0, .note (.strike 2 60 100)⟩,
          ⟨0, .note (.strike 2 64 90)⟩, ⟨960, .note (.release 2 60)⟩, ⟨0, .note (.release 2 64)⟩,
          ⟨0, .endOfTrack⟩] := by cbv
  have read := readFile_file made (by decide) (by decide +kernel)
  have title : "Étude".toUTF8.toList = [0xc3, 0x89, 0x74, 0x75, 0x64, 0x65] := by decide +kernel
  rwa [← title]

end StepGrid.Proofs.MidiDecoding
