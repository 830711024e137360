import StepGrid.Midi.Track

/-! The bytes of a Standard MIDI File with a single track. Texts and tracks stand behind their
lengths, which have 28 and 32 bits. -/

namespace StepGrid.Midi

abbrev Bytes := List UInt8

/-- A number in so many bytes, the most significant first. -/
def bigEndian (value : Nat) : Nat → Bytes
  | 0 => []
  | count + 1 => bigEndian (value / 256) count ++ [UInt8.ofNat value]

/-- Groups of seven bits, the most significant first; every byte but the last has its
high bit set. -/
def variableLength (value : Nat) : Bytes :=
  if value < 128 then [UInt8.ofNat value]
  else continued (value / 128) ++ [UInt8.ofNat (value % 128)]
where
  continued (value : Nat) : Bytes :=
    if value < 128 then [UInt8.ofNat (value + 128)]
    else continued (value / 128) ++ [UInt8.ofNat (value % 128 + 128)]

namespace Message

def status : Message → UInt8
  | strike channel .. => UInt8.ofNat (0x90 + channel)
  | release channel .. => UInt8.ofNat (0x80 + channel)

def body : Message → Bytes
  | strike _ key velocity => [UInt8.ofNat key, UInt8.ofNat velocity]
  | release _ key => [UInt8.ofNat key, 0]

end Message

/-- A meta event: its type and its data with their length. -/
def metaEvent (type : UInt8) (body : Bytes) : Bytes := [0xff, type] ++ variableLength body.length ++ body

namespace TrackEvent.Kind

/-- The bytes of an event after the given status, and the status in force after it. A
status in force is not repeated; a meta event ends it. -/
def encode (status : Option UInt8) : TrackEvent.Kind → Bytes × Option UInt8
  | trackName text => (metaEvent 0x03 text.toUTF8.toList, none)
  | tempo microseconds => (metaEvent 0x51 (bigEndian microseconds 3), none)
  | endOfTrack => (metaEvent 0x2f [], none)
  | note message =>
    if status = some message.status then (message.body, status)
    else (message.status :: message.body, some message.status)

/-- The length of a text has 28 bits in a file. -/
def textRange : Nat := 0x10000000

def isOverlong : TrackEvent.Kind → Bool
  | trackName text => textRange ≤ text.utf8ByteSize
  | tempo _ | note _ | endOfTrack => false

end TrackEvent.Kind

/-- The bytes of a track, after those of earlier events in reverse. -/
def encodeEvents (done : Bytes) (status : Option UInt8) : Track → Bytes
  | [] => done.reverse
  | event :: rest =>
    let (body, status) := event.kind.encode status
    encodeEvents (body.reverse ++ (variableLength event.delta).reverse ++ done) status rest

def chunk (name : String) (body : Bytes) : Bytes :=
  name.toUTF8.toList ++ bigEndian body.length 4 ++ body

/-- Format 0, one track, and the number of ticks in a beat. -/
def header : Bytes := bigEndian 0 2 ++ bigEndian 1 2 ++ bigEndian ticksPerBeat 2

def Track.bytes (track : Track) : Bytes :=
  chunk "MThd" header ++ chunk "MTrk" (encodeEvents [] none track)

/-- The length of a track has 32 bits in a file. -/
def chunkRange : Nat := 0x100000000

/-- What a track is refused for: a text first, as it is met before the track is complete. -/
def Track.oversized? (track : Track) : Option FilePart :=
  if track.any (·.kind.isOverlong) then some .text
  else if chunkRange ≤ (encodeEvents [] none track).length then some .track
  else none

def Track.file (track : Track) : Except Error Bytes :=
  match track.oversized? with
  | some part => .error (.oversized part)
  | none => .ok track.bytes

/-- The file of some notes. -/
def file (events : List NoteEvent) (settings : Settings) : Except Error Bytes := do
  (← Track.ofEvents events settings).file

end StepGrid.Midi
