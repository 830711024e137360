import StepGrid.Midi.File
import Mathlib.Algebra.Group.Nat.Defs

/-! A reader of Standard MIDI Files, with the bytes of each part that it reads back. It takes
any events that a track may have, and refuses whatever is left over or cut short. -/

namespace StepGrid.Proofs.MidiReader
open Midi

def takeBytes (count : Nat) (bytes : Bytes) : Option (Bytes × Bytes) :=
  if count ≤ bytes.length then some (bytes.take count, bytes.drop count) else none

def number (bytes : Bytes) : Nat := bytes.foldl (fun value byte => value * 256 + byte.toNat) 0

def readNumber (count : Nat) (bytes : Bytes) : Option (Nat × Bytes) := do
  let (digits, rest) ← takeBytes count bytes
  return (number digits, rest)

/-- A number in seven bits a byte, after the part of it that is read. It ends with the first
byte below 128, which must be one of the next few. -/
def readVariable (read : Nat) : Nat → Bytes → Option (Nat × Bytes)
  | limit + 1, byte :: rest =>
    if byte.toNat < 128 then some (read * 128 + byte.toNat, rest)
    else readVariable (read * 128 + (byte.toNat - 128)) limit rest
  | _, _ => none

inductive Found where
  | noteOff (channel key velocity : Nat)
  | noteOn (channel key velocity : Nat)
  | otherChannel (status : UInt8) (body : Bytes)
  | exclusive (status : UInt8) (body : Bytes)
  | trackName (text : Bytes)
  | tempo (microseconds : Nat)
  | endOfTrack
  | otherMeta (type : UInt8) (body : Bytes)
deriving DecidableEq, Repr

structure FoundEvent where
  delta : Nat
  found : Found
deriving DecidableEq, Repr

def ofMeta (type : UInt8) (body : Bytes) : Found :=
  if type = 0x03 then .trackName body
  else if type = 0x51 ∧ body.length = 3 then .tempo (number body)
  else if type = 0x2f ∧ body = [] then .endOfTrack
  else .otherMeta type body

def ofChannel (status : UInt8) (body : Bytes) : Found :=
  match status.toNat / 16, body with
  | 0x8, [key, velocity] => .noteOff (status.toNat % 16) key.toNat velocity.toNat
  | 0x9, [key, velocity] => .noteOn (status.toNat % 16) key.toNat velocity.toNat
  | _, body => .otherChannel status body

structure Heard where
  found : Found
  running : Option UInt8
  rest : Bytes

def readBody (bytes : Bytes) : Option (Bytes × Bytes) := do
  let (length, rest) ← readVariable 0 4 bytes
  takeBytes length rest

def readMeta : Bytes → Option Heard
  | [] => none
  | type :: bytes => do
    let (body, rest) ← readBody bytes
    return ⟨ofMeta type body, none, rest⟩

def readExclusive (status : UInt8) (bytes : Bytes) : Option Heard := do
  let (body, rest) ← readBody bytes
  return ⟨.exclusive status body, none, rest⟩

/-- Changes of program and pressure have one byte after their status, all else has two. -/
def bodyLength (status : UInt8) : Nat :=
  if status.toNat / 16 = 0xc ∨ status.toNat / 16 = 0xd then 1 else 2

/-- A channel message after its status, which stays in force. -/
def readChannel (status : UInt8) (bytes : Bytes) : Option Heard := do
  let (body, rest) ← takeBytes (bodyLength status) bytes
  if body.all (·.toNat < 128) then some ⟨ofChannel status body, some status, rest⟩ else none

/-- A byte below 128 is no status: the one in force is meant. -/
def readMessage (running : Option UInt8) : Bytes → Option Heard
  | [] => none
  | first :: rest =>
    if first.toNat < 0x80 then running.bind fun status => readChannel status (first :: rest)
    else if first.toNat < 0xf0 then readChannel first rest
    else if first = 0xf0 ∨ first = 0xf7 then readExclusive first rest
    else if first = 0xff then readMeta rest
    else none

private theorem takeBytes_length_le {count : Nat} {bytes taken rest : Bytes}
    (took : takeBytes count bytes = some (taken, rest)) : rest.length ≤ bytes.length := by
  unfold takeBytes at took
  split at took
  next =>
    cases took
    exact (List.drop_sublist _ _).length_le
  next => cases took

private theorem readVariable_length_lt {read limit value : Nat} {bytes rest : Bytes}
    (found : readVariable read limit bytes = some (value, rest)) : rest.length < bytes.length := by
  fun_induction readVariable read limit bytes with
  | case1 read limit byte rest small =>
    cases found
    exact Nat.lt_succ_self _
  | case2 read limit byte rest large ih => exact Nat.lt_succ_of_lt (ih found)
  | case3 => cases found

private theorem readBody_length_le {bytes body rest : Bytes} (found : readBody bytes = some (body, rest)) :
    rest.length ≤ bytes.length := by
  obtain ⟨⟨length, after⟩, counted, took⟩ := Option.bind_eq_some_iff.mp found
  exact Nat.le_trans (takeBytes_length_le took) (Nat.le_of_lt (readVariable_length_lt counted))

private theorem readChannel_length_le {status : UInt8} {bytes : Bytes} {heard : Heard}
    (found : readChannel status bytes = some heard) : heard.rest.length ≤ bytes.length := by
  obtain ⟨⟨body, rest⟩, took, last⟩ := Option.bind_eq_some_iff.mp found
  dsimp only at last
  split at last
  next =>
    cases last
    exact takeBytes_length_le took
  next => cases last

private theorem readMeta_length_le {bytes : Bytes} {heard : Heard} (found : readMeta bytes = some heard) :
    heard.rest.length ≤ bytes.length := by
  cases bytes with
  | nil => cases found
  | cons type rest =>
    obtain ⟨⟨body, after⟩, read, last⟩ := Option.bind_eq_some_iff.mp found
    cases last
    exact Nat.le_succ_of_le (readBody_length_le read)

private theorem readMessage_length_le {running : Option UInt8} {bytes : Bytes} {heard : Heard}
    (found : readMessage running bytes = some heard) : heard.rest.length ≤ bytes.length := by
  cases bytes with
  | nil => cases found
  | cons first rest =>
    rw [readMessage] at found
    split at found
    next =>
      obtain ⟨status, _, read⟩ := Option.bind_eq_some_iff.mp found
      exact readChannel_length_le read
    next =>
      apply Nat.le_succ_of_le
      split at found
      next => exact readChannel_length_le found
      next =>
        split at found
        next =>
          obtain ⟨⟨body, after⟩, read, last⟩ := Option.bind_eq_some_iff.mp found
          cases last
          exact readBody_length_le read
        next =>
          split at found
          next => exact readMeta_length_le found
          next => cases found

/-- The events of a track up to its end, where the bytes must end too. -/
def readEvents (running : Option UInt8) (bytes : Bytes) : Option (List FoundEvent) :=
  match _ : readVariable 0 4 bytes with
  | none => none
  | some (delta, rest) =>
    match _ : readMessage running rest with
    | none => none
    | some heard =>
      if heard.found = .endOfTrack then if heard.rest = [] then some [⟨delta, heard.found⟩] else none
      else (readEvents heard.running heard.rest).map (⟨delta, heard.found⟩ :: ·)
termination_by bytes.length
decreasing_by exact Nat.lt_of_le_of_lt (readMessage_length_le ‹_›) (readVariable_length_lt ‹_›)

theorem readEvents_eq {running : Option UInt8} {bytes rest : Bytes} {delta : Nat} {heard : Heard}
    (counted : readVariable 0 4 bytes = some (delta, rest)) (read : readMessage running rest = some heard) :
    readEvents running bytes =
      if heard.found = .endOfTrack then if heard.rest = [] then some [⟨delta, heard.found⟩] else none
      else (readEvents heard.running heard.rest).map (⟨delta, heard.found⟩ :: ·) := by
  rw [readEvents]
  split
  next none => cases none.symm.trans counted
  next found =>
    cases found.symm.trans counted
    split
    next none => cases none.symm.trans read
    next same =>
      cases same.symm.trans read
      rfl

def readChunk (tag : Bytes) (bytes : Bytes) : Option (Bytes × Bytes) := do
  let (found, rest) ← takeBytes tag.length bytes
  let (length, rest) ← readNumber 4 rest
  if found = tag then takeBytes length rest else none

def headerTag : Bytes := [0x4d, 0x54, 0x68, 0x64]

def trackTag : Bytes := [0x4d, 0x54, 0x72, 0x6b]

def readTracks : Nat → Bytes → Option (List (List FoundEvent))
  | 0, bytes => if bytes = [] then some [] else none
  | count + 1, bytes => do
    let (body, rest) ← readChunk trackTag bytes
    let track ← readEvents none body
    let others ← readTracks count rest
    return track :: others

structure FoundFile where
  format : Nat
  division : Nat
  tracks : List (List FoundEvent)
deriving DecidableEq, Repr

def readFile (bytes : Bytes) : Option FoundFile := do
  let (body, rest) ← readChunk headerTag bytes
  let (format, body) ← readNumber 2 body
  let (count, body) ← readNumber 2 body
  let (division, body) ← readNumber 2 body
  if body = [] then return ⟨format, division, ← readTracks count rest⟩ else none

theorem takeBytes_append (taken rest : Bytes) : takeBytes taken.length (taken ++ rest) = some (taken, rest) := by
  rw [takeBytes, if_pos (by simp), List.take_left, List.drop_left]

theorem length_bigEndian (value count : Nat) : (bigEndian value count).length = count := by
  induction count generalizing value with
  | zero => rfl
  | succ count ih => rw [bigEndian, List.length_append, ih, List.length_singleton]

theorem number_bigEndian {value count : Nat} (fits : value < 256 ^ count) : number
    (bigEndian value count) = value := by
  induction count generalizing value with
  | zero =>
    rw [Nat.pow_zero, Nat.lt_one_iff] at fits
    rw [fits]
    rfl
  | succ count ih =>
    have upper : value / 256 < 256 ^ count := Nat.div_lt_of_lt_mul (by rwa [← Nat.pow_succ'])
    have whole := ih upper
    unfold number at whole ⊢
    rw [bigEndian, List.foldl_append, whole, List.foldl_cons, List.foldl_nil, UInt8.toNat_ofNat']
    omega

private theorem readNumber_bigEndian {value count : Nat} (fits : value < 256 ^ count) (rest : Bytes) :
    readNumber count (bigEndian value count ++ rest) = some (value, rest) := by
  have taken := takeBytes_append (bigEndian value count) rest
  rw [length_bigEndian] at taken
  rw [readNumber, taken]
  exact congrArg (fun read => some (read, rest)) (number_bigEndian fits)

theorem toNat_ofNat {value : Nat} (fits : value < 256) : (UInt8.ofNat value).toNat = value :=
  UInt8.toNat_ofNat_of_lt' fits

/-- All bytes of a number but its last are read on, and leave what they stand for. -/
theorem readVariable_continued (value limit : Nat) (rest : Bytes) :
    readVariable 0 ((variableLength.continued value).length + limit) (variableLength.continued value ++ rest) =
      readVariable value limit rest := by
  fun_induction variableLength.continued value generalizing limit rest with
  | case1 value small =>
    have byte : (UInt8.ofNat (value + 128)).toNat = value + 128 := toNat_ofNat (by omega)
    rw [List.length_singleton, Nat.add_comm, List.singleton_append, readVariable, byte, if_neg (by omega), Nat.zero_mul,
      Nat.zero_add, Nat.add_sub_cancel]
  | case2 value large ih =>
    have byte : (UInt8.ofNat (value % 128 + 128)).toNat = value % 128 + 128 := toNat_ofNat (by omega)
    rw [List.length_append, List.length_singleton, Nat.add_assoc, Nat.add_comm 1, List.append_assoc, ih,
      List.singleton_append, readVariable, byte, if_neg (by omega), Nat.add_sub_cancel, Nat.mul_comm, Nat.div_add_mod]

private theorem length_continued_le {value count : Nat} (fits : value < 128 ^ (count + 1)) :
    (variableLength.continued value).length ≤ count + 1 := by
  fun_induction variableLength.continued value generalizing count with
  | case1 value small => simp
  | case2 value large ih =>
    cases count with
    | zero => omega
    | succ count =>
      rw [List.length_append, List.length_singleton]
      apply Nat.succ_le_succ
      exact ih (Nat.div_lt_of_lt_mul (by rwa [← Nat.pow_succ']))

/-- Numbers of 28 bits have at most four bytes, and are read back from them. -/
theorem readVariable_variableLength {value : Nat} (fits : value < 2 ^ 28) (rest : Bytes) :
    readVariable 0 4 (variableLength value ++ rest) = some (value, rest) := by
  unfold variableLength
  split
  next small =>
    have byte : (UInt8.ofNat value).toNat = value := toNat_ofNat (by omega)
    rw [List.singleton_append, readVariable, byte, if_pos small, Nat.zero_mul, Nat.zero_add]
  next large =>
    have byte : (UInt8.ofNat (value % 128)).toNat = value % 128 := toNat_ofNat (by omega)
    have few : (variableLength.continued (value / 128)).length ≤ 2 + 1 := length_continued_le (by omega)
    obtain ⟨spare, enough⟩ := Nat.exists_eq_add_of_le few
    have limit : 4 = (variableLength.continued (value / 128)).length + (spare + 1) := by omega
    rw [limit, List.append_assoc, readVariable_continued, List.singleton_append, readVariable, byte,
      if_pos (Nat.mod_lt _ (by decide)), Nat.mul_comm, Nat.div_add_mod]

theorem readBody_append {body : Bytes} (fits : body.length < 2 ^ 28) (rest : Bytes) :
    readBody (variableLength body.length ++ body ++ rest) = some (body, rest) := by
  rw [List.append_assoc, readBody, readVariable_variableLength fits]
  exact takeBytes_append body rest

theorem readChunk_chunk {name : String} {tag body : Bytes} (tagged : name.toUTF8.toList = tag)
    (fits : body.length < 2 ^ 32) (rest : Bytes) : readChunk tag (chunk name body ++ rest) = some (body, rest) := by
  rw [chunk, tagged, List.append_assoc, List.append_assoc, readChunk, takeBytes_append, Option.bind_eq_bind,
    Option.bind_some]
  dsimp only
  rw [readNumber_bigEndian fits, Option.bind_eq_bind, Option.bind_some]
  dsimp only
  rw [if_pos rfl, takeBytes_append]

end StepGrid.Proofs.MidiReader
