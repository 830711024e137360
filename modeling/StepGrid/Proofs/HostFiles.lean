import StepGrid.CommandLine.Run
import StepGrid.Proofs.FolderFiles
import StepGrid.Proofs.ByteTexts

/-! What a run may rely on when it reads and writes files. Reading changes nothing, and a text that
is read is the content of a file. A write fails without a trace, or it changes one file to what
was written. A folder keeps these laws. -/

namespace StepGrid.Proofs.HostFiles
open CommandLine FolderFiles

variable {State : Type}

def readIn (host : Host (StateM State)) (state : State) (path : String) : Except String String × State :=
  (host.read path).run state

def writeIn (host : Host (StateM State)) (state : State) (path : String) (bytes : Midi.Bytes) :
    Except String Unit × State :=
  (host.write path bytes).run state

/-- The files of a machine: what each of them holds, if it exists, and which one a path leads to.
Several paths may lead to one file. -/
structure Files (State : Type) where
  File : Type
  content : State → File → Option Midi.Bytes
  find : State → String → Option File

def Holds (files : Files State) (state : State) (path : String) (bytes : Midi.Bytes) : Prop :=
  ∃ file, files.find state path = some file ∧ files.content state file = some bytes

structure Keeps (host : Host (StateM State)) (files : Files State) : Prop where
  read_changes_nothing : ∀ state path, (readIn host state path).2 = state
  read_gives_content : ∀ {state path text}, (readIn host state path).1 = .ok text →
    Holds files state path text.toUTF8.toList
  failed_write_changes_nothing : ∀ {state path bytes reason}, (writeIn host state path bytes).1 = .error reason →
    (writeIn host state path bytes).2 = state
  write_stores : ∀ {state path bytes}, (writeIn host state path bytes).1 = .ok () →
    Holds files (writeIn host state path bytes).2 path bytes
  write_changes_one : ∀ {state path bytes}, (writeIn host state path bytes).1 = .ok () →
    ∀ file, files.find (writeIn host state path bytes).2 path ≠ some file →
      files.content (writeIn host state path bytes).2 file = files.content state file

section Folder

def contentAt (folder : Folder) (place : Path) : Option Midi.Bytes :=
  match folder.entry? place with
  | some (.file content) => some content
  | some .folder | none => none

def placeOf (folder : Folder) (path : String) : Option Path :=
  if path.isEmpty then none
  else match folder.walk (Folder.origin path) (Folder.parts path) with
    | .ok (.inside place) => some place
    | .ok .outside | .error _ => none

def folderFiles : Files Folder := ⟨Path, contentAt, placeOf⟩

theorem contentAt_eq_some {folder : Folder} {place : Path} {content : Midi.Bytes} :
    contentAt folder place = some content ↔ folder.entry? place = some (.file content) := by
  unfold contentAt
  split
  next stored found => simp only [found, Option.some.injEq, Entry.file.injEq]
  next found => simp [found]
  next found => simp [found]

private theorem holds_of_read {folder : Folder} {path : String} {content : List UInt8}
    (found : folder.read path = .ok content) : Holds folderFiles folder path content := by
  unfold Folder.read at found
  split at found
  next => cases found
  next filled =>
    split at found
    next => cases found
    next => cases found
    next place walked =>
      split at found
      next => cases found
      next => cases found
      next stored =>
        split at found
        next => cases found
        next =>
          cases found
          refine ⟨place, ?_, contentAt_eq_some.mpr stored⟩
          simp only [folderFiles, placeOf, filled, walked, Bool.false_eq_true, ↓reduceIte]

private theorem read_of_readText {folder : Folder} {path text : String} (given : folder.readText path = .ok text) :
    folder.read path = .ok text.toUTF8.toList := by
  unfold Folder.readText at given
  split at given
  next => cases given
  next content found =>
    split at given
    next decoded =>
      cases given
      rw [found, ByteTexts.toUTF8_of_fromUTF8? decoded, ByteTexts.toList_eq]
    next => cases given

private theorem placeOf_of_write {folder after : Folder} {path : String} {content : List UInt8}
    (written : folder.write path content = .ok after) :
    ∃ place, placeOf after path = some place ∧ after = folder.put place (.file content) := by
  obtain ⟨place, found, rfl⟩ := write_eq_ok.mp written
  have leads := leadsTo_of_target found
  refine ⟨place, ?_, rfl⟩
  simp only [placeOf, leads.filled, walk_put leads.free leads.walked, Bool.false_eq_true, ↓reduceIte]

private theorem writeIn_folder (folder : Folder) (path : String) (bytes : Midi.Bytes) :
    writeIn Folder.host folder path bytes = match folder.write path bytes with
      | .ok after => (.ok (), after)
      | .error fault => (.error fault.phrase, folder) := by
  unfold writeIn Folder.host
  rw [StateT.run_bind, StateT.run_get, pure_bind]
  cases folder.write path bytes <;> rfl

private theorem write_of_writeIn {folder : Folder} {path : String} {bytes : Midi.Bytes}
    (done : (writeIn Folder.host folder path bytes).1 = .ok ()) :
    folder.write path bytes = .ok (writeIn Folder.host folder path bytes).2 := by
  rw [writeIn_folder] at done ⊢
  cases written : folder.write path bytes with
  | ok after => rfl
  | error fault =>
    rw [written] at done
    cases done

theorem keeps_folder : Keeps Folder.host folderFiles where
  read_changes_nothing _ _ := rfl
  read_gives_content := by
    intro folder path text given
    change (folder.readText path).mapError (·.phrase) = .ok text at given
    cases read : folder.readText path with
    | ok found =>
      rw [read] at given
      cases given
      exact holds_of_read (read_of_readText read)
    | error fault =>
      rw [read] at given
      cases given
  failed_write_changes_nothing := by
    intro folder path bytes reason failed
    rw [writeIn_folder] at failed ⊢
    cases written : folder.write path bytes with
    | ok after =>
      rw [written] at failed
      cases failed
    | error fault => rfl
  write_stores done := holds_of_read (read_of_write (write_of_writeIn done))
  write_changes_one := by
    intro folder path bytes done other apart
    obtain ⟨place, found, same⟩ := placeOf_of_write (write_of_writeIn done)
    have different : other ≠ place := by
      rintro rfl
      exact apart found
    simp only [folderFiles, contentAt, same, entry?_put_of_ne folder _ different]

end Folder

end StepGrid.Proofs.HostFiles
