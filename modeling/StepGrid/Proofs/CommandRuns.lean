import StepGrid.Proofs.CommandFaults
import StepGrid.Proofs.HostFiles

/-! What a run of the program leaves behind. It does with its input what the pipeline does
with the text of it, and tells by its exit code what has come of that. Its one write is its
last step, so a run that fails has changed nothing. -/

namespace StepGrid.Proofs.CommandRuns
open CommandLine CommandFaults FolderFiles HostFiles

section Host
variable {State : Type} (host : Host (StateM State)) (state : State)

/-- The text of an input, if it is one. -/
def givenText : Input → Option String
  | .inline text => some text
  | .file path => (readIn host state path).1.toOption

structure Compiles (invocation : Invocation) (text : String) (compiled : Pipeline.Compiled) : Prop where
  given : givenText host state invocation.input = some text
  done : Pipeline.compileWith text.toList invocation.overrides = .ok compiled

/-- The ways a run can end, each with the files after it. -/
inductive Ending (invocation : Invocation) : Report × State → Prop
  | unread {path reason : String} (asked : invocation.input = .file path)
      (failed : readIn host state path = (.error reason, state)) :
      Ending invocation (.failure 1 ("Error reading file '" ++ path ++ "': " ++ reason), state)
  | refused {text : String} {error : Error} (given : givenText host state invocation.input = some text)
      (failed : Pipeline.compileWith text.toList invocation.overrides = .error error) :
      Ending invocation (.failure (exitCode error.kind) ("Compilation error: " ++ error.message), state)
  | shown {text : String} {compiled : Pipeline.Compiled} (compiles : Compiles host state invocation text compiled)
      (events : invocation.events = true) :
      Ending invocation (.success (eventsReport compiled), state)
  | unwritable {text : String} {compiled : Pipeline.Compiled} {error : Error}
      (compiles : Compiles host state invocation text compiled) (filed : invocation.events = false)
      (failed : Midi.file compiled.events compiled.settings = .error error) :
      Ending invocation (.failure (exitCode error.kind) ("Error encoding MIDI: " ++ error.message), state)
  | unstored {text reason : String} {compiled : Pipeline.Compiled} {bytes : Midi.Bytes}
      (compiles : Compiles host state invocation text compiled) (filed : invocation.events = false)
      (made : Midi.file compiled.events compiled.settings = .ok bytes)
      (failed : writeIn host state invocation.output bytes = (.error reason, state)) :
      Ending invocation (.failure 1 ("Error writing to '" ++ invocation.output ++ "': " ++ reason), state)
  | stored {text : String} {compiled : Pipeline.Compiled} {bytes : Midi.Bytes} {after : State}
      (compiles : Compiles host state invocation text compiled) (filed : invocation.events = false)
      (made : Midi.file compiled.events compiled.settings = .ok bytes)
      (written : writeIn host state invocation.output bytes = (.ok (), after)) :
      Ending invocation (.success ("MIDI file written to " ++ invocation.output), after)

end Host

section Stages
variable {State : Type} {host : Host (StateM State)} {state after : State} {invocation : Invocation} {text : String}

private theorem run_sourceText_of_ok {path : String} (found : readIn host state path = (.ok text, after)) :
    (sourceText host (.file path)).run state = (.ok text, after) := by
  unfold readIn at found
  rw [sourceText, StateT.run_bind, found]
  rfl

private theorem run_sourceText_of_error {path reason : String}
    (failed : readIn host state path = (.error reason, after)) :
    (sourceText host (.file path)).run state =
      (.error (.failure 1 ("Error reading file '" ++ path ++ "': " ++ reason)), after) := by
  unfold readIn at failed
  rw [sourceText, StateT.run_bind, failed]
  rfl

private theorem run_writeFile_of_ok {path : String} {bytes : Midi.Bytes}
    (written : writeIn host state path bytes = (.ok (), after)) :
    (writeFile host path bytes).run state = (.success ("MIDI file written to " ++ path), after) := by
  unfold writeIn at written
  rw [writeFile, StateT.run_bind, written]
  rfl

private theorem run_writeFile_of_error {path reason : String} {bytes : Midi.Bytes}
    (failed : writeIn host state path bytes = (.error reason, after)) :
    (writeFile host path bytes).run state =
      (.failure 1 ("Error writing to '" ++ path ++ "': " ++ reason), after) := by
  unfold writeIn at failed
  rw [writeFile, StateT.run_bind, failed]
  rfl

variable {files : Files State} (keeps : Keeps host files)
include keeps

private theorem ending_of_deliver {compiled : Pipeline.Compiled}
    (compiles : Compiles host state invocation text compiled) :
    Ending host state invocation ((deliver host invocation compiled).run state) := by
  unfold deliver
  split
  next events => exact .shown compiles events
  next filed =>
    have filed := Bool.eq_false_iff.mpr filed
    split
    next error failed => exact .unwritable compiles filed failed
    next bytes made =>
      rcases written : writeIn host state invocation.output bytes with ⟨_ | _, after⟩
      · obtain rfl : after = state := by
          have unchanged := keeps.failed_write_changes_nothing (congrArg Prod.fst written)
          rwa [written] at unchanged
        rw [run_writeFile_of_error written]
        exact .unstored compiles filed made written
      · rw [run_writeFile_of_ok written]
        exact .stored compiles filed made written

private theorem ending_of_given (given : givenText host state invocation.input = some text)
    (gives : (sourceText host invocation.input).run state = (.ok text, state)) :
    Ending host state invocation ((invoke host invocation).run state) := by
  rw [invoke, StateT.run_bind, gives]
  dsimp only [bind]
  split
  next error failed => exact .refused given failed
  next compiled done => exact ending_of_deliver keeps ⟨given, done⟩

private theorem ending_of_invoke (invocation : Invocation) (state : State) :
    Ending host state invocation ((invoke host invocation).run state) := by
  cases asked : invocation.input with
  | inline text =>
    have given : givenText host state invocation.input = some text := by
      rw [asked]
      rfl
    apply ending_of_given keeps given
    rw [asked]
    rfl
  | file path =>
    rcases found : readIn host state path with ⟨reason | text, after⟩ <;>
    obtain rfl : after = state := by
      have unchanged := keeps.read_changes_nothing state path
      rwa [found] at unchanged
    · rw [invoke, StateT.run_bind, asked, run_sourceText_of_error found]
      exact .unread asked found
    · have given : givenText host after invocation.input = some text := by
        rw [asked, givenText, found]
        rfl
      apply ending_of_given keeps given
      rw [asked]
      exact run_sourceText_of_ok found

private theorem ending_of_demand {arguments : List String} (asked : demand arguments = .invoke invocation)
    (state : State) :
    Ending host state invocation ((run host arguments).run state) := by
  rw [run, asked]
  exact ending_of_invoke keeps invocation state

end Stages

section Answering
variable {State : Type} (host : Host (StateM State)) (files : Files State) (state : State) (invocation : Invocation)

/-- What becomes of a file that was to be written, if there is one. -/
def Stores (exit : Nat) (after : State) : Except Error Midi.Bytes → Prop
  | .error _ => exit = 7
  | .ok bytes =>
    (exit = 0 ∧ Holds files after invocation.output bytes) ∨
      (exit = 1 ∧ ∃ reason, (writeIn host state invocation.output bytes).1 = .error reason)

/-- What becomes of an input, by the library's answers for it. -/
def Answers (exit : Nat) (after : State) : Prop :=
  match givenText host state invocation.input with
  | none => exit = 1
  | some text =>
    match Pipeline.compileWith text.toList invocation.overrides with
    | .error error => SourceCode error.kind exit
    | .ok _ =>
      if invocation.events then exit = 0
      else Stores host files state invocation exit after (Pipeline.midiFile text.toList invocation.overrides)

/-- A run answers for its input, and changes nothing in vain. -/
structure Agrees (report : Report) (after : State) : Prop where
  source : ∀ {path text}, invocation.input = .file path → givenText host state (.file path) = some text →
    Holds files state path text.toUTF8.toList
  answers : Answers host files state invocation report.exit after
  untouched : report.exit ≠ 0 ∨ invocation.events = true → after = state
  silent : report.exit ≠ 0 → report.stdout = ""
  elsewhere : ∀ file, files.find after invocation.output ≠ some file →
    files.content after file = files.content state file

end Answering

section Agreement
variable {State : Type} {host : Host (StateM State)} {files : Files State} {state after : State}
  {invocation : Invocation} {text : String} {exit : Nat}

private theorem Compiles.midiFile {compiled : Pipeline.Compiled}
    (compiles : Compiles host state invocation text compiled) :
    Pipeline.midiFile text.toList invocation.overrides = Midi.file compiled.events compiled.settings := by
  rw [Pipeline.midiFile, compiles.done]
  rfl

private theorem Compiles.answers {compiled : Pipeline.Compiled}
    (compiles : Compiles host state invocation text compiled) (filed : invocation.events = false)
    (stores : Stores host files state invocation exit after (Midi.file compiled.events compiled.settings)) :
    Answers host files state invocation exit after := by
  simp only [Answers, compiles.given, compiles.done, filed, compiles.midiFile, Bool.false_eq_true, ↓reduceIte]
  exact stores

variable (keeps : Keeps host files)
include keeps

private theorem holds_of_given {path : String} (given : givenText host state (.file path) = some text) :
    Holds files state path text.toUTF8.toList := by
  apply keeps.read_gives_content
  change (readIn host state path).1.toOption = some text at given
  cases found : (readIn host state path).1 with
  | ok _ =>
    rw [found] at given
    cases given
    rfl
  | error _ =>
    rw [found] at given
    cases given

/-- A failure leaves the files as they are, whatever it answers for. -/
private theorem Agrees.of_failure {line : String} (answers : Answers host files state invocation exit state) :
    Agrees host files state invocation (.failure exit line) state :=
  ⟨fun _ => holds_of_given keeps, answers, fun _ => rfl, fun _ => rfl, fun _ _ => rfl⟩

private theorem Ending.agrees {result : Report × State} (ending : Ending host state invocation result) :
    Agrees host files state invocation result.1 result.2 := by
  cases ending with
  | unread asked failed =>
    refine .of_failure keeps ?_
    simp [Answers, asked, givenText, failed, Except.toOption]
  | refused given failed =>
    refine .of_failure keeps ?_
    simp only [Answers, given, failed]
    exact ofSource_of_compileWith failed
  | shown compiles events =>
    refine ⟨fun _ => holds_of_given keeps, ?_, fun _ => rfl, nofun, fun _ _ => rfl⟩
    simp only [Answers, compiles.given, compiles.done, events]
    rfl
  | unwritable compiles filed failed =>
    refine .of_failure keeps (compiles.answers filed ?_)
    rw [failed]
    exact exitCode_of_file compiles.done failed
  | unstored compiles filed made failed =>
    refine .of_failure keeps (compiles.answers filed ?_)
    rw [made]
    exact .inr ⟨rfl, _, congrArg Prod.fst failed⟩
  | @stored _ _ bytes after compiles filed made written =>
    have done : (writeIn host state invocation.output bytes).1 = .ok () := congrArg Prod.fst written
    have stores := keeps.write_stores done
    have changesOne := keeps.write_changes_one done
    rw [written] at stores changesOne
    refine ⟨fun _ => holds_of_given keeps, compiles.answers filed ?_, ?_, nofun, changesOne⟩
    · rw [made]
      exact .inl ⟨rfl, stores⟩
    · rintro (failed | events)
      · exact absurd rfl failed
      · cases filed.symm.trans events

end Agreement

/-- Command line and library agree, and a run that fails leaves the files as they were. -/
theorem agrees_of_demand {State : Type} {host : Host (StateM State)} {files : Files State} (keeps : Keeps host files)
    {arguments : List String} {invocation : Invocation} (asked : demand arguments = .invoke invocation)
    (state : State) :
    Agrees host files state invocation ((run host arguments).run state).1 ((run host arguments).run state).2 :=
  (ending_of_demand keeps asked state).agrees keeps

def songFolder : Folder := ⟨[(["song.json"], .file "[[\"C4\", \"-\", \".\", \"G4\"]]".toUTF8.toList)]⟩

theorem agrees_stored_song :
    demand ["song.json", "-o", "song.mid"] = .invoke ⟨.file "song.json", "song.mid", false, {}⟩ ∧
      ∃ bytes, Pipeline.midiFile "[[\"C4\", \"-\", \".\", \"G4\"]]".toList {} = .ok bytes ∧
        (runIn songFolder ["song.json", "-o", "song.mid"]).1.exit = 0 ∧
        Holds folderFiles (runIn songFolder ["song.json", "-o", "song.mid"]).2 "song.mid" bytes := by
  have asked : demand ["song.json", "-o", "song.mid"] = .invoke ⟨.file "song.json", "song.mid", false, {}⟩ := by decide
  have given : givenText Folder.host songFolder (.file "song.json") = some "[[\"C4\", \"-\", \".\", \"G4\"]]" := by
    decide +kernel
  have done : Pipeline.compileWith "[[\"C4\", \"-\", \".\", \"G4\"]]".toList {} =
      .ok ⟨[⟨0, 0, 60, 100, 0, 2⟩, ⟨0, 0, 67, 100, 3, 1⟩], {}⟩ := by cbv
  have files : (Pipeline.midiFile "[[\"C4\", \"-\", \".\", \"G4\"]]".toList {}).isOk = true := by cbv
  have answers := (agrees_of_demand keeps_folder asked songFolder).answers
  simp only [Answers, given, done, Bool.false_eq_true, ↓reduceIte] at answers
  cases made : Pipeline.midiFile "[[\"C4\", \"-\", \".\", \"G4\"]]".toList {} with
  | error error =>
    rw [made] at files
    cases files
  | ok bytes =>
    rw [made] at answers
    rcases answers with ⟨exit, stored⟩ | ⟨_, reason, failed⟩
    · exact ⟨asked, bytes, rfl, exit, stored⟩
    · -- Nothing is in the way of the file, so that it can be written.
      have written : (writeIn Folder.host songFolder "song.mid" bytes).1 = .ok () := rfl
      cases written.symm.trans failed

/-- What a run changes in a folder is the one file that it writes. -/
theorem written_of_mem_changesFrom {folder : Folder} {arguments : List String} {invocation : Invocation}
    (asked : demand arguments = .invoke invocation) {path : Path} {content : List UInt8}
    (changed : (path, content) ∈ (runIn folder arguments).2.changesFrom folder) :
    (runIn folder arguments).1.exit = 0 ∧ invocation.events = false ∧
      placeOf (runIn folder arguments).2 invocation.output = some path ∧
      ∃ text, givenText Folder.host folder invocation.input = some text ∧
        Pipeline.midiFile text.toList invocation.overrides = .ok content := by
  obtain ⟨stored, fresh⟩ := mem_changesFrom.mp changed
  have ending : Ending Folder.host folder invocation (runIn folder arguments) := ending_of_demand keeps_folder asked folder
  rcases ran : runIn folder arguments with ⟨report, after⟩
  rw [ran] at ending stored
  cases ending with
  | unread | refused | shown | unwritable | unstored => exact absurd stored fresh
  | stored compiles filed made written =>
    have done := congrArg Prod.fst written
    obtain ⟨place, found, holds⟩ := keeps_folder.write_stores done
    have changesOne := keeps_folder.write_changes_one done
    rw [written] at found holds changesOne
    have same : place = path := by
      by_contra apart
      have unchanged : contentAt after path = contentAt folder path :=
        changesOne path fun also => apart (Option.some.inj (found.symm.trans also))
      rw [contentAt_eq_some.mpr stored] at unchanged
      exact fresh (contentAt_eq_some.mp unchanged.symm)
    subst same
    refine ⟨rfl, filed, found, _, compiles.given, ?_⟩
    have content : some content = some _ := (contentAt_eq_some.mpr stored).symm.trans holds
    rw [compiles.midiFile, made, Option.some.inj content]

end StepGrid.Proofs.CommandRuns
