import StepGrid.CommandLine.Arguments
import StepGrid.CommandLine.Folder
import StepGrid.Pipeline

/-! A run of the program: it reads its source, compiles it, and prints the notes or writes
the MIDI file. Files are those of a host, which may be a folder or the whole machine. -/

namespace StepGrid.CommandLine

/-- What a run leaves behind, apart from files. -/
structure Report where
  exit : Nat
  stdout : String
  stderr : String
deriving DecidableEq, Repr

/-- A way to read texts and write files. What fails is told in words. -/
structure Host (m : Type → Type) where
  read : String → m (Except String String)
  write : String → Midi.Bytes → m (Except String Unit)

def usage : String :=
  "Usage: stepseq [OPTIONS] <input.json>\n" ++
  "       stepseq [OPTIONS] --sequence '<JSON>'\n" ++
  "\n" ++
  "Options:\n" ++
  "  -s, --sequence <JSON>      Bar matrix given inline instead of an input file\n" ++
  "  -o, --output <FILE>        MIDI file to write (default: output.mid)\n" ++
  "      --bpm <N>              Tempo in beats per minute (default: 120)\n" ++
  "      --steps-per-bar <N>    Steps in each bar (default: 4)\n" ++
  "      --velocity <N>         Note velocity, clamped to 1-127 (default: 100)\n" ++
  "      --channel <N>          MIDI channel 0-15 (default: 0)\n" ++
  "      --events               Print compiled note events as JSON instead of writing MIDI\n" ++
  "  -h, --help                 Show this help"

namespace Report

def success (line : String) : Report := ⟨0, line ++ "\n", ""⟩

def failure (exit : Nat) (line : String) : Report := ⟨exit, "", line ++ "\n"⟩

end Report

/-- The exit code of each kind of error. -/
def exitCode : Error.Kind → Nat
  | .sequenceFormat => 2
  | .barLength => 3
  | .unsupportedStep => 4
  | .noteName => 5
  | .metadata => 6
  | .setting _ => 6
  | .encoding => 7
  | .arithmetic => 101

/-- Notes and settings as one JSON text, all keys sorted. -/
def eventsReport (compiled : Pipeline.Compiled) : String :=
  Json.renderLines 0 (.object [
    ("events", .array (compiled.events.map fun event => event.toJson.withSortedKeys)),
    ("settings", compiled.settings.toJson.withSortedKeys)])

section

variable {m : Type → Type} [Monad m]

def sourceText (host : Host m) : Input → m (Except Report String)
  | .inline text => pure (.ok text)
  | .file path => do
    match ← host.read path with
    | .ok text => return .ok text
    | .error reason =>
      return .error (.failure 1 ("Error reading file '" ++ path ++ "': " ++ reason))

def writeFile (host : Host m) (path : String) (bytes : Midi.Bytes) : m Report := do
  match ← host.write path bytes with
  | .ok () => return .success ("MIDI file written to " ++ path)
  | .error reason => return .failure 1 ("Error writing to '" ++ path ++ "': " ++ reason)

def deliver (host : Host m) (invocation : Invocation) (compiled : Pipeline.Compiled) : m Report :=
  if invocation.events then pure (.success (eventsReport compiled))
  else match Midi.file compiled.events compiled.settings with
    | .error error =>
      pure (.failure (exitCode error.kind) ("Error encoding MIDI: " ++ error.message))
    | .ok bytes => writeFile host invocation.output bytes

def invoke (host : Host m) (invocation : Invocation) : m Report := do
  match ← sourceText host invocation.input with
  | .error report => return report
  | .ok text =>
    match Pipeline.compileWith text.toList invocation.overrides with
    | .error error => return .failure (exitCode error.kind) ("Compilation error: " ++ error.message)
    | .ok compiled => deliver host invocation compiled

def run (host : Host m) (arguments : List String) : m Report :=
  match demand arguments with
  | .help => pure (.success usage)
  | .wrong fault => pure (.failure 1 (fault.phrase ++ "\n" ++ usage))
  | .invoke invocation => invoke host invocation

end

/-- Reads and writes in a folder. -/
def Folder.host : Host (StateM Folder) where
  read path := do return ((← get).readText path).mapError (·.phrase)
  write path bytes := do
    match (← get).write path bytes with
    | .ok folder =>
      set folder
      return .ok ()
    | .error fault => return .error fault.phrase

/-- A run in a folder, with the folder after it. -/
def runIn (folder : Folder) (arguments : List String) : Report × Folder :=
  (run Folder.host arguments).run folder

end StepGrid.CommandLine
