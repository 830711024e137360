/-! A folder and what is in it, as far as programs that run in it can tell. Paths lead
from the folder itself; what lies outside of it is not known to contain anything. -/

namespace StepGrid.CommandLine

abbrev Path := List String

inductive Entry where
  | file (content : List UInt8)
  | folder
deriving DecidableEq, Repr

inductive FileFault where
  | missing
  | notFolder
  | isFolder
  | notText
deriving DecidableEq, Repr

def FileFault.phrase : FileFault → String
  | missing => "No such file or directory (os error 2)"
  | notFolder => "Not a directory (os error 20)"
  | isFolder => "Is a directory (os error 21)"
  | notText => "stream did not contain valid UTF-8"

/-- The entries by their paths, each path once. -/
structure Folder where
  entries : List (Path × Entry)
deriving DecidableEq, Repr

namespace Folder

/-- The parts of a path between its slashes. -/
def parts (path : String) : List String :=
  ((path.toList.splitOn '/').filter (!·.isEmpty)).map String.ofList

def isAbsolute (path : String) : Bool := path.toList.head? = some '/'

def endsInSlash (path : String) : Bool := path.toList.getLast? = some '/'

def entry? (folder : Folder) (path : Path) : Option Entry :=
  if path.isEmpty then some .folder else folder.entries.lookup path

/-- A place that a path may lead to: one in the folder, or somewhere outside. -/
inductive Place where
  | inside (path : Path)
  | outside
deriving DecidableEq, Repr

def enter (folder : Folder) (place : Place) (part : String) : Except FileFault Place :=
  match place with
  | .outside => if part = "." ∨ part = ".." then .ok .outside else .error .missing
  | .inside path =>
    match folder.entry? path with
    | none => .error .missing
    | some (.file _) => .error .notFolder
    | some .folder =>
      if part = "." then .ok (.inside path)
      else if part = ".." then .ok (if path.isEmpty then .outside else .inside path.dropLast)
      else .ok (.inside (path ++ [part]))

/-- The place that the parts of a path lead to. All but the last are folders. -/
def walk (folder : Folder) (place : Place) : List String → Except FileFault Place
  | [] => .ok place
  | part :: rest =>
    match folder.enter place part with
    | .ok next => folder.walk next rest
    | .error fault => .error fault

def origin (path : String) : Place := if isAbsolute path then .outside else .inside []

/-- The content of a file. -/
def read (folder : Folder) (path : String) : Except FileFault (List UInt8) :=
  if path.isEmpty then .error .missing
  else match folder.walk (origin path) (parts path) with
    | .error fault => .error fault
    | .ok .outside => .error .isFolder
    | .ok (.inside place) =>
      match folder.entry? place with
      | none => .error .missing
      | some .folder => .error .isFolder
      | some (.file content) => if endsInSlash path then .error .notFolder else .ok content

/-- The text of a file. -/
def readText (folder : Folder) (path : String) : Except FileFault String :=
  match folder.read path with
  | .error fault => .error fault
  | .ok content =>
    match String.fromUTF8? ⟨content.toArray⟩ with
    | some text => .ok text
    | none => .error .notText

/-- Where a file may be written. -/
def target (folder : Folder) (path : String) : Except FileFault Path :=
  if path.isEmpty then .error .missing
  else match folder.walk (origin path) (parts path).dropLast, (parts path).getLast? with
    | .error fault, _ => .error fault
    | .ok _, none => .error .isFolder
    | .ok place, some last =>
      match folder.enter place last with
      | .error fault => .error fault
      | .ok .outside => .error .isFolder
      | .ok (.inside file) =>
        if endsInSlash path ∨ last = "." ∨ last = ".." then .error .isFolder
        else match folder.entry? file with
          | some .folder => .error .isFolder
          | _ => .ok file

def put (folder : Folder) (path : Path) (entry : Entry) : Folder :=
  ⟨(path, entry) :: folder.entries.filter (·.1 ≠ path)⟩

/-- Replaces or creates a file. -/
def write (folder : Folder) (path : String) (content : List UInt8) : Except FileFault Folder :=
  (folder.target path).map fun place => folder.put place (.file content)

/-- The files of a folder that another one has not, or not with that content. -/
def changesFrom (folder before : Folder) : List (Path × List UInt8) :=
  folder.entries.filterMap fun (path, _) =>
    match folder.entry? path with
    | some (.file content) => if before.entry? path = some (.file content) then none else some (path, content)
    | _ => none

end Folder

end StepGrid.CommandLine
