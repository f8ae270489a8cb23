import ReactWeave.Component.Reader
import ReactWeave.Text.Utf8

/-!
# ReactWeave.Files

**Files and directories**, as a value. Paths are read from a working directory;
the directories above it and the root of absolute paths are there and empty.
-/

namespace ReactWeave

/-- A file or a directory. -/
inductive Entry where
  | file (c : Content)
  | directory
  deriving Repr

/-- Where something is, from the working directory. -/
abbrev Place := List String

/-- Files and directories by their places. -/
abbrev Files := List (Place × Entry)

/-! ## Paths -/

/-- The parts of a path between its slashes. -/
def splitSlashes (current : List Char) : List Char → List String
  | [] => [String.ofList current.reverse]
  | c :: s =>
    if c == '/' then String.ofList current.reverse :: splitSlashes [] s
    else splitSlashes (c :: current) s

/-- The root of absolute paths, as the first step of one. -/
def rootStep : String := "/"

/-- The steps of a path: its parts, behind the root if it is absolute. -/
def pathSteps (path : String) : List String :=
  match path.toList with
  | '/' :: s => rootStep :: splitSlashes [] s
  | s => splitSlashes [] s

/-- A path without empty parts and without parts that stay where they are. -/
structure CleanPath where
  steps : List String
  deriving DecidableEq, Repr

namespace CleanPath

/-- Cleans a path. -/
def ofString (path : String) : CleanPath :=
  ⟨(pathSteps path).filter fun step => !(step.isEmpty || step == ".")⟩

/-- The text of a path. -/
def text (p : CleanPath) : String :=
  match p.steps with
  | [] => "."
  | step :: rest =>
    if step == rootStep then rootStep ++ "/".intercalate rest else "/".intercalate (step :: rest)

/-- The path of the directory that a path leads into. -/
def parent (p : CleanPath) : CleanPath := ⟨p.steps.dropLast⟩

end CleanPath

namespace Files

/-! ## Looking up -/

/-- What is at a place: what is told of it, or one of the directories that are always there. -/
def entry? (files : Files) (place : Place) : Option Entry :=
  if place.all (· == "..") || place == [rootStep] then some .directory
  else
    match files with
    | [] => none
    | (p, e) :: rest => if p = place then some e else entry? rest place

/-- The directory around a place. -/
def above (place : Place) : Place :=
  if place == [rootStep] then place
  else if place.all (· == "..") then place ++ [".."]
  else place.dropLast

/-- Where a step leads from a place. -/
def next (place : Place) (step : String) : Place :=
  if step.isEmpty || step == "." then place
  else if step == ".." then above place
  else if step == rootStep then [rootStep]
  else place ++ [step]

/-- Follows a path from a place. Every place on the way has to be a directory. -/
def follow (files : Files) (place : Place) : List String → Except FileFault Place
  | [] => .ok place
  | step :: steps =>
    match files.entry? place with
    | none => .error .noSuchFile
    | some (.file _) => .error .notADirectory
    | some .directory => follow files (next place step) steps

/-- What a path leads to, if it leads somewhere. -/
def find (files : Files) (steps : List String) : Except FileFault (Place × Option Entry) :=
  (follow files [] steps).map fun place => (place, files.entry? place)

/-- Whether a path leads to a directory. -/
def isDirectory (files : Files) (p : CleanPath) : Bool :=
  match files.find p.steps with
  | .ok (_, some .directory) => true
  | _ => false

/-! ## Reading -/

/-- Reads the file that a path leads to. -/
def read (files : Files) (path : String) : Outcome String :=
  if path.isEmpty then .error (.file .noSuchFile path)
  else
    match files.find (pathSteps path) with
    | .error fault => .error (.file fault path)
    | .ok (_, none) => .error (.file .noSuchFile path)
    | .ok (_, some .directory) => .error (.file .isADirectory path)
    | .ok (_, some (.file c)) => c.read

/-- Loads the component that a file holds. -/
def load (files : Files) (path : String) : Outcome Component := do
  Component.ofText (← files.read path)

/-! ## Writing -/

/-- Puts something at a place. -/
def put (files : Files) (place : Place) (e : Entry) : Files :=
  match files with
  | [] => [(place, e)]
  | (p, old) :: rest => if p = place then (p, e) :: rest else (p, old) :: put rest place e

/-- Makes a directory; its parent has to be there. -/
def makeDirectory (files : Files) (p : CleanPath) : Except FileFault Files :=
  match files.find p.steps with
  | .error fault => .error fault
  | .ok (_, some _) => .error .fileExists
  | .ok (place, none) =>
    match files.entry? (above place) with
    | some .directory => .ok (files.put place .directory)
    | some (.file _) => .error .notADirectory
    | none => .error .noSuchFile

/-- Makes a directory unless it is there; its parent has to be there. -/
def ensureOne (files : Files) (p : CleanPath) : Outcome Files :=
  match files.makeDirectory p with
  | .ok files => .ok files
  | .error fault =>
    if fault != .noSuchFile && files.isDirectory p then .ok files else .error (.file fault p.text)

/-- Makes a directory and all directories around it that are not there. The steps of its path are
given last step first. -/
def ensureSteps (files : Files) : List String → Outcome Files
  | [] => .ok files
  | step :: outer =>
    let p : CleanPath := ⟨(step :: outer).reverse⟩
    match files.makeDirectory p with
    | .ok files => .ok files
    | .error .noSuchFile => do
      let files ← ensureSteps files outer
      files.ensureOne p
    | .error fault =>
      if files.isDirectory p then .ok files else .error (.file fault p.text)

/-- Makes a directory and all directories around it that are not there. -/
def ensureDirectory (files : Files) (p : CleanPath) : Outcome Files :=
  files.ensureSteps p.steps.reverse

/-- Writes a text to a file whose directory is there. -/
def write (files : Files) (p : CleanPath) (text : String) : Outcome Files :=
  match files.find p.steps with
  | .error fault => .error (.file fault p.text)
  | .ok (_, some .directory) => .error (.file .isADirectory p.text)
  | .ok (place, _) =>
    match files.entry? (above place) with
    | some .directory => .ok (files.put place (.file (.text text)))
    | some (.file _) => .error (.file .notADirectory p.text)
    | none => .error (.file .noSuchFile p.text)

/-- Writes a text to a file, in a directory that is made if it is not there. -/
def save (files : Files) (p : CleanPath) (text : String) : Outcome Files := do
  let files ← files.ensureDirectory p.parent
  files.write p text

end Files

end ReactWeave
