import ReactWeave.Cli.Run

/-!
# ReactWeave.Main

The program: looks at the files that its arguments name, runs, and writes what
the report says. It starts no commands, so a formatter that is one is not found.
-/

namespace ReactWeave.Main

/-- What is at a place: what can be read is a file, what is there and cannot be read a directory. -/
def look (place : Place) : IO (Option Entry) := do
  try
    let bytes ← IO.FS.readBinFile (CleanPath.mk place).text
    return some (.file (.bytes bytes.data.toList))
  catch
    | .noFileOrDirectory .. => return none
    | _ => return some .directory

/-- Adds what is at the places that a path passes, from the working directory on. -/
def survey (path : String) (files : Files) : IO Files := do
  let mut place : Place := []
  let mut files := files
  for step in pathSteps path do
    place := Files.next place step
    if (files.entry? place).isNone then
      if let some entry ← look place then
        files := files.put place entry
  return files

/-- The files that a call concerns. -/
def filesOf (args : List String) : IO Files :=
  match Cli.readCall args with
  | .error _ => return []
  | .ok call => do
    survey (call.request.output.getD "") (← survey call.request.input [])

/-- Makes the directories and writes the texts of a run. -/
def store (files : Files) : IO Unit := do
  for (place, entry) in files do
    match entry with
    | .directory => IO.FS.createDirAll (CleanPath.mk place).text
    | .file (.text s) => IO.FS.writeFile (CleanPath.mk place).text s
    | .file (.bytes _) => pure ()

end ReactWeave.Main

open ReactWeave in
/-- Runs the program. -/
def main (args : List String) : IO UInt32 := do
  let setting ← IO.getEnv Failure.formatterVariable
  match Cli.run { Host.bare with setting } (← Main.filesOf args) args with
  | .error e =>
    IO.eprintln e.message
    return 1
  | .ok report =>
    IO.print report.output
    IO.eprint report.errors
    if report.status = 0 then Main.store report.files
    return report.status.toUInt32
