import ReactWeave.Cli.Command
import ReactWeave.Compile
import ReactWeave.Files
import ReactWeave.Log

/-!
# ReactWeave.Cli.Run

**Running the program** on files that are given as a value. The report says what
was written where, and the status with which the program ends.
-/

namespace ReactWeave.Cli

/-- What came of a run. -/
structure Report where
  status : Nat
  output : String
  errors : String
  files : Files
  deriving Repr

/-- Whether a failure is a fault of the program, which ends it. -/
def isFault : Failure → Bool
  | .badTemplate | .unknownGroup | .notApplicable | .noSuchOperation | .missingKey
  | .indexOutOfRange | .raised _ => true
  | _ => false

/-- Whether a failure is reported to the user. -/
def isReported (e : Failure) : Bool := !isFault e && !e.isUnpaired

/-- Whether a log line is written. -/
def isWritten (verbose : Bool) (l : LogLine) : Bool := verbose || l.level = .error

/-- Log lines as text. -/
def logText (verbose : Bool) (lines : List LogLine) : String :=
  String.join ((lines.filter (isWritten verbose)).map fun l => l.text ++ "\n")

/-- The options that a request asks for. -/
def Request.options (r : Request) : Options :=
  { Options.default with format := r.format, state := r.state, styles := r.styles }

/-- The log line for a file that was written. -/
def wroteLine (p : CleanPath) : LogLine := ⟨.info, "jsxlite.cli", "Wrote " ++ p.text⟩

/-- What a request writes: lines of the log and, unless it fails, the output and the files. -/
structure Deed where
  log : List LogLine
  outcome : Outcome (String × Files)
  deriving Repr

/-- Hands a source over: to the file that is asked for, or to the output. -/
def deliver (files : Files) (r : Request) (source : String) : Deed :=
  match r.output.filter fun path => !path.isEmpty with
  | none => ⟨[], .ok (source, files)⟩
  | some path =>
    let p := CleanPath.ofString path
    match files.save p source with
    | .error e => ⟨[], .error e⟩
    | .ok files => ⟨[wroteLine p], .ok ("", files)⟩

/-- Loads the component that a file holds, unless the recursion over the text goes too deep. -/
def load (host : Host) (files : Files) (path : String) : Outcome Component := do
  let text ← files.read path
  if host.fits text then Component.ofText text else throw .tooDeep

/-- Compiles the component in a file. -/
def perform (host : Host) (files : Files) (r : Request) : Deed :=
  match load host files r.input with
  | .error e => ⟨[], .error e⟩
  | .ok c =>
    let t := c.compile host r.options
    let log := t.events.filterMap Event.logLine?
    match t.outcome with
    | .error e => ⟨log, .error e⟩
    | .ok source =>
      let d := deliver files r source
      { d with log := log ++ d.log }

/-- What the program does instead if its arguments ask for nothing that can be run. -/
def Stop.report (files : Files) : Stop → Report
  | .help m => ⟨0, m.usage ++ m.details, "", files⟩
  | .version => ⟨0, programName ++ " " ++ Cli.version ++ "\n", "", files⟩
  | .misuse m message => ⟨2, "", m.usage ++ m.program ++ ": error: " ++ message ++ "\n", files⟩

/-- Runs a call. Only a failure that is reported gives a report. -/
def Call.run (host : Host) (files : Files) (c : Call) : Outcome Report :=
  let d := perform host files c.request
  let log := logText c.verbose d.log
  match d.outcome with
  | .ok (output, files) => .ok ⟨0, output, log, files⟩
  | .error e =>
    if isReported e then .ok ⟨1, "", log ++ "Error: " ++ e.format ++ "\n", files⟩ else .error e

/-- Runs the program. -/
def run (host : Host) (files : Files) (args : List String) : Outcome Report :=
  match readCall args with
  | .error stop => .ok (stop.report files)
  | .ok call => call.run host files

end ReactWeave.Cli
