import ReactWeave.Host
import ReactWeave.Plugin
import ReactWeave.Shell.Words
import ReactWeave.Text.Blank

/-!
# ReactWeave.Formatter

**Formatting** the source of a component: by a function, or by a command that
reads the source from its input and writes the formatted source.
-/

namespace ReactWeave

/-- Formats a source. -/
abbrev Formatter := String → Traced (Answer String)

namespace Formatter

/-- A value that stands for a formatter and cannot be called. -/
def stray : Formatter := fun source =>
  ⟨[.formatting source none], .error .notApplicable⟩

/-- The formatter that a function is. -/
def ofFunction (f : String → Outcome (Answer String)) : Formatter := fun source =>
  ⟨[.formatting source none], f source⟩

end Formatter

/-- A formatter that is a command. -/
structure CommandFormatter where
  command : List String
  /-- The name of the language that the command is told. -/
  language : String
  /-- The most seconds it may take; null for no limit. -/
  timeout : Json
  deriving Repr

namespace CommandFormatter

/-- The command if none is asked for. -/
def defaultCommand : String := "npx --no-install prettier"

/-- The language if none is asked for. -/
def defaultLanguage : String := "typescript"

/-- The limit if none is asked for: half a minute. -/
def defaultTimeout : Json := .real (.ofDecimal false 30 0)

/-- A formatter with the usual language and limit. -/
def ofCommand (command : List String) : CommandFormatter :=
  ⟨command, defaultLanguage, defaultTimeout⟩

/-- The formatter that the environment asks for. -/
def ofEnvironment (setting : Option String) : Outcome CommandFormatter :=
  (Shell.words (setting.getD defaultCommand)).map ofCommand

/-- The words of the command. -/
def words (f : CommandFormatter) : List String := f.command ++ ["--parser", f.language]

/-- Whether a number of microseconds reaches a limit in seconds. -/
def reaches (elapsed : Nat) : Json → Outcome Bool
  | .null => .ok false
  | .bool b => .ok (b.toNat * 1000000 ≤ elapsed)
  | .int n => .ok (n * 1000000 ≤ (elapsed : Int))
  | .real (.finite negative mantissa exponent) =>
    .ok (negative ||
      (if 0 ≤ exponent then mantissa * Number.twoTo exponent.toNat * 1000000 ≤ elapsed
       else mantissa * 1000000 ≤ elapsed * Number.twoTo (-exponent).toNat))
  | .real (.infinite negative) => .ok negative
  | .real .nan => .ok false
  | .str _ | .arr _ | .obj _ => .error .notApplicable

/-- The source that a command wrote, or why there is none. -/
def outcome (f : CommandFormatter) : Execution → Outcome String
  | .notFound =>
    match f.command with
    | [] => .error .indexOutOfRange
    | name :: _ => .error (.formatterNotFound name)
  | .ended status output errors elapsed => do
    if ← reaches elapsed f.timeout then throw (.formatterTimedOut f.timeout)
    let output ← output.read
    let errors ← errors.read
    if status = 0 then return output
    else
      let complaint := Text.trim errors.toList
      if complaint.isEmpty then .error (.formatterStatus status)
      else .error (.formatRefused (String.ofList complaint) none)

/-- Runs the command on a source. -/
def run (f : CommandFormatter) (source : String) (host : Host) : Outcome String :=
  f.outcome (host.execute f.words source)

/-- The formatter that a command is. -/
def toFormatter (f : CommandFormatter) (host : Host) : Formatter := fun source =>
  ⟨[.formatting source (some f.words)], (f.run source host).map .payload⟩

end CommandFormatter

/-! ## Gaps between imports -/

/-- The text in front of which a gap is closed. -/
def gapStart : List Char := ";\n\nimport".toList

/-- Removes the empty line between an import and a statement in front of it; the first `skip`
characters belong to a gap that was closed. -/
def collapseFrom : Nat → List Char → List Char
  | _, [] => []
  | skip + 1, _ :: s => collapseFrom skip s
  | 0, c :: s =>
    if Text.startsWith gapStart (c :: s) &&
        ((s.drop (gapStart.length - 1)).head?.any Text.isBlank) then
      ";\nimport ".toList ++ collapseFrom gapStart.length s
    else c :: collapseFrom 0 s

/-- Removes the empty lines between imports. -/
def collapseImportGaps (source : String) : String :=
  String.ofList (collapseFrom 0 source.toList)

end ReactWeave
