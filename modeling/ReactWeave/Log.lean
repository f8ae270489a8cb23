import ReactWeave.Trace

/-!
# ReactWeave.Log

**Log lines** for what happens during a compilation.
-/

namespace ReactWeave

/-- How important a log line is. -/
inductive LogLevel where
  | debug
  | info
  | error
  deriving DecidableEq, Repr

/-- The name of a level. -/
def LogLevel.name : LogLevel → String
  | .debug => "DEBUG"
  | .info => "INFO"
  | .error => "ERROR"

/-- A log line. -/
structure LogLine where
  level : LogLevel
  /-- Who writes it. -/
  source : String
  message : String
  deriving DecidableEq, Repr

/-- The text of a log line. -/
def LogLine.text (l : LogLine) : String := l.level.name ++ " " ++ l.source ++ ": " ++ l.message

/-- Names as messages list them. -/
def quotedList (names : List String) : String := (Json.arr (names.map .str)).display

/-- What is told of a formatter that failed. -/
def formatFailure (source : String) (c : Component) : String :=
  "Format error for component " ++ c.name.asText ++ "\n--- source ---\n" ++ source ++
    "\n--- component ---\n" ++ c.toText (.indented 2)

/-- The log line for an event, if there is one. -/
def Event.logLine? : Event → Option LogLine
  | .generating name state styles =>
    some ⟨.debug, "jsxlite.codegen.react", "Generating " ++ name.asText ++ " (state=" ++
      state.name ++ ", styles=" ++ styles.name ++ ")"⟩
  | .rejected code =>
    some ⟨.debug, "jsxlite.parser.expressions", "Rejected expression " ++ code.display⟩
  | .mappingRefs refs name =>
    some ⟨.debug, "jsxlite.codegen.refs",
      "Mapping refs " ++ quotedList refs ++ " in " ++ name.asText⟩
  | .styled tag name =>
    some ⟨.debug, "jsxlite.codegen.styles", "Styled <" ++ tag ++ "> as " ++ name⟩
  | .hook stage plugin _ =>
    some ⟨.debug, "jsxlite.codegen.plugins",
      "Running " ++ stage.name ++ " hook of plugin " ++ plugin.asText⟩
  | .noted _ _ => none
  | .formatting source command =>
    command.map fun words => ⟨.debug, "jsxlite.codegen.formatting",
      "Formatting " ++ toString source.length ++ " characters with " ++ " ".intercalate words⟩
  | .formatFailed source c => some ⟨.error, "jsxlite.codegen.react", formatFailure source c⟩

end ReactWeave
