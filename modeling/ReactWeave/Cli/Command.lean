import ReactWeave.Cli.Arguments

/-!
# ReactWeave.Cli.Command

The **commands** of the program and what they are asked to do.
-/

namespace ReactWeave.Cli

/-! ## Texts -/

/-- A usage text: its first lines, and what follows in the help. -/
structure Manual where
  /-- The name of the program or command. -/
  program : String
  usage : String
  details : String
  deriving Repr

/-- The name of the program. -/
def programName : String := "jsxlite"

/-- The version of the program. -/
def version : String := "0.1.0"

/-- Lines, each ended by a line break. -/
def textOfLines (lines : List String) : String := String.join (lines.map (· ++ "\n"))

/-- The manual of the program. -/
def topManual : Manual where
  program := programName
  usage := textOfLines ["usage: jsxlite [-h] [--version] [-v] \x7bcompile\x7d ..."]
  details := textOfLines
    ["",
     "Compile jsxlite component IR to framework source code.",
     "",
     "positional arguments:",
     "  \x7bcompile\x7d",
     "    compile      Compile a component to React",
     "",
     "options:",
     "  -h, --help     show this help message and exit",
     "  --version      show program's version number and exit",
     "  -v, --verbose  Enable debug logging"]

/-- The choices of an option in braces. -/
def braces (names : List String) : String := "\x7b" ++ ",".intercalate names ++ "\x7d"

/-- The strategies for the state, as choices. -/
def stateChoices : List String := StateStrategy.all.map StateStrategy.name

/-- The strategies for styles, as choices. -/
def styleChoices : List String := StyleStrategy.all.map StyleStrategy.name

/-- The manual of the command that compiles. -/
def compileManual : Manual where
  program := programName ++ " compile"
  usage := textOfLines
    ["usage: jsxlite compile [-h] [-o OUTPUT]",
     "                       [--state-type " ++ braces stateChoices ++ "]",
     "                       [--styles-type " ++ braces styleChoices ++ "]",
     "                       [--no-prettier]",
     "                       input"]
  details := textOfLines
    ["",
     "positional arguments:",
     "  input                 Component JSON file",
     "",
     "options:",
     "  -h, --help            show this help message and exit",
     "  -o OUTPUT, --output OUTPUT",
     "                        Write the result here instead of stdout",
     "  --state-type " ++ braces stateChoices,
     "                        State management strategy (default: mobx)",
     "  --styles-type " ++ braces styleChoices,
     "                        Styling strategy (default: emotion)",
     "  --no-prettier         Skip formatting the output"]

/-! ## What is asked for -/

/-- What the command that compiles is asked to do. -/
structure Request where
  input : String
  output : Option String
  state : StateStrategy
  styles : StyleStrategy
  format : Bool
  deriving DecidableEq, Repr

/-- What the program is asked to do. -/
structure Call where
  verbose : Bool
  request : Request
  deriving DecidableEq, Repr

/-- Why arguments ask for nothing that can be run. -/
inductive Stop where
  /-- Help is asked for. -/
  | help (m : Manual)
  /-- The version is asked for. -/
  | version
  /-- The arguments are wrong. -/
  | misuse (m : Manual) (message : String)
  deriving Repr

/-- The value of a choice. -/
def choose {α : Type} (m : Manual) (label : String) (all : List α) (name : α → String)
    (value : String) : Except Stop α :=
  match all.find? fun x => name x == value with
  | some x => .ok x
  | none => .error (.misuse m ("argument " ++ label ++ ": invalid choice: " ++ Text.quoted value ++
      " (choose from " ++ ", ".intercalate (all.map fun x => Text.quoted (name x)) ++ ")"))

/-- The option that asks for help. -/
def helpFlag {σ : Type} (m : Manual) : Flag σ Stop :=
  ⟨["-h", "--help"], false, fun _ _ => .error (.help m)⟩

/-- What the command that compiles accepts. -/
def compileGrammar : Grammar Request Stop where
  flags :=
    [helpFlag compileManual,
     ⟨["-o", "--output"], true, fun v r => .ok { r with output := some v }⟩,
     ⟨["--state-type"], true, fun v r => do
        let state ← choose compileManual "--state-type" StateStrategy.all StateStrategy.name v
        return { r with state }⟩,
     ⟨["--styles-type"], true, fun v r => do
        let styles ← choose compileManual "--styles-type" StyleStrategy.all StyleStrategy.name v
        return { r with styles }⟩,
     ⟨["--no-prettier"], false, fun _ r => .ok { r with format := false }⟩]
  greedy := false
  positional := fun values r => .ok ({ r with input := values.headD "" }, [])
  complain := .misuse compileManual

/-- The request if no option changes it. -/
def plainRequest : Request := ⟨"", none, .mobx, .emotion, true⟩

/-- Reads the arguments of the command that compiles; also what they leave over. -/
def readRequest (args : List String) : Except Stop (Request × List String) := do
  let p ← compileGrammar.read plainRequest args
  if p.waiting then throw (.misuse compileManual "the following arguments are required: input")
  return (p.settings, p.leftOver)

/-- The names of the commands. -/
def commands : List String := ["compile"]

/-- What the program accepts. -/
def topGrammar : Grammar Call Stop where
  flags :=
    [helpFlag topManual,
     ⟨["--version"], false, fun _ _ => .error .version⟩,
     ⟨["-v", "--verbose"], false, fun _ c => .ok { c with verbose := true }⟩]
  greedy := true
  positional := fun values c => do
    let _ ← choose topManual "command" commands id (values.headD "")
    let (request, leftOver) ← readRequest values.tail
    return ({ c with request }, leftOver)
  complain := .misuse topManual

/-- Reads the arguments of the program. -/
def readCall (args : List String) : Except Stop Call := do
  let p ← topGrammar.read ⟨false, plainRequest⟩ args
  if p.waiting then throw (.misuse topManual "the following arguments are required: command")
  if !p.leftOver.isEmpty then
    throw (.misuse topManual ("unrecognized arguments: " ++ " ".intercalate p.leftOver))
  return p.settings

end ReactWeave.Cli
