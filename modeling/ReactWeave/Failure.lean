import ReactWeave.Json5.Reader

/-!
# ReactWeave.Failure

Everything that **can go wrong** while a component is loaded, compiled,
formatted or saved, as causes. `Failure.message` words them, `Failure.hint?`
says what may help, and `Failure.format` puts both together.
-/

namespace ReactWeave

/-- The stages of a compilation in which plugins run. -/
inductive Stage where
  | jsonPre
  | jsonPost
  | codePre
  | codePost
  deriving DecidableEq, Repr

/-- The name of a stage. -/
def Stage.name : Stage → String
  | .jsonPre => "json_pre"
  | .jsonPost => "json_post"
  | .codePre => "code_pre"
  | .codePost => "code_post"

/-- What a hook of the stage has to return. -/
def Stage.expected : Stage → String
  | .jsonPre | .jsonPost => "Component"
  | .codePre | .codePost => "str"

/-- What can be wrong with a file or directory. -/
inductive FileFault where
  | noSuchFile
  | fileExists
  | notADirectory
  | isADirectory
  deriving DecidableEq, Repr

/-- The number and the words of a fault. -/
def FileFault.words : FileFault → Nat × String
  | .noSuchFile => (2, "No such file or directory")
  | .fileExists => (17, "File exists")
  | .notADirectory => (20, "Not a directory")
  | .isADirectory => (21, "Is a directory")

/-- Why bytes are no text. -/
inductive DecodeFault where
  | invalidStart
  | invalidContinuation
  | unexpectedEnd
  deriving DecidableEq, Repr

/-- What is told of bytes that are no text. -/
def DecodeFault.words : DecodeFault → String
  | .invalidStart => "invalid start byte"
  | .invalidContinuation => "invalid continuation byte"
  | .unexpectedEnd => "unexpected end of data"

/-- Why something could not be done. -/
inductive Failure where
  /-- A fragment of code that is no script. -/
  | unparsable (code : Json)
  /-- A control node without a binding it needs. -/
  | missingBinding (node : Json) (binding : String)
  /-- A component without a name. -/
  | unnamedComponent
  /-- A node without a name. -/
  | unnamedNode (data : Json)
  /-- A name of a component that is no identifier. -/
  | badName (name : Json)
  /-- A value that is none of the choices of an option. -/
  | unknownChoice (option : String) (value : Json) (choices : List String)
  /-- Options that do not exist. -/
  | unknownOptions (names : List String)
  /-- A hook that returned something else than its stage asks for. -/
  | hookReply (plugin : Json) (stage : Stage) (sort : String)
  /-- A formatter that cannot be found. -/
  | formatterNotFound (command : String)
  /-- A formatter that took too long. -/
  | formatterTimedOut (seconds : Json)
  /-- A formatter that ended with a status and said nothing. -/
  | formatterStatus (status : Int)
  /-- A formatter that refused the source. -/
  | formatRefused (message : String) (hint : Option String)
  /-- Something that failed for a reason of its own: a hook, a formatter, or the recursion itself. -/
  | raised (message : String)
  /-- A style that is data, but no object. -/
  | styleNotObject (code : String)
  /-- A style that is no data. -/
  | badStyle (error : Json5.ReadError)
  /-- JSON text that cannot be read. -/
  | badJson (error : Json.ReadError)
  /-- A command line with a quote that is not closed. -/
  | unclosedQuote
  /-- A command line that ends in a backslash. -/
  | nothingEscaped
  /-- A list of pairs in which an item is no pair. -/
  | pairLength (index length : Nat)
  /-- A replacement text with an escape that means nothing. -/
  | badTemplate
  /-- A replacement text that refers to a group by a name there is not. -/
  | unknownGroup
  /-- An operation that does not apply to a value of this sort. -/
  | notApplicable
  /-- A value that does not have the operation asked of it. -/
  | noSuchOperation
  /-- A key that is not there. -/
  | missingKey
  /-- An index that is out of range. -/
  | indexOutOfRange
  /-- A file or directory that cannot be used. -/
  | file (fault : FileFault) (path : String)
  /-- A file that holds no text. -/
  | undecodable (fault : DecodeFault) (first count position : Nat)
  deriving Repr

namespace Failure

/-- The variable of the environment that names the formatter. -/
def formatterVariable : String := "JSXLITE_PRETTIER"

/-- The bytes that are no text, as a message names them. -/
def undecodableBytes (first count position : Nat) : String :=
  if count ≤ 1 then
    "byte 0x" ++ String.ofList (Text.hexDigits 2 first) ++ " in position " ++ toString position
  else
    "bytes in position " ++ toString position ++ "-" ++ toString (position + count - 1)

/-- What is said of a recursion that goes too deep. -/
def depthMessage : String := "maximum recursion depth exceeded"

/-- The failure of a recursion that goes too deep. -/
def tooDeep : Failure := .raised depthMessage

/-- What is wrong, in words. -/
def message : Failure → String
  | unparsable code => "Could not parse expression: " ++ code.display
  | missingBinding node binding =>
    "<" ++ node.asText ++ "> node is missing required binding " ++ Text.quoted binding
  | unnamedComponent => "Component IR has no 'name'"
  | unnamedNode data => "Node IR has no 'name': " ++ data.display
  | badName name => "Component name " ++ name.display ++ " is not a valid identifier"
  | unknownChoice option value _ => "Unknown " ++ option ++ " " ++ value.display
  | unknownOptions names => "Unknown option(s): " ++ ", ".intercalate names
  | hookReply plugin stage sort =>
    "Plugin " ++ plugin.display ++ " " ++ stage.name ++ " hook returned " ++ sort ++
      ", expected " ++ stage.expected
  | formatterNotFound command => "Formatter executable not found: " ++ command
  | formatterTimedOut seconds => "Formatter timed out after " ++ seconds.asText ++ "s"
  | formatterStatus status => "Formatter exited with " ++ toString status
  | formatRefused message _ => message
  | raised message => message
  | styleNotObject code => "css binding is not an object literal: " ++ Text.quoted code
  | badStyle error => error.message
  | badJson error => error.message
  | unclosedQuote => "No closing quotation"
  | nothingEscaped => "No escaped character"
  | pairLength index length =>
    "dictionary update sequence element #" ++ toString index ++ " has length " ++
      toString length ++ "; 2 is required"
  | badTemplate => "bad escape"
  | unknownGroup => "unknown group name"
  | notApplicable => "the operation does not apply to this value"
  | noSuchOperation => "the value does not have this operation"
  | missingKey => "no such key"
  | indexOutOfRange => "index out of range"
  | file fault path =>
    "[Errno " ++ toString fault.words.1 ++ "] " ++ fault.words.2 ++ ": " ++ Text.quoted path
  | undecodable fault first count position =>
    "'utf-8' codec can't decode " ++ undecodableBytes first count position ++ ": " ++ fault.words

/-- What may help. -/
def hint? : Failure → Option String
  | unparsable _ => some "Bindings, hooks and state code must be valid JavaScript."
  | unknownChoice _ _ choices => some ("Expected one of: " ++ ", ".intercalate choices ++ ".")
  | formatterNotFound _ => some ("Install prettier or set " ++ formatterVariable ++ ".")
  | formatRefused _ hint => hint
  | _ => none

/-- Whether a text was to be read that holds half of a surrogate pair. No text can hold one here, so
nothing is told of what would become of it. -/
def isUnpaired : Failure → Bool
  | badJson (.unpaired _) | badStyle (.unpaired _) => true
  | _ => false

/-- What is wrong and what may help. -/
def format (f : Failure) : String :=
  match f.hint? with
  | some hint => if hint.isEmpty then f.message else f.message ++ " Hint: " ++ hint
  | none => f.message

end Failure

/-- A value, or why there is none. -/
abbrev Outcome (α : Type) := Except Failure α

end ReactWeave
