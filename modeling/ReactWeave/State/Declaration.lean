import ReactWeave.Naming
import ReactWeave.State.Access
import ReactWeave.State.Value

/-!
# ReactWeave.State.Declaration

**Declarations of the state** in the body of a compiled component: a pair of a
value and a setter for each field, or one object made by a library.
-/

namespace ReactWeave.State

/-! ## One hook for each field -/

/-- The function that a method becomes. -/
def functionOf (method : String) : String :=
  "function " ++ (if Text.hasStart "get " method then Text.dropChars 4 method else method)

/-- The name of a field with a capital. -/
def capitalizedKey : Json → Outcome String
  | .str key => .ok (Naming.capitalize key)
  | _ => .error .notApplicable

/-- A value and its setter. -/
def pairDeclaration (key : Json) (initial : String) : Outcome String := do
  let capital ← capitalizedKey key
  return "const [" ++ key.asText ++ ", set" ++ capital ++ "] = useState(() => (" ++
    strip "state" initial ++ "));"

/-- The declaration of a field. -/
def fieldDeclaration (key value : Json) : Outcome String :=
  match Value.ofJson value with
  | .code .method code => .ok (strip "state" (functionOf (Text.trimmed code)))
  | .code .function code => pairDeclaration key code
  | .data data => pairDeclaration key (Json5.write data)

/-- The declarations of all fields, one a line. -/
def fieldDeclarations (state : Fields) : Outcome String := do
  return "\n".intercalate (← state.mapM fun (key, value) => fieldDeclaration key value)

/-! ## One object -/

/-- A field as a member of an object. -/
def member (key value : Json) : String :=
  match Value.ofJson value with
  | .code .function code => key.asText ++ ": " ++ code
  | .code .method code => Text.trimmed code
  | .data data => key.asText ++ ": " ++ Json5.write data

/-- The state as an object. -/
def objectText (state : Fields) : String :=
  if state.isEmpty then "\x7b\x7d"
  else "\x7b " ++ ", ".intercalate (state.map fun (key, value) => member key value) ++ " \x7d"

/-- The call that makes the object, around the text of the object. -/
def objectCall : StateStrategy → String × String
  | .useState => ("", "")
  | .mobx => ("useLocalObservable(() => (", "))")
  | .valtio => ("useLocalProxy(", ")")
  | .solid => ("useMutable(", ")")
  | .builder => ("useBuilderState(", ")")

/-- The declaration of the object. -/
def objectDeclaration (strategy : StateStrategy) (state : Fields) : String :=
  "const state = " ++ (objectCall strategy).1 ++ objectText state ++ (objectCall strategy).2 ++ ";"

/-! ## Both -/

/-- The declaration of the state; nothing if there is none. -/
def declaration (strategy : StateStrategy) (state : Fields) : Outcome String :=
  if state.isEmpty then .ok ""
  else
    match strategy with
    | .useState => fieldDeclarations state
    | strategy => .ok (objectDeclaration strategy state)

/-- The import that a strategy needs. -/
def libraryImport? : StateStrategy → Option String
  | .mobx => some "import \x7b useLocalObservable \x7d from 'mobx-react-lite';"
  | .valtio => some "import \x7b useLocalProxy \x7d from 'valtio/utils';"
  | .solid => some "import \x7b useMutable \x7d from 'react-solid-state';"
  | .useState | .builder => none

end ReactWeave.State
