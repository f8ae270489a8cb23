import ReactWeave.State.Access
import ReactWeave.State.Setters

/-!
# ReactWeave.Lifecycle

**Lifecycle hooks** of a component. Code that runs before the first rendering
stands in the body behind a flag that the first rendering takes down; code that
runs after it is an effect without dependencies.
-/

namespace ReactWeave.Lifecycle

/-- The code of a hook, without the white space around it. -/
def body : Json → Outcome String
  | .str code => .ok (Text.trimmed code)
  | _ => .error .noSuchOperation

/-- The block that runs a code before the first rendering. -/
def firstRender (code : String) : String :=
  "\n".intercalate
    ["const [firstRender, setFirstRender] = useState(true);",
     "if (firstRender) \x7b",
     "  setFirstRender(false);",
     Text.indent "  " code,
     "\x7d"]

/-- The effect that runs a code after the first rendering. -/
def effect (code : String) : String :=
  "\n".intercalate ["useEffect(() => \x7b", Text.indent "  " code, "\x7d, []);"]

/-- The block for the code that runs before the first rendering; nothing if there is none. -/
def initCode (c : Component) : Outcome String :=
  if c.init.truthy then (body c.init).map firstRender else .ok ""

/-- The effect for the code that runs after the first rendering; nothing if there is none. -/
def mountCode (strategy : StateStrategy) (c : Component) : Outcome String :=
  if c.onMount.truthy then do
    let code ← match strategy with
      | .useState => (State.useSetters c.onMount).map Json.str
      | _ => pure c.onMount
    return effect (← body (← State.processed strategy code))
  else .ok ""

end ReactWeave.Lifecycle
