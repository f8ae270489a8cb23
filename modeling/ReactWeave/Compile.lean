import ReactWeave.Imports
import ReactWeave.Lifecycle
import ReactWeave.Markup
import ReactWeave.Options
import ReactWeave.Refs
import ReactWeave.State.Declaration
import ReactWeave.State.Getters
import ReactWeave.Style.Collect

/-!
# ReactWeave.Compile

**Compiling** a component to the source of a function component.

A compilation prepares the component (`prepare`), turns it into the parts of the
source (`partsOf`) and puts these together (`Parts.assemble`). Plugins run before
and after the preparation, and before and after the source is formatted.
-/

namespace ReactWeave

/-! ## Names -/

/-- Characters the name of a component may start with. -/
def isNameStart (c : Char) : Bool := c == '$' || c == '_' || c.isAlpha

/-- A text without a line break at its end. -/
def dropFinalBreak (s : List Char) : List Char :=
  if s.getLast? = some '\n' then s.dropLast else s

/-- Whether a text can name a component: an identifier, behind which a line break may stand. -/
def isComponentName (name : String) : Bool :=
  match dropFinalBreak name.toList with
  | [] => false
  | c :: s => isNameStart c && s.all State.isNamePart

/-- Refuses a component whose name is no identifier. -/
def Component.checkName (c : Component) : Outcome Unit :=
  match c.name with
  | .str name => if isComponentName name then .ok () else .error (.badName c.name)
  | _ => .error (.badName c.name)

/-! ## Preparing -/

/-- What a preparation takes out of a component, besides the component it leaves. -/
structure Prepared where
  component : Component
  /-- Whether a node had a style. -/
  hasStyles : Bool
  /-- Whether there was a state. -/
  hasState : Bool
  refs : List String
  /-- The style sheet, if styles are classes. -/
  sheet : String
  /-- The components made for styled nodes. -/
  styled : String
  /-- The declaration of the state. -/
  state : String
  deriving Repr

/-- Replaces what is written of the state for hooks of its fields. -/
def prepareState (strategy : StateStrategy) (c : Component) : Outcome Component :=
  match strategy with
  | .useState => ((State.passGetters c).andThen State.passSetters).toOutcome
  | _ => .ok c

/-- Replaces the uses of handles. -/
def prepareRefs (c : Component) : Traced Component := do
  if !c.refs.isEmpty then Traced.emit (.mappingRefs c.refs c.name)
  Traced.lift (c.mapRefs currentElement).toOutcome

/-- Makes components for the styled nodes. -/
def prepareStyled (c : Component) : Traced (String × Component) := do
  let p := Style.collectStyled c
  Traced.emitAll (p.value.1.map fun s => .styled s.tag s.name)
  Traced.lift (p.map fun (made, c) => (Style.styledDeclarations made, c)).toOutcome

/-- Takes the styles off the nodes: the style sheet, the components made for styled nodes, and what
is left. -/
def prepareStyles (strategy : StyleStrategy) (hasStyles : Bool) (c : Component) :
    Traced (String × String × Component) :=
  match strategy with
  | .emotion => pure ("", "", c)
  | .styledJsx => do
    let (sheet, c) ← Traced.lift (Style.collectSheet "className" c).toOutcome
    pure (sheet, "", c)
  | .styledComponents =>
    if hasStyles then do
      let (styled, c) ← prepareStyled c
      pure ("", styled, c)
    else pure ("", "", c)

/-- Prepares a component. -/
def prepare (state : StateStrategy) (styles : StyleStrategy) (c : Component) : Traced Prepared := do
  Traced.lift c.checkName
  let hasStyles := c.hasStyles
  let c ← Traced.lift (prepareState state c)
  let refs := c.refs
  let hasState := !c.state.isEmpty
  let c ← prepareRefs c
  let (sheet, styled, c) ← prepareStyles styles hasStyles c
  let declaration ← Traced.lift (State.declaration state c.state)
  pure ⟨c, hasStyles, hasState, refs, sheet, styled, declaration⟩

/-! ## Parts of the source -/

/-- The parts of the source of a component; an empty part is left out. -/
structure Parts where
  /-- The import of the hooks. -/
  hooks : String
  /-- The pragma and the import for styles that stay on their nodes. -/
  emotion : String
  /-- The import for components made for styled nodes. -/
  styledImport : String
  /-- The import of the library that holds the state. -/
  library : String
  /-- The imports of the component itself. -/
  imports : String
  /-- The components made for styled nodes. -/
  styled : String
  /-- The name of the function. -/
  name : String
  /-- The declaration of the state. -/
  state : String
  /-- The declarations of the handles. -/
  refs : String
  /-- What runs before the first rendering. -/
  init : String
  /-- What runs after the first rendering. -/
  mount : String
  /-- The element with the style sheet. -/
  style : String
  /-- The markup of the render tree. -/
  markup : String
  deriving Repr

/-- The pragma and the import for styles that stay on their nodes. -/
def emotionImport : String :=
  "/** @jsx jsx */\nimport \x7b jsx \x7d from '@emotion/react';"

/-- The import for components made for styled nodes. -/
def styledImport : String := "import styled from 'styled-components';"

/-- The names of the hooks that a component uses. -/
def usedHooks (strategy : StateStrategy) (p : Prepared) (c : Component) : List String :=
  (if strategy = .useState && !Text.isBlankText p.state.toList then [Hook.useState.name] else []) ++
  (if c.init.truthy then [Hook.useState.name] else []) ++
  (if p.refs.isEmpty then [] else [Hook.useRef.name]) ++
  (if c.onMount.truthy then [Hook.useEffect.name] else [])

/-- The element with the style sheet, if styles are classes. -/
def styleElement (strategy : StyleStrategy) (p : Prepared) : String :=
  if p.hasStyles && strategy = .styledJsx then "<style jsx>\x7b`" ++ p.sheet ++ "`\x7d</style>"
  else ""

/-- The parts of the source. `c` is the component that the preparation left, after the plugins had
their say. -/
def partsOf (state : StateStrategy) (styles : StyleStrategy) (p : Prepared) (c : Component) :
    Outcome Parts := do
  let imports ← c.importStatements
  let init ← Lifecycle.initCode c
  let mount ← Lifecycle.mountCode state c
  let markup ← Markup.forest state c.children
  return {
    hooks := Hook.importLine (usedHooks state p c)
    emotion := if p.hasStyles && styles = .emotion then emotionImport else ""
    styledImport := if p.styled.isEmpty then "" else styledImport
    library := if p.hasState then (State.libraryImport? state).getD "" else ""
    imports
    styled := p.styled
    name := c.name.asText
    state := p.state
    refs := refDeclarations p.refs
    init
    mount
    style := styleElement styles p
    markup }

namespace Parts

/-- Joins the texts that are not empty. -/
def joinFilled (separator : String) (texts : List String) : String :=
  separator.intercalate (texts.filter fun t => !t.isEmpty)

/-- What stands in front of the function. -/
def header (p : Parts) : String :=
  joinFilled "\n" [p.hooks, p.emotion, p.styledImport, p.library, p.imports, p.styled]

/-- The statement that returns the markup. -/
def returnStatement (p : Parts) : String :=
  "return (\n  <>\n" ++ Text.indent "    " (joinFilled "\n" [p.style, p.markup]) ++ "\n  </>\n);"

/-- The function. -/
def function (p : Parts) : String :=
  "export default function " ++ p.name ++ "(props) \x7b\n" ++
    Text.indent "  " (joinFilled "\n\n" [p.state, p.refs, p.init, p.mount, p.returnStatement]) ++
    "\n\x7d"

/-- The source. -/
def assemble (p : Parts) : String := joinFilled "\n\n" [p.header, p.function] ++ "\n"

end Parts

/-! ## Formatting -/

/-- Calls a formatter; a failure of it is told of. -/
def callFormatter (f : Formatter) (source : String) (c : Component) : Traced (Answer String) :=
  let r := f source
  match r.outcome with
  | .ok _ => r
  | .error _ => { r with events := r.events ++ [.formatFailed source c] }

/-- The formatter of a compilation: the one that is asked for, or the command that the environment
names. -/
def Options.formatterFor (host : Host) (o : Options) : Outcome Formatter :=
  match o.formatter with
  | .custom f => .ok f
  | _ => (CommandFormatter.ofEnvironment host.setting).map fun f => f.toFormatter host

/-- Formats a source. -/
def formatSource (host : Host) (o : Options) (source : String) (c : Component) :
    Traced String := do
  let f ← Traced.lift (o.formatterFor host)
  match ← callFormatter f source c with
  | .payload formatted => pure (collapseImportGaps formatted)
  | .other _ => Traced.fail .notApplicable

/-! ## Compiling -/

/-- Compiles a component on a host. -/
def Component.compile (host : Host) (o : Options) (c : Component) : Traced String := do
  Traced.emit (.generating c.name o.state o.styles)
  let c ← Plugin.runJsonPre o.plugins c
  let p ← prepare o.state o.styles c
  let c ← Plugin.runJsonPost o.plugins p.component
  let parts ← Traced.lift (partsOf o.state o.styles p c)
  let source ← Plugin.runCodePre o.plugins parts.assemble
  let source ← if o.format then formatSource host o source c else pure source
  Plugin.runCodePost o.plugins source

end ReactWeave
