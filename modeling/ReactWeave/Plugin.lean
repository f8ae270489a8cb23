import ReactWeave.Component.Build
import ReactWeave.Component.Reader
import ReactWeave.Trace

/-!
# ReactWeave.Plugin

**Plugins** hook into four stages of a compilation: the component before and
after it is prepared, and the source before and after it is formatted.

Plugins run in the order in which they are listed. A hook that fails, or that
returns something else than its stage works on, ends the compilation. A plugin
without a hook for a stage leaves the payload as it is.

Hooks are functions.
-/

namespace ReactWeave

/-- What a hook returns: what its stage works on, or a value of another sort. -/
inductive Answer (α : Type) where
  | payload (a : α)
  | other (sort : String)
  deriving Repr

/-- A plugin. -/
structure Plugin where
  /-- The name that messages give it. -/
  name : Json
  jsonPre : Option (Component → Traced (Answer Component))
  jsonPost : Option (Component → Traced (Answer Component))
  codePre : Option (String → Traced (Answer String))
  codePost : Option (String → Traced (Answer String))

namespace Plugin

/-- A value that stands among the plugins and is none: it does not have a hook that could be asked
for. -/
def stray : Plugin :=
  let broken := fun {α : Type} (_ : α) => (Traced.fail .noSuchOperation : Traced (Answer α))
  ⟨.str "plugin", some broken, some broken, some broken, some broken⟩

/-- Calls a hook of a plugin. -/
def call {α : Type} (stage : Stage) (payload : α → Payload) (plugin : Json)
    (hook : α → Traced (Answer α)) (a : α) : Traced α := do
  Traced.emit (.hook stage plugin (payload a))
  match ← hook a with
  | .payload b => pure b
  | .other sort => Traced.fail (.hookReply plugin stage sort)

/-- Runs a stage: the hooks of all plugins that have one, each on what the one before it
returned. -/
def runStage {α : Type} (stage : Stage) (payload : α → Payload)
    (hook : Plugin → Option (α → Traced (Answer α))) : List Plugin → α → Traced α
  | [], a => pure a
  | p :: ps, a =>
    match hook p with
    | none => runStage stage payload hook ps a
    | some f => do
      let b ← call stage payload p.name f a
      runStage stage payload hook ps b

/-- The first stage: the component as it was read. -/
def runJsonPre (ps : List Plugin) (c : Component) : Traced Component :=
  runStage .jsonPre .component jsonPre ps c

/-- The second stage: the component that markup is made of. -/
def runJsonPost (ps : List Plugin) (c : Component) : Traced Component :=
  runStage .jsonPost .component jsonPost ps c

/-- The third stage: the source before it is formatted. -/
def runCodePre (ps : List Plugin) (s : String) : Traced String :=
  runStage .codePre .code codePre ps s

/-- The last stage: the source after it was formatted. -/
def runCodePost (ps : List Plugin) (s : String) : Traced String :=
  runStage .codePost .code codePost ps s

end Plugin

end ReactWeave
