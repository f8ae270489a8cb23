import ReactWeave.Component.Basic
import ReactWeave.Strategy

/-!
# ReactWeave.Trace

**What happens during a compilation**, as a list of events beside its outcome.
Events up to a failure are kept.
-/

namespace ReactWeave

/-- What a hook works on. -/
inductive Payload where
  | component (c : Component)
  | code (s : String)
  deriving Repr

/-- Something that happens during a compilation. -/
inductive Event where
  /-- A compilation starts. -/
  | generating (name : Json) (state : StateStrategy) (styles : StyleStrategy)
  /-- A fragment of code is no script. -/
  | rejected (code : Json)
  /-- Uses of handles are replaced. -/
  | mappingRefs (refs : List String) (name : Json)
  /-- A component is made for a styled node. -/
  | styled (tag name : String)
  /-- A hook of a plugin is called. -/
  | hook (stage : Stage) (plugin : Json) (payload : Payload)
  /-- A hook notes what it works on. -/
  | noted (stage : Stage) (payload : Payload)
  /-- The formatter is called; if it is a command, with these words. -/
  | formatting (source : String) (command : Option (List String))
  /-- The formatter fails. -/
  | formatFailed (source : String) (component : Component)
  deriving Repr

/-- An outcome, and what happened on the way to it. -/
structure Traced (α : Type) where
  events : List Event
  outcome : Outcome α
  deriving Repr

namespace Traced

variable {α β : Type}

/-- Goes on with the value of an outcome. -/
def andThen (x : Traced α) (f : α → Traced β) : Traced β :=
  match x.outcome with
  | .error e => ⟨x.events, .error e⟩
  | .ok a => ⟨x.events ++ (f a).events, (f a).outcome⟩

instance : Monad Traced where
  pure a := ⟨[], .ok a⟩
  bind := andThen

/-- Something happens. -/
def emit (e : Event) : Traced Unit := ⟨[e], .ok ()⟩

/-- Several things happen. -/
def emitAll (es : List Event) : Traced Unit := ⟨es, .ok ()⟩

/-- A failure. -/
def fail (e : Failure) : Traced α := ⟨[], .error e⟩

/-- What happens when an outcome is a failure: a fragment that is no script is told of. -/
def eventsOf : Outcome α → List Event
  | .error (.unparsable code) => [.rejected code]
  | _ => []

/-- An outcome on whose way nothing else happened. -/
def lift (x : Outcome α) : Traced α := ⟨eventsOf x, x⟩

end Traced

end ReactWeave
