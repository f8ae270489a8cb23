import ReactWeave.Component.Basic

/-!
# ReactWeave.Component.Pass

**Passes** over a component: changes made part by part that may fail on the way.
A pass that fails leaves what it has changed so far and does not touch the rest,
so its result is both a value and, perhaps, the failure that stopped it.

Tables are passed over in their order and render trees parents first.
-/

namespace ReactWeave

/-- What a pass made of a value, and what stopped it. -/
structure Progress (α : Type) where
  value : α
  failure : Option Failure
  deriving Repr

namespace Progress

variable {α β : Type}

/-- A pass that went through. -/
def done (a : α) : Progress α := ⟨a, none⟩

/-- Goes on with another pass, unless the first one was stopped. -/
def andThen (p : Progress α) (f : α → Progress α) : Progress α :=
  match p.failure with
  | none => f p.value
  | some _ => p

/-- The pass on a whole that a pass on a part amounts to. -/
def map (f : α → β) (p : Progress α) : Progress β := ⟨f p.value, p.failure⟩

/-- Replaces a value as a whole, or leaves it. -/
def ofOutcome (old : α) : Outcome α → Progress α
  | .ok new => ⟨new, none⟩
  | .error e => ⟨old, some e⟩

/-- The value, if nothing stopped the pass. -/
def toOutcome (p : Progress α) : Outcome α :=
  match p.failure with
  | none => .ok p.value
  | some e => .error e

end Progress

/-- Replaces the values of a table, each by what `f` makes of its key and itself. -/
def Fields.pass (f : Json → Json → Outcome Json) : Fields → Progress Fields
  | [] => .done []
  | (k, v) :: rest =>
    match f k v with
    | .error e => ⟨(k, v) :: rest, some e⟩
    | .ok w => (Fields.pass f rest).map ((k, w) :: ·)

namespace Node

variable {σ : Type}

mutual

/-- Replaces the heads of a tree, parents first. `f` is told what earlier heads left behind, and
leaves something for later ones. -/
def pass (f : σ → Head → Progress (σ × Head)) (s : σ) : Node → Progress (σ × Node)
  | ⟨head, children⟩ =>
    let r := f s head
    match r.failure with
    | some e => ⟨(r.value.1, ⟨r.value.2, children⟩), some e⟩
    | none => (passAll f r.value.1 children).map fun (s', ns) => (s', ⟨r.value.2, ns⟩)

/-- The same for neighbouring trees. -/
def passAll (f : σ → Head → Progress (σ × Head)) (s : σ) : List Node → Progress (σ × List Node)
  | [] => .done (s, [])
  | n :: ns =>
    let r := pass f s n
    match r.failure with
    | some e => ⟨(r.value.1, r.value.2 :: ns), some e⟩
    | none => (passAll f r.value.1 ns).map fun (s', ms) => (s', r.value.2 :: ms)

end

end Node

namespace Component

/-- Replaces the heads of the render tree, parents first. -/
def passHeads {σ : Type} (f : σ → Head → Progress (σ × Head)) (s : σ) (c : Component) :
    Progress (σ × Component) :=
  (Node.passAll f s c.children).map fun (s', ns) => (s', { c with children := ns })

/-- Replaces the bindings of every node, parents first. -/
def passBindings (f : Json → Json → Outcome Json) (c : Component) : Progress Component :=
  let step := fun (_ : Unit) (h : Head) =>
    (h.bindings.pass f).map fun bs => ((), { h with bindings := bs })
  (c.passHeads step ()).map (·.2)

/-- Replaces the values of the state. -/
def passState (f : Json → Json → Outcome Json) (c : Component) : Progress Component :=
  (c.state.pass f).map fun state => { c with state }

/-- Replaces the code of a hook, unless there is none. -/
def passHook (f : Json → Outcome Json) (hook : Json) : Outcome Json :=
  if hook.truthy then f hook else .ok hook

/-- Replaces the code of both hooks. -/
def passHooks (f : Json → Outcome Json) (c : Component) : Progress Component :=
  let first := Progress.ofOutcome c.init (passHook f c.init)
  (first.map fun init => { c with init }).andThen fun c =>
    (Progress.ofOutcome c.onMount (passHook f c.onMount)).map fun onMount => { c with onMount }

end Component

end ReactWeave
