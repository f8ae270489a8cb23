import ReactWeave.Component.Basic

/-!
# ReactWeave.Component.Reader

**Loading components** from JSON values and JSON text.

A component and every node need a name, an import needs a path, and everything
else may be missing. What a value of the wrong sort leads to is fixed as well:
the reader goes through the parts in a fixed order and fails at the first one it
cannot use.
-/

namespace ReactWeave

namespace Reader

/-- Whether a value mentions a key: as a key of an object, an item of an array, or a part of a
text. -/
def mentions (key : String) : Json → Outcome Bool
  | .obj fields => .ok (Json.lookup key fields).isSome
  | .arr items => .ok (items.any (Json.same (.str key)))
  | .str s => .ok (Text.occursIn key s)
  | _ => .error .notApplicable

/-- The value of a key that may be missing. -/
def optional (key : String) : Json → Outcome Json
  | .obj fields => .ok ((Json.lookup key fields).getD .null)
  | _ => .error .noSuchOperation

/-- The value of a key that must be there. -/
def required (key : String) : Json → Outcome Json
  | .obj fields =>
    match Json.lookup key fields with
    | some v => .ok v
    | none => .error .missingKey
  | _ => .error .notApplicable

/-- The items of a list; a text is the list of its characters, and an object that of its keys. What
counts as absent has no items. -/
def items (j : Json) : Outcome (List Json) :=
  if !j.truthy then .ok []
  else
    match j with
    | .arr xs => .ok xs
    | .str s => .ok (s.toList.map fun c => .str (String.singleton c))
    | .obj fields => .ok (fields.map fun (k, _) => .str k)
    | _ => .error .notApplicable

/-- An import. -/
def importOf (j : Json) : Outcome Import := do
  let path ← required "path" j
  let names ← Fields.ofJson (← optional "imports" j)
  return ⟨path, names⟩

/-- Why a value that is no object is no node. -/
def notANode (j : Json) : Failure :=
  match mentions "name" j with
  | .ok false => .unnamedNode j
  | .ok true => .notApplicable
  | .error e => e

/-- The nodes that a list without objects holds: none if it is empty. -/
def strangeNodes : List Json → Outcome (List Node)
  | [] => .ok []
  | j :: _ => .error (notANode j)

mutual

/-- A node and the nodes below it. -/
def nodeOf : Json → Outcome Node
  | .obj fields => do
    let some name := Json.lookup "name" fields | throw (.unnamedNode (.obj fields))
    let properties ← Fields.ofJson ((Json.lookup "properties" fields).getD .null)
    let bindings ← Fields.ofJson ((Json.lookup "bindings" fields).getD .null)
    let children ← childrenIn fields
    return ⟨⟨name, properties, bindings⟩, children⟩
  | j => .error (notANode j)

/-- The children that the fields of a component or node speak of. -/
def childrenIn : List (String × Json) → Outcome (List Node)
  | [] => .ok []
  | (key, value) :: rest => if key = "children" then nodesIn value else childrenIn rest

/-- The nodes that a value lists. -/
def nodesIn : Json → Outcome (List Node)
  | .arr items => nodesOf items
  | .str s => strangeNodes (s.toList.map fun c => .str (String.singleton c))
  | .obj fields => strangeNodes (fields.map fun (k, _) => .str k)
  | j => if j.truthy then .error .notApplicable else .ok []

/-- Neighbouring nodes. -/
def nodesOf : List Json → Outcome (List Node)
  | [] => .ok []
  | j :: js => do
    let n ← nodeOf j
    let ns ← nodesOf js
    return n :: ns

end

end Reader

/-- Loads a node. -/
def Node.ofJson (j : Json) : Outcome Node := Reader.nodeOf j

/-- Loads a component. -/
def Component.ofJson (j : Json) : Outcome Component := do
  if !(← Reader.mentions "name" j) then throw .unnamedComponent
  let .obj fields := j | throw .noSuchOperation
  let field := fun key => (Json.lookup key fields).getD .null
  let hooks := if (field "hooks").truthy then field "hooks" else .obj []
  let state ← Fields.ofJson (field "state")
  let init ← Reader.optional "init" hooks
  let onMount ← Reader.optional "onMount" hooks
  let imports ← (← Reader.items (field "imports")).mapM Reader.importOf
  let children ← Reader.childrenIn fields
  return ⟨field "name", state, init, onMount, imports, children⟩

/-- Loads a component from JSON text. -/
def Component.ofText (text : String) : Outcome Component :=
  match Json.read text with
  | .error e => .error (.badJson e)
  | .ok j => Component.ofJson j

end ReactWeave
