import ReactWeave.Code
import ReactWeave.State.Value

/-!
# ReactWeave.Refs

**Handles** to elements. A node declares a handle by its `ref` binding; every
other use of the name reads the current element behind the handle.
-/

namespace ReactWeave

/-- The handle that a node declares. -/
def Head.ref? (h : Head) : Option String :=
  match h.bindings.get? refKey with
  | some (.str s) => if (Text.trimmed s).isEmpty then none else some (Text.trimmed s)
  | _ => none

/-- Adds names that are not there yet. -/
def addNew (names : List String) : List String → List String
  | [] => names
  | name :: more => addNew (if names.contains name then names else names ++ [name]) more

/-- The handles of a component, in the order in which they are first declared. -/
def Component.refs (c : Component) : List String := addNew [] (c.heads.filterMap Head.ref?)

/-- Replaces every use of a handle as `mapper` says: in tagged state values, in all bindings but
those that declare handles, and in the hooks. -/
def Component.mapRefs (mapper : String → String) (c : Component) : Progress Component :=
  if c.refs.isEmpty then .done c
  else
    let rename := Code.rename c.refs mapper
    ((c.passState fun _ v => State.Value.mapCode rename v).andThen fun c =>
      c.passBindings fun key v => if Fields.isKey refKey key then .ok v else rename v).andThen
        fun c => c.passHooks rename

/-- What a use of a handle becomes. -/
def currentElement (name : String) : String := name ++ ".current"

/-- The declarations of handles, one a line. -/
def refDeclarations (refs : List String) : String :=
  "\n".intercalate (refs.map fun name => "const " ++ name ++ " = useRef();")

end ReactWeave
