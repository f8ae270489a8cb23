import ReactWeave.Code
import ReactWeave.Component.Pass
import ReactWeave.Naming

/-!
# ReactWeave.State.Setters

**Setter calls** instead of assignments. When every field of the state has its
own hook, `state.count = 1` has to become `setCount(1)`.

Only plain assignments to a field of `state` itself are replaced, at every depth;
compound assignments, increments and computed members are left as they are.
-/

namespace ReactWeave.State

open Script (Tree Kind Role Piece Visitor)

/-- The name of the setter of a field. -/
def setterName (field : List Char) : List Char := "set".toList ++ Naming.capitalizeChars field

/-- The field of the state that a place is. -/
def stateField? (place : Tree) : Option (List Char) :=
  if place.isKind .member then
    match place.part? .object, place.part? .property with
    | some (.token .identifier _ object), some (.token .propertyIdentifier _ field) =>
      if object = "state".toList then some field else none
    | _, _ => none
  else none

/-- The field that is set, if a construct is a plain assignment to a field of the state. -/
def assignedField? (t : Tree) : Option (List Char) :=
  if t.isKind .assignment then (t.part? .left).bind stateField? else none

/-- Replaces an assignment to a field of the state by a call of the setter. -/
def setterCall : Visitor := fun t =>
  (assignedField? t).map fun field =>
    [.text (setterName field ++ ['(']), .part .right, .text [')']]

/-- Replaces the assignments to fields of the state in a fragment. -/
def useSetters (code : Json) : Outcome String := Code.replace setterCall code

/-- Replaces the assignments to fields of the state in every binding. -/
def passSetters (c : Component) : Progress Component :=
  c.passBindings fun _ code => (useSetters code).map .str

end ReactWeave.State
