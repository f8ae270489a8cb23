import ReactWeave.Component.Reader
import ReactWeave.Host

/-!
# ReactWeave.Component.Same

**Equality of components**: the same parts in the same order, where the order of
the fields of a table does not matter.

A node can be made by a constructor of its own, for a text, a loop, a condition or
a fragment, or as a plain node with the same contents. Nodes that were made in
different ways are not equal, and loading makes plain nodes only. A `Built`
component says how each node was made; nothing else depends on it.
-/

namespace ReactWeave

/-- The value of a key of any sort. -/
def Fields.find? (key : Json) : Fields → Option Json
  | [] => none
  | (k, v) :: rest => if k.sameScalar key then some v else Fields.find? key rest

/-- Whether two tables have the same fields. -/
def Fields.same (a b : Fields) : Bool :=
  a.length == b.length && a.all fun (k, v) => (b.find? k).any v.same

/-- Whether two nodes are the same, without the nodes below them. -/
def Head.same (a b : Head) : Bool :=
  a.name.same b.name && a.properties.same b.properties && a.bindings.same b.bindings

mutual

/-- Whether two trees are the same. -/
def Node.same : Node → Node → Bool
  | ⟨h, ns⟩, ⟨k, ms⟩ => h.same k && Node.sameAll ns ms

/-- Whether trees are the same one by one. -/
def Node.sameAll : List Node → List Node → Bool
  | [], [] => true
  | n :: ns, m :: ms => Node.same n m && Node.sameAll ns ms
  | _, _ => false

end

/-- Whether two imports are the same. -/
def Import.same (a b : Import) : Bool := a.path.same b.path && a.names.same b.names

/-- Whether imports are the same one by one. -/
def Import.sameAll : List Import → List Import → Bool
  | [], [] => true
  | a :: as, b :: bs => a.same b && Import.sameAll as bs
  | _, _ => false

/-- Whether two components are the same. -/
def Component.same (a b : Component) : Bool :=
  a.name.same b.name && a.state.same b.state && a.init.same b.init && a.onMount.same b.onMount &&
    Import.sameAll a.imports b.imports && Node.sameAll a.children b.children

/-! ## How nodes were made -/

/-- The constructors of nodes. -/
inductive NodeMaker where
  | plain
  | text
  | fragment
  | loop
  | condition
  deriving DecidableEq, Repr

/-- A component, and how each of its nodes was made, parents first. -/
structure Built where
  component : Component
  makers : List NodeMaker
  complete : makers.length = component.heads.length

namespace Built

/-- Whether two components are the same, and their nodes made in the same ways. -/
def same (a b : Built) : Bool := a.makers == b.makers && a.component.same b.component

theorem length_plain (c : Component) :
    (c.heads.map fun _ => NodeMaker.plain).length = c.heads.length :=
  List.length_map _

/-- A component of plain nodes. -/
def ofComponent (c : Component) : Built := ⟨c, c.heads.map fun _ => .plain, length_plain c⟩

/-- Saves a component, unless the recursion over it goes too deep. -/
def save (host : Host) (layout : Json.Layout) (b : Built) : Outcome String :=
  if host.fits (b.component.toText layout) then b.component.serialize layout else .error .tooDeep

/-- Loads a text, unless the recursion over it goes too deep: all nodes are made as plain nodes. -/
def load (host : Host) (text : String) : Outcome Built :=
  if host.fits text then (Component.ofText text).map ofComponent else .error .tooDeep

end Built

end ReactWeave
