import ReactWeave.Component.Fields
import ReactWeave.Text.Blank

/-!
# ReactWeave.Component.Basic

**Components** and the nodes of their render trees.

A component is a framework-neutral description of a piece of user interface: its
state, the code of its lifecycle hooks, its imports, and a tree of nodes. A node
is an element, a text, or one of the control constructs `Fragment`, `For` and
`Show`; which of these it is follows from its name and its keys.

Names, properties and bindings are texts in every sensible component. Loading
does not insist on it, so they are kept as the values they were given as.
-/

namespace ReactWeave

/-! ## Reserved keys -/

/-- The key of the text of a text node. -/
def textKey : String := "_text"
/-- The key of a spread expression. -/
def spreadKey : String := "_spread"
/-- The key of the variable of a loop. -/
def forNameKey : String := "_forName"
/-- The key of the style of a node. -/
def cssKey : String := "css"
/-- The key of the handle to a node. -/
def refKey : String := "ref"

/-- Marks a state value whose text is the code of a function. -/
def functionTag : String := "@jsx-lite/function:"
/-- Marks a state value whose text is the code of a method. -/
def methodTag : String := "@jsx-lite/method:"
/-- The module that components are written with, which is never imported. -/
def corePath : String := "@jsx-lite/core"

/-! ## Kinds -/

/-- What a node is. -/
inductive NodeKind where
  | element
  | text
  | fragment
  | loop
  | condition
  deriving DecidableEq, Repr

namespace NodeKind

/-- The number of a kind. -/
def toNat : NodeKind → Nat
  | element => 0
  | text => 1
  | fragment => 2
  | loop => 3
  | condition => 4

/-- The name of a kind. -/
def name : NodeKind → String
  | element => "Element"
  | text => "Text"
  | fragment => "Fragment"
  | loop => "For"
  | condition => "Show"

/-- The kind that a node's name alone decides. -/
def ofName (name : String) : NodeKind :=
  if name == "Fragment" then fragment
  else if name == "For" then loop
  else if name == "Show" then condition
  else element

/-- The same of a name that may be no text. -/
def ofJson (name : Json) : Outcome NodeKind :=
  if !Fields.isScalar name then .error .notApplicable
  else
    match name with
    | .str s => .ok (ofName s)
    | _ => .ok element

end NodeKind

/-! ## Nodes -/

/-- What a node is by itself, without the nodes below it. -/
structure Head where
  /-- The tag, or the name of a control construct. -/
  name : Json
  /-- Static attributes. -/
  properties : Fields
  /-- Expressions, by attribute or reserved key. -/
  bindings : Fields
  deriving Repr

namespace Head

/-- What a node is: an element that holds a text is a text. -/
def kind (h : Head) : Outcome NodeKind :=
  match NodeKind.ofJson h.name with
  | .error e => .error e
  | .ok .element =>
    if h.properties.has textKey || h.bindings.has textKey then .ok .text else .ok .element
  | .ok k => .ok k

/-- Whether a node is literal text that is nothing but white space. -/
def isEmptyText (h : Head) : Bool :=
  match h.properties.get? textKey with
  | some (.str s) => Text.isBlankText s.toList
  | _ => false

end Head

/-- A node of a render tree. -/
structure Node where
  head : Head
  children : List Node
  deriving Repr

namespace Node

mutual

/-- A node as a JSON value. -/
def toJson : Node → Json
  | ⟨head, children⟩ =>
    .obj [("name", head.name), ("properties", Fields.toJson head.properties),
      ("bindings", Fields.toJson head.bindings), ("children", .arr (listToJson children))]

/-- Nodes as JSON values. -/
def listToJson : List Node → List Json
  | [] => []
  | n :: ns => toJson n :: listToJson ns

end

mutual

/-- A node and all nodes below it, parents first. -/
def heads : Node → List Head
  | ⟨head, children⟩ => head :: headsOf children

/-- All nodes of neighbouring trees, parents first. -/
def headsOf : List Node → List Head
  | [] => []
  | n :: ns => heads n ++ headsOf ns

end

end Node

/-! ## Components -/

/-- A module that a component depends on. -/
structure Import where
  path : Json
  /-- Local names and what they are imported as: `default`, `*` or a name. -/
  names : Fields
  deriving Repr

/-- A component. -/
structure Component where
  name : Json
  state : Fields
  /-- Code that runs before the first rendering, or null. -/
  init : Json
  /-- Code that runs after the first rendering, or null. -/
  onMount : Json
  imports : List Import
  children : List Node
  deriving Repr

/-- A dependency as a JSON value. -/
def Import.toJson (i : Import) : Json :=
  .obj [("path", i.path), ("imports", Fields.toJson i.names)]

namespace Component

/-- All nodes of the render tree, parents first. -/
def heads (c : Component) : List Head := Node.headsOf c.children

/-- A hook as a field, if there is one. -/
def hookField (key : String) : Json → List (String × Json)
  | .null => []
  | j => [(key, j)]

/-- A component as a JSON value. -/
def toJson (c : Component) : Json :=
  .obj [("name", c.name), ("state", Fields.toJson c.state),
    ("hooks", .obj (hookField "init" c.init ++ hookField "onMount" c.onMount)),
    ("imports", .arr (c.imports.map Import.toJson)),
    ("children", .arr (Node.listToJson c.children))]

/-- A component as JSON text. -/
def toText (layout : Json.Layout) (c : Component) : String := Json.writeIn layout c.toJson

/-- The text that a component is saved as, unless one of its integers has too many digits. -/
def serialize (layout : Json.Layout) (c : Component) : Outcome String :=
  match c.toJson.overlong? with
  | none => .ok (c.toText layout)
  | some _ => .error (.badJson .overlong)

end Component

end ReactWeave
