import ReactWeave.Component.Basic
import ReactWeave.State.Access
import ReactWeave.Style.Sheet

/-!
# ReactWeave.Markup

The **markup** of a render tree.

Elements become tags with their properties, their spread expression and their
bindings, in this order. Loops map over their collection, conditions guard their
children, and both drop texts that are nothing but white space.
-/

namespace ReactWeave.Markup

/-- Elements that have no content and no closing tag. -/
def voidTags : List String :=
  ["area", "base", "br", "col", "embed", "hr", "img", "input", "link", "meta", "param", "source",
   "track", "wbr"]

/-- Whether the name of a node is that of an element without content. -/
def isVoid : Json → Bool
  | .str name => voidTags.contains name
  | _ => false

/-- A value inside double quotes. -/
def escapeAttribute (value : Json) : String := Text.replace "\"" "&quot;" value.asText

/-- A static attribute. -/
def property (key value : Json) : String :=
  key.asText ++ "=\"" ++ escapeAttribute value ++ "\""

/-- A text in braces. -/
def braced (s : String) : String := "\x7b" ++ s ++ "\x7d"

/-- Whether the style that a binding holds is empty. -/
def isEmptyStyle : Json → Outcome Bool
  | .str css => .ok (!Style.hasDeclarations css)
  | _ => .error .notApplicable

/-- The attribute of a processed binding: an event handler is a function of the event, inner markup
goes into an object, and everything else stands as it is. -/
def bindingText (key : String) (code : Json) : String :=
  if Text.hasStart "on" key then key ++ "=" ++ braced ("event => (" ++ code.asText ++ ")")
  else if key = "innerHTML" then
    "dangerouslySetInnerHTML=" ++ braced (braced ("\"__html\": " ++ code.asText))
  else key ++ "=" ++ braced code.asText

/-- The attribute of a binding, if it has one: a spread expression stands elsewhere, and an empty
style is left out. -/
def binding (strategy : StateStrategy) (key value : Json) : Outcome (Option String) := do
  if Fields.isKey spreadKey key then return none
  let code ← State.processed strategy value
  if Fields.isKey cssKey key then
    if ← isEmptyStyle code then return none
  let .str name := key | throw .noSuchOperation
  return some (bindingText name code)

/-- The attributes of bindings. -/
def bindingsOf (strategy : StateStrategy) : Fields → Outcome (List String)
  | [] => .ok []
  | (key, value) :: rest => do
    let first ← binding strategy key value
    let more ← bindingsOf strategy rest
    return first.toList ++ more

/-- The spread expression of an element. -/
def spread (strategy : StateStrategy) (bindings : Fields) : Outcome (List String) :=
  match bindings.get? spreadKey with
  | none => .ok []
  | some code => do
    let code ← State.processed strategy code
    return [braced ("...(" ++ code.asText ++ ")")]

/-- The opening tag of an element, without the bracket that ends it. -/
def opening (strategy : StateStrategy) (h : Head) : Outcome String := do
  let properties := h.properties.map fun (key, value) => property key value
  let spread ← spread strategy h.bindings
  let bindings ← bindingsOf strategy h.bindings
  return " ".intercalate (("<" ++ h.name.asText) :: properties ++ spread ++ bindings)

/-- A binding that a control node needs. -/
def required (h : Head) (key : String) : Outcome Json :=
  match h.bindings.get? key with
  | some (.str code) =>
    if Text.isBlankText code.toList then .error (.missingBinding h.name key)
    else .ok (.str code)
  | _ => .error (.missingBinding h.name key)

/-- The content of a text: a literal as it is, an expression in braces. -/
def textContent (strategy : StateStrategy) (h : Head) : Outcome String :=
  match h.properties.get? textKey with
  | some text => .ok text.asText
  | none => do
    let code ← State.processed strategy ((h.bindings.get? textKey).getD .null)
    return braced code.asText

/-- Markup without a tag around it. -/
def fragment (content : String) : String := "<>" ++ content ++ "</>"

/-- What a loop puts around its children. -/
def loopHead (strategy : StateStrategy) (h : Head) : Outcome String := do
  let each ← State.processed strategy (← required h "each")
  let name ← required h forNameKey
  return each.asText ++ ".map(" ++ name.asText ++ " => ("

/-- What a condition puts around its children. -/
def conditionHead (strategy : StateStrategy) (h : Head) : Outcome String := do
  let condition ← State.processed strategy (← required h "when")
  return "Boolean(" ++ condition.asText ++ ") && ("

mutual

/-- The markup of a node. -/
def node (strategy : StateStrategy) : Node → Outcome String
  | ⟨head, children⟩ => do
    match ← head.kind with
    | .text => textContent strategy head
    | .fragment =>
      let parts ← nodes strategy false children
      return fragment ("\n".intercalate parts)
    | .loop =>
      let opening ← loopHead strategy head
      let parts ← nodes strategy true children
      return braced (opening ++ fragment ("\n".intercalate parts) ++ "))")
    | .condition =>
      let opening ← conditionHead strategy head
      let parts ← nodes strategy true children
      return braced (opening ++ fragment ("\n".intercalate parts) ++ ")")
    | .element =>
      let opening ← opening strategy head
      if isVoid head.name then return opening ++ " />"
      let parts ← nodes strategy false children
      return opening ++ ">" ++ "\n".intercalate parts ++ "</" ++ head.name.asText ++ ">"

/-- The markup of neighbouring nodes; `skip` says whether empty texts are left out. -/
def nodes (strategy : StateStrategy) (skip : Bool) : List Node → Outcome (List String)
  | [] => .ok []
  | ⟨head, children⟩ :: rest => do
    if skip && head.isEmptyText then nodes strategy skip rest
    else
      let first ← node strategy ⟨head, children⟩
      let more ← nodes strategy skip rest
      return first :: more

end

/-- The markup of neighbouring nodes, one below the other. -/
def forest (strategy : StateStrategy) (children : List Node) : Outcome String := do
  return "\n".intercalate (← nodes strategy false children)

end ReactWeave.Markup
