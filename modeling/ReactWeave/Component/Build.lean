import ReactWeave.Component.Basic

/-!
# ReactWeave.Component.Build

**Building components**: the kinds of nodes, and bindings that are added later.
-/

namespace ReactWeave

namespace Node

/-- An element. -/
def element (name : Json) (properties bindings : Fields) (children : List Node) : Node :=
  ⟨⟨name, properties, bindings⟩, children⟩

/-- A text: an expression if there is one, else a literal. -/
def text (literal binding : Json) (name : Json) (properties bindings : Fields)
    (children : List Node) : Node :=
  match binding with
  | .null => ⟨⟨name, properties.put (.str textKey) literal, bindings⟩, children⟩
  | code => ⟨⟨name, properties, bindings.put (.str textKey) code⟩, children⟩

/-- Children without an element around them. -/
def fragment (children : List Node) : Node := ⟨⟨.str "Fragment", [], []⟩, children⟩

/-- Children for every item of a collection. -/
def loop (each name : Json) (children : List Node) : Node :=
  ⟨⟨.str "For", [], [(.str "each", each), (.str forNameKey, name)]⟩, children⟩

/-- Children that are there only while a condition holds. -/
def condition (test : Json) (children : List Node) : Node :=
  ⟨⟨.str "Show", [], [(.str "when", test)]⟩, children⟩

end Node

/-- Adds a binding to a node. -/
def Head.bind (key code : Json) (h : Head) : Head := { h with bindings := h.bindings.put key code }

end ReactWeave
