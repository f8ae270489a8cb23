import ReactWeave.Json.Value

/-!
# ReactWeave.Strategy

The **strategies** a component can be compiled with: how its state is held and
how its styles are applied.
-/

namespace ReactWeave

/-- How the state of a component is held: one hook for each field, or one object made by a
library. -/
inductive StateStrategy where
  | useState
  | mobx
  | valtio
  | solid
  | builder
  deriving DecidableEq, Repr

namespace StateStrategy

/-- All strategies, in the order in which they are listed. -/
def all : List StateStrategy := [useState, mobx, valtio, solid, builder]

/-- The name of a strategy. -/
def name : StateStrategy → String
  | useState => "useState"
  | mobx => "mobx"
  | valtio => "valtio"
  | solid => "solid"
  | builder => "builder"

end StateStrategy

/-- How styles are applied: by an attribute, by components made for each styled element, or by one
style sheet with a class for each styled element. -/
inductive StyleStrategy where
  | emotion
  | styledComponents
  | styledJsx
  deriving DecidableEq, Repr

namespace StyleStrategy

/-- All strategies, in the order in which they are listed. -/
def all : List StyleStrategy := [emotion, styledComponents, styledJsx]

/-- The name of a strategy. -/
def name : StyleStrategy → String
  | emotion => "emotion"
  | styledComponents => "styled-components"
  | styledJsx => "styled-jsx"

end StyleStrategy

end ReactWeave
