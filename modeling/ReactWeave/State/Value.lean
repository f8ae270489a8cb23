import ReactWeave.Component.Pass
import ReactWeave.Json5.Printer

/-!
# ReactWeave.State.Value

What a **value of the state** is: data, or code that a tag in front of it marks
as a function or as a method.
-/

namespace ReactWeave.State

/-- What the code of a tagged value is. -/
inductive Tag where
  /-- An expression whose value is the initial value. -/
  | function
  /-- A method or getter, as it stands in an object. -/
  | method
  deriving DecidableEq, Repr

/-- The text that marks a value. -/
def Tag.text : Tag → String
  | .function => functionTag
  | .method => methodTag

/-- A value of the state. -/
inductive Value where
  | code (tag : Tag) (code : String)
  | data (value : Json)
  deriving Repr

/-- Tells code from data. -/
def Value.ofJson : Json → Value
  | .str s =>
    if Text.hasStart functionTag s then .code .function (Text.dropChars functionTag.length s)
    else if Text.hasStart methodTag s then .code .method (Text.dropChars methodTag.length s)
    else .data (.str s)
  | j => .data j

/-- Changes the code of a tagged value, and leaves data as it is. -/
def Value.mapCode (f : Json → Outcome Json) (j : Json) : Outcome Json :=
  match Value.ofJson j with
  | .code tag s => (f (.str s)).map fun new => .str (tag.text ++ new.asText)
  | .data value => .ok value

/-- Whether the code of a method is that of a getter. -/
def isGetter (code : String) : Bool := Text.hasStart "get " (Text.trimmed code)

end ReactWeave.State
