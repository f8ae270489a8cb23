import ReactWeave.Failure
import ReactWeave.Json.Printer

/-!
# ReactWeave.Component.Fields

**Tables that keep their order**: the state of a component, and the properties
and bindings of a node.

Keys are texts in every sensible component. A table may also be given as a list
of pairs, whose keys can be numbers, truth values or null; keys are therefore
values that hold no others.
-/

namespace ReactWeave

/-- A table from keys to values, in order. -/
abbrev Fields := List (Json × Json)

namespace Fields

/-- Whether a key is the given text. -/
def isKey (key : String) : Json → Bool
  | .str k => k == key
  | _ => false

/-- The value of a key. -/
def get? (key : String) : Fields → Option Json
  | [] => none
  | (k, v) :: rest => if isKey key k then some v else get? key rest

/-- Whether a table has a key. -/
def has (key : String) (fields : Fields) : Bool := (get? key fields).isSome

/-- Sets a key: at its old place if there is one, else last. -/
def put (key value : Json) : Fields → Fields
  | [] => [(key, value)]
  | (k, v) :: rest => if k.sameScalar key then (k, value) :: rest else (k, v) :: put key value rest

/-- Removes a key. -/
def erase (key : String) : Fields → Fields
  | [] => []
  | (k, v) :: rest => if isKey key k then rest else (k, v) :: erase key rest

/-- A table with texts as keys. -/
def ofObject (fields : List (String × Json)) : Fields := fields.map fun (k, v) => (.str k, v)

/-- The text of a key in JSON text. -/
def keyText : Json → String
  | .str s => s
  | j => j.writeScalar

/-- A table as a JSON object. -/
def toJson (fields : Fields) : Json := .obj (fields.map fun (k, v) => (keyText k, v))

/-! ## Reading -/

/-- Whether a value may be a key: arrays and objects may not. -/
def isScalar : Json → Bool
  | .arr _ => false
  | .obj _ => false
  | _ => true

/-- Two items as a key and its value; `index` is where they stand in the list of pairs. -/
def pairOf (index : Nat) : List Json → Outcome (Json × Json)
  | [key, value] => if isScalar key then .ok (key, value) else .error .notApplicable
  | items => .error (.pairLength index items.length)

/-- An item of a list of pairs: an array of two, a text of two characters, or an object with two
keys. -/
def pairItem (index : Nat) : Json → Outcome (Json × Json)
  | .arr items => pairOf index items
  | .str s => pairOf index (s.toList.map fun c => .str (String.singleton c))
  | .obj fields => pairOf index (fields.map fun (k, _) => .str k)
  | _ => .error .notApplicable

/-- Reads a list of pairs behind the fields that were read. -/
def ofPairs (index : Nat) (done : Fields) : List Json → Outcome Fields
  | [] => .ok done
  | item :: items =>
    match pairItem index item with
    | .error e => .error e
    | .ok (key, value) => ofPairs (index + 1) (put key value done) items

/-- Reads a table: an object or a list of pairs. What counts as absent is an empty table. -/
def ofJson (j : Json) : Outcome Fields :=
  if !j.truthy then .ok []
  else
    match j with
    | .obj fields => .ok (ofObject fields)
    | .arr items => ofPairs 0 [] items
    | .str _ => .error (.pairLength 0 1)
    | _ => .error .notApplicable

end Fields

end ReactWeave
