import ReactWeave.Number.Binary64
import ReactWeave.Text.Quoted

/-!
# ReactWeave.Json.Value

**JSON values**. Integers are unbounded and apart from floating-point numbers,
and objects keep the order of their fields.

* `Json.truthy`: whether a value counts as present.
* `Json.same`: equality of values, by which numbers of both sorts compare by
  value, truth values count as one and zero, and the order of fields does not
  matter.
* `Json.display`: how a value is shown in messages and in emitted text.
-/

namespace ReactWeave

open Number (Binary64)

/-- A JSON value. -/
inductive Json where
  | null
  | bool (b : Bool)
  | int (n : Int)
  | real (x : Binary64)
  | str (s : String)
  | arr (items : List Json)
  | obj (fields : List (String × Json))
  deriving Repr, Inhabited

namespace Json

/-- The most digits an integer may have where it is read or saved. -/
def maxDigits : Nat := 4300

/-- The string that a value is, if it is one. -/
def str? : Json → Option String
  | str s => some s
  | _ => none

/-- The truth value, zero, the empty text and the empty containers count as absent. -/
def truthy : Json → Bool
  | null => false
  | bool b => b
  | int n => n != 0
  | real x => !x.isZero
  | str s => !s.isEmpty
  | arr items => !items.isEmpty
  | obj fields => !fields.isEmpty

/-- What sort of value a value is, as messages name it. -/
def sort : Json → String
  | null => "NoneType"
  | bool _ => "bool"
  | int _ => "int"
  | real _ => "float"
  | str _ => "str"
  | arr _ => "list"
  | obj _ => "dict"

/-- The value of a field. -/
def lookup (key : String) : List (String × Json) → Option Json
  | [] => none
  | (k, v) :: rest => if k = key then some v else lookup key rest

/-- Sets a field: at its old place if there is one, else last. -/
def put (key : String) (value : Json) : List (String × Json) → List (String × Json)
  | [] => [(key, value)]
  | (k, v) :: rest => if k = key then (k, value) :: rest else (k, v) :: put key value rest

/-- The value of a field of an object. -/
def get? (j : Json) (key : String) : Option Json :=
  match j with
  | obj fields => lookup key fields
  | _ => none

/-! ## Equality -/

/-- The integer that a truth value or an integer counts as. -/
def asInt? : Json → Option Int
  | bool b => some (if b then 1 else 0)
  | int n => some n
  | _ => none

/-- Equality of values that hold no others. -/
def sameScalar (a b : Json) : Bool :=
  match a, b with
  | null, null => true
  | str s, str t => s == t
  | real x, real y => x.equals y
  | real x, b => b.asInt?.any x.equalsInt
  | a, real y => a.asInt?.any y.equalsInt
  | a, b =>
    match a.asInt?, b.asInt? with
    | some m, some n => m == n
    | _, _ => false

mutual

/-- Equality of values. -/
def same : Json → Json → Bool
  | arr xs, arr ys => sameItems xs ys
  | obj xs, obj ys => xs.length == ys.length && sameFields xs ys
  | arr _, _ => false
  | obj _, _ => false
  | a, b => sameScalar a b

/-- Whether arrays have equal items in the same order. -/
def sameItems : List Json → List Json → Bool
  | [], [] => true
  | x :: xs, y :: ys => same x y && sameItems xs ys
  | _, _ => false

/-- Whether every field has an equal counterpart. -/
def sameFields : List (String × Json) → List (String × Json) → Bool
  | [], _ => true
  | (k, v) :: rest, ys =>
    (match lookup k ys with
      | some w => same v w
      | none => false) && sameFields rest ys

end

/-! ## Display -/

/-- The spelling of numbers that are not finite, in messages. -/
def displaySpelling : Binary64.Spelling := ⟨"nan", "inf"⟩

/-- Values that hold no others, as messages show them. -/
def displayScalar : Json → String
  | null => "None"
  | bool b => if b then "True" else "False"
  | int n => toString n
  | real x => x.write displaySpelling
  | str s => Text.quoted s
  | arr _ => "[]"
  | obj _ => "\x7b\x7d"

mutual

/-- A value as messages show it. -/
def display : Json → String
  | arr items => "[" ++ ", ".intercalate (displayItems items) ++ "]"
  | obj fields => "\x7b" ++ ", ".intercalate (displayFields fields) ++ "\x7d"
  | j => displayScalar j

/-- The items of an array as they are shown. -/
def displayItems : List Json → List String
  | [] => []
  | j :: js => display j :: displayItems js

/-- The fields of an object as they are shown. -/
def displayFields : List (String × Json) → List String
  | [] => []
  | (k, v) :: rest => (Text.quoted k ++ ": " ++ display v) :: displayFields rest

end

/-- A value as part of emitted text: a text as it is, all else as messages show it. -/
def asText : Json → String
  | str s => s
  | j => display j

end Json

end ReactWeave
