import ReactWeave.Failure
import ReactWeave.Script.Replace

/-!
# ReactWeave.Code

**Embedded code**: the fragments of script that bindings, hooks and tagged state
values hold. A value that is no text stands for the text that shows it.
-/

namespace ReactWeave.Code

open Script (Fragment Rewriter Visitor)

/-- Reads a fragment. -/
def parse (code : Json) : Outcome Fragment :=
  match Fragment.parse? code.asText.toList with
  | some f => .ok f
  | none => .error (.unparsable code)

/-- Replaces parts of a fragment. -/
def rewrite (v : Rewriter) (code : Json) : Outcome String :=
  match parse code with
  | .ok f => .ok (String.ofList (f.rewrite v))
  | .error e => .error e

/-- Replaces parts of a fragment as a visitor says. -/
def replace (v : Visitor) (code : Json) : Outcome String := rewrite v.rewriter code

/-- Whether a name occurs in a value: inside a text, among the items of an array or the keys of an
object. -/
def mentions (name : String) : Json → Outcome Bool
  | .str s => .ok (Text.occursIn name s)
  | .arr items => .ok (items.any (Json.same (.str name)))
  | .obj fields => .ok (Json.lookup name fields).isSome
  | _ => .error .notApplicable

/-- Whether one of the names occurs in a value. -/
def mentionsAny (code : Json) : List String → Outcome Bool
  | [] => .ok false
  | name :: names =>
    match mentions name code with
    | .ok false => mentionsAny code names
    | r => r

/-- Replaces the variables `names` in a fragment as `mapper` says. A fragment in which no name
occurs is left as it is, whether it can be read or not. -/
def rename (names : List String) (mapper : String → String) (code : Json) : Outcome Json :=
  match mentionsAny code names with
  | .error e => .error e
  | .ok false => .ok code
  | .ok true =>
    (replace (Script.renameVariables (names.map String.toList)
      fun name => (mapper (String.ofList name)).toList) code).map .str

end ReactWeave.Code
