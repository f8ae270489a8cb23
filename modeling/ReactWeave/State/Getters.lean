import ReactWeave.State.Access
import ReactWeave.State.Template
import ReactWeave.State.Value

/-!
# ReactWeave.State.Getters

**Calls** instead of getters. When every field of the state has its own hook, a
getter is a plain function, so `state.fullName` has to become
`state.fullName()`.

A read of a getter is an access to `state` and the name of the getter behind it,
unless the name goes on or the read is called already.
-/

namespace ReactWeave.State

/-- Whether a text starts with a name that does not go on and is not called. -/
def isUncalled (name s : List Char) : Bool :=
  Text.startsWith name s &&
    match s.drop name.length with
    | [] => true
    | c :: rest => !isNamePart c && (Text.trimStart (c :: rest)).head? != some '('

/-- The number of blanks behind the dot after which an uncalled name starts: as many as possible. -/
def blanksBefore? (name : List Char) : List Char → Option Nat
  | [] => if isUncalled name [] then some 0 else none
  | c :: s =>
    match if Text.isBlank c then blanksBefore? name s else none with
    | some n => some (n + 1)
    | none => if isUncalled name (c :: s) then some 0 else none

/-- The length of a read of a getter at the start of a text. -/
def readLength? (name s : List Char) : Option Nat :=
  (behindDot? "state".toList s).bind fun rest =>
    (blanksBefore? name rest).map fun n => s.length - rest.length + n + name.length

/-- Replaces the reads of a getter; `before` is the character in front of the text, and the first
`skip` characters belong to a read that was replaced. -/
def callFrom (name : List Char) (template : List TemplatePart) (before : Option Char) :
    Nat → List Char → List Char
  | _, [] => []
  | skip + 1, c :: s => callFrom name template (some c) skip s
  | 0, c :: s =>
    match if startsName before then readLength? name (c :: s) else none with
    | some n =>
      Template.fill ((c :: s).take n) template ++ callFrom name template (some c) (n - 1) s
    | none => c :: callFrom name template (some c) 0 s

/-- What a read of a getter is replaced by. -/
def getterCall (name : List Char) : Outcome (List TemplatePart) :=
  Template.read ("state.".toList ++ name ++ "()".toList)

/-- Replaces the reads of a getter in a code. -/
def callGetter (name : String) (code : Json) : Outcome Json := do
  let template ← getterCall name.toList
  let .str s := code | throw .notApplicable
  return .str (String.ofList (callFrom name.toList template none 0 s.toList))

/-- Replaces the reads of getters in a code, one getter after another. -/
def callGetters : List String → Json → Outcome Json
  | [], code => .ok code
  | name :: names, code => (callGetter name code).bind (callGetters names)

/-- The keys of the getters of a state. -/
def getterKeys (state : Fields) : List Json :=
  state.filterMap fun (key, value) =>
    match Value.ofJson value with
    | .code .method code => if isGetter code then some key else none
    | _ => none

/-- The names that keys are, if all are texts. -/
def namesOf : List Json → Outcome (List String)
  | [] => .ok []
  | .str s :: keys => (namesOf keys).map (s :: ·)
  | _ :: _ => .error .notApplicable

/-- Replaces the reads of getters in tagged values, bindings and hooks. -/
def passGetters (c : Component) : Progress Component :=
  if (getterKeys c.state).isEmpty then .done c
  else
    match namesOf (getterKeys c.state) with
    | .error e => ⟨c, some e⟩
    | .ok names =>
      let convert := callGetters names
      ((c.passState fun _ v => Value.mapCode convert v).andThen fun c =>
        c.passBindings fun _ v => convert v).andThen fun c => c.passHooks convert

end ReactWeave.State
