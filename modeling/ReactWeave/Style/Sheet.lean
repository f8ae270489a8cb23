import ReactWeave.Failure
import ReactWeave.Naming

/-!
# ReactWeave.Style.Sheet

**Style maps** and the rules they stand for.

A style map is an object: its texts are declarations, and its objects are nested
rules under a selector or an at-rule. All other values are left out.

* `Style.readMap` reads the style of a node.
* `Style.declarations` gives the declarations of a map.
* `Style.rules` writes a map as a list of flat rules, `Style.body` as nested
  rules.
-/

namespace ReactWeave.Style

/-- The fields of a style map. -/
abbrev Map := List (String × Json)

/-- Reads the style of a node. -/
def readMap (code : String) : Outcome Map :=
  match Json5.read code with
  | .error e => .error (.badStyle e)
  | .ok (.obj fields) => .ok fields
  | .ok _ => .error (.styleNotObject code)

/-- Whether the style of a node is anything but blanks and an empty object. -/
def hasDeclarations (code : String) : Bool :=
  let solid := code.toList.filter fun c => !Text.isBlank c
  !(solid.isEmpty || solid == ['\x7b', '\x7d'])

/-- A declaration. -/
def declaration (key value : String) : String := Naming.dashCase key ++ ": " ++ value ++ ";"

/-- The declarations of a map. -/
def declarations (map : Map) : List String :=
  map.filterMap fun (key, value) =>
    match value with
    | .str s => some (declaration key s)
    | _ => none

/-- A rule: a head, and lines in braces. -/
def rule (head : String) (lines : List String) : String :=
  head ++ " \x7b\n" ++ Text.indent "  " ("\n".intercalate lines) ++ "\n\x7d"

/-- Whether a key starts an at-rule. -/
def isAtRule (key : String) : Bool := Text.hasStart "@" key

/-! ## Flat rules -/

/-- The selector of a nested rule: its ampersands stand for the selector around it; a pseudo class
belongs to that selector, anything else is below it. -/
def nestedSelector (selector key : String) : String :=
  if Text.occursIn "&" key then Text.replace "&" selector key
  else if Text.hasStart ":" key then selector ++ key
  else selector ++ " " ++ key

/-- The rule of the declarations of a map, if there are any. -/
def ownRule (selector : String) (map : Map) : List String :=
  let lines := declarations map
  if lines.isEmpty then [] else [rule selector lines]

mutual

/-- The rules of a value that is a map. -/
def rulesOf (selector : String) : Json → List String
  | .obj fields => ownRule selector fields ++ nestedRules selector fields
  | _ => []

/-- The rules of the maps in a map. -/
def nestedRules (selector : String) : List (String × Json) → List String
  | [] => []
  | (key, .obj fields) :: rest =>
    (if isAtRule key then [rule key (rulesOf selector (.obj fields))]
     else rulesOf (nestedSelector selector key) (.obj fields)) ++ nestedRules selector rest
  | _ :: rest => nestedRules selector rest

end

/-- The rules of a map under a selector. -/
def rules (selector : String) (map : Map) : List String := rulesOf selector (.obj map)

/-! ## Nested rules -/

/-- The head of a nested rule. -/
def nestedHead (key : String) : String :=
  if isAtRule key || Text.occursIn "&" key then key else "&" ++ key

mutual

/-- The lines of a value that is a map. -/
def bodyOf : Json → List String
  | .obj fields => declarations fields ++ nestedBodies fields
  | _ => []

/-- The rules of the maps in a map. -/
def nestedBodies : List (String × Json) → List String
  | [] => []
  | (key, .obj fields) :: rest =>
    rule (nestedHead key) (bodyOf (.obj fields)) :: nestedBodies rest
  | _ :: rest => nestedBodies rest

end

/-- The lines of a map: declarations, then nested rules. -/
def body (map : Map) : List String := bodyOf (.obj map)

end ReactWeave.Style
