import ReactWeave.Script.Grammar

/-!
# ReactWeave.Script.Reshape

Constructs that can only be told apart **by what follows them**.

`(a, b)` is a parenthesised sequence, or the parameters of an arrow function if
an arrow follows; `[a, b]` and `{ a, b }` are literals, or patterns if they are
assigned to. Such text is read once, as a literal, and put into the other form
when the token behind it asks for it. A change of form renames kinds and groups
parts; it keeps every leaf, so the text stays the same.

* `asPattern`: a literal as the pattern it would be.
* `asTarget`: what stands on the left of an assignment.
* `asParameters`, `asParenthesized`: the two readings of a list in parentheses.
* `complete`: no default value is left that only a pattern may hold.
* `startsWithMembers`: a brace that opens an object rather than a block.
-/

namespace ReactWeave.Script.Reshape

open ReactWeave.Script.Tree

/-! ## Patterns -/

mutual

/-- A literal as the pattern it would be on the left of an assignment. -/
def asPattern : Tree → Option Tree
  | gap t => some (gap t)
  | token k r t =>
    match k with
    | .identifier | .undefined | .symbol | .comment => some (token k r t)
    | .shorthandPropertyIdentifier => some (token .shorthandPropertyIdentifierPattern r t)
    | _ => none
  | node k r ps =>
    match k with
    | .member | .subscript | .objectPattern | .arrayPattern | .objectAssignmentPattern =>
      some (node k r ps)
    | .object => (asPatterns ps).map (node .objectPattern r)
    | .array => (asPatterns ps).map (node .arrayPattern r)
    | .spread => (asPatterns ps).map (node .restPattern r)
    | .pair => (valueAsPattern ps).map (node .pairPattern r)
    | .assignment =>
      if ps.any (isKind .parenthesized ·) && ps.head?.any (isKind .parenthesized ·) then none
      else some (node .assignmentPattern r ps)
    | _ => none

/-- Each of the trees as a pattern. -/
def asPatterns : List Tree → Option (List Tree)
  | [] => some []
  | t :: ts =>
    match asPattern t with
    | none => none
    | some p => (asPatterns ts).map (p :: ·)

/-- The value of a member as a pattern; its key stays what it is. -/
def valueAsPattern : List Tree → Option (List Tree)
  | [] => some []
  | t :: ts =>
    if t.role? == some .value then
      match asPattern t with
      | none => none
      | some p => (valueAsPattern ts).map (p :: ·)
    else (valueAsPattern ts).map (t :: ·)

end

/-- What stands on the left of an assignment: a name, a member, a name in parentheses or a
pattern. -/
def asTarget : List Tree → Option (List Tree)
  | [t] =>
    match t.kind? with
    | some .identifier | some .undefined | some .member | some .subscript
    | some .parenthesized | some .objectPattern | some .arrayPattern => some [t.withRole .left]
    | some .object | some .array => (asPattern t).map fun p => [p.withRole .left]
    | _ => none
  | _ => none

/-- What stands on the left of a compound assignment: no pattern. -/
def asPlace : List Tree → Option (List Tree)
  | [t] =>
    match t.kind? with
    | some .identifier | some .member | some .subscript | some .parenthesized =>
      some [t.withRole .left]
    | _ => none
  | _ => none

/-- What a loop may assign its items to. -/
def asLoopTarget : List Tree → Option (List Tree) := asTarget

/-- What a declared pattern may hold besides patterns: a name or a member. -/
def asBindingTarget : List Tree → Option (List Tree)
  | [t] =>
    match t.kind? with
    | some .identifier | some .undefined | some .member | some .subscript => some [t]
    | _ => none
  | _ => none

/-- A construct as a part, in this role, of a longer one. -/
def asPart (r : Role) : List Tree → Option (List Tree)
  | [t] => if t.isTrivia then none else some [t.withRole r]
  | _ => none

/-! ## Lists in parentheses -/

/-- The parts that are neither gaps nor comments. -/
def significant (ts : List Tree) : List Tree := ts.filter fun t => !t.isTrivia

/-- Items and commas in turn, up to the closing bracket; `trailing` allows a comma behind the last
item. -/
def alternates (trailing : Bool) : Bool → List Tree → Bool
  | _, [] => false
  | true, [t] => trailing && t.isSymbol [')']
  | false, [t] => t.isSymbol [')']
  | true, t :: ts => !t.isSymbol [','] && alternates trailing false ts
  | false, t :: ts => t.isSymbol [','] && alternates trailing true ts

/-- A list in parentheses as the parameters of a function. -/
def asParameters : List Tree → Option (List Tree)
  | [node .parens _ ps] =>
    match significant ps with
    | [_, _] => some [node .formalParameters (some .parameters) ps]
    | _ :: items =>
      if alternates true true items then
        (asPatterns ps).map fun ps' => [node .formalParameters (some .parameters) ps']
      else none
    | [] => none
  | _ => none

/-- Splits off the gaps and comments at the end. -/
def splitTail (ts : List Tree) : List Tree × List Tree :=
  let back := ts.reverse
  ((back.dropWhile isTrivia).reverse, (back.takeWhile isTrivia).reverse)

/-- Expressions separated by commas as one sequence, if there are several. -/
def asSequence (ts : List Tree) : List Tree :=
  match significant ts with
  | [_] => ts
  | _ => [node .sequence none ts]

/-- A list in parentheses as an expression in parentheses. -/
def parenthesize (ps : List Tree) : Option (List Tree) :=
  match ps, ps.getLast? with
  | opening :: rest, some closing =>
    let (lead, items) := Grammar.splitTrivia rest.dropLast
    let (body, tail) := splitTail items
    if alternates false true (significant rest) && body.all (fun t => !t.isKind .spread) then
      some [node .parenthesized none (opening :: lead ++ asSequence body ++ tail ++ [closing])]
    else none
  | _, _ => none

/-- Reads a list in parentheses that no arrow follows as an expression. -/
def asParenthesized : List Tree → Option (List Tree)
  | [node .parens _ ps] => parenthesize ps
  | ts => some ts

/-! ## Checks -/

mutual

/-- Whether an object holds a default value, which only a pattern may. -/
def holdsDefault : Tree → Bool
  | node .object _ ps => ps.any (isKind .objectAssignmentPattern ·) || anyHoldsDefault ps
  | node _ _ ps => anyHoldsDefault ps
  | _ => false

/-- Whether one of the trees holds a default value in an object. -/
def anyHoldsDefault : List Tree → Bool
  | [] => false
  | t :: ts => holdsDefault t || anyHoldsDefault ts

end

/-- Refuses an expression in which a default value stands in an object. -/
def complete (ts : List Tree) : Option (List Tree) :=
  if anyHoldsDefault ts then none else some ts

/-- Whether a part of an object is a member other than a lone name. -/
def isFullMember : Tree → Bool
  | gap _ => false
  | token _ _ _ => false
  | node _ _ _ => true

mutual

/-- Whether the construct that a tree starts with is an object, or a pattern for one, with a member
other than a lone name. -/
def startsWithObject : Tree → Bool
  | node .object _ ps => ps.any isFullMember
  | node .objectPattern _ ps => ps.any isFullMember
  | node _ _ ps => firstStartsWithObject ps
  | _ => false

/-- The same for the first of several trees that is neither a gap nor a comment. -/
def firstStartsWithObject : List Tree → Bool
  | [] => false
  | t :: ts => if t.isTrivia then firstStartsWithObject ts else startsWithObject t

end

/-- Accepts what starts with an object that has a member other than a lone name. -/
def startsWithMembers (ts : List Tree) : Option (List Tree) :=
  if firstStartsWithObject ts then some ts else none

end ReactWeave.Script.Reshape
