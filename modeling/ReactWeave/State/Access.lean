import ReactWeave.Failure
import ReactWeave.Strategy
import ReactWeave.Text.Blank

/-!
# ReactWeave.State.Access

**Plain names** instead of fields. When every field of the state has its own
hook, `state.count` is just `count`.

An access is the word `state`, a dot, and the blanks around the dot; the word
must not be part of a longer name, nor a member itself. Accesses are found in the
text of the code, from left to right.
-/

namespace ReactWeave.State

/-- Characters that go on a name. -/
def isNamePart (c : Char) : Bool := c == '$' || Text.isWord c

/-- Whether a word may start behind a character. -/
def startsName (before : Option Char) : Bool :=
  match before with
  | none => true
  | some c => !(c == '.' || isNamePart c)

/-- What follows `word`, blanks and a dot at the start of a text. -/
def behindDot? (word s : List Char) : Option (List Char) :=
  if Text.startsWith word s then
    match Text.trimStart (s.drop word.length) with
    | '.' :: rest => some rest
    | _ => none
  else none

/-- The length of an access to `word` at the start of a text. -/
def accessLength? (word s : List Char) : Option Nat :=
  (behindDot? word s).map fun rest => s.length - (Text.trimStart rest).length

/-- Removes the accesses to `word`; `before` is the character in front of the text, and the first
`skip` characters belong to an access that is being removed. -/
def stripFrom (word : List Char) (before : Option Char) : Nat → List Char → List Char
  | _, [] => []
  | skip + 1, c :: s => stripFrom word (some c) skip s
  | 0, c :: s =>
    match if startsName before then accessLength? word (c :: s) else none with
    | some n => stripFrom word (some c) (n - 1) s
    | none => c :: stripFrom word (some c) 0 s

/-- Removes the accesses to `word`. -/
def stripChars (word s : List Char) : List Char := stripFrom word none 0 s

/-- Removes the accesses to `word`. -/
def strip (word s : String) : String := String.ofList (stripChars word.toList s.toList)

/-- Makes plain names of the fields of `props`, of `state`, or of both. -/
def stripBoth (state props : Bool) (code : String) : String :=
  let code := if props then strip "props" code else code
  if state then strip "state" code else code

/-- The code of a binding under a strategy: fields of the state are plain names if each has its own
hook, else the code stands as it is. -/
def processed : StateStrategy → Json → Outcome Json
  | .useState, .str code => .ok (.str (strip "state" code))
  | .useState, _ => .error .notApplicable
  | _, code => .ok code

end ReactWeave.State
