import ReactWeave.Failure
import ReactWeave.Text.Blank
import ReactWeave.Text.Escape

/-!
# ReactWeave.State.Template

**Replacement texts** in which a backslash starts an escape: for a control
character, for a character by its octal number, or for the whole text that is
being replaced.
-/

namespace ReactWeave.State

/-- A part of a replacement text. -/
inductive TemplatePart where
  | text (s : List Char)
  /-- The text that is being replaced. -/
  | whole
  deriving DecidableEq, Repr

namespace Template

/-- Whether a text is an identifier. -/
def isIdentifier : List Char → Bool
  | [] => false
  | c :: cs => c != '$' && Text.isLiteralNameStart c &&
    cs.all fun c => c != '$' && Text.isLiteralNamePart c

/-- Whether a text is a way to write zero: zeros, between which single underscores may stand. -/
def isZeros : List Char → Bool
  | ['0'] => true
  | '0' :: '_' :: rest => isZeros rest
  | '0' :: rest => isZeros rest
  | _ => false

/-- A text without the sign in front of it. -/
def dropSign : List Char → List Char
  | '+' :: s => s
  | '-' :: s => s
  | s => s

/-- The text up to a closing angle bracket, and what follows the bracket. -/
def untilAngle : List Char → Option (List Char × List Char)
  | [] => none
  | '>' :: s => some ([], s)
  | c :: s => (untilAngle s).map fun (name, rest) => (c :: name, rest)

/-- The group that a name refers to: only the whole text can be referred to, by its number zero. -/
def group (name : List Char) : Outcome TemplatePart :=
  if isIdentifier name then .error .unknownGroup
  else if isZeros (dropSign (Text.trim name)) then .ok .whole
  else .error .badTemplate

/-- The part that an escape stands for, and how many characters behind the backslash belong to
it. -/
def escape : List Char → Outcome (TemplatePart × Nat)
  | 'g' :: '<' :: s =>
    match untilAngle s with
    | some (name, _) => (group name).map fun part => (part, name.length + 3)
    | none => .error .badTemplate
  | '0' :: s =>
    match s.head?.bind Text.octalValue?, (s.drop 1).head?.bind Text.octalValue? with
    | some m, some n => .ok (.text [Char.ofNat ((8 * m + n) % 256)], 3)
    | some m, none => .ok (.text [Char.ofNat m], 2)
    | none, _ => .ok (.text [Char.ofNat 0], 1)
  | a :: b :: c :: _ =>
    match Text.octalValue? a, Text.octalValue? b, Text.octalValue? c with
    | some k, some m, some n =>
      if 64 * k + 8 * m + n ≤ 255 then .ok (.text [Char.ofNat (64 * k + 8 * m + n)], 3)
      else .error .badTemplate
    | _, _, _ => plain a
  | a :: _ => plain a
  | [] => .error .badTemplate
where
  /-- An escape of one character. -/
  plain (a : Char) : Outcome (TemplatePart × Nat) :=
    match Text.control? a with
    | some c => .ok (.text [c], 1)
    | none => if a.isAlphanum then .error .badTemplate else .ok (.text ['\\', a], 1)

/-- The parts of a replacement text; the first `skip` characters belong to an escape that was
read. -/
def readFrom : Nat → List Char → Outcome (List TemplatePart)
  | _, [] => .ok []
  | skip + 1, _ :: s => readFrom skip s
  | 0, '\\' :: s => do
    let (part, length) ← escape s
    let parts ← readFrom length s
    return part :: parts
  | 0, c :: s => do
    let parts ← readFrom 0 s
    return .text [c] :: parts

/-- The parts of a replacement text. -/
def read (s : List Char) : Outcome (List TemplatePart) := readFrom 0 s

/-- What a replacement text puts in the place of `whole`. -/
def fill (whole : List Char) (parts : List TemplatePart) : List Char :=
  parts.flatMap fun
    | .text s => s
    | .whole => whole

end Template

end ReactWeave.State
