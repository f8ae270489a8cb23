import ReactWeave.Text.ClassTable

/-!
# ReactWeave.Text.Class

The **classes of characters** that names and quoted texts depend on: word
characters, characters that can be shown, and the characters of identifiers in
data literals. ASCII characters are classified by rule, all others by table.
-/

namespace ReactWeave.Text

/-- The classes that the rules of this library tell apart. -/
inductive CharClass where
  | letter | letterNumber | digit | otherNumber | mark | connector | unprintable | other
  deriving DecidableEq, Repr

/-- The class that a letter of the table stands for. -/
def CharClass.ofLetter : Char → Option CharClass
  | 'L' => some .letter
  | 'N' => some .letterNumber
  | 'D' => some .digit
  | 'R' => some .otherNumber
  | 'M' => some .mark
  | 'P' => some .connector
  | 'X' => some .unprintable
  | 'O' => some .other
  | _ => none

/-- The value of a hexadecimal digit in lower case. -/
def hexValue (c : Char) : Nat :=
  if c.toNat ≤ 57 then c.toNat - 48 else c.toNat - 87

/-- Reads runs: each run as the first character behind it and its class. `start` is the first
character of the run and `length` the part of its length that was read. -/
def decodeClassRuns (start length : Nat) : List Char → List (Nat × CharClass)
  | [] => []
  | c :: cs =>
    match CharClass.ofLetter c with
    | some k => (start + length, k) :: decodeClassRuns (start + length) 0 cs
    | none => decodeClassRuns start (16 * length + hexValue c) cs

/-- The runs of the table. -/
def classTable : List (Nat × CharClass) :=
  decodeClassRuns 0 0 (classRuns.flatMap String.toList)

/-- The class of a code point in a table. -/
def lookupClass (n : Nat) : List (Nat × CharClass) → CharClass
  | [] => .unprintable
  | (stop, k) :: rest => if n < stop then k else lookupClass n rest

/-- The class of a character. -/
def classOf (c : Char) : CharClass :=
  let n := c.toNat
  if n < 128 then
    if (65 ≤ n && n ≤ 90) || (97 ≤ n && n ≤ 122) then .letter
    else if 48 ≤ n && n ≤ 57 then .digit
    else if n == 95 then .connector
    else if n ≤ 32 || n == 127 then .unprintable
    else .other
  else lookupClass n classTable

/-- Word characters: letters, numbers of every kind, and the underscore. -/
def isWord (c : Char) : Bool :=
  c == '_' ||
    match classOf c with
    | .letter | .letterNumber | .digit | .otherNumber => true
    | _ => false

/-- Characters that a quoted text shows as they are: all but controls, unassigned characters and
separators, of which only the plain space is shown. -/
def isPrintable (c : Char) : Bool := c == ' ' || classOf c != .unprintable

/-- Characters an identifier of a data literal may start with. -/
def isLiteralNameStart (c : Char) : Bool :=
  c == '$' || c == '_' ||
    match classOf c with
    | .letter | .letterNumber => true
    | _ => false

/-- Characters an identifier of a data literal may go on with. -/
def isLiteralNamePart (c : Char) : Bool :=
  isLiteralNameStart c ||
    match classOf c with
    | .digit | .mark | .connector => true
    | _ => false

end ReactWeave.Text
