import ReactWeave.Text.CaseTable
import ReactWeave.Text.Class

/-!
# ReactWeave.Text.Case

**Upper and lower case** of characters and texts, by the full mappings of the
Unicode character database: a character may map to several, and a capital sigma
at the end of a word becomes a final sigma.
-/

namespace ReactWeave.Text

/-! ## Tables -/

/-- Reads hexadecimal numbers, each ended by `stop`; `value` is the number read so far. -/
def decodeNumbers (stop : Char) (value : Nat) : List Char → List Nat
  | [] => [value]
  | c :: cs =>
    if c == stop then value :: decodeNumbers stop 0 cs
    else decodeNumbers stop (16 * value + hexValue c) cs

/-- Splits a text at a character; `current` is the piece read so far, last character first. -/
def splitAtChar (sep : Char) (current : List Char) : List Char → List (List Char)
  | [] => [current.reverse]
  | c :: cs =>
    if c == sep then current.reverse :: splitAtChar sep [] cs
    else splitAtChar sep (c :: current) cs

/-- The lengths of the runs outside and inside a set in turn. -/
def decodeSet (runs : List String) : List Nat :=
  decodeNumbers '.' 0 (runs.flatMap String.toList)

/-- Whether a number is in the set with these runs; `inside` says what the first run is. -/
def inRuns (inside : Bool) (n : Nat) : List Nat → Bool
  | [] => false
  | len :: rest => if n < len then inside else inRuns (!inside) (n - len) rest

/-- Characters that map to one character: first, count, step and difference. -/
structure ShiftRun where
  first : Nat
  count : Nat
  step : Nat
  difference : Int

/-- Reads one entry of a table of single counterparts. -/
def ShiftRun.ofEntry (entry : List Char) : Option ShiftRun :=
  match splitAtChar '.' [] entry with
  | [a, b, c, d] =>
    let number := fun cs => (decodeNumbers '.' 0 cs).headD 0
    let difference : Int :=
      match d with
      | '-' :: ds => - (number ds : Int)
      | ds => number ds
    some ⟨number a, number b, number c, difference⟩
  | _ => none

/-- The counterpart of a code point, if the run holds it. -/
def ShiftRun.counterpart (r : ShiftRun) (n : Nat) : Option Nat :=
  if r.first ≤ n && (n - r.first) % r.step == 0 && (n - r.first) / r.step < r.count then
    some ((n : Int) + r.difference).toNat
  else none

/-- The runs of a table. -/
def decodeShifts (runs : List String) : List ShiftRun :=
  (splitAtChar ';' [] (runs.flatMap String.toList)).filterMap ShiftRun.ofEntry

/-- The characters with a counterpart of several characters. -/
def decodeExpansions (runs : List String) : List (Nat × List Char) :=
  (splitAtChar ';' [] (runs.flatMap String.toList)).filterMap fun entry =>
    match decodeNumbers '.' 0 entry with
    | n :: ns => some (n, ns.map Char.ofNat)
    | [] => none

/-- The characters that are upper case. -/
def upperCaseSet : List Nat := decodeSet upperCaseRuns

/-- The characters that do not count when the end of a word is looked for. -/
def caseIgnorableSet : List Nat := decodeSet caseIgnorableRuns

/-- The characters that have case. -/
def casedSet : List Nat := decodeSet casedRuns

/-- Single characters as counterparts in upper case. -/
def upperShifts : List ShiftRun := decodeShifts toUpperRuns

/-- Several characters as counterparts in upper case. -/
def upperExpansions : List (Nat × List Char) := decodeExpansions toUpperExpansions

/-- Single characters as counterparts in lower case. -/
def lowerShifts : List ShiftRun := decodeShifts toLowerRuns

/-- Several characters as counterparts in lower case. -/
def lowerExpansions : List (Nat × List Char) := decodeExpansions toLowerExpansions

/-! ## Characters -/

/-- Whether a character is upper case. -/
def isUpper (c : Char) : Bool :=
  let n := c.toNat
  if n < 128 then 65 ≤ n && n ≤ 90 else inRuns false n upperCaseSet

/-- Whether a character does not count when the end of a word is looked for. -/
def isCaseIgnorable (c : Char) : Bool := inRuns false c.toNat caseIgnorableSet

/-- Whether a character has case, those that do not count apart. -/
def isCased (c : Char) : Bool := inRuns false c.toNat casedSet

/-- The counterpart of a character by a table. -/
def mapByTable (shifts : List ShiftRun) (expansions : List (Nat × List Char)) (c : Char) :
    List Char :=
  match expansions.find? (·.1 == c.toNat) with
  | some (_, cs) => cs
  | none =>
    match shifts.findSome? (·.counterpart c.toNat) with
    | some m => [Char.ofNat m]
    | none => [c]

/-- The upper-case counterpart of a character. -/
def upperChar (c : Char) : List Char :=
  let n := c.toNat
  if n < 128 then
    if 97 ≤ n && n ≤ 122 then [Char.ofNat (n - 32)] else [c]
  else mapByTable upperShifts upperExpansions c

/-- The lower-case counterpart of a character, wherever it stands. -/
def lowerChar (c : Char) : List Char :=
  let n := c.toNat
  if n < 128 then
    if 65 ≤ n && n ≤ 90 then [Char.ofNat (n + 32)] else [c]
  else mapByTable lowerShifts lowerExpansions c

/-! ## Texts -/

/-- A text in upper case. -/
def upper (s : List Char) : List Char := s.flatMap upperChar

/-- Whether the first character that counts has case. -/
def startsCased (s : List Char) : Bool :=
  (s.dropWhile isCaseIgnorable).head?.any isCased

/-- The capital sigma. -/
def capitalSigma : Char := Char.ofNat 0x3A3

/-- A text in lower case; `before` is the text in front of it, last character first. -/
def lowerFrom (before : List Char) : List Char → List Char
  | [] => []
  | c :: s =>
    let here :=
      if c == capitalSigma then
        [Char.ofNat (if startsCased before && !startsCased s then 0x3C2 else 0x3C3)]
      else lowerChar c
    here ++ lowerFrom (c :: before) s

/-- A text in lower case. -/
def lower (s : List Char) : List Char := lowerFrom [] s

end ReactWeave.Text
