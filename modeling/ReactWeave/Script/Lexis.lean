import ReactWeave.Script.Grammar
import ReactWeave.Text.Search

/-!
# ReactWeave.Script.Lexis

The **tokens** of the script language: blanks and comments, names, numbers, the
pieces of strings, templates and regular expressions, and the places where a
statement may end without a semicolon.

Each recogniser looks at the start of a text and gives the length of the token
there. All of them follow the text character by character.
-/

namespace ReactWeave.Script.Lexis

/-! ## Characters -/

/-- Blanks: white space, the space separators, the zero-width space, the word
joiner, the byte order mark and the two line separators. -/
def isBlank (c : Char) : Bool :=
  let n := c.toNat
  n == 32 || (9 ≤ n && n ≤ 13) ||
    (n ≥ 128 && (n == 0x85 || n == 0xA0 || n == 0x1680 || (0x2000 ≤ n && n ≤ 0x200B) ||
      n == 0x2028 || n == 0x2029 || n == 0x202F || n == 0x205F || n == 0x2060 ||
      n == 0x3000 || n == 0xFEFF))

/-- Characters that end a line for the purpose of leaving out a semicolon. -/
def isLineFeed (c : Char) : Bool :=
  c == '\n' || c.toNat == 0x2028 || c.toNat == 0x2029

/-- Characters that end a line comment. -/
def endsLine (c : Char) : Bool := isLineFeed c || c == '\r'

/-- Digits of base sixteen. -/
def isHexDigit (c : Char) : Bool :=
  c.isDigit || (97 ≤ c.toNat && c.toNat ≤ 102) || (65 ≤ c.toNat && c.toNat ≤ 70)

/-- The letters of plain English. -/
def isLetter (c : Char) : Bool :=
  (97 ≤ c.toNat && c.toNat ≤ 122) || (65 ≤ c.toNat && c.toNat ≤ 90)

/-- Characters of a name: letters, digits, `$`, `_`, and from U+007F on everything that is not
a blank. -/
def isNamePart (c : Char) : Bool :=
  isLetter c || c.isDigit || c == '$' || c == '_' || (127 ≤ c.toNat && !isBlank c)

/-- Characters a name may start with. -/
def isNameStart (c : Char) : Bool := isNamePart c && !c.isDigit

/-! ## Gaps -/

/-- Length up to and including the end of a block comment. -/
def blockEnd : List Char → Option Nat
  | '*' :: '/' :: _ => some 2
  | _ :: s => (blockEnd s).map (· + 1)
  | [] => none

/-- Length of the comment at the start of a text. -/
def commentLength : List Char → Option Nat
  | '/' :: '/' :: s => some ((s.takeWhile fun c => !endsLine c).length + 2)
  | '/' :: '*' :: s => (blockEnd s).map (· + 2)
  | _ => none

/-- Length of a gap; the first `skip` characters are inside a comment. -/
def gapFrom : Nat → List Char → Nat
  | _, [] => 0
  | skip + 1, _ :: s => gapFrom skip s + 1
  | 0, c :: s =>
    if isBlank c then gapFrom 0 s + 1
    else if c == '/' then
      match commentLength (c :: s) with
      | some (n + 1) => gapFrom n s + 1
      | _ => 0
    else 0

/-- Splits a gap into runs of blanks and comments. -/
def piecesOf : Nat → List Char → List Tree
  | _, [] => []
  | 0, s => [.gap s]
  | fuel + 1, s =>
    match commentLength s with
    | some n => .token .comment none (s.take n) :: piecesOf fuel (s.drop n)
    | none =>
      match s.takeWhile isBlank with
      | [] => [.gap s]
      | blanks => .gap blanks :: piecesOf fuel (s.drop blanks.length)

/-- Blanks and comments stand between tokens. -/
def lexicon : Lexicon where
  gapLength := gapFrom 0
  pieces := fun s => piecesOf s.length s

/-! ## Names and marks -/

/-- Length of `\uXXXX` or `\u{X…}` behind the backslash. -/
def unicodeEscapeLength : List Char → Option Nat
  | 'u' :: '{' :: s =>
    let digits := (s.takeWhile isHexDigit).length
    match s.drop digits with
    | '}' :: _ => if digits = 0 then none else some (digits + 3)
    | _ => none
  | 'u' :: a :: b :: c :: d :: _ =>
    if isHexDigit a && isHexDigit b && isHexDigit c && isHexDigit d then some 5 else none
  | _ => none

/-- Length of the rest of a name; the first `skip` characters are inside an escape. -/
def nameFrom : Nat → List Char → Nat
  | _, [] => 0
  | skip + 1, _ :: s => nameFrom skip s + 1
  | 0, c :: s =>
    if isNamePart c then nameFrom 0 s + 1
    else if c == '\\' then
      match unicodeEscapeLength s with
      | some n => nameFrom n s + 1
      | none => 0
    else 0

/-- Length of the name at the start of a text, zero if there is none. -/
def nameLength : List Char → Nat
  | [] => 0
  | c :: s => if isNameStart c || c == '\\' then nameFrom 0 (c :: s) else 0

/-- A name that passes a test. -/
def name (test : List Char → Bool) : Scan := fun s =>
  let n := nameLength s
  if n = 0 then none else if test (s.take n) then some n else none

/-- The keyword `w`. -/
def keyword (w : List Char) : Scan := name (· == w)

/-- The mark `w`, not followed by one of the characters `stop`. -/
def mark (w stop : List Char) : Scan := fun s =>
  if Text.startsWith w s then
    match s.drop w.length with
    | c :: _ => if stop.contains c then none else some w.length
    | [] => some w.length
  else none

/-- A private name: `#` and a name. -/
def privateName : Scan
  | '#' :: s => let n := nameLength s; if n = 0 then none else some (n + 1)
  | _ => none

/-- A name of an element or attribute, which may hold dashes if it has no escapes. -/
def dashedName : Scan := fun s =>
  let n := nameLength s
  if n = 0 then none
  else
    match s.drop n with
    | '-' :: _ =>
      some (max n (s.takeWhile fun c => isNamePart c || c == '-').length)
    | _ => some n

/-- Words that are never names. -/
def reserved : List (List Char) :=
  ["break", "case", "catch", "class", "const", "continue", "debugger", "default", "delete", "do",
    "else", "export", "extends", "false", "finally", "for", "function", "if", "import", "in",
    "instanceof", "new", "null", "return", "super", "switch", "this", "throw", "true", "try",
    "typeof", "var", "void", "while", "with"].map String.toList

/-- Whether a word is never a name. -/
def isReserved (w : List Char) : Bool := reserved.contains w

/-- Words that stand for themselves in an expression and so are no identifiers there. -/
def isIdentifier (w : List Char) : Bool :=
  !isReserved w && w != "yield".toList

/-- Whether a word at the start of a statement can be anything but an expression or a keyword. -/
def isLabel (w : List Char) : Bool :=
  isIdentifier w && w != "undefined".toList

/-! ## Numbers -/

/-- Length of a run of digits in which single underscores may separate digits. -/
def digitsFrom (isD : Char → Bool) : List Char → Nat
  | [] => 0
  | '_' :: c :: s => if isD c then digitsFrom isD s + 2 else 0
  | c :: s => if isD c then digitsFrom isD s + 1 else 0

/-- Length of a run of digits that starts with a digit. -/
def digits (isD : Char → Bool) : List Char → Nat
  | [] => 0
  | c :: s => if isD c then digitsFrom isD s + 1 else 0

/-- Length of an exponent, zero if there is none. -/
def exponentLength : List Char → Nat
  | c :: s =>
    if c == 'e' || c == 'E' then
      match s with
      | '+' :: r | '-' :: r => let n := digits Char.isDigit r; if n = 0 then 0 else n + 2
      | r => let n := digits Char.isDigit r; if n = 0 then 0 else n + 1
    else 0
  | [] => 0

/-- Length with the mark of a big integer, if it follows. -/
def withBigMark (n : Nat) (s : List Char) : Nat :=
  match s.drop n with
  | 'n' :: _ => n + 1
  | _ => n

/-- Digits that a fraction or an exponent may follow. -/
def isDecimalInteger : List Char → Bool
  | ['0'] => true
  | '0' :: c :: _ => c.isDigit && c != '0'
  | c :: _ => c.isDigit
  | [] => false

/-- A number of a base with its own prefix letter. -/
def radixNumber (isD : Char → Bool) (s : List Char) : Option Nat :=
  let n := digits isD s
  if n = 0 then none else some (withBigMark n s + 2)

/-- Digits of base eight. -/
def isOctal (c : Char) : Bool := 48 ≤ c.toNat && c.toNat ≤ 55

/-- Digits of base two. -/
def isBinary (c : Char) : Bool := c == '0' || c == '1'

/-- A number without a base letter. -/
def decimalNumber (s : List Char) : Option Nat :=
  let n := digits Char.isDigit s
  if n = 0 then
    match s with
    | '.' :: r =>
      let m := digits Char.isDigit r
      if m = 0 then none else some (m + 1 + exponentLength (r.drop m))
    | _ => none
  else if isDecimalInteger (s.take n) then
    match s.drop n with
    | '.' :: r =>
      let m := digits Char.isDigit r
      some (n + 1 + m + exponentLength (r.drop m))
    | r =>
      let e := exponentLength r
      if e = 0 then some (withBigMark n s) else some (n + e)
  else some (withBigMark n s)

/-- A number. -/
def number : Scan := fun s =>
  let based :=
    match s with
    | '0' :: 'x' :: r | '0' :: 'X' :: r => radixNumber isHexDigit r
    | '0' :: 'o' :: r | '0' :: 'O' :: r => radixNumber isOctal r
    | '0' :: 'b' :: r | '0' :: 'B' :: r => radixNumber isBinary r
    | _ => none
  match based with
  | some n => some n
  | none => decimalNumber s

/-! ## Strings, templates and regular expressions -/

/-- A non-empty run of characters. -/
def runOf (test : Char → Bool) : Scan := fun s =>
  let n := (s.takeWhile test).length
  if n = 0 then none else some n

/-- The characters of a string between escapes. -/
def stringFragment (quote : Char) : Scan :=
  runOf fun c => c != quote && c != '\\' && c != '\r' && c != '\n'

/-- An escape sequence. -/
def escapeSequence : Scan
  | '\\' :: 'x' :: a :: b :: _ => if isHexDigit a && isHexDigit b then some 4 else none
  | '\\' :: 'x' :: _ => none
  | '\\' :: 'u' :: s => (unicodeEscapeLength ('u' :: s)).map (· + 1)
  | '\\' :: c :: s =>
    if isOctal c then some (((c :: s).take 3).takeWhile isOctal).length.succ
    else if c == '\r' || c == '?' then
      match s with
      | d :: _ => if isLineFeed d then some 3 else some 2
      | [] => some 2
    else some 2
  | _ => none

/-- Length of the text of a template up to a substitution, an escape or its end. -/
def templateChars : List Char → Option Nat
  | [] => none
  | '\x60' :: _ => some 0
  | '\\' :: _ => some 0
  | '$' :: '{' :: _ => some 0
  | _ :: s => (templateChars s).map (· + 1)

/-- A non-empty piece of the text of a template. -/
def templateFragment : Scan := fun s =>
  match templateChars s with
  | some (n + 1) => some (n + 1)
  | _ => none

/-- Length of a regular expression up to its closing slash. -/
def regexFrom (inClass : Bool) : List Char → Option Nat
  | [] => none
  | '\\' :: c :: s => if c == '\n' then none else (regexFrom inClass s).map (· + 2)
  | c :: s =>
    if c == '\n' || c == '\\' then none
    else if inClass then (regexFrom (c != ']') s).map (· + 1)
    else if c == '/' then some 0
    else (regexFrom (c == '[') s).map (· + 1)

/-- The pattern of a regular expression. -/
def regexPattern : Scan := fun s =>
  match regexFrom false s with
  | some (n + 1) => some (n + 1)
  | _ => none

/-! ## Markup -/

/-- Length of text between tags, and whether it is more than a line break with the blanks around
it: `fresh` says that only blanks stand since the last line break. -/
def markupText (fresh seen : Bool) : List Char → Nat × Bool
  | [] => (0, seen)
  | c :: s =>
    if c == '<' || c == '>' || c == '{' || c == '}' || c == '&' then (0, seen)
    else
      let fresh' := c == '\n' || (fresh && isBlank c)
      let (n, seen') := markupText fresh' (seen || !fresh') s
      (n + 1, seen')

/-- Text between tags. -/
def jsxText : Scan := fun s =>
  match markupText false false s with
  | (n, true) => some n
  | _ => none

/-- A character written by name or number. -/
def characterReference : Scan
  | '&' :: '#' :: s =>
    let (isD, skip, most) : (Char → Bool) × Nat × Nat :=
      match s with
      | 'x' :: _ | 'X' :: _ => (isHexDigit, 1, 6)
      | _ => (Char.isDigit, 0, 5)
    let n := ((s.drop skip).takeWhile isD).length
    match s.drop (skip + n) with
    | ';' :: _ => if 1 ≤ n && n ≤ most then some (n + skip + 3) else none
    | _ => none
  | '&' :: s =>
    let n := (s.takeWhile isLetter).length
    match s.drop n with
    | ';' :: _ => if 1 ≤ n && n ≤ 30 then some (n + 2) else none
    | _ => none
  | _ => none

/-- Length of a text up to and with the quote that closes it. An ampersand starts a character by
name or number, or else takes the next character with it; the first `skip` characters belong to one
of these. -/
def attributeFrom (quote : Char) : Nat → List Char → Option Nat
  | _, [] => none
  | skip + 1, _ :: s => (attributeFrom quote skip s).map (· + 1)
  | 0, c :: s =>
    if c == quote then some 1
    else if c == '&' then
      match s with
      | d :: _ =>
        if d == '#' || isLetter d then
          match characterReference (c :: s) with
          | some n => (attributeFrom quote (n - 1) s).map (· + 1)
          | none => none
        else (attributeFrom quote 1 s).map (· + 1)
      | [] => none
    else (attributeFrom quote 0 s).map (· + 1)

/-- The value of an attribute in quotes. -/
def attributeString : Scan
  | c :: s =>
    if c == '\x22' || c == '\x27' then (attributeFrom c 0 s).map (· + 1) else none
  | [] => none

/-- A comment in the form of markup, up to the end of its line. -/
def markupComment : Scan := fun s =>
  if Text.startsWith "<!--".toList s || Text.startsWith "-->".toList s then
    some (s.takeWhile fun c => !isLineFeed c).length
  else none

/-- A first line that names an interpreter. -/
def hashBang : Scan := fun s =>
  if Text.startsWith "#!".toList s then some (s.takeWhile (· != '\n')).length else none

/-! ## Line breaks and semicolons -/

/-- Whether a line ends in the gap at the start of a text, comments apart. -/
def breaksLine : Nat → List Char → Bool
  | _, [] => false
  | skip + 1, _ :: s => breaksLine skip s
  | 0, c :: s =>
    if isLineFeed c then true
    else if isBlank c then breaksLine 0 s
    else if c == '/' then
      match commentLength (c :: s) with
      | some (n + 1) => breaksLine n s
      | _ => false
    else false

/-- The text behind the gap at its start. -/
def behindGap (s : List Char) : List Char := s.drop (gapFrom 0 s)

/-- Whether `s` starts with the word `in` or `instanceof`. -/
def startsRelation (s : List Char) : Bool :=
  let tail := fun (w : String) =>
    Text.startsWith w.toList s &&
      !((s.drop w.length).head?.any fun c => isLetter c || 128 ≤ c.toNat)
  tail "in" || tail "instanceof"

/-- Whether a text on a new line starts a new statement. -/
def startsStatement : List Char → Bool
  | [] => true
  | '.' :: s => s.head?.any Char.isDigit
  | '+' :: s => s.head? == some '+'
  | '-' :: s => s.head? == some '-'
  | '!' :: s => s.head? != some '='
  | 'i' :: s => !startsRelation ('i' :: s)
  | c :: _ => !"\x60,:;*%><=[(?^|&/".toList.contains c

/-- Whether a statement may end here without a semicolon: at the end of the text, in front of a
closing brace, or where a line ends and the next one starts a new statement. -/
def endsStatement (s : List Char) : Bool :=
  match behindGap s with
  | [] => true
  | '}' :: _ => true
  | rest => breaksLine 0 s && startsStatement rest

end ReactWeave.Script.Lexis
