import ReactWeave.Json.Printer

/-!
# ReactWeave.Json5.Printer

**JSON5 text** of a value on one line: keys that are identifiers stand without
quotes, all other strings in double quotes with everything outside ASCII
escaped.
-/

namespace ReactWeave.Json5

open Json

/-- Words that are quoted when they are keys. -/
def reservedWords : List String :=
  ["break", "case", "catch", "class", "const", "continue", "debugger", "default", "delete", "do",
    "else", "enum", "export", "extends", "false", "finally", "for", "function", "if",
    "implements", "import", "in", "instanceof", "interface", "let", "new", "null", "package",
    "private", "protected", "public", "return", "static", "super", "switch", "this", "throw",
    "true", "try", "typeof", "var", "void", "while", "with", "yield"]

/-- Whether a text has the form of an identifier. -/
def isIdentifier : List Char → Bool
  | [] => false
  | c :: cs => Text.isLiteralNameStart c && cs.all Text.isLiteralNamePart

/-- A code unit as an escape of four hexadecimal digits. -/
def unitEscape (n : Nat) : List Char := '\\' :: 'u' :: Text.hexDigits 4 n

/-- A character as one escape, or as two if it takes a pair of code units. -/
def charEscape (c : Char) : List Char :=
  let n := c.toNat
  if n < 0x10000 then unitEscape n
  else
    unitEscape (0xD800 + (n - 0x10000) / 0x400) ++ unitEscape (0xDC00 + (n - 0x10000) % 0x400)

/-- A character inside a string. -/
def escapeChar (c : Char) : List Char :=
  let n := c.toNat
  if c == '\\' then ['\\', '\\']
  else if c == '\x22' then ['\\', '\x22']
  else if c == '\n' then ['\\', 'n']
  else if c == '\r' then ['\\', 'r']
  else if c == '\t' then ['\\', 't']
  else if n == 8 then ['\\', 'b']
  else if n == 12 then ['\\', 'f']
  else if n == 11 then ['\\', 'v']
  else if n == 0 then ['\\', '0']
  else if 32 ≤ n && n < 128 then [c]
  else charEscape c

/-- A string in double quotes. -/
def writeString (s : String) : String :=
  String.ofList ('\x22' :: s.toList.flatMap escapeChar ++ ['\x22'])

/-- A key, in quotes only where they are needed. -/
def writeKey (k : String) : String :=
  if isIdentifier k.toList && !reservedWords.contains k then k else writeString k

/-- Values that hold no others. -/
def writeScalar : Json → String
  | .str s => writeString s
  | j => Json.writeScalar j

mutual

/-- JSON5 text of a value. -/
def write : Json → String
  | .arr items => "[" ++ ", ".intercalate (writeItems items) ++ "]"
  | .obj fields => "\x7b" ++ ", ".intercalate (writeFields fields) ++ "\x7d"
  | j => writeScalar j

/-- The texts of the items of an array. -/
def writeItems : List Json → List String
  | [] => []
  | j :: js => write j :: writeItems js

/-- The texts of the fields of an object. -/
def writeFields : List (String × Json) → List String
  | [] => []
  | (k, v) :: rest => (writeKey k ++ ": " ++ write v) :: writeFields rest

end

end ReactWeave.Json5
