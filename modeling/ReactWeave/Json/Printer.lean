import ReactWeave.Json.Value

/-!
# ReactWeave.Json.Printer

**JSON text** of a value, on one line or with every item on a line of its own.
Quotes, backslashes and control characters are escaped, all other characters
stand as they are.
-/

namespace ReactWeave.Json

open Number (Binary64)

/-- The spelling of numbers that are not finite, in JSON text. -/
def textSpelling : Binary64.Spelling := ⟨"NaN", "Infinity"⟩

/-- A character inside a JSON string. -/
def escapeChar (c : Char) : List Char :=
  if c == '\x22' then ['\\', '\x22']
  else if c == '\\' then ['\\', '\\']
  else if c == '\n' then ['\\', 'n']
  else if c == '\r' then ['\\', 'r']
  else if c == '\t' then ['\\', 't']
  else if c.toNat == 8 then ['\\', 'b']
  else if c.toNat == 12 then ['\\', 'f']
  else if c.toNat < 32 then '\\' :: 'u' :: Text.hexDigits 4 c.toNat
  else [c]

/-- A JSON string. -/
def writeString (s : String) : String :=
  String.ofList ('\x22' :: s.toList.flatMap escapeChar ++ ['\x22'])

/-- Values that hold no others. -/
def writeScalar : Json → String
  | null => "null"
  | bool b => if b then "true" else "false"
  | int n => toString n
  | real x => x.write textSpelling
  | str s => writeString s
  | arr _ => "[]"
  | obj _ => "\x7b\x7d"

/-! ## One line -/

mutual

/-- JSON text on one line. -/
def write : Json → String
  | arr items => "[" ++ ", ".intercalate (writeItems items) ++ "]"
  | obj fields => "\x7b" ++ ", ".intercalate (writeFields fields) ++ "\x7d"
  | j => writeScalar j

/-- The texts of the items of an array. -/
def writeItems : List Json → List String
  | [] => []
  | j :: js => write j :: writeItems js

/-- The texts of the fields of an object. -/
def writeFields : List (String × Json) → List String
  | [] => []
  | (k, v) :: rest => (writeString k ++ ": " ++ write v) :: writeFields rest

end

/-! ## One item a line -/

/-- A line break and the margin of a level. -/
def newLine (width level : Nat) : String :=
  "\n" ++ String.ofList (List.replicate (width * level) ' ')

/-- Items between brackets, each on its own line. -/
def enclose (opening closing : String) (width level : Nat) (items : List String) : String :=
  if items.isEmpty then opening ++ closing
  else opening ++ newLine width (level + 1) ++
    ("," ++ newLine width (level + 1)).intercalate items ++ newLine width level ++ closing

mutual

/-- JSON text with every item on its own line, `width` blanks deeper at each level. -/
def writePretty (width level : Nat) : Json → String
  | arr items => enclose "[" "]" width level (writePrettyItems width (level + 1) items)
  | obj fields =>
    enclose "\x7b" "\x7d" width level (writePrettyFields width (level + 1) fields)
  | j => writeScalar j

/-- The texts of the items of an array, at a level of nesting. -/
def writePrettyItems (width level : Nat) : List Json → List String
  | [] => []
  | j :: js => writePretty width level j :: writePrettyItems width level js

/-- The texts of the fields of an object, at a level of nesting. -/
def writePrettyFields (width level : Nat) : List (String × Json) → List String
  | [] => []
  | (k, v) :: rest =>
    (writeString k ++ ": " ++ writePretty width level v) :: writePrettyFields width level rest

end

/-- How JSON text is laid out: on one line, or with a margin that grows by a number of blanks; a
negative number counts as none. -/
inductive Layout where
  | line
  | indented (width : Int)
  deriving DecidableEq, Repr

/-- JSON text in a layout. -/
def writeIn : Layout → Json → String
  | .line, j => write j
  | .indented width, j => writePretty width.toNat 0 j

/-! ## Long integers -/

/-- The number of digits of an integer, without its sign. -/
def digitCount (n : Int) : Nat := (Nat.toDigits 10 n.natAbs).length

mutual

/-- The number of digits of the first integer that has too many. -/
def overlong? : Json → Option Nat
  | int n => if maxDigits < digitCount n then some (digitCount n) else none
  | arr items => overlongOf? items
  | obj fields => overlongIn? fields
  | _ => none

/-- The same for the items of an array. -/
def overlongOf? : List Json → Option Nat
  | [] => none
  | j :: js => (overlong? j).or (overlongOf? js)

/-- The same for the values of the fields of an object. -/
def overlongIn? : List (String × Json) → Option Nat
  | [] => none
  | (_, v) :: rest => (overlong? v).or (overlongIn? rest)

end

end ReactWeave.Json
