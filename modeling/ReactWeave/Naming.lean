import ReactWeave.Text.Blank
import ReactWeave.Text.Case

/-!
# ReactWeave.Naming

**Spellings of names**: with a capital, in camel case, with dashes.
-/

namespace ReactWeave.Naming

/-- The name with its first character in upper case. -/
def capitalizeChars (name : List Char) : List Char :=
  Text.upper (name.take 1) ++ name.drop 1

/-- The name with its first character in upper case. -/
def capitalize (name : String) : String := String.ofList (capitalizeChars name.toList)

/-- Characters between the words of a name. -/
def isSeparator (c : Char) : Bool := c == '-' || c == '_' || Text.isBlank c

/-- The words of a name; `current` is the word read so far, last character first. -/
def wordsFrom (current : List Char) : List Char → List (List Char)
  | [] => if current.isEmpty then [] else [current.reverse]
  | c :: s =>
    if isSeparator c then
      if current.isEmpty then wordsFrom [] s else current.reverse :: wordsFrom [] s
    else wordsFrom (c :: current) s

/-- The words of a name joined, all but the first with a capital: `my-button` is `myButton`. -/
def camelCaseChars (name : List Char) : List Char :=
  match wordsFrom [] name with
  | [] => []
  | w :: ws => w ++ ws.flatMap capitalizeChars

/-- The words of a name joined, all but the first with a capital. -/
def camelCase (name : String) : String := String.ofList (camelCaseChars name.toList)

/-- Whether a character is one of the letters from A to Z. -/
def isCapital (c : Char) : Bool := 65 ≤ c.toNat && c.toNat ≤ 90

/-- A dash in front of every capital, all in lower case, and no dash at the start: `fontSize` is
`font-size`. -/
def dashCaseChars (name : List Char) : List Char :=
  (Text.lower (name.flatMap fun c => if isCapital c then ['-', c] else [c])).dropWhile (· == '-')

/-- A dash in front of every capital, all in lower case, and no dash at the start. -/
def dashCase (name : String) : String := String.ofList (dashCaseChars name.toList)

end ReactWeave.Naming
