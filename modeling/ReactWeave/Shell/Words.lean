import ReactWeave.Failure

/-!
# ReactWeave.Shell.Words

**Words of a command line**. Blanks separate words. Single quotes keep everything
between them, double quotes everything but a backslash in front of a backslash
or a double quote, and outside quotes a backslash keeps the character behind it.
-/

namespace ReactWeave.Shell

/-- A sort of quote. -/
inductive Quote where
  | single
  | double
  deriving DecidableEq, Repr

/-- Where in a command line a character stands. -/
inductive Place where
  /-- Between words. -/
  | between
  /-- In a word; in quotes, if there is one. -/
  | word (quote : Option Quote)
  /-- Behind a backslash. -/
  | escaped (quote : Option Quote)
  deriving DecidableEq, Repr

/-- Characters between words. -/
def isSeparator (c : Char) : Bool := c == ' ' || c == '\t' || c == '\r' || c == '\n'

/-- The quote that a character is. -/
def quote? (c : Char) : Option Quote :=
  if c == '\x27' then some .single else if c == '\x22' then some .double else none

/-- The words of the rest of a command line. `word` is the word read so far, last character
first. -/
def wordsFrom (place : Place) (word : List Char) : List Char → Outcome (List String)
  | [] =>
    match place with
    | .between => .ok []
    | .word none => .ok [String.ofList word.reverse]
    | .word (some _) => .error .unclosedQuote
    | .escaped _ => .error .nothingEscaped
  | c :: s =>
    match place with
    | .between | .word none =>
      if isSeparator c then
        if place = .between then wordsFrom .between [] s
        else (wordsFrom .between [] s).map (String.ofList word.reverse :: ·)
      else if c == '\\' then wordsFrom (.escaped none) word s
      else
        match quote? c with
        | some q => wordsFrom (.word (some q)) word s
        | none => wordsFrom (.word none) (c :: word) s
    | .word (some q) =>
      if quote? c = some q then wordsFrom (.word none) word s
      else if c == '\\' && q = .double then wordsFrom (.escaped (some q)) word s
      else wordsFrom (.word (some q)) (c :: word) s
    | .escaped none => wordsFrom (.word none) (c :: word) s
    | .escaped (some q) =>
      if c == '\\' || quote? c = some q then wordsFrom (.word (some q)) (c :: word) s
      else wordsFrom (.word (some q)) (c :: '\\' :: word) s

/-- The words of a command line. -/
def words (line : String) : Outcome (List String) := wordsFrom .between [] line.toList

end ReactWeave.Shell
