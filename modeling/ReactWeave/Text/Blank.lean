/-!
# ReactWeave.Text.Blank

**White space** and what is done with it: trimming, and the lines of a text.
-/

namespace ReactWeave.Text

/-- White space: the ASCII blanks, the four information separators, and the Unicode characters with
the property White_Space. -/
def isBlank (c : Char) : Bool :=
  let n := c.toNat
  n == 32 || (9 ≤ n && n ≤ 13) || (28 ≤ n && n ≤ 31) ||
    (128 ≤ n && (n == 0x85 || n == 0xA0 || n == 0x1680 || (0x2000 ≤ n && n ≤ 0x200A) ||
      n == 0x2028 || n == 0x2029 || n == 0x202F || n == 0x205F || n == 0x3000))

/-- A text without the white space in front. -/
def trimStart (s : List Char) : List Char := s.dropWhile isBlank

/-- A text without the white space at its end. -/
def trimEnd (s : List Char) : List Char := (s.reverse.dropWhile isBlank).reverse

/-- A text without the white space at both ends. -/
def trim (s : List Char) : List Char := trimEnd (trimStart s)

/-- Whether a text is nothing but white space. -/
def isBlankText (s : List Char) : Bool := s.all isBlank

/-- A string without the white space at both ends. -/
def trimmed (s : String) : String := String.ofList (trim s.toList)

/-! ## Lines -/

/-- Characters that end a line. -/
def isLineEnd (c : Char) : Bool :=
  let n := c.toNat
  (10 ≤ n && n ≤ 13) || (28 ≤ n && n ≤ 30) || n == 0x85 || n == 0x2028 || n == 0x2029

/-- The lines of a text, each with the characters that end it. `current` is the line read so far,
last character first. -/
def linesFrom (current : List Char) : List Char → List (List Char)
  | [] => if current.isEmpty then [] else [current.reverse]
  | '\r' :: '\n' :: s => ('\n' :: '\r' :: current).reverse :: linesFrom [] s
  | c :: s =>
    if isLineEnd c then (c :: current).reverse :: linesFrom [] s
    else linesFrom (c :: current) s

/-- The lines of a text, each with the characters that end it. -/
def linesOf (s : List Char) : List (List Char) := linesFrom [] s

/-- Puts `margin` in front of every line that is more than white space. -/
def indentChars (margin s : List Char) : List Char :=
  (linesOf s).flatMap fun line => if isBlankText line then line else margin ++ line

/-- Puts `margin` in front of every line that is more than white space. -/
def indent (margin s : String) : String :=
  String.ofList (indentChars margin.toList s.toList)

end ReactWeave.Text
