import ReactWeave.Text.Class

/-!
# ReactWeave.Text.Quoted

**Quoted text**, as messages show it: in single quotes, or in double quotes if
the text holds a single quote and no double one. Characters that cannot be shown
are written as escapes of two, four or eight hexadecimal digits.
-/

namespace ReactWeave.Text

/-- The low `n` hexadecimal digits of a number. -/
def hexDigits (n value : Nat) : List Char :=
  let digits := Nat.toDigits 16 value
  List.replicate (n - digits.length) '0' ++ digits

/-- A character inside quotes of the given sort. -/
def quoteChar (quote c : Char) : List Char :=
  if c == quote || c == '\\' then ['\\', c]
  else if c == '\t' then ['\\', 't']
  else if c == '\n' then ['\\', 'n']
  else if c == '\r' then ['\\', 'r']
  else if isPrintable c then [c]
  else
    let n := c.toNat
    if n < 0x100 then '\\' :: 'x' :: hexDigits 2 n
    else if n < 0x10000 then '\\' :: 'u' :: hexDigits 4 n
    else '\\' :: 'U' :: hexDigits 8 n

/-- The quote for a text. -/
def quoteFor (s : List Char) : Char :=
  if s.contains '\x27' && !s.contains '\x22' then '\x22' else '\x27'

/-- A text in quotes. -/
def quoted (s : String) : String :=
  let cs := s.toList
  let q := quoteFor cs
  String.ofList (q :: cs.flatMap (quoteChar q) ++ [q])

end ReactWeave.Text
