/-!
# ReactWeave.Text.Escape

**Escapes behind a backslash** that name a character: a letter for a control
character, or octal digits for its number.
-/

namespace ReactWeave.Text

/-- The value of an octal digit. -/
def octalValue? (c : Char) : Option Nat :=
  if 48 ≤ c.toNat && c.toNat ≤ 55 then some (c.toNat - 48) else none

/-- The control character that a letter stands for; a backslash stands for itself. -/
def control? : Char → Option Char
  | 'a' => some (Char.ofNat 7)
  | 'b' => some (Char.ofNat 8)
  | 'f' => some (Char.ofNat 12)
  | 'n' => some '\n'
  | 'r' => some '\r'
  | 't' => some '\t'
  | 'v' => some (Char.ofNat 11)
  | '\\' => some '\\'
  | _ => none

end ReactWeave.Text
