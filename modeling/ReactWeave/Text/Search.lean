/-!
# ReactWeave.Text.Search

**Finding and replacing** in texts.
-/

namespace ReactWeave.Text

/-- Whether a text starts with `w`. -/
def startsWith : List Char → List Char → Bool
  | [], _ => true
  | _ :: _, [] => false
  | a :: w, b :: s => a == b && startsWith w s

/-- Whether `w` occurs in a text. -/
def occurs (w : List Char) : List Char → Bool
  | [] => w.isEmpty
  | c :: s => startsWith w (c :: s) || occurs w s

/-- Replaces the occurrences of a non-empty `w` from left to right; the first `skip` characters
belong to an occurrence that was replaced. -/
def replaceFrom (w by_ : List Char) : Nat → List Char → List Char
  | _, [] => []
  | skip + 1, _ :: s => replaceFrom w by_ skip s
  | 0, c :: s =>
    if startsWith w (c :: s) then by_ ++ replaceFrom w by_ (w.length - 1) s
    else c :: replaceFrom w by_ 0 s

/-- Replaces every occurrence of `w`; the empty text occurs in front of every character and at the
end. -/
def replaceAll (w by_ s : List Char) : List Char :=
  if w.isEmpty then by_ ++ s.flatMap fun c => c :: by_
  else replaceFrom w by_ 0 s

/-- Whether `w` occurs in a string. -/
def occursIn (w s : String) : Bool := occurs w.toList s.toList

/-- Replaces every occurrence of `w` in a string. -/
def replace (w by_ s : String) : String :=
  String.ofList (replaceAll w.toList by_.toList s.toList)

/-- A text with every sort of line break written as a single one. -/
def plainLines : List Char → List Char
  | '\r' :: '\n' :: s => '\n' :: plainLines s
  | '\r' :: s => '\n' :: plainLines s
  | c :: s => c :: plainLines s
  | [] => []

/-- Whether a string starts with `w`. -/
def hasStart (w s : String) : Bool := startsWith w.toList s.toList

/-- A string without its first `n` characters. -/
def dropChars (n : Nat) (s : String) : String := String.ofList (s.toList.drop n)

end ReactWeave.Text
