import ReactWeave.Json.Reader

/-!
# ReactWeave.Json5.Reader

**Reading JSON5 text**: JSON with comments, keys without quotes, strings in
either sort of quotes, line continuations, trailing commas, hexadecimal numbers,
numbers that start or end with their point, and signs.

A number with a point or an exponent is a floating-point number, every other one
an integer; a repeated field keeps its first place and its last value.
-/

namespace ReactWeave.Json5

open Json (digitsValue hexDigit? isSurrogate put)
open Number (Binary64)

/-- Why JSON5 text cannot be read. -/
inductive ReadError where
  /-- There is no text. -/
  | empty
  /-- The text ends too early. -/
  | endOfText (line column : Nat)
  /-- A character that has no place where it stands. -/
  | unexpected (c : Char) (line column : Nat)
  /-- A name or a string with half of a surrogate pair, which no text can hold. -/
  | unpaired (unit : Nat)
  deriving DecidableEq, Repr

/-- What is wrong, in words. -/
def ReadError.message : ReadError → String
  | .empty => "Empty strings are not legal JSON5"
  | .endOfText line column =>
    "<string>:" ++ toString line ++ " Unexpected end of input at column " ++ toString column
  | .unexpected c line column =>
    "<string>:" ++ toString line ++ " Unexpected \"" ++ String.singleton c ++ "\" at column " ++
      toString column
  | .unpaired unit => (Json.ReadError.unpaired unit).message

/-- Why reading stopped: at a fault, with the text from there on, or at half of a pair. -/
inductive Stop where
  | fault (rest : List Char)
  | unpaired (unit : Nat)

/-- What was read and the text behind it, or why reading stopped. -/
abbrev Step (α : Type) := Except Stop (α × List Char)

/-- Stops reading in front of `rest`. -/
def stopAt {α : Type} (rest : List Char) : Step α := .error (.fault rest)

/-! ## Blanks and comments -/

/-- Characters that end a line. -/
def isLineEnd (c : Char) : Bool :=
  c == '\n' || c == '\r' || c.toNat == 0x2028 || c.toNat == 0x2029

/-- Blanks: the ASCII blanks, line ends, the byte order mark and the space separators. -/
def isSpace (c : Char) : Bool :=
  let n := c.toNat
  n == 32 || (9 ≤ n && n ≤ 13) || n == 0xA0 || n == 0x1680 || (0x2000 ≤ n && n ≤ 0x200A) ||
    n == 0x2028 || n == 0x2029 || n == 0x202F || n == 0x205F || n == 0x3000 || n == 0xFEFF

/-- Where the text between values goes on. -/
inductive SpaceState where
  | between
  | line
  | block

/-- The text behind blanks and comments. `opened` is the text from the start of the comment on that
is being skipped; a block comment that does not end is not skipped. -/
def skipFrom : SpaceState → List Char → List Char → List Char
  | .between, _, [] => []
  | .between, opened, '/' :: '/' :: s => skipFrom .line opened s
  | .between, _, '/' :: '*' :: s => skipFrom .block ('/' :: '*' :: s) s
  | .between, opened, c :: s => if isSpace c then skipFrom .between opened s else c :: s
  | .line, _, [] => []
  | .line, opened, c :: s =>
    if isLineEnd c then skipFrom .between opened s else skipFrom .line opened s
  | .block, opened, [] => opened
  | .block, opened, '*' :: '/' :: s => skipFrom .between opened s
  | .block, opened, _ :: s => skipFrom .block opened s

/-- The text behind blanks and comments. -/
def skip (s : List Char) : List Char := skipFrom .between [] s

/-! ## Names and strings -/

/-- The character of `uXXXX`. -/
def unicodeEscape? : List Char → Option Char
  | 'u' :: s => (Json.hexFour? s).map Char.ofNat
  | _ => none

/-- Whether two code units are a surrogate pair. -/
def isPair (a b : Nat) : Bool := 0xD800 ≤ a && a < 0xDC00 && 0xDC00 ≤ b && b < 0xE000

/-- The characters of code units, those of pairs put together. -/
def joinUnits : List Nat → List Char
  | [] => []
  | [n] => [Char.ofNat n]
  | a :: b :: rest =>
    if isPair a b then Json.joinSurrogates a b :: joinUnits rest
    else Char.ofNat a :: joinUnits (b :: rest)

/-- The first code unit that is half of a pair and stands without the other half. -/
def unpaired? : List Nat → Option Nat
  | [] => none
  | [n] => if isSurrogate n then some n else none
  | a :: b :: rest =>
    if isPair a b then unpaired? rest
    else if isSurrogate a then some a
    else unpaired? (b :: rest)

/-- The first code unit among the escapes of a name that is half of a pair. -/
def escapedHalf? : List Char → Option Nat
  | [] => none
  | c :: s =>
    match if c == '\\' then Json.hexFour? (s.drop 1) else none with
    | some n => if isSurrogate n then some n else escapedHalf? s
    | none => escapedHalf? s

/-- The rest of a name, read into code points; the first `used` characters belong to an escape. -/
def nameFrom (acc : List Char) : Nat → List Char → List Char × List Char
  | _, [] => (acc.reverse, [])
  | used + 1, _ :: s => nameFrom acc used s
  | 0, c :: s =>
    if Text.isLiteralNamePart c || c.toNat == 0x200C || c.toNat == 0x200D then
      nameFrom (c :: acc) 0 s
    else if c == '\\' then
      match unicodeEscape? s with
      | some d => nameFrom (d :: acc) 5 s
      | none => (acc.reverse, c :: s)
    else (acc.reverse, c :: s)

/-- A name without quotes. -/
def readName (s : List Char) : Step String :=
  match s with
  | [] => stopAt s
  | c :: r =>
    if Text.isLiteralNameStart c || (c == '\\' && (unicodeEscape? r).isSome) then
      let (name, rest) := nameFrom [] 0 s
      match escapedHalf? (s.take (s.length - rest.length)) with
      | some unit => .error (.unpaired unit)
      | none => .ok (String.ofList name, rest)
    else stopAt s

/-- What stands behind a backslash: the code units it stands for, and how many characters it
takes. -/
def escape? : List Char → Option (List Nat × Nat)
  | 'b' :: _ => some ([8], 1)
  | 'f' :: _ => some ([12], 1)
  | 'n' :: _ => some ([10], 1)
  | 'r' :: _ => some ([13], 1)
  | 't' :: _ => some ([9], 1)
  | 'v' :: _ => some ([11], 1)
  | 'x' :: a :: b :: _ => do return ([16 * (← hexDigit? a) + (← hexDigit? b)], 3)
  | 'x' :: _ => none
  | 'u' :: s => (Json.hexFour? s).map fun n => ([n], 5)
  | '\r' :: '\n' :: _ => some ([], 2)
  | '0' :: s => if s.head?.any Char.isDigit then none else some ([0], 1)
  | c :: _ =>
    if isLineEnd c then some ([], 1)
    else if c.isDigit then none
    else some ([c.toNat], 1)
  | [] => none

/-- The rest of a string, read into code units, last one first; the first `used` characters belong
to an escape. -/
def stringFrom (quote : Char) (acc : List Nat) : Nat → List Char → Step String
  | _, [] => stopAt []
  | used + 1, _ :: s => stringFrom quote acc used s
  | 0, c :: s =>
    if c == quote then
      match unpaired? acc.reverse with
      | some unit => .error (.unpaired unit)
      | none => .ok (String.ofList (joinUnits acc.reverse), s)
    else if c == '\\' then
      match escape? s with
      | some (units, n) => stringFrom quote (units.reverse ++ acc) n s
      | none => stopAt s
    else if c == '\n' || c == '\r' then stopAt (c :: s)
    else stringFrom quote (c.toNat :: acc) 0 s

/-! ## Numbers -/

/-- Whether a name could start here, which may not follow a number. -/
def startsName : List Char → Bool
  | [] => false
  | c :: s => Text.isLiteralNameStart c || (c == '\\' && (unicodeEscape? s).isSome)

/-- Digits in front of the point: one zero, or digits that do not start with zero. -/
def wholeDigits : List Char → Option (List Char)
  | '0' :: s => if s.head?.any Char.isDigit then none else some ['0']
  | s => some (s.takeWhile Char.isDigit)

/-- An exponent: its value and the text behind it; none if its digits are missing. -/
def readExponent (s : List Char) : Option (Option Int × List Char) :=
  match s with
  | c :: r =>
    if c == 'e' || c == 'E' then
      let (negative, r) :=
        match r with
        | '-' :: t => (true, t)
        | '+' :: t => (false, t)
        | t => (false, t)
      let ds := r.takeWhile Char.isDigit
      if ds.isEmpty then none
      else
        let n : Int := digitsValue ds
        some (some (if negative then -n else n), r.drop ds.length)
    else some (none, s)
  | [] => some (none, s)

/-- A number in decimal digits. -/
def readDecimal (negative : Bool) (s : List Char) : Step Json :=
  match wholeDigits s with
  | none => stopAt (s.drop 1)
  | some ds =>
    let rest := s.drop ds.length
    let (fraction, rest) : Option (List Char) × List Char :=
      match rest with
      | '.' :: r => let fs := r.takeWhile Char.isDigit; (some fs, r.drop fs.length)
      | r => (none, r)
    let fs := fraction.getD []
    if ds.isEmpty && fs.isEmpty then stopAt s
    else
      match readExponent rest with
      | none => stopAt (rest.drop 1)
      | some (exponent, rest) =>
        if startsName rest then stopAt rest
        else if fraction.isNone && exponent.isNone then
          let n : Int := digitsValue ds
          .ok (.int (if negative then -n else n), rest)
        else
          .ok (.real (Binary64.ofDecimal negative (digitsValue (ds ++ fs))
            (exponent.getD 0 - fs.length)), rest)

/-- A number in hexadecimal digits. -/
def readHex (negative : Bool) (s : List Char) : Step Json :=
  let ds := s.takeWhile fun c => (hexDigit? c).isSome
  if ds.isEmpty then stopAt s
  else
    let n : Int := ds.foldl (fun n d => 16 * n + (hexDigit? d).getD 0) 0
    .ok (.int (if negative then -n else n), s.drop ds.length)

/-- A number behind its sign. -/
def readNumber (negative : Bool) (s : List Char) : Step Json :=
  match s with
  | '0' :: 'x' :: r | '0' :: 'X' :: r => readHex negative r
  | _ =>
    if Text.startsWith "Infinity".toList s then .ok (.real (.infinite negative), s.drop 8)
    else if Text.startsWith "NaN".toList s then .ok (.real .nan, s.drop 3)
    else readDecimal negative s

/-! ## Values -/

/-- The words that are values. -/
def valueWords : List (List Char × Json) :=
  [("null".toList, .null), ("true".toList, .bool true), ("false".toList, .bool false)]

mutual

/-- A value. -/
def readValue : Nat → List Char → Step Json
  | 0, s => stopAt s
  | depth + 1, s =>
    match s with
    | [] => stopAt s
    | '{' :: r =>
      match skip r with
      | '}' :: rest => .ok (.obj [], rest)
      | rest => (readFields depth [] rest).map fun (fields, rest) => (.obj fields, rest)
    | '[' :: r =>
      match skip r with
      | ']' :: rest => .ok (.arr [], rest)
      | rest => (readItems depth rest).map fun (items, rest) => (.arr items, rest)
    | '\x22' :: r => (stringFrom '\x22' [] 0 r).map fun (t, rest) => (.str t, rest)
    | '\x27' :: r => (stringFrom '\x27' [] 0 r).map fun (t, rest) => (.str t, rest)
    | '-' :: r => readNumber true r
    | '+' :: r => readNumber false r
    | _ =>
      match valueWords.find? fun (w, _) => Text.startsWith w s with
      | some (w, j) => .ok (j, s.drop w.length)
      | none => readNumber false s

/-- The fields of an object that is not empty, behind those that were read. -/
def readFields : Nat → List (String × Json) → List Char → Step (List (String × Json))
  | 0, _, s => stopAt s
  | depth + 1, done, s =>
    let key :=
      match s with
      | '\x22' :: r => stringFrom '\x22' [] 0 r
      | '\x27' :: r => stringFrom '\x27' [] 0 r
      | _ => readName s
    match key with
    | .error e => .error e
    | .ok (key, rest) =>
      match skip rest with
      | ':' :: rest =>
        match readValue depth (skip rest) with
        | .error e => .error e
        | .ok (value, rest) =>
          let done := put key value done
          match skip rest with
          | '}' :: rest => .ok (done, rest)
          | ',' :: rest =>
            match skip rest with
            | '}' :: rest => .ok (done, rest)
            | rest => readFields depth done rest
          | rest => stopAt rest
      | rest => stopAt rest

/-- The items of an array that is not empty. -/
def readItems : Nat → List Char → Step (List Json)
  | 0, s => stopAt s
  | depth + 1, s =>
    match readValue depth s with
    | .error e => .error e
    | .ok (value, rest) =>
      match skip rest with
      | ']' :: rest => .ok ([value], rest)
      | ',' :: rest =>
        match skip rest with
        | ']' :: rest => .ok ([value], rest)
        | rest => (readItems depth rest).map fun (items, rest) => (value :: items, rest)
      | rest => stopAt rest

end

/-- Reads a text that holds one value, blanks and comments. -/
def readText (text : List Char) : Except Stop Json :=
  match readValue (Json.depthFor text.length) (skip text) with
  | .error e => .error e
  | .ok (j, rest) =>
    match skip rest with
    | [] => .ok j
    | rest => .error (.fault rest)

/-- Reads JSON5 text. -/
def read (text : String) : Except ReadError Json :=
  let cs := text.toList
  if cs.isEmpty then .error .empty
  else
    match readText cs with
    | .ok j => .ok j
    | .error (.unpaired unit) => .error (.unpaired unit)
    | .error (.fault rest) =>
      let (line, column) := Json.placeOf (cs.take (cs.length - rest.length))
      match rest with
      | [] => .error (.endOfText line column)
      | c :: _ => .error (.unexpected c line column)

end ReactWeave.Json5
