import ReactWeave.Json.Value
import ReactWeave.Text.Search

/-!
# ReactWeave.Json.Reader

**Reading JSON text**. `NaN`, `Infinity` and `-Infinity` are read as numbers; a
number with a fraction or an exponent is a floating-point number, every other
one an integer; a repeated field keeps its first place and its last value.

Reading stops at the first fault. A fault is told with the place where it was
found: line, column, and number of characters in front of it.
-/

namespace ReactWeave.Json

open Number (Binary64)

/-- What can be wrong with JSON text. -/
inductive Fault where
  | expectingValue
  | expectingName
  | expectingColon
  | expectingComma
  | unterminatedString
  | controlCharacter
  | badEscape
  | badUnicodeEscape
  | extraData
  | byteOrderMark
  deriving DecidableEq, Repr

/-- The wording of a fault. -/
def Fault.wording : Fault → String
  | .expectingValue => "Expecting value"
  | .expectingName => "Expecting property name enclosed in double quotes"
  | .expectingColon => "Expecting ':' delimiter"
  | .expectingComma => "Expecting ',' delimiter"
  | .unterminatedString => "Unterminated string starting at"
  | .controlCharacter => "Invalid control character at"
  | .badEscape => "Invalid \\escape"
  | .badUnicodeEscape => "Invalid \\uXXXX escape"
  | .extraData => "Extra data"
  | .byteOrderMark => "Unexpected UTF-8 BOM (decode using utf-8-sig)"

/-- Why JSON text cannot be read, or a value not be written. -/
inductive ReadError where
  /-- A fault, with the number of characters in front of it, its line and its column. -/
  | fault (what : Fault) (position line column : Nat)
  /-- An integer of more digits than are read. -/
  | tooManyDigits (count : Nat)
  /-- An integer of more digits than are written. -/
  | overlong
  /-- A string with half of a surrogate pair, which no text can hold. -/
  | unpaired (unit : Nat)
  deriving DecidableEq, Repr

/-- What is wrong, in words. -/
def ReadError.message : ReadError → String
  | .fault what position line column =>
    what.wording ++ ": line " ++ toString line ++ " column " ++ toString column ++
      " (char " ++ toString position ++ ")"
  | .tooManyDigits count =>
    "Exceeds the limit (" ++ toString maxDigits ++
      " digits) for integer string conversion: value has " ++ toString count ++
      " digits; use sys.set_int_max_str_digits() to increase the limit"
  | .overlong =>
    "Exceeds the limit (" ++ toString maxDigits ++
      " digits) for integer string conversion; use sys.set_int_max_str_digits() to increase " ++
      "the limit"
  | .unpaired unit =>
    "'utf-8' codec can't encode character '\\u" ++ String.ofList (Text.hexDigits 4 unit) ++
      "': surrogates not allowed"

/-- A fault while reading: what is wrong, and the text from there on. -/
inductive Stop where
  | fault (what : Fault) (rest : List Char)
  | tooManyDigits (count : Nat)
  | unpaired (unit : Nat)

/-- A value that was read and the text behind it, or why reading stopped. -/
abbrev Step (α : Type) := Except Stop (α × List Char)

/-- Stops reading in front of `rest`. -/
def stopAt {α : Type} (what : Fault) (rest : List Char) : Step α := .error (.fault what rest)

/-! ## Blanks and numbers -/

/-- The blanks between tokens. -/
def isSpace (c : Char) : Bool := c == ' ' || c == '\t' || c == '\n' || c == '\r'

/-- The text behind the blanks at its start. -/
def skipSpace (s : List Char) : List Char := s.dropWhile isSpace

/-- The number that decimal digits spell. -/
def digitsValue (ds : List Char) : Nat := ds.foldl (fun n d => 10 * n + (d.toNat - 48)) 0

/-- The digits of an integer: one zero, or digits that do not start with zero. -/
def integerDigits : List Char → List Char
  | '0' :: _ => ['0']
  | s => s.takeWhile Char.isDigit

/-- The digits of a fraction behind its point, if there is one. -/
def fractionDigits : List Char → List Char
  | '.' :: s => s.takeWhile Char.isDigit
  | _ => []

/-- The exponent, whether it is negative, and the number of characters it takes. -/
def exponentDigits : List Char → Option (Bool × List Char × Nat)
  | c :: s =>
    if c == 'e' || c == 'E' then
      let (negative, signed, s) :=
        match s with
        | '-' :: r => (true, 1, r)
        | '+' :: r => (false, 1, r)
        | r => (false, 0, r)
      let ds := s.takeWhile Char.isDigit
      if ds.isEmpty then none else some (negative, ds, ds.length + signed + 1)
    else none
  | [] => none

/-- A number; `start` is the text from its sign on. -/
def readNumber (start : List Char) : Step Json :=
  let (negative, s) :=
    match start with
    | '-' :: r => (true, r)
    | r => (false, r)
  let ds := integerDigits s
  if ds.isEmpty then stopAt .expectingValue start
  else
    let s := s.drop ds.length
    let fs := fractionDigits s
    let s := if fs.isEmpty then s else s.drop (fs.length + 1)
    let whole : Int := digitsValue ds
    match exponentDigits s with
    | some (down, es, used) =>
      let e : Int := digitsValue es
      let e := if down then -e else e
      .ok (.real (Binary64.ofDecimal negative (digitsValue (ds ++ fs)) (e - fs.length)),
        s.drop used)
    | none =>
      if fs.isEmpty then
        if maxDigits < ds.length then .error (.tooManyDigits ds.length)
        else .ok (.int (if negative then -whole else whole), s)
      else
        .ok (.real (Binary64.ofDecimal negative (digitsValue (ds ++ fs)) (-fs.length)), s)

/-! ## Strings -/

/-- The value of a hexadecimal digit. -/
def hexDigit? (c : Char) : Option Nat :=
  let n := c.toNat
  if 48 ≤ n && n ≤ 57 then some (n - 48)
  else if 97 ≤ n && n ≤ 102 then some (n - 87)
  else if 65 ≤ n && n ≤ 70 then some (n - 55)
  else none

/-- The number that four hexadecimal digits spell. -/
def hexFour? : List Char → Option Nat
  | a :: b :: c :: d :: _ => do
    return 4096 * (← hexDigit? a) + 256 * (← hexDigit? b) + 16 * (← hexDigit? c) + (← hexDigit? d)
  | _ => none

/-- The character that a backslash and this letter stand for. -/
def escaped? : Char → Option Char
  | '\x22' => some '\x22'
  | '\\' => some '\\'
  | '/' => some '/'
  | 'b' => some (Char.ofNat 8)
  | 'f' => some (Char.ofNat 12)
  | 'n' => some '\n'
  | 'r' => some '\r'
  | 't' => some '\t'
  | _ => none

/-- The character of two surrogates. -/
def joinSurrogates (high low : Nat) : Char :=
  Char.ofNat (0x10000 + (high - 0xD800) * 0x400 + (low - 0xDC00))

/-- Whether a code unit is half of a surrogate pair. -/
def isSurrogate (n : Nat) : Bool := 0xD800 ≤ n && n < 0xE000

/-- The unit behind the first of a pair: `\uXXXX` with something behind it. -/
def secondUnit : List Char → Option (Option Nat)
  | '\\' :: 'u' :: s => if s.length ≤ 4 then none else some (hexFour? s)
  | _ => none

/-- The rest of a string. `opening` is the text from its quote on, `acc` what was read so far, last
character first, and the first `skip` characters belong to an escape that was read. -/
def readString (opening acc : List Char) : Nat → List Char → Step String
  | _, [] => stopAt .unterminatedString opening
  | skip + 1, _ :: s => readString opening acc skip s
  | 0, c :: s =>
    if c == '\x22' then .ok (String.ofList acc.reverse, s)
    else if c == '\\' then
      match s with
      | [] => stopAt .unterminatedString opening
      | 'u' :: digits =>
        if digits.length ≤ 4 then stopAt .badUnicodeEscape s
        else
          match hexFour? digits with
          | none => stopAt .badUnicodeEscape s
          | some high =>
            if 0xD800 ≤ high && high < 0xDC00 then
              match secondUnit (digits.drop 4) with
              | some none => stopAt .badUnicodeEscape (digits.drop 5)
              | some (some low) =>
                if 0xDC00 ≤ low && low < 0xE000 then
                  readString opening (joinSurrogates high low :: acc) 11 s
                else .error (.unpaired high)
              | none => .error (.unpaired high)
            else if isSurrogate high then .error (.unpaired high)
            else readString opening (Char.ofNat high :: acc) 5 s
      | letter :: _ =>
        match escaped? letter with
        | some d => readString opening (d :: acc) 1 s
        | none => stopAt .badEscape (c :: s)
    else if c.toNat < 32 then stopAt .controlCharacter (c :: s)
    else readString opening (c :: acc) 0 s

/-! ## Values -/

/-- The words that are values. -/
def valueWords : List (List Char × Json) :=
  [("null".toList, .null), ("true".toList, .bool true), ("false".toList, .bool false),
    ("NaN".toList, .real .nan), ("Infinity".toList, .real (.infinite false)),
    ("-Infinity".toList, .real (.infinite true))]

mutual

/-- A value. -/
def readValue : Nat → List Char → Step Json
  | 0, s => stopAt .expectingValue s
  | depth + 1, s =>
    match s with
    | [] => stopAt .expectingValue s
    | '\x22' :: r => (readString s [] 0 r).map fun (t, rest) => (.str t, rest)
    | '{' :: r =>
      match skipSpace r with
      | '}' :: rest => .ok (.obj [], rest)
      | rest => (readFields depth [] rest).map fun (fields, rest) => (.obj fields, rest)
    | '[' :: r =>
      match skipSpace r with
      | ']' :: rest => .ok (.arr [], rest)
      | rest => (readItems depth rest).map fun (items, rest) => (.arr items, rest)
    | _ =>
      match valueWords.find? fun (w, _) => Text.startsWith w s with
      | some (w, j) => .ok (j, s.drop w.length)
      | none => readNumber s

/-- The fields of an object that is not empty, behind those that were read. -/
def readFields : Nat → List (String × Json) → List Char → Step (List (String × Json))
  | 0, _, s => stopAt .expectingName s
  | depth + 1, done, s =>
    match s with
    | '\x22' :: r =>
      match readString s [] 0 r with
      | .error e => .error e
      | .ok (key, rest) =>
        match skipSpace rest with
        | ':' :: rest =>
          match readValue depth (skipSpace rest) with
          | .error e => .error e
          | .ok (value, rest) =>
            let done := put key value done
            match skipSpace rest with
            | '}' :: rest => .ok (done, rest)
            | ',' :: rest => readFields depth done (skipSpace rest)
            | rest => stopAt .expectingComma rest
        | rest => stopAt .expectingColon rest
    | _ => stopAt .expectingName s

/-- The items of an array that is not empty. -/
def readItems : Nat → List Char → Step (List Json)
  | 0, s => stopAt .expectingValue s
  | depth + 1, s =>
    match readValue depth s with
    | .error e => .error e
    | .ok (value, rest) =>
      match skipSpace rest with
      | ']' :: rest => .ok ([value], rest)
      | ',' :: rest =>
        (readItems depth (skipSpace rest)).map fun (items, rest) => (value :: items, rest)
      | rest => stopAt .expectingComma rest

end

/-- Where a text stands, given what is behind: line and column, both counted from one. -/
def placeOf (before : List Char) : Nat × Nat :=
  ((before.filter (· == '\n')).length + 1,
    (before.reverse.takeWhile (· != '\n')).length + 1)

/-- A fault with its place in the whole text. -/
def ReadError.ofStop (text : List Char) : Stop → ReadError
  | .tooManyDigits n => .tooManyDigits n
  | .unpaired unit => .unpaired unit
  | .fault what rest =>
    let position := text.length - rest.length
    let (line, column) := placeOf (text.take position)
    .fault what position line column

/-- The depth that reading a text of this length can reach: each bracket takes two levels. -/
def depthFor (length : Nat) : Nat := 2 * length + 2

/-- Reads a text that holds one value and blanks around it. -/
def readText (text : List Char) : Except Stop Json :=
  if text.head? == some (Char.ofNat 0xFEFF) then .error (.fault .byteOrderMark text)
  else
    match readValue (depthFor text.length) (skipSpace text) with
    | .error e => .error e
    | .ok (j, rest) =>
      match skipSpace rest with
      | [] => .ok j
      | rest => .error (.fault .extraData rest)

/-- Reads JSON text. -/
def read (text : String) : Except ReadError Json :=
  let cs := text.toList
  match readText cs with
  | .ok j => .ok j
  | .error stop => .error (ReadError.ofStop cs stop)

end ReactWeave.Json
