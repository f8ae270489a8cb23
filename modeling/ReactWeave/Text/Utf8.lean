import ReactWeave.Failure

/-!
# ReactWeave.Text.Utf8

**Decoding** bytes as UTF-8. Overlong forms, surrogates and numbers beyond the
last code point are refused at the first byte that cannot go on.

* `Content.read` gives the text of a file, or of what a command wrote.
-/

namespace ReactWeave.Text

/-- Whether a byte goes on a character. -/
def isContinuation (b : Nat) : Bool := 0x80 ≤ b && b ≤ 0xBF

/-- How many bytes follow the first byte of a character; none if it starts no character. -/
def followers? (b : Nat) : Option Nat :=
  if b < 0x80 then some 0
  else if b < 0xC2 then none
  else if b < 0xE0 then some 1
  else if b < 0xF0 then some 2
  else if b < 0xF5 then some 3
  else none

/-- Whether a byte may be the second one of a character. -/
def fitsSecond (first b : Nat) : Bool :=
  isContinuation b && !(first == 0xE0 && b < 0xA0) && !(first == 0xED && 0xA0 ≤ b) &&
    !(first == 0xF0 && b < 0x90) && !(first == 0xF4 && 0x90 ≤ b)

/-- How many bytes behind the first one go on a character, of `wanted` ones at most; and whether
there are too few bytes. -/
def goodFollowers (first : Nat) (isSecond : Bool) : Nat → List Nat → Nat × Bool
  | 0, _ => (0, false)
  | _ + 1, [] => (0, true)
  | wanted + 1, b :: bs =>
    if (if isSecond then fitsSecond first b else isContinuation b) then
      let (n, short) := goodFollowers first false wanted bs
      (n + 1, short)
    else (0, false)

/-- The number of a character from its bytes. -/
def codePoint (first : Nat) (rest : List Nat) : Nat :=
  let lead := match rest.length with
    | 0 => first
    | 1 => first - 0xC0
    | 2 => first - 0xE0
    | _ => first - 0xF0
  rest.foldl (fun n b => 64 * n + (b - 0x80)) lead

/-- Decodes bytes; `position` is the number of bytes in front of them, and the first `skip` ones
belong to a character that was decoded. -/
def decodeFrom (position : Nat) : Nat → List Nat → Outcome (List Char)
  | _, [] => .ok []
  | skip + 1, _ :: bs => decodeFrom (position + 1) skip bs
  | 0, b :: bs =>
    match followers? b with
    | none => .error (.undecodable .invalidStart b 1 position)
    | some wanted =>
      let (n, short) := goodFollowers b true wanted bs
      if n = wanted then
        (decodeFrom (position + 1) n bs).map (Char.ofNat (codePoint b (bs.take n)) :: ·)
      else
        .error (.undecodable (if short then .unexpectedEnd else .invalidContinuation) b (n + 1)
          position)

/-- Decodes bytes. -/
def decode (bytes : List UInt8) : Outcome (List Char) := decodeFrom 0 0 (bytes.map UInt8.toNat)

end ReactWeave.Text

namespace ReactWeave

/-- What a file holds or a command wrote: a text, or any bytes. -/
inductive Content where
  | text (s : String)
  | bytes (bs : List UInt8)
  deriving Repr

/-- The text that is read, with a plain line break at the end of each line. -/
def Content.read : Content → Outcome String
  | .text s => .ok (String.ofList (Text.plainLines s.toList))
  | .bytes bs => (Text.decode bs).map fun s => String.ofList (Text.plainLines s)

end ReactWeave
