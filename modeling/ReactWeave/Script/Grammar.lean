import ReactWeave.Script.Tree

/-!
# ReactWeave.Script.Grammar

**Grammars as data**, and the one function that reads text by them.

A grammar is a parsing expression: it is tried at a place in the text, it
either fails or gives the trees it read and the text that is left, and a choice
takes its first alternative that succeeds. Rules may refer to each other, so
reading takes a bound on the depth of the recursion.

* `Lexicon` says what stands between two tokens.
* `Grammar` is the type of grammars over a set of rule names.
* `Grammar.run` reads text by a grammar.

Two points make the trees exact. A token is read together with the blanks and
comments in front of it, so nothing is dropped; and a construct starts at its
first token, so that what precedes the first token belongs to the construct
around it.
-/

namespace ReactWeave.Script

/-- What may stand between two tokens: the length of the gap at the start of a
text, and the pieces that a gap consists of. -/
structure Lexicon where
  /-- Length of the longest gap in front. -/
  gapLength : List Char → Nat
  /-- The pieces of a gap, blanks and comments apart. -/
  pieces : List Char → List Tree

/-- Recognises a token at the start of a text and gives its length. -/
abbrev Scan := List Char → Option Nat

/-- How a construct that was read already goes on: what it becomes, if it can
be the first part of a longer construct of this kind. -/
structure Continuation where
  /-- The kind of the longer construct. -/
  kind : Kind
  /-- The construct that was read, as the first part of the longer one. -/
  fit : List Tree → Option (List Tree)

/-- A parsing expression whose rules are named by `R`. -/
inductive Grammar (R : Type) where
  /-- Reads nothing. -/
  | empty
  /-- Reads a gap and a token. -/
  | token (kind : Kind) (scan : Scan)
  /-- Reads a token that no gap may precede. -/
  | glued (kind : Kind) (scan : Scan)
  /-- Reads a gap, which may be empty. -/
  | gap
  /-- Reads nothing, and succeeds where the text ahead passes a test. -/
  | check (test : List Char → Bool)
  /-- What the rule of this name reads. -/
  | rule (name : R)
  /-- One after the other. -/
  | seq (first second : Grammar R)
  /-- The first of the two that succeeds. -/
  | alt (first second : Grammar R)
  /-- As often as it succeeds. -/
  | many (item : Grammar R)
  /-- Makes one construct of what is read. -/
  | node (kind : Kind) (body : Grammar R)
  /-- Gives the one part that is read a role. -/
  | field (role : Role) (body : Grammar R)
  /-- Reads nothing, and succeeds where `body` fails. -/
  | absent (body : Grammar R)
  /-- Reads `body` and puts the trees into another form, or refuses them. -/
  | reshape (form : List Tree → Option (List Tree)) (body : Grammar R)
  /-- Reads `base`, then lets it go on by the first continuation that applies,
  once or as often as one does. -/
  | grow (base : Grammar R) (again : Bool) (ways : List (Continuation × Grammar R))
  /-- Lets trees that were read already go on. -/
  | extend (body : List Tree) (again : Bool) (ways : List (Continuation × Grammar R))

namespace Grammar

variable {R : Type}

/-- What reading gives: trees, and the text that is left. -/
abbrev Reading := Option (List Tree × List Char)

/-- Trees in front of the first part, and the trees from it on. -/
def splitTrivia (ts : List Tree) : List Tree × List Tree :=
  (ts.takeWhile Tree.isTrivia, ts.dropWhile Tree.isTrivia)

/-- Gives the one part among trees a role; several parts cannot have one. -/
def giveRole (r : Role) (ts : List Tree) : Option (List Tree) :=
  match splitTrivia ts with
  | (lead, [t]) => some (lead ++ [t.withRole r])
  | _ => none

/-- A token at the start of the text. -/
def readGlued (kind : Kind) (scan : Scan) (s : List Char) : Reading :=
  match scan s with
  | some n => some ([.token kind none (s.take n)], s.drop n)
  | none => none

/-- A token behind the gap in front of it. -/
def readToken (lex : Lexicon) (kind : Kind) (scan : Scan) (s : List Char) : Reading :=
  let n := lex.gapLength s
  match scan (s.drop n) with
  | some m =>
    let rest := s.drop n
    some (lex.pieces (s.take n) ++ [.token kind none (rest.take m)], rest.drop m)
  | none => none

/-- The first way in which trees that were read can go on. -/
def firstWay (read : Grammar R → List Char → Reading) (body : List Tree) (s : List Char) :
    List (Continuation × Grammar R) → Reading
  | [] => none
  | (c, g) :: ways =>
    match c.fit body with
    | none => firstWay read body s ways
    | some start =>
      match read g s with
      | some (more, rest) => some ([.node c.kind none (start ++ more)], rest)
      | none => firstWay read body s ways

/-- Reads text by a grammar, going at most `depth` levels deep. -/
def run (lex : Lexicon) (rules : R → Grammar R) : Nat → Grammar R → List Char → Reading
  | 0, _, _ => none
  | depth + 1, g, s =>
    match g with
    | empty => some ([], s)
    | token kind scan => readToken lex kind scan s
    | glued kind scan => readGlued kind scan s
    | gap =>
      let n := lex.gapLength s
      some (lex.pieces (s.take n), s.drop n)
    | check test => if test s then some ([], s) else none
    | rule r => run lex rules depth (rules r) s
    | seq a b =>
      match run lex rules depth a s with
      | none => none
      | some (ts, rest) =>
        match run lex rules depth b rest with
        | none => none
        | some (us, rest') => some (ts ++ us, rest')
    | alt a b =>
      match run lex rules depth a s with
      | some r => some r
      | none => run lex rules depth b s
    | many a =>
      match run lex rules depth a s with
      | none => some ([], s)
      | some (ts, rest) =>
        match run lex rules depth (many a) rest with
        | none => none
        | some (us, rest') => some (ts ++ us, rest')
    | node kind a =>
      match run lex rules depth a s with
      | none => none
      | some (ts, rest) =>
        let (lead, body) := splitTrivia ts
        some (lead ++ [.node kind none body], rest)
    | field role a =>
      match run lex rules depth a s with
      | none => none
      | some (ts, rest) =>
        match giveRole role ts with
        | none => none
        | some us => some (us, rest)
    | absent a =>
      match run lex rules depth a s with
      | none => some ([], s)
      | some _ => none
    | reshape form a =>
      match run lex rules depth a s with
      | none => none
      | some (ts, rest) =>
        let (lead, body) := splitTrivia ts
        match form body with
        | none => none
        | some body' => some (lead ++ body', rest)
    | grow base again ways =>
      match run lex rules depth base s with
      | none => none
      | some (ts, rest) =>
        let (lead, body) := splitTrivia ts
        match run lex rules depth (extend body again ways) rest with
        | none => none
        | some (us, rest') => some (lead ++ us, rest')
    | extend body again ways =>
      match firstWay (run lex rules depth) body s ways with
      | none => some (body, s)
      | some (ts, rest) =>
        if again then run lex rules depth (extend ts again ways) rest else some (ts, rest)

/-! ## Building grammars -/

/-- All of them, one after the other. -/
def seqs : List (Grammar R) → Grammar R
  | [] => empty
  | [g] => g
  | g :: gs => seq g (seqs gs)

/-- The first of them that succeeds; of no grammars, none does. -/
def alts : List (Grammar R) → Grammar R
  | [] => check fun _ => false
  | [g] => g
  | g :: gs => alt g (alts gs)

/-- Once or not at all. -/
def opt (g : Grammar R) : Grammar R := alt g empty

/-- Succeeds where `g` does, and reads nothing. -/
def ahead (g : Grammar R) : Grammar R := absent (absent g)

end Grammar

end ReactWeave.Script
