import ReactWeave.Options

/-!
# ReactWeave.Cli.Arguments

**Command-line arguments**: options anywhere, in full, abbreviated or clustered,
and one positional argument.

Arguments are first told apart (`mark`): options start with a dash, and behind
`--` everything is an argument. Then they are consumed from left to right
(`consume`). What fits nowhere is left over, and is for the caller to judge.
-/

namespace ReactWeave.Cli

/-! ## What is accepted -/

/-- An option. Its settings are of type `σ`. -/
structure Flag (σ ε : Type) where
  /-- Its names, with their dashes. -/
  names : List String
  takesValue : Bool
  /-- What it does to the settings; the text is its value, empty if it takes none. -/
  apply : String → σ → Except ε σ

/-- What a command accepts. -/
structure Grammar (σ ε : Type) where
  flags : List (Flag σ ε)
  /-- Whether the positional argument takes everything behind it, too. -/
  greedy : Bool
  /-- What the positional argument does to the settings, and what it leaves over. -/
  positional : List String → σ → Except ε (σ × List String)
  /-- What a complaint becomes. -/
  complain : String → ε

variable {σ ε : Type}

/-- How messages name an option. -/
def Flag.label (f : Flag σ ε) : String := "/".intercalate f.names

/-- A complaint about an argument. -/
def Grammar.complainOf (g : Grammar σ ε) (label message : String) : ε :=
  g.complain ("argument " ++ label ++ ": " ++ message)

/-- The options by name. -/
def Grammar.table (g : Grammar σ ε) : List (String × Flag σ ε) :=
  g.flags.flatMap fun f => f.names.map fun n => (n, f)

/-- The option of a name. -/
def Grammar.flag? (g : Grammar σ ε) (name : String) : Option (Flag σ ε) :=
  (g.table.find? fun (n, _) => n == name).map (·.2)

/-! ## Telling arguments apart -/

/-- A value attached to an option: whether an equals sign stands between, and the value. -/
structure Attached where
  equals : Bool
  value : List Char
  deriving DecidableEq, Repr

/-- An option that an argument names. -/
structure Match (σ ε : Type) where
  flag : Flag σ ε
  name : String
  attached : Option Attached

/-- What an argument is. -/
inductive Mark (σ ε : Type) where
  | argument
  /-- The mark behind which everything is an argument. -/
  | dashes
  /-- An option, known or not. -/
  | option (m : Option (Match σ ε))

/-- The text in front of the first equals sign, and the text behind it if there is one. -/
def splitEquals : List Char → List Char × Option (List Char)
  | [] => ([], none)
  | '=' :: s => ([], some s)
  | c :: s => ((c :: (splitEquals s).1), (splitEquals s).2)

/-- The options that an argument may mean, if it is no full name: an abbreviation of a long name, or
a short name with something attached. -/
def Grammar.candidates (g : Grammar σ ε) (arg : List Char) : List (Match σ ε) :=
  match arg with
  | '-' :: '-' :: _ =>
    let (name, value) := splitEquals arg
    (g.table.filter fun (n, _) => Text.startsWith name n.toList).map fun (n, f) =>
      ⟨f, n, value.map fun v => ⟨true, v⟩⟩
  | _ =>
    g.table.filterMap fun (n, f) =>
      if n.toList = arg.take 2 then some ⟨f, n, some ⟨false, arg.drop 2⟩⟩
      else if Text.startsWith arg n.toList then some ⟨f, n, none⟩
      else none

/-- Whether an argument is a negative number. -/
def isNegativeNumber : List Char → Bool
  | '-' :: s =>
    let whole := s.takeWhile Char.isDigit
    match s.dropWhile Char.isDigit with
    | [] => !whole.isEmpty
    | '.' :: ds => !ds.isEmpty && ds.all Char.isDigit
    | _ => false
  | _ => false

/-- What an argument in front of `--` is. -/
def Grammar.markOne (g : Grammar σ ε) (arg : String) : Except ε (Mark σ ε) :=
  match arg.toList with
  | [] => .ok .argument
  | '-' :: rest =>
    match g.flag? arg with
    | some f => .ok (.option (some ⟨f, arg, none⟩))
    | none =>
      if rest.isEmpty then .ok .argument
      else
        let (name, value) := splitEquals arg.toList
        match value, g.flag? (String.ofList name) with
        | some v, some f => .ok (.option (some ⟨f, String.ofList name, some ⟨true, v⟩⟩))
        | _, _ =>
          match g.candidates arg.toList with
          | [m] => .ok (.option (some m))
          | [] =>
            if isNegativeNumber arg.toList || arg.toList.contains ' ' then .ok .argument
            else .ok (.option none)
          | ms => .error (g.complain ("ambiguous option: " ++ arg ++ " could match " ++
              ", ".intercalate (ms.map Match.name)))
  | _ => .ok .argument

/-- What arguments are. -/
def Grammar.mark (g : Grammar σ ε) : List String → Except ε (List (String × Mark σ ε))
  | [] => .ok []
  | arg :: args =>
    if arg == "--" then .ok ((arg, .dashes) :: args.map fun a => (a, .argument))
    else do
      let m ← g.markOne arg
      let ms ← g.mark args
      return (arg, m) :: ms

/-! ## Consuming arguments -/

/-- What has been consumed so far. -/
structure Progress (σ : Type) where
  settings : σ
  /-- Whether the positional argument is still to come. -/
  waiting : Bool
  leftOver : List String

/-- An option together with its value. -/
abbrev Taken (σ ε : Type) := List (Flag σ ε × String)

/-- Whether an argument starts an option. -/
def isOption : Mark σ ε → Bool
  | .option _ => true
  | _ => false

/-- Whether an argument is the two dashes that end the options. -/
def isDashes : Mark σ ε → Bool
  | .dashes => true
  | _ => false

/-- Reads a cluster of short options that take no value, such as `-vh`. `attached` is what stands
behind the first of them. Returns the options with their values, what is left over, and whether the
last one still needs the value that follows. -/
def Grammar.cluster (g : Grammar σ ε) (flag : Flag σ ε) (isShort equals : Bool) :
    List Char → Except ε (Taken σ ε × List String × Bool)
  | [] =>
    if flag.takesValue then .ok ([(flag, "")], [], false)
    else .error (g.complainOf flag.label "ignored explicit argument ''")
  | c :: s =>
    if flag.takesValue then .ok ([(flag, String.ofList (c :: s))], [], false)
    else if isShort && !equals && c != '-' then
      match g.flag? (String.ofList ['-', c]) with
      | none => .ok ([(flag, "")], [String.ofList ('-' :: c :: s)], false)
      | some next =>
        match s with
        | [] => .ok ([(flag, ""), (next, "")], [], next.takesValue)
        | '=' :: value => do
          let (taken, rest, needs) ← g.cluster next true true value
          return ((flag, "") :: taken, rest, needs)
        | d :: value => do
          let (taken, rest, needs) ← g.cluster next true false (d :: value)
          return ((flag, "") :: taken, rest, needs)
    else
      .error (g.complainOf flag.label
        ("ignored explicit argument " ++ Text.quoted (String.ofList (c :: s))))

/-- Applies options. -/
def applyAll (settings : σ) : Taken σ ε → Except ε σ
  | [] => .ok settings
  | (f, value) :: rest => (f.apply value settings).bind fun settings => applyAll settings rest

/-- Gives the last option its value. -/
def giveValue (value : String) : Taken σ ε → Taken σ ε
  | [] => []
  | [(f, _)] => [(f, value)]
  | t :: ts => t :: giveValue value ts

/-- The options of an argument, what it leaves over, and whether the last option needs the value
that follows. -/
def Grammar.takenBy (g : Grammar σ ε) (m : Match σ ε) :
    Except ε (Taken σ ε × List String × Bool) :=
  match m.attached with
  | none => .ok ([(m.flag, "")], [], m.flag.takesValue)
  | some a => g.cluster m.flag (m.name.toList[1]? != some '-') a.equals a.value

/-- How many arguments the positional argument takes at the start of a list. -/
def Grammar.positionalLength (g : Grammar σ ε) (items : List (String × Mark σ ε)) : Nat :=
  let lead := (items.takeWhile fun i => isDashes i.2).length
  match items.drop lead with
  | (_, .argument) :: rest =>
    if g.greedy then items.length
    else lead + 1 + (rest.takeWhile fun i => isDashes i.2).length
  | _ => 0

/-- Removes the first `--`, unless the positional argument takes everything. -/
def Grammar.cleanValues (g : Grammar σ ε) (values : List String) : List String :=
  if g.greedy then values else values.erase "--"

/-- Consumes the positional argument at the start of a list, if it is there and still to come.
Returns how many arguments it took. -/
def Grammar.consumePositional (g : Grammar σ ε) (p : Progress σ)
    (items : List (String × Mark σ ε)) : Except ε (Progress σ × Nat) :=
  let n := if p.waiting then g.positionalLength items else 0
  if n = 0 then .ok (p, 0)
  else do
    let (settings, rest) ← g.positional (g.cleanValues ((items.take n).map (·.1))) p.settings
    return (⟨settings, false, p.leftOver ++ rest⟩, n)

/-- Consumes the option at the start of a list. Returns how many arguments it took. -/
def Grammar.consumeOption (g : Grammar σ ε) (p : Progress σ) (arg : String)
    (m : Option (Match σ ε)) (rest : List (String × Mark σ ε)) : Except ε (Progress σ × Nat) :=
  match m with
  | none => .ok ({ p with leftOver := p.leftOver ++ [arg] }, 1)
  | some m => do
    let (taken, extra, needs) ← g.takenBy m
    let p := { p with leftOver := p.leftOver ++ extra }
    if needs then
      match rest with
      | (value, .argument) :: _ => do
        let settings ← applyAll p.settings (giveValue value taken)
        return ({ p with settings }, 2)
      | _ =>
        let label := (taken.getLast?.map fun t => t.1.label).getD ""
        throw (g.complainOf label "expected one argument")
    else
      let settings ← applyAll p.settings taken
      return ({ p with settings }, 1)

/-- Consumes arguments, at most `fuel` groups of them. -/
def Grammar.consume (g : Grammar σ ε) : Nat → Progress σ → List (String × Mark σ ε) →
    Except ε (Progress σ)
  | 0, p, _ => .ok p
  | fuel + 1, p, items =>
    match items with
    | [] => .ok p
    | (arg, .option m) :: rest => do
      let (p, n) ← g.consumeOption p arg m rest
      g.consume fuel p (items.drop n)
    | _ => do
      let (p, n) ← g.consumePositional p items
      if n = 0 then
        let before := items.takeWhile fun i => !isOption i.2
        g.consume fuel { p with leftOver := p.leftOver ++ before.map (·.1) }
          (items.drop before.length)
      else g.consume fuel p (items.drop n)

/-- Reads arguments: the settings, whether the positional argument was missing, and what is left
over. -/
def Grammar.read (g : Grammar σ ε) (settings : σ) (args : List String) :
    Except ε (Progress σ) := do
  let items ← g.mark args
  g.consume (items.length + 1) ⟨settings, true, []⟩ items

end ReactWeave.Cli
