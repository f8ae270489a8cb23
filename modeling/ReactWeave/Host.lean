import ReactWeave.Text.Utf8

/-!
# ReactWeave.Host

**What a run finds around it**: what the environment says of the formatter, what
comes of commands, and how deep recursion may go. None of this is decided by the
program, so it is given as a value, and what is proved of a run is proved of
every host.
-/

namespace ReactWeave

/-- What came of a command that was given a text. -/
inductive Execution where
  /-- There is no such command. -/
  | notFound
  /-- It ended with a status after a number of microseconds, having written an output and errors. A
  command that is killed by a signal ends with a negative status. -/
  | ended (status : Int) (output errors : Content) (elapsed : Nat)
  deriving Repr

/-- The surroundings of a run. A command that is found there can be started, and if it never ends
it counts as one that takes longer than any limit asked of it. -/
structure Host where
  /-- What the environment says of the formatter. -/
  setting : Option String
  /-- What comes of a command, given its words and the text it reads. -/
  execute : List String → String → Execution
  /-- Whether the recursion over what a text holds stays within the depth that is allowed. -/
  fits : String → Bool

namespace Host

/-- A host without commands, and with room for every text. -/
def bare : Host := ⟨none, fun _ _ => .notFound, fun _ => true⟩

end Host

end ReactWeave
