import ReactWeave.Component.Basic

/-!
# ReactWeave.Imports

**Import statements** of a compiled component.
-/

namespace ReactWeave

namespace Import

/-- Whether a name is imported as the given one. -/
def isAs (name : String) (imported : Json) : Bool := imported.same (.str name)

/-- The text that a local name is; other keys cannot be listed. -/
def localName : Json → Outcome String
  | .str s => .ok s
  | _ => .error .notApplicable

/-- A name imported by name: alone if it keeps its name. -/
def namedClause (name imported : Json) : Outcome String :=
  if name.same imported then localName name
  else .ok (imported.asText ++ " as " ++ name.asText)

/-- The names that are imported by name, in braces. -/
def namedClauses (names : Fields) : Outcome (List String) := do
  let named := names.filter fun (_, imported) => !(isAs "default" imported || isAs "*" imported)
  if named.isEmpty then return []
  let clauses ← named.mapM fun (name, imported) => namedClause name imported
  return ["\x7b " ++ ", ".intercalate clauses ++ " \x7d"]

/-- What an import binds: defaults, then namespaces, then names. -/
def clauses (names : Fields) : Outcome (List String) := do
  let named ← namedClauses names
  let defaults ← (names.filter fun (_, imported) => isAs "default" imported).mapM
    fun (name, _) => localName name
  let namespaces := (names.filter fun (_, imported) => isAs "*" imported).map
    fun (name, _) => "* as " ++ name.asText
  return defaults ++ namespaces ++ named

/-- An import statement. -/
def statement (i : Import) : Outcome String := do
  let clauses ← clauses i.names
  if clauses.isEmpty then return "import '" ++ i.path.asText ++ "';"
  return "import " ++ ", ".intercalate clauses ++ " from '" ++ i.path.asText ++ "';"

end Import

/-- The import statements of a component, one a line; the module that components are written with is
left out. -/
def Component.importStatements (c : Component) : Outcome String := do
  let imports := c.imports.filter fun i => !i.path.same (.str corePath)
  return "\n".intercalate (← imports.mapM Import.statement)

/-- A hook of the library that renders components. -/
inductive Hook where
  | useState
  | useRef
  | useEffect
  deriving DecidableEq, Repr

namespace Hook

/-- All hooks, in the order in which they are imported. -/
def all : List Hook := [useState, useRef, useEffect]

/-- The name of a hook. -/
def name : Hook → String
  | useState => "useState"
  | useRef => "useRef"
  | useEffect => "useEffect"

/-- The import of the hooks among some names; nothing if there are none. -/
def importLine (used : List String) : String :=
  let names := (all.map name).filter fun n => used.contains n
  if names.isEmpty then ""
  else "import \x7b " ++ ", ".intercalate names ++ " \x7d from 'react';"

end Hook

end ReactWeave
