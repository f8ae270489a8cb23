import ReactWeave.Formatter

/-!
# ReactWeave.Options

**Options** of a compilation, and how they are read.
-/

namespace ReactWeave

/-- The formatter that options ask for. -/
inductive FormatterChoice where
  /-- None: the command of the environment formats. -/
  | unset
  /-- A value that counts as none. -/
  | blank
  | custom (f : Formatter)

/-- Whether options mention a formatter. -/
def FormatterChoice.isSet : FormatterChoice → Bool
  | .unset => false
  | _ => true

/-- Options of a compilation. -/
structure Options where
  /-- Whether the source is formatted. -/
  format : Bool
  styles : StyleStrategy
  state : StateStrategy
  plugins : List Plugin
  formatter : FormatterChoice

namespace Options

/-- The options if none are given. -/
def default : Options := ⟨true, .emotion, .mobx, [], .unset⟩

/-- The names of the options. -/
def keys : List String := ["prettier", "stylesType", "stateType", "plugins", "formatter"]

/-- Names without repetition, in order. -/
def sortedNames (names : List String) : List String :=
  names.eraseDups.mergeSort fun a b => !(b < a)

/-- Refuses names that are no options. -/
def checkNames (names : List String) : Outcome Unit :=
  let unknown := names.filter fun n => !keys.contains n
  if unknown.isEmpty then .ok () else .error (.unknownOptions (sortedNames unknown))

/-- The value of a choice among named ones. -/
def choice {α : Type} (option : String) (all : List α) (name : α → String) (value : Json) :
    Outcome α :=
  match all.find? fun x => value.same (.str (name x)) with
  | some x => .ok x
  | none => .error (.unknownChoice option value (all.map name))

/-- The plugins that a value lists; no value that can be read is a plugin. -/
def pluginsOf : Json → Outcome (List Plugin)
  | .arr items => .ok (items.map fun _ => Plugin.stray)
  | .str s => .ok (s.toList.map fun _ => Plugin.stray)
  | .obj fields => .ok (fields.map fun _ => Plugin.stray)
  | _ => .error .notApplicable

/-- The formatter that a value asks for; no value that can be read is a formatter. -/
def formatterOf : Json → FormatterChoice
  | .null => .unset
  | j => if j.truthy then .custom Formatter.stray else .blank

/-- Options with the given strategies. -/
def withStrategies (o : Options) (styles state : Json) : Outcome Options := do
  let styles ← choice "stylesType" StyleStrategy.all StyleStrategy.name styles
  let state ← choice "stateType" StateStrategy.all StateStrategy.name state
  return { o with styles, state }

/-- Reads options from the fields of an object. -/
def ofFields (fields : List (String × Json)) : Outcome Options := do
  checkNames (fields.map (·.1))
  let field := fun key => Json.lookup key fields
  let plugins ← match field "plugins" with
    | some j => pluginsOf j
    | none => pure []
  let o : Options := { default with
    format := (field "prettier").all Json.truthy
    plugins
    formatter := formatterOf ((field "formatter").getD .null) }
  o.withStrategies ((field "stylesType").getD (.str default.styles.name))
    ((field "stateType").getD (.str default.state.name))

/-- Reads options. -/
def ofJson : Json → Outcome Options
  | .obj fields => ofFields fields
  | .str s => do
    checkNames (s.toList.map String.singleton)
    return default
  | .arr items => do
    let names ← items.mapM fun
      | .str s => Except.ok s
      | _ => .error .notApplicable
    checkNames names
    if names.isEmpty then return default else throw .notApplicable
  | _ => .error .notApplicable

end Options

end ReactWeave
