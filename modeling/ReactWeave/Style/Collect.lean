import ReactWeave.Component.Pass
import ReactWeave.Style.Sheet

/-!
# ReactWeave.Style.Collect

**Collecting styles** from the nodes of a component, parents first.

* `Style.collectClasses` gives each styled node a class and returns the style
  map of each class; `Style.collectSheet` writes them as one style sheet.
* `Style.collectStyled` makes a component for each styled node and puts it in the
  place of the tag.

Both take the style off every node, and both number the names that would come
up twice.
-/

namespace ReactWeave

/-- The style of a node, if there is anything in it. -/
def Head.style? (h : Head) : Option String :=
  match h.bindings.get? cssKey with
  | some (.str css) => if Style.hasDeclarations css then some css else none
  | _ => none

/-- Whether a node of the tree has a style. -/
def Component.hasStyles (c : Component) : Bool := c.heads.any fun h => h.style?.isSome

namespace Style

/-! ## Numbered names -/

/-- How often each name was given out. -/
abbrev Counts := List (String × Nat)

/-- How often a name was given out. -/
def Counts.get (counts : Counts) (base : String) : Nat :=
  match counts with
  | [] => 0
  | (name, n) :: rest => if name = base then n else Counts.get rest base

/-- Counts a name that is given out. -/
def Counts.add (counts : Counts) (base : String) : Counts :=
  match counts with
  | [] => [(base, 1)]
  | (name, n) :: rest =>
    if name = base then (name, n + 1) :: rest else (name, n) :: Counts.add rest base

/-- The name itself the first time, a numbered one from then on. -/
def Counts.next (counts : Counts) (base separator : String) : String :=
  let n := counts.get base + 1
  if n = 1 then base else base ++ separator ++ toString n

/-- A node without its style. -/
def unstyled (h : Head) : Head := { h with bindings := h.bindings.erase cssKey }

/-! ## Classes -/

/-- The classes given so far: how often each name came up, and the style map of each class. -/
structure Classes where
  counts : Counts
  maps : List (String × Map)
  deriving Repr

/-- Sets the style map of a class. -/
def Classes.put (name : String) (map : Map) : List (String × Map) → List (String × Map)
  | [] => [(name, map)]
  | (k, m) :: rest => if k = name then (k, map) :: rest else (k, m) :: Classes.put name map rest

/-- The tag of a node, in the spelling of classes. -/
def classBase : Json → Outcome String
  | .str name => .ok (Naming.dashCase name)
  | _ => .error .notApplicable

/-- A node with another class besides those it has. -/
def addClass (property className : String) (h : Head) : Head :=
  let old := ((h.properties.get? property).getD (.str "")).asText
  { h with properties :=
      h.properties.put (.str property) (.str (Text.trimmed (old ++ " " ++ className))) }

/-- Gives a styled node its class. -/
def classify (property : String) (s : Classes) (h : Head) : Progress (Classes × Head) :=
  match h.style? with
  | none => .done (s, unstyled h)
  | some css =>
    match classBase h.name with
    | .error e => ⟨(s, unstyled h), some e⟩
    | .ok base =>
      let name := s.counts.next base "-"
      let s := { s with counts := s.counts.add base }
      let h := addClass property name (unstyled h)
      match readMap css with
      | .error e => ⟨(s, h), some e⟩
      | .ok map => .done ({ s with maps := Classes.put name map s.maps }, h)

/-- Gives every styled node a class; the style maps by class. -/
def collectClasses (property : String) (c : Component) :
    Progress (List (String × Map) × Component) :=
  (c.passHeads (classify property) ⟨[], []⟩).map fun (s, c) => (s.maps, c)

/-- The style sheet of classes. -/
def sheet (classes : List (String × Map)) : String :=
  "\n".intercalate (classes.flatMap fun (name, map) => rules ("." ++ name) map)

/-- Gives every styled node a class; the style sheet. -/
def collectSheet (property : String) (c : Component) : Progress (String × Component) :=
  (collectClasses property c).map fun (classes, c) => (sheet classes, c)

/-! ## Styled components -/

/-- A component made for a styled node. -/
structure Styled where
  /-- The name of the component. -/
  name : String
  /-- The tag of the node. -/
  tag : String
  /-- What is styled: a component or an element. -/
  target : String
  /-- The style. -/
  map : Map
  deriving Repr

/-- The declaration of a styled component. -/
def Styled.declaration (s : Styled) : String :=
  "const " ++ s.name ++ " = " ++ s.target ++ "`\n" ++
    Text.indent "  " ("\n".intercalate (body s.map)) ++ "\n`;"

/-- The components made so far. -/
structure Wardrobe where
  counts : Counts
  made : List Styled
  deriving Repr

/-- The name of the component for a tag, and what it styles. -/
def styledBase : Json → Outcome (String × String)
  | .str tag =>
    match tag.toList with
    | c :: _ =>
      if Text.isUpper c then .ok ("Styled" ++ tag, "styled(" ++ tag ++ ")")
      else .ok (Naming.capitalize (Naming.camelCase tag), "styled." ++ tag)
    | [] => .ok ("", "styled.")
  | .arr _ => .error .noSuchOperation
  | _ => .error .notApplicable

/-- Puts a styled component in the place of the tag of a styled node. -/
def dress (s : Wardrobe) (h : Head) : Progress (Wardrobe × Head) :=
  match h.style? with
  | none => .done (s, unstyled h)
  | some css =>
    match styledBase h.name with
    | .error e => ⟨(s, unstyled h), some e⟩
    | .ok (base, target) =>
      let name := s.counts.next base ""
      let s := { s with counts := s.counts.add base }
      match readMap css with
      | .error e => ⟨(s, unstyled h), some e⟩
      | .ok map =>
        .done ({ s with made := s.made ++ [⟨name, h.name.asText, target, map⟩] },
          { unstyled h with name := .str name })

/-- Makes a component for every styled node. -/
def collectStyled (c : Component) : Progress (List Styled × Component) :=
  (c.passHeads dress ⟨[], []⟩).map fun (s, c) => (s.made, c)

/-- The declarations of styled components. -/
def styledDeclarations (made : List Styled) : String :=
  "\n\n".intercalate (made.map Styled.declaration)

end Style

end ReactWeave
