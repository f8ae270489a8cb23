import ReactWeave.Proofs.WellShaped

/-!
# ReactWeave.Proofs.NamedTrees

**Loading accepts exactly the trees in which everything has its name.**

Tables and lists may be missing or null. `NodeTree` relates a value to the objects
that stand for its nodes, parents first, and to the node that they describe, whether
or not they have names.

* `Component.ofJson_accepts_named` says what is loaded, and which defect is reported otherwise.
-/

namespace ReactWeave

namespace Json

/-- The object at a key, which may be missing or null. -/
def objectAt (key : String) (fields : List (String × Json)) : Option (List (String × Json)) :=
  match lookup key fields with
  | none | some .null => some []
  | some (.obj t) => some t
  | some _ => none

/-- The array at a key, which may be missing or null. -/
def arrayAt (key : String) (fields : List (String × Json)) : Option (List Json) :=
  match lookup key fields with
  | none | some .null => some []
  | some (.arr items) => some items
  | some _ => none

/-- Whether a value is no object with a key. -/
def lacks (key : String) : Json → Bool
  | .obj fields => (lookup key fields).isNone
  | _ => true

variable {key : String} {fields t : List (String × Json)} {items : List Json}

theorem lookup_of_objectAt (h : objectAt key fields = some t) :
    (lookup key fields).getD .null = .null ∧ t = [] ∨
      (lookup key fields).getD .null = .obj t := by
  unfold objectAt at h
  split at h <;> cases h <;> simp [*]

theorem lookup_of_arrayAt (h : arrayAt key fields = some items) :
    (lookup key fields).getD .null = .null ∧ items = [] ∨
      (lookup key fields).getD .null = .arr items := by
  unfold arrayAt at h
  split at h <;> cases h <;> simp [*]

end Json

namespace Reader

variable {key : String} {fields t : List (String × Json)} {js : List Json}

theorem ofJson_objectAt (h : Json.objectAt key fields = some t) :
    Fields.ofJson ((Json.lookup key fields).getD .null) = .ok (.ofObject t) := by
  rcases Json.lookup_of_objectAt h with ⟨hnull, rfl⟩ | h
  · rw [hnull]
    rfl
  · rw [h, Fields.ofJson_obj]

theorem items_arrayAt (h : Json.arrayAt key fields = some js) :
    items ((Json.lookup key fields).getD .null) = .ok js := by
  rcases Json.lookup_of_arrayAt h with ⟨hnull, rfl⟩ | h
  · rw [hnull]
    rfl
  · rw [h]
    cases js <;> rfl

theorem hooks_objectAt (h : Json.objectAt key fields = some t) :
    (if ((Json.lookup key fields).getD .null).truthy = true
      then (Json.lookup key fields).getD .null else .obj []) = .obj t := by
  rcases Json.lookup_of_objectAt h with ⟨hnull, rfl⟩ | h
  · rw [hnull]
    rfl
  · rw [h]
    cases t <;> rfl

theorem childrenIn_eq_nodesIn (fields : List (String × Json)) :
    childrenIn fields = nodesIn ((Json.lookup "children" fields).getD .null) := by
  induction fields with
  | nil => rw [childrenIn, nodesIn_of_absent rfl]
  | cons field fields ih =>
    obtain ⟨k, v⟩ := field
    rw [childrenIn, Json.lookup]
    split
    · rfl
    · exact ih

theorem childrenIn_arrayAt (h : Json.arrayAt "children" fields = some js) :
    childrenIn fields = nodesOf js := by
  rw [childrenIn_eq_nodesIn]
  rcases Json.lookup_of_arrayAt h with ⟨hnull, rfl⟩ | h
  · rw [hnull, nodesIn_of_absent rfl, nodesOf]
  · rw [h, nodesIn]

end Reader

/-! ## Trees of objects -/

/-- What comes of the objects that stand for nodes: the first that lacks its name is refused. -/
def named {α : Type} (objects : List Json) (a : α) : Outcome α :=
  match objects.find? (Json.lacks "name") with
  | some o => .error (.unnamedNode o)
  | none => .ok a

theorem named_append {α β γ : Type} (os os' : List Json) (a : α) (b : β) (f : α → β → γ) :
    (named os a >>= fun a => named os' b >>= fun b => .ok (f a b)) = named (os ++ os') (f a b) := by
  unfold named
  rw [List.find?_append]
  cases os.find? (Json.lacks "name") with
  | some o => rfl
  | none => cases os'.find? (Json.lacks "name") <;> rfl

theorem exists_named_iff {α : Type} (os : List Json) (a : α) :
    (∃ b, named os a = .ok b) ↔ ∀ o ∈ os, Json.lacks "name" o = false := by
  rw [named]
  cases h : os.find? (Json.lacks "name") with
  | some o =>
    refine ⟨fun ⟨_, hok⟩ => ?_, fun hall => ?_⟩
    · cases hok
    · exact absurd (List.find?_some h) (by simp [hall o (List.mem_of_find?_eq_some h)])
  | none => simpa using h

mutual

/-- The object of a node, all objects from it on, and the node that they describe. -/
inductive NodeTree : Json → List Json → Node → Prop where
  | mk {fields properties bindings : List (String × Json)} {items objects : List Json}
      {children : List Node} (hproperties : Json.objectAt "properties" fields = some properties)
      (hbindings : Json.objectAt "bindings" fields = some bindings)
      (hitems : Json.arrayAt "children" fields = some items)
      (hchildren : NodeTrees items objects children) :
      NodeTree (.obj fields) (.obj fields :: objects)
        ⟨⟨(Json.lookup "name" fields).getD .null, .ofObject properties, .ofObject bindings⟩,
          children⟩

/-- The same of neighbouring nodes. -/
inductive NodeTrees : List Json → List Json → List Node → Prop where
  | nil : NodeTrees [] [] []
  | cons {j : Json} {js os os' : List Json} {n : Node} {ns : List Node} (h : NodeTree j os n)
      (hs : NodeTrees js os' ns) : NodeTrees (j :: js) (os ++ os') (n :: ns)

end

mutual

theorem NodeTree.nodeOf_eq {j : Json} {os : List Json} {n : Node} :
    NodeTree j os n → Reader.nodeOf j = named os n
  | .mk hproperties hbindings hitems hchildren => by
    have hbelow := hchildren.nodesOf_eq
    rw [Reader.nodeOf, named, List.find?_cons, Json.lacks, Reader.ofJson_objectAt hproperties,
      Reader.ofJson_objectAt hbindings, Reader.childrenIn_arrayAt hitems, hbelow]
    cases Json.lookup "name" _ with
    | none => rfl
    | some name =>
      unfold named
      dsimp only [Option.isNone_some]
      cases List.find? _ _ <;> rfl

theorem NodeTrees.nodesOf_eq {js os : List Json} {ns : List Node} :
    NodeTrees js os ns → Reader.nodesOf js = named os ns
  | .nil => rfl
  | .cons h hs => by
    rw [Reader.nodesOf, h.nodeOf_eq, hs.nodesOf_eq]
    exact named_append _ _ _ _ _

end

/-! ## Components -/

/-- The object of an import, and the import it describes. -/
inductive ImportObject : Json → Import → Prop where
  | mk {fields names : List (String × Json)}
      (hnames : Json.objectAt "imports" fields = some names) :
      ImportObject (.obj fields) ⟨(Json.lookup "path" fields).getD .null, .ofObject names⟩

/-- Imports are read, or the path of one is missed. -/
theorem importsOf_eq {js : List Json} {is : List Import} (h : List.Forall₂ ImportObject js is) :
    js.mapM Reader.importOf =
      if js.any (Json.lacks "path") then .error .missingKey else .ok is := by
  induction h with
  | nil => rfl
  | cons hi _ ih =>
    cases hi with
    | mk hnames =>
      rw [List.mapM_cons, ih, Reader.importOf, Reader.required, List.any_cons, Json.lacks,
        Reader.optional]
      cases Json.lookup "path" _ with
      | none => rfl
      | some path =>
        simp only [ok_bind, Reader.ofJson_objectAt hnames]
        split <;> simp_all [pure, Except.pure, bind, Except.bind]

/-- The fields of a component, the objects of its imports and its nodes, and the component that
they describe. -/
inductive ComponentTree : List (String × Json) → List Json → List Json → Component → Prop where
  | mk {fields state hooks : List (String × Json)} {imports items objects : List Json}
      {is : List Import} {children : List Node}
      (hstate : Json.objectAt "state" fields = some state)
      (hhooks : Json.objectAt "hooks" fields = some hooks)
      (himports : Json.arrayAt "imports" fields = some imports)
      (his : List.Forall₂ ImportObject imports is)
      (hitems : Json.arrayAt "children" fields = some items)
      (hchildren : NodeTrees items objects children) :
      ComponentTree fields imports objects
        ⟨(Json.lookup "name" fields).getD .null, .ofObject state,
          (Json.lookup "init" hooks).getD .null, (Json.lookup "onMount" hooks).getD .null, is,
          children⟩

namespace Component

variable {fields : List (String × Json)} {imports objects : List Json} {c : Component}

/-- What reading a tree of named objects gives: the component, or what is missed first. -/
theorem ofJson_eq_named (h : ComponentTree fields imports objects c) :
    Component.ofJson (.obj fields) =
      if Json.lacks "name" (.obj fields) then .error .unnamedComponent
      else if imports.any (Json.lacks "path") then .error .missingKey
      else named objects c := by
  obtain ⟨hstate, hhooks, himports, his, hitems, hchildren⟩ := h
  unfold Component.ofJson
  rw [Reader.mentions, ok_bind, Json.lacks]
  dsimp only
  rw [Reader.hooks_objectAt hhooks, Reader.ofJson_objectAt hstate, Reader.items_arrayAt himports,
    Reader.childrenIn_arrayAt hitems, hchildren.nodesOf_eq]
  simp only [Reader.optional, ok_bind, importsOf_eq his]
  cases Json.lookup "name" fields with
  | none => rfl
  | some name =>
    cases imports.any (Json.lacks "path") with
    | true => rfl
    | false =>
      unfold named
      cases objects.find? (Json.lacks "name") <;> rfl

/-- **A component is loaded exactly if it, its nodes and its imports have what they need**: names
and paths. What is missing first is reported: the name of the component, then a path, then the name
of the first node. -/
theorem ofJson_accepts_named (h : ComponentTree fields imports objects c) :
    (Component.ofJson (.obj fields) =
      if Json.lacks "name" (.obj fields) then .error .unnamedComponent
      else if imports.any (Json.lacks "path") then .error .missingKey
      else named objects c) ∧
    ((∃ loaded, Component.ofJson (.obj fields) = .ok loaded) ↔
      (∀ o ∈ .obj fields :: objects, Json.lacks "name" o = false) ∧
        ∀ i ∈ imports, Json.lacks "path" i = false) := by
  refine ⟨ofJson_eq_named h, ?_⟩
  rw [ofJson_eq_named h, List.forall_mem_cons]
  cases Json.lacks "name" (.obj fields) with
  | true => simp
  | false =>
    cases hpaths : imports.any (Json.lacks "path") with
    | true =>
      obtain ⟨i, hi, hlacks⟩ := List.any_eq_true.1 hpaths
      refine ⟨by simp, fun hall => ?_⟩
      rw [hall.2 i hi] at hlacks
      cases hlacks
    | false =>
      have hpath : ∀ i ∈ imports, Json.lacks "path" i = false := by simpa using hpaths
      exact (exists_named_iff objects c).trans ⟨fun hall => ⟨⟨rfl, hall⟩, hpath⟩, fun h => h.1.2⟩

/-- A component whose import has its path, and whose inner node has no name. -/
def rowsFields : List (String × Json) :=
  [("name", .str "Rows"), ("hooks", .null), ("imports", .arr [.obj [("path", .str "./row")]]),
    ("children", .arr [.obj [("name", .str "ul"), ("children", .arr [.obj []])]])]

theorem ofJson_accepts_named_rows :
    Component.ofJson (.obj rowsFields) = .error (.unnamedNode (.obj [])) := by
  have himport : ImportObject (.obj [("path", .str "./row")]) _ := .mk rfl
  have htree : NodeTree (.obj [("name", .str "ul"), ("children", .arr [.obj []])]) _ _ :=
    .mk rfl rfl rfl (.cons (.mk rfl rfl rfl .nil) .nil)
  exact (ofJson_accepts_named (.mk rfl rfl rfl (.cons himport .nil) rfl (.cons htree .nil))).1

end Component

end ReactWeave
