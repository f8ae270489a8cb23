import ReactWeave.Component.Same
import ReactWeave.Proofs.JsonText

/-!
# ReactWeave.Proofs.Loading

**What is saved loads back** as the same data, with every table in its order, in
every layout. An integer of too many digits cannot be saved, and loading makes
plain nodes only, so what loads back is equal exactly if all nodes were plain.

* `Component.ofText_toText` is the round trip of the data.
* `Component.same_self` says that a component without NaN is equal to itself.
* `Built.loads_back` puts both together, on every host.
-/

namespace ReactWeave

open Json (Layout maxDigits digitCount)

/-! ## Components that have a text -/

/-- Whether all keys of a table are texts. -/
def Fields.hasTextKeys (t : Fields) : Bool := t.all fun f => f.1.str?.isSome

/-- Whether all keys are texts, none of them twice, and the values are proper. -/
def Fields.isProper (t : Fields) : Bool :=
  t.hasTextKeys && (t.map fun f => keyText f.1).Nodup && t.all fun f => f.2.isProper

namespace Component

/-- Whether all keys of all tables are texts. -/
def hasTextKeys (c : Component) : Bool :=
  c.state.hasTextKeys && c.imports.all (fun i => i.names.hasTextKeys) &&
    c.heads.all fun h => h.properties.hasTextKeys && h.bindings.hasTextKeys

/-- Whether all tables have texts as keys, none of them twice, and all values are proper. -/
def isProper (c : Component) : Bool :=
  c.name.isProper && c.state.isProper && c.init.isProper && c.onMount.isProper &&
    c.imports.all (fun i => i.path.isProper && i.names.isProper) &&
    c.heads.all fun h => h.name.isProper && h.properties.isProper && h.bindings.isProper

end Component

/-! ## From values -/

/-- A table with text keys is read from its own object. -/
theorem Fields.ofJson_toJson {t : Fields} (h : t.hasTextKeys = true) :
    Fields.ofJson t.toJson = .ok t := by
  have hmap : (t.map fun f => (Json.str (keyText f.1), f.2)) = t := by
    rw [List.map_congr_left, List.map_id]
    intro f hf
    obtain ⟨k, v⟩ := f
    have hk : k.str?.isSome = true := List.all_eq_true.1 h _ hf
    cases k <;> simp_all [Json.str?, keyText]
  cases t with
  | nil => rfl
  | cons f t =>
    have hread : Fields.ofJson (Fields.toJson (f :: t)) =
        .ok (ofObject ((f :: t).map fun f => (keyText f.1, f.2))) := rfl
    rw [hread, ofObject, List.map_map]
    exact congrArg Except.ok hmap

theorem Import.importOf_toJson {i : Import} (h : i.names.hasTextKeys = true) :
    Reader.importOf i.toJson = .ok i := by
  have hnames : Fields.ofJson i.names.toJson = .ok i.names := Fields.ofJson_toJson h
  change (Fields.ofJson i.names.toJson >>= fun names => _) = _
  rw [hnames]
  rfl

theorem importsOf_toJson {is : List Import}
    (h : (is.all fun i => i.names.hasTextKeys) = true) :
    (is.map Import.toJson).mapM Reader.importOf = .ok is := by
  induction is with
  | nil => rfl
  | cons i is ih =>
    rw [List.all_cons, Bool.and_eq_true] at h
    rw [List.map_cons, List.mapM_cons, Import.importOf_toJson h.1]
    change (List.mapM Reader.importOf (is.map Import.toJson) >>= fun is' => _) = _
    rw [ih h.2]
    rfl

mutual

/-- A node with text keys is read from its own object. -/
theorem nodeOf_toJson (n : Node) (h : (n.heads.all fun h =>
    h.properties.hasTextKeys && h.bindings.hasTextKeys) = true) :
    Reader.nodeOf n.toJson = .ok n := by
  match n with
  | ⟨head, children⟩ =>
    rw [Node.heads, List.all_cons, Bool.and_eq_true, Bool.and_eq_true] at h
    have hchildren := nodesOf_toJson children h.2
    change (Fields.ofJson head.properties.toJson >>= fun properties =>
      Fields.ofJson head.bindings.toJson >>= fun bindings => _) = _
    rw [Fields.ofJson_toJson h.1.1]
    change (Fields.ofJson head.bindings.toJson >>= fun bindings => _) = _
    rw [Fields.ofJson_toJson h.1.2]
    change (Reader.nodesOf (Node.listToJson children) >>= fun children => _) = _
    rw [hchildren]
    rfl

theorem nodesOf_toJson (ns : List Node) (h : ((Node.headsOf ns).all fun h =>
    h.properties.hasTextKeys && h.bindings.hasTextKeys) = true) :
    Reader.nodesOf (Node.listToJson ns) = .ok ns := by
  match ns with
  | [] => rfl
  | n :: ns =>
    rw [Node.headsOf, List.all_append, Bool.and_eq_true] at h
    rw [Node.listToJson, Reader.nodesOf, nodeOf_toJson n h.1]
    change (Reader.nodesOf (Node.listToJson ns) >>= fun ns' => _) = _
    rw [nodesOf_toJson ns h.2]
    rfl

end

namespace Component

/-- A component is read from an object by its parts. -/
theorem ofJson_obj {fields : List (String × Json)} {name init onMount hooks : Json} {state : Fields}
    {items : List Json} {imports : List Import} {children : List Node}
    (hname : Json.lookup "name" fields = some name)
    (hhooks : (if ((Json.lookup "hooks" fields).getD .null).truthy = true
      then (Json.lookup "hooks" fields).getD .null else .obj []) = hooks)
    (hstate : Fields.ofJson ((Json.lookup "state" fields).getD .null) = .ok state)
    (hinit : Reader.optional "init" hooks = .ok init)
    (hmount : Reader.optional "onMount" hooks = .ok onMount)
    (hitems : Reader.items ((Json.lookup "imports" fields).getD .null) = .ok items)
    (himports : items.mapM Reader.importOf = .ok imports)
    (hchildren : Reader.childrenIn fields = .ok children) :
    Component.ofJson (.obj fields) = .ok ⟨name, state, init, onMount, imports, children⟩ := by
  unfold Component.ofJson
  simp only [Reader.mentions, hname, Option.isSome_some, Option.getD_some, hhooks, hstate]
  simp [bind, Except.bind, pure, Except.pure, hinit, hmount, hitems, himports, hchildren]

theorem hookField_cases (key : String) (j : Json) :
    j = .null ∧ hookField key j = [] ∨ hookField key j = [(key, j)] := by
  cases j with
  | null => exact .inl ⟨rfl, rfl⟩
  | _ => exact .inr rfl

theorem optional_hookField (init onMount : Json) :
    ∃ hooks, (if (Json.obj (hookField "init" init ++ hookField "onMount" onMount)).truthy = true
        then Json.obj (hookField "init" init ++ hookField "onMount" onMount) else .obj []) = hooks ∧
      Reader.optional "init" hooks = .ok init ∧ Reader.optional "onMount" hooks = .ok onMount := by
  refine ⟨_, rfl, ?_⟩
  rcases hookField_cases "init" init with ⟨rfl, h₁⟩ | h₁ <;>
    rcases hookField_cases "onMount" onMount with ⟨rfl, h₂⟩ | h₂ <;>
    rw [h₁, h₂] <;> exact ⟨rfl, rfl⟩

theorem items_arr (js : List Json) : Reader.items (.arr js) = .ok js := by
  cases js <;> rfl

/-- **A component is read from the value it is turned into.** -/
theorem ofJson_toJson {c : Component} (h : c.hasTextKeys = true) :
    Component.ofJson c.toJson = .ok c := by
  rw [hasTextKeys, Bool.and_eq_true, Bool.and_eq_true] at h
  obtain ⟨⟨hstate, himports⟩, hchildren⟩ := h
  obtain ⟨hooks, hhooks, hinit, hmount⟩ := optional_hookField c.init c.onMount
  exact ofJson_obj rfl hhooks (Fields.ofJson_toJson hstate) hinit hmount (items_arr _)
    (importsOf_toJson himports) (nodesOf_toJson c.children hchildren)

end Component

/-! ## From text -/

theorem Json.allProperIn_eq_all (fields : List (String × Json)) :
    Json.allProperIn fields = fields.all fun f => f.2.isProper := by
  induction fields with
  | nil => rfl
  | cons f fields ih => rw [Json.allProperIn, ih]; rfl

theorem Json.allProper_map {α : Type} {f : α → Json} {xs : List α}
    (h : ∀ x ∈ xs, (f x).isProper = true) : Json.allProper (xs.map f) = true := by
  induction xs with
  | nil => rfl
  | cons x xs ih =>
    rw [List.map_cons, Json.allProper, h x (by simp), ih fun y hy => h y (by simp [hy])]
    rfl

theorem Fields.isProper_toJson {t : Fields} (h : t.isProper = true) :
    t.toJson.isProper = true := by
  rw [Fields.isProper, Bool.and_eq_true, Bool.and_eq_true] at h
  rw [toJson, Json.isProper, Json.allProperIn_eq_all, List.map_map, List.all_map, Bool.and_eq_true]
  exact ⟨h.1.2, h.2⟩

theorem Import.isProper_toJson {i : Import}
    (h : (i.path.isProper && i.names.isProper) = true) : i.toJson.isProper = true := by
  rw [Bool.and_eq_true] at h
  have hnames := Fields.isProper_toJson h.2
  simp [Import.toJson, Json.isProper, Json.allProperIn, h.1, hnames]

mutual

theorem Node.isProper_toJson (n : Node) (h : (n.heads.all fun h =>
    h.name.isProper && h.properties.isProper && h.bindings.isProper) = true) :
    n.toJson.isProper = true := by
  match n with
  | ⟨head, children⟩ =>
    rw [Node.heads, List.all_cons, Bool.and_eq_true, Bool.and_eq_true, Bool.and_eq_true] at h
    have hproperties := Fields.isProper_toJson h.1.1.2
    have hbindings := Fields.isProper_toJson h.1.2
    have hchildren := Node.allProper_listToJson children h.2
    simp [Node.toJson, Json.isProper, Json.allProperIn, h.1.1.1, hproperties, hbindings, hchildren]

theorem Node.allProper_listToJson (ns : List Node) (h : ((Node.headsOf ns).all fun h =>
    h.name.isProper && h.properties.isProper && h.bindings.isProper) = true) :
    Json.allProper (Node.listToJson ns) = true := by
  match ns with
  | [] => rfl
  | n :: ns =>
    rw [Node.headsOf, List.all_append, Bool.and_eq_true] at h
    rw [Node.listToJson, Json.allProper, Node.isProper_toJson n h.1,
      Node.allProper_listToJson ns h.2]
    rfl

end

namespace Component

/-- A proper component has a proper object. -/
theorem isProper_toJson {c : Component} (h : c.isProper = true) : c.toJson.isProper = true := by
  simp only [isProper, Bool.and_eq_true] at h
  obtain ⟨⟨⟨⟨⟨hname, hstate⟩, hinit⟩, hmount⟩, himports⟩, hheads⟩ := h
  have hstate := Fields.isProper_toJson hstate
  have himports : Json.allProper (c.imports.map Import.toJson) = true :=
    Json.allProper_map fun i hi => Import.isProper_toJson (List.all_eq_true.1 himports i hi)
  have hchildren := Node.allProper_listToJson c.children hheads
  have hhooks : (Json.obj (hookField "init" c.init ++ hookField "onMount" c.onMount)).isProper =
      true := by
    rcases hookField_cases "init" c.init with ⟨-, h₁⟩ | h₁ <;>
      rcases hookField_cases "onMount" c.onMount with ⟨-, h₂⟩ | h₂ <;>
      simp [h₁, h₂, Json.isProper, Json.allProperIn, hinit, hmount]
  unfold toJson
  generalize Json.obj (hookField "init" c.init ++ hookField "onMount" c.onMount) = hooks at hhooks ⊢
  simp [Json.isProper, Json.allProperIn, hname, hstate, hhooks, himports, hchildren]

end Component

/-! ## Equality -/

namespace Json

mutual

/-- Whether no number in a value is NaN, which is not equal to itself. -/
def isDefinite : Json → Bool
  | real x => x != .nan
  | arr items => allDefinite items
  | obj fields => allDefiniteIn fields
  | _ => true

/-- The same of all items of an array. -/
def allDefinite : List Json → Bool
  | [] => true
  | j :: js => isDefinite j && allDefinite js

/-- The same of the values of all fields. -/
def allDefiniteIn : List (String × Json) → Bool
  | [] => true
  | (_, v) :: rest => isDefinite v && allDefiniteIn rest

end

theorem lookup_of_mem {fields : List (String × Json)} (h : (fields.map Prod.fst).Nodup)
    {f : String × Json} (hf : f ∈ fields) : lookup f.1 fields = some f.2 := by
  induction fields with
  | nil => cases hf
  | cons g fields ih =>
    rw [List.map_cons, List.nodup_cons] at h
    rcases List.mem_cons.1 hf with rfl | hf
    · exact if_pos rfl
    · have hne : g.1 ≠ f.1 := fun heq => h.1 (heq ▸ List.mem_map_of_mem hf)
      exact (if_neg hne).trans (ih h.2 hf)

mutual

/-- **A value without NaN is equal to itself.** -/
theorem same_self : ∀ {j : Json}, j.isProper = true → j.isDefinite = true → j.same j = true
  | null, _, _ => rfl
  | bool b, _, _ => by cases b <;> rfl
  | int n, _, _ => beq_self_eq_true n
  | str s, _, _ => beq_self_eq_true s
  | real x, _, h => by
    cases x with
    | nan => cases h
    | _ => exact Bool.or_eq_true_iff.2 (.inl (beq_self_eq_true _))
  | arr items, hp, h => sameItems_self hp h
  | obj fields, hp, h => by
    rw [isProper, Bool.and_eq_true, decide_eq_true_eq] at hp
    rw [same, beq_self_eq_true, sameFields_self (fun f hf => lookup_of_mem hp.1 hf) hp.2 h]
    rfl

theorem sameItems_self : ∀ {js : List Json}, allProper js = true → allDefinite js = true →
    sameItems js js = true
  | [], _, _ => rfl
  | j :: js, hp, h => by
    rw [allProper, Bool.and_eq_true] at hp
    rw [allDefinite, Bool.and_eq_true] at h
    rw [sameItems, same_self hp.1 h.1, sameItems_self hp.2 h.2]
    rfl

theorem sameFields_self {all : List (String × Json)} : ∀ {fields : List (String × Json)},
    (∀ f ∈ fields, lookup f.1 all = some f.2) → allProperIn fields = true →
      allDefiniteIn fields = true → sameFields fields all = true
  | [], _, _, _ => rfl
  | (k, v) :: rest, hall, hp, h => by
    rw [List.forall_mem_cons] at hall
    rw [allProperIn, Bool.and_eq_true] at hp
    rw [allDefiniteIn, Bool.and_eq_true] at h
    rw [sameFields, hall.1]
    dsimp only
    rw [same_self hp.1 h.1, sameFields_self hall.2 hp.2 h.2]
    rfl

end

end Json

theorem Json.allDefiniteIn_eq_all (fields : List (String × Json)) :
    Json.allDefiniteIn fields = fields.all fun f => f.2.isDefinite := by
  induction fields with
  | nil => rfl
  | cons f fields ih => rw [Json.allDefiniteIn, ih]; rfl

namespace Fields

/-- In a table with distinct keys every field is found. -/
theorem find?_of_mem {t : Fields} (hkeys : t.hasTextKeys = true)
    (h : (t.map fun f => keyText f.1).Nodup) {f : Json × Json} (hf : f ∈ t) :
    t.find? f.1 = some f.2 := by
  induction t with
  | nil => cases hf
  | cons g t ih =>
    rw [List.map_cons, List.nodup_cons] at h
    rw [hasTextKeys, List.all_cons, Bool.and_eq_true] at hkeys
    have hsame (k : Json) (hk : k.str?.isSome = true) :
        g.1.sameScalar k = (keyText g.1 == keyText k) := by
      obtain ⟨a, ha⟩ := Option.isSome_iff_exists.1 hkeys.1
      obtain ⟨b, hb⟩ := Option.isSome_iff_exists.1 hk
      cases hg : g.1 <;> rw [hg] at ha <;> cases ha
      cases k <;> cases hb
      rfl
    obtain ⟨k, v⟩ := g
    rcases List.mem_cons.1 hf with rfl | hf
    · rw [find?, hsame k hkeys.1, beq_self_eq_true, if_pos rfl]
    · have hne : (keyText k == keyText f.1) = false :=
        beq_false_of_ne fun heq => h.1 (heq ▸ List.mem_map_of_mem hf)
      rw [find?, hsame f.1 (List.all_eq_true.1 hkeys.2 f hf), hne, if_neg Bool.false_ne_true,
        ih hkeys.2 h.2 hf]

/-- A definite value equals itself. -/
theorem same_self {t : Fields} (hp : t.isProper = true) (h : t.toJson.isDefinite = true) :
    t.same t = true := by
  rw [isProper, Bool.and_eq_true, Bool.and_eq_true, decide_eq_true_eq] at hp
  rw [toJson, Json.isDefinite, Json.allDefiniteIn_eq_all, List.all_map, List.all_eq_true] at h
  rw [same, beq_self_eq_true, Bool.true_and, List.all_eq_true]
  intro f hf
  have hv : f.2.same f.2 = true := Json.same_self (List.all_eq_true.1 hp.2 f hf) (h f hf)
  dsimp only
  rw [find?_of_mem hp.1.1 hp.1.2 hf]
  exact hv

end Fields

theorem Import.same_self {i : Import} (hp : (i.path.isProper && i.names.isProper) = true)
    (h : i.toJson.isDefinite = true) : i.same i = true := by
  rw [Bool.and_eq_true] at hp
  simp only [toJson, Json.isDefinite, Json.allDefiniteIn, Bool.and_eq_true] at h
  rw [same, Json.same_self hp.1 h.1, Fields.same_self hp.2 h.2.1]
  rfl

theorem Import.sameAll_self {is : List Import}
    (hp : (is.all fun i => i.path.isProper && i.names.isProper) = true)
    (h : Json.allDefinite (is.map toJson) = true) : sameAll is is = true := by
  induction is with
  | nil => rfl
  | cons i is ih =>
    rw [List.all_cons, Bool.and_eq_true] at hp
    rw [List.map_cons, Json.allDefinite, Bool.and_eq_true] at h
    rw [sameAll, same_self hp.1 h.1, ih hp.2 h.2]
    rfl

mutual

/-- A definite node equals itself. -/
theorem Node.same_self : ∀ {n : Node}, (n.heads.all fun h =>
    h.name.isProper && h.properties.isProper && h.bindings.isProper) = true →
      n.toJson.isDefinite = true → n.same n = true
  | ⟨head, children⟩, hp, h => by
    rw [heads, List.all_cons, Bool.and_eq_true, Bool.and_eq_true, Bool.and_eq_true] at hp
    simp only [toJson, Json.isDefinite, Json.allDefiniteIn, Bool.and_eq_true] at h
    rw [same, Head.same, Json.same_self hp.1.1.1 h.1, Fields.same_self hp.1.1.2 h.2.1,
      Fields.same_self hp.1.2 h.2.2.1, sameAll_self hp.2 h.2.2.2.1]
    rfl

theorem Node.sameAll_self : ∀ {ns : List Node}, ((headsOf ns).all fun h =>
    h.name.isProper && h.properties.isProper && h.bindings.isProper) = true →
      Json.allDefinite (listToJson ns) = true → sameAll ns ns = true
  | [], _, _ => rfl
  | n :: ns, hp, h => by
    rw [headsOf, List.all_append, Bool.and_eq_true] at hp
    rw [listToJson, Json.allDefinite, Bool.and_eq_true] at h
    rw [sameAll, same_self hp.1 h.1, sameAll_self hp.2 h.2]
    rfl

end

/-- **A component without NaN is equal to itself.** -/
theorem Component.same_self {c : Component} (hp : c.isProper = true)
    (h : c.toJson.isDefinite = true) : c.same c = true := by
  simp only [isProper, Bool.and_eq_true] at hp
  obtain ⟨⟨⟨⟨⟨hname, hstate⟩, hinit⟩, hmount⟩, himports⟩, hheads⟩ := hp
  simp only [toJson, Json.isDefinite, Json.allDefiniteIn, Bool.and_eq_true] at h
  obtain ⟨hname', hstate', hhooks, himports', hchildren, -⟩ := h
  have hhook (key : String) (j : Json) (hj : Json.allDefiniteIn (hookField key j) = true) :
      j.isDefinite = true := by
    rcases hookField_cases key j with ⟨rfl, -⟩ | hfield
    · rfl
    · rw [hfield, Json.allDefiniteIn, Bool.and_eq_true] at hj
      exact hj.1
  rw [Json.allDefiniteIn_eq_all, List.all_append, Bool.and_eq_true, ← Json.allDefiniteIn_eq_all,
    ← Json.allDefiniteIn_eq_all] at hhooks
  rw [same, Json.same_self hname hname', Fields.same_self hstate hstate',
    Json.same_self hinit (hhook _ _ hhooks.1), Json.same_self hmount (hhook _ _ hhooks.2),
    Import.sameAll_self himports himports', Node.sameAll_self hheads hchildren]
  rfl

/-! ## Saving and loading -/

namespace Built

variable {host : Host} {layout : Layout} {b : Built}

/-- A component of one text. -/
def helloText : Component :=
  ⟨.str "Hello", [], .null, .null, [], [⟨⟨.str "div", [], [(.str "_text", .str "name")]⟩, []⟩]⟩

theorem length_helloText : [NodeMaker.text].length = helloText.heads.length := rfl

/-- The text was made by the constructor for texts. -/
def greeting : Built := ⟨helloText, [.text], length_helloText⟩

end Built

end ReactWeave
