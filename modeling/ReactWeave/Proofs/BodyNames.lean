import ReactWeave.Proofs.KeptNames
import ReactWeave.Proofs.Levels

/-!
# ReactWeave.Proofs.BodyNames

**The names that a body binds.**

When every field of the state has its own hook, four sorts of names end up in one
body: the values of the state with their setters, the functions that methods
become, the handles, and the flag of the first rendering. Nothing makes them
identifiers, nor keeps them apart. In particular, a setter is named by the value
with a capital, and different values may have the same capital form.

* `compile_names_usable_iff` is the criterion for a compilation.
-/

namespace ReactWeave

open Script (isName)
open Script.Lexis (behindGap nameLength)

/-! ## Identifiers -/

/-- Words that a module may not bind, besides those that are never names. -/
def unboundWords : List (List Char) :=
  ["arguments", "await", "enum", "eval", "implements", "interface", "let", "package", "private",
    "protected", "public", "static", "yield"].map String.toList

/-- Names without escapes that a module may bind. -/
def isIdentifier (name : String) : Bool :=
  isName name.toList && !Script.Lexis.isReserved name.toList && !unboundWords.contains name.toList

/-- Whether names can be bound side by side: they are identifiers, and no two are the same. -/
def Usable (names : List String) : Prop := (∀ name ∈ names, isIdentifier name = true) ∧ names.Nodup

theorem Usable.perm {names names' : List String} (h : names.Perm names') :
    Usable names ↔ Usable names' := by
  unfold Usable
  rw [h.nodup_iff]
  simp only [h.mem_iff]

variable {value code name : String}

namespace State

/-- The setter of a value. -/
def setter (value : String) : String := "set" ++ Naming.capitalize value

theorem toList_setter (value : String) : (setter value).toList = setterName value.toList := by
  simp [setter, setterName, Naming.capitalize]

theorem isIdentifier_setter (h : isIdentifier value = true) :
    isIdentifier (setter value) = true := by
  simp only [isIdentifier, Bool.and_eq_true] at h
  have hplain := isPlainName_setterName h.1.1
  have hwords : unboundWords.contains (setterName value.toList) = false :=
    setterName_not_mem _ (by decide)
  have hreserved : Script.Lexis.isReserved (setterName value.toList) = false :=
    setterName_not_mem _ (by decide)
  rw [isIdentifier, toList_setter, Script.isName_of_isPlainName hplain, hwords, hreserved]
  rfl

theorem setter_ne_firstRender (value : String) : setter value ≠ "firstRender" := by
  intro heq
  have hlist := congrArg String.toList heq
  rw [toList_setter] at hlist
  exact setterName_ne (by decide) hlist

end State

/-! ## Functions -/

/-- What stands behind the word that opens a function, and behind the star of a generator. -/
def behindFunction (s : List Char) : List Char :=
  match behindGap (s.drop "function".length) with
  | '*' :: rest => behindGap rest
  | rest => rest

/-- The name of the function that a text declares; nothing, unless parameters follow the name. -/
def functionName (text : String) : String :=
  let s := behindFunction text.toList
  let n := nameLength s
  if Text.hasStart "function" text && (behindGap (s.drop n)).head? == some '(' then
    String.ofList (s.take n)
  else ""

/-- The name that is read off a function is the one its text opens with. -/
theorem functionName_of_opens {name : List Char} {text : String} (hname : isName name = true)
    (h : Opens ("function ".toList ++ name) text.toList) :
    functionName text = String.ofList name := by
  obtain ⟨rest, htext⟩ := h
  have hstart : Text.hasStart "function" text = true := by
    rw [Text.hasStart, htext]
    rfl
  have hgap : behindGap (text.toList.drop "function".length) = name ++ '(' :: rest := by
    rw [htext, List.append_assoc]
    exact Script.Gap.space.behindGap (Script.solid_of_isName hname _)
  have hbehind : behindFunction text.toList = name ++ '(' :: rest := by
    obtain ⟨c, w, rfl, hc⟩ := Script.isName_head hname
    unfold behindFunction
    rw [hgap]
    split
    · rename_i heq
      obtain rfl := (List.cons.inj heq).1
      exact absurd hc (by decide)
    · rfl
  have hlength : nameLength (name ++ '(' :: rest) = name.length :=
    Script.nameLength_of_endsWord hname (by intro c hc; obtain rfl := Option.some.inj hc; decide)
  have hparen : behindGap ('(' :: rest) = '(' :: rest := rfl
  simp [functionName, hbehind, hlength, hstart, hparen]

/-! ## Items -/

/-- What a declaration of constants starts with. -/
def constants : List String → String
  | [name] => "const " ++ name ++ " = "
  | names => "const [" ++ ", ".intercalate names ++ "] = "

namespace Item

/-- The names that an item binds in the body. -/
def names : Item → List String
  | pair key _ => [key, State.setter key]
  | method code => [functionName (method code).text]
  | object _ _ => ["state"]
  | handle name => [name]
  | firstRender _ => ["firstRender", "setFirstRender"]
  | effect _ => []

/-- Whether the text of an item declares its names: it starts with constants, or with a function. -/
def Declares (item : Item) : Prop :=
  item.names = [] ∨ (constants item.names).toList <+: item.text.toList ∨
    item.names = [functionName item.text]

/-- **Every item declares its names**: the hooks, the functions, the handles and the flag. -/
theorem declares (item : Item) : item.Declares := by
  cases item with
  | pair key initial =>
    refine .inr (.inl ⟨("useState(() => (" ++ initial ++ "));").toList, ?_⟩)
    simp [names, constants, text, State.hookLine, State.setter]
  | method code => exact .inr (.inr rfl)
  | object strategy state =>
    have hconstant : constants ["state"] = "const state = " := by decide
    refine .inr (.inl ?_)
    change (constants ["state"]).toList <+: (State.objectDeclaration strategy state).toList
    delta State.objectDeclaration
    rw [hconstant, String.append_assoc, String.append_assoc, String.append_assoc,
      String.toList_append]
    exact List.prefix_append _ _
  | handle name =>
    refine .inr (.inl ⟨"useRef();".toList, ?_⟩)
    simp [names, constants, text]
  | firstRender code =>
    refine .inr (.inl ?_)
    have hline : (constants ["firstRender", "setFirstRender"]).toList <+:
        "const [firstRender, setFirstRender] = useState(true);".toList := by decide
    rw [text, Lifecycle.firstRender, String.intercalate_cons_cons, String.append_assoc,
      String.toList_append]
    exact hline.trans (List.prefix_append _ _)
  | effect code => exact .inl rfl

/-- The value whose setter has a given name. -/
def setBy? (name : String) : Item → Option String
  | pair key _ => if State.setter key = name then some key else none
  | firstRender _ => if name = "setFirstRender" then some "firstRender" else none
  | method _ | object _ _ | handle _ | effect _ => none

theorem ofField_of_method {value : Json} (h : State.method? value = some code) (key : Json) :
    ofField key value = method (Text.trimmed code) := by
  unfold State.method? at h
  unfold ofField
  split at h
  · rename_i hvalue
    rw [hvalue, Option.some.inj h]
  · cases h

theorem ofField_of_value {value : Json} (h : State.method? value = none) (key : Json) :
    ∃ initial, ofField key value = pair key.asText initial := by
  unfold State.method? at h
  unfold ofField
  cases hvalue : State.Value.ofJson value with
  | data data => exact ⟨_, rfl⟩
  | code tag code =>
    rw [hvalue] at h
    cases tag with
    | function => exact ⟨_, rfl⟩
    | method => cases h

end Item

/-! ## Scopes -/

/-- The names of a body, by their sort. -/
structure Scope where
  values : List String
  functions : List String
  handles : List String
  /-- Whether something runs before the first rendering. -/
  starts : Bool
  deriving Repr

namespace Scope

/-- The names that come from the component. -/
def own (s : Scope) : List String := s.values ++ s.functions ++ s.handles

/-- The flag of the first rendering and its setter. -/
def flag (s : Scope) : List String := if s.starts then ["firstRender", "setFirstRender"] else []

/-- All names of the body. -/
def names (s : Scope) : List String := s.own ++ (s.values.map State.setter ++ s.flag)

/-- Whether the names that come from the component are distinct identifiers, and leave the names
that are made for it alone. -/
structure Clear (s : Scope) : Prop where
  identifiers : ∀ name ∈ s.own, isIdentifier name = true
  distinct : s.own.Nodup
  /-- No two values have the same capital form. -/
  capitals : (s.values.map Naming.capitalize).Nodup
  setters : ∀ value ∈ s.values, State.setter value ∉ s.own
  flag : s.starts = true → "firstRender" ∉ s.own ∧ "setFirstRender" ∉ s.own ∧
    "FirstRender" ∉ s.values.map Naming.capitalize

instance (s : Scope) : Decidable s.Clear :=
  decidable_of_iff
    ((∀ name ∈ s.own, isIdentifier name = true) ∧ s.own.Nodup ∧
      (s.values.map Naming.capitalize).Nodup ∧ (∀ value ∈ s.values, State.setter value ∉ s.own) ∧
      (s.starts = true → "firstRender" ∉ s.own ∧ "setFirstRender" ∉ s.own ∧
        "FirstRender" ∉ s.values.map Naming.capitalize))
    ⟨fun h => ⟨h.1, h.2.1, h.2.2.1, h.2.2.2.1, h.2.2.2.2⟩,
      fun h => ⟨h.identifiers, h.distinct, h.capitals, h.setters, h.flag⟩⟩

variable {s : Scope}

theorem nodup_setters_iff : (s.values.map State.setter).Nodup ↔
    (s.values.map Naming.capitalize).Nodup := by
  have hmap : s.values.map State.setter =
      (s.values.map Naming.capitalize).map fun capital => "set" ++ capital := by
    rw [List.map_map]
    rfl
  rw [hmap, List.nodup_map_iff fun _ _ heq => (String.append_right_inj _).1 heq]

theorem mem_flag :
    name ∈ s.flag ↔ s.starts = true ∧ (name = "firstRender" ∨ name = "setFirstRender") := by
  unfold flag
  split <;> simp_all

theorem setter_eq_flag_iff :
    State.setter value = "setFirstRender" ↔ Naming.capitalize value = "FirstRender" := by
  have hflag : "setFirstRender" = "set" ++ "FirstRender" := by decide
  rw [hflag, State.setter, String.append_right_inj]

/-- Names that can be declared side by side leave a scope clear. -/
theorem Clear.of_usable (h : Usable s.names) : s.Clear := by
  obtain ⟨hidentifiers, hnodup⟩ := h
  obtain ⟨hown, hmade, hapart⟩ := List.nodup_append.1 hnodup
  obtain ⟨hsetters, -, hflag⟩ := List.nodup_append.1 hmade
  refine ⟨fun name hname => hidentifiers name (List.mem_append_left _ hname), hown,
    nodup_setters_iff.1 hsetters, ?_, ?_⟩
  · intro value hvalue hmem
    exact hapart _ hmem _ (List.mem_append_left _ (List.mem_map_of_mem hvalue)) rfl
  · intro hstarts
    have hfirst : "firstRender" ∈ s.flag := mem_flag.2 ⟨hstarts, .inl rfl⟩
    have hset : "setFirstRender" ∈ s.flag := mem_flag.2 ⟨hstarts, .inr rfl⟩
    refine ⟨fun hmem => hapart _ hmem _ (List.mem_append_right _ hfirst) rfl,
      fun hmem => hapart _ hmem _ (List.mem_append_right _ hset) rfl, ?_⟩
    intro hmem
    obtain ⟨value, hvalue, hcapital⟩ := List.mem_map.1 hmem
    exact hflag _ (List.mem_map_of_mem hvalue) _ hset (setter_eq_flag_iff.2 hcapital)

theorem Clear.isIdentifier_of_mem (h : s.Clear) (hname : name ∈ s.names) :
    isIdentifier name = true := by
  rcases List.mem_append.1 hname with hown | hmade
  · exact h.identifiers name hown
  · rcases List.mem_append.1 hmade with hsetter | hflag
    · obtain ⟨value, hvalue, rfl⟩ := List.mem_map.1 hsetter
      refine State.isIdentifier_setter (h.identifiers value ?_)
      exact List.mem_append_left _ (List.mem_append_left _ hvalue)
    · rcases (mem_flag.1 hflag).2 with rfl | rfl <;> decide

/-- In a clear scope no name is declared twice. -/
theorem Clear.nodup_names (h : s.Clear) : s.names.Nodup := by
  have hflag : s.flag.Nodup := by
    unfold Scope.flag
    split <;> decide
  have hmade : (s.values.map State.setter ++ s.flag).Nodup := by
    refine List.nodup_append.2 ⟨nodup_setters_iff.2 h.capitals, hflag, ?_⟩
    rintro a ha b hb rfl
    obtain ⟨value, hvalue, rfl⟩ := List.mem_map.1 ha
    obtain ⟨hstarts, hfirst | hset⟩ := mem_flag.1 hb
    · exact State.setter_ne_firstRender value hfirst
    · exact (h.flag hstarts).2.2 (List.mem_map.2 ⟨value, hvalue, setter_eq_flag_iff.1 hset⟩)
  refine List.nodup_append.2 ⟨h.distinct, hmade, ?_⟩
  rintro a ha b hb rfl
  rcases List.mem_append.1 hb with hsetter | hflag
  · obtain ⟨value, hvalue, rfl⟩ := List.mem_map.1 hsetter
    exact h.setters value hvalue ha
  · obtain ⟨hstarts, rfl | rfl⟩ := mem_flag.1 hflag
    · exact (h.flag hstarts).1 ha
    · exact (h.flag hstarts).2.1 ha

/-- **A scope is clear exactly if all names of the body are distinct identifiers.** -/
theorem usable_iff_clear : Usable s.names ↔ s.Clear :=
  ⟨.of_usable, fun h => ⟨fun _ => h.isIdentifier_of_mem, h.nodup_names⟩⟩

theorem Clear.filter_setter (h : s.Clear) (hvalue : value ∈ s.values) :
    s.values.filter (fun v => State.setter v = State.setter value) = [value] := by
  have hsame : ∀ v ∈ s.values, decide (State.setter v = State.setter value) = (v == value) := by
    intro v hv
    rw [Bool.eq_iff_iff, decide_eq_true_eq, beq_iff_eq]
    refine ⟨fun heq => ?_, fun heq => heq ▸ rfl⟩
    exact List.inj_on_of_nodup_map (nodup_setters_iff.2 h.capitals) hv hvalue heq
  have hnodup : s.values.Nodup := (List.nodup_append.1 (List.nodup_append.1 h.distinct).1).1
  rw [List.filter_congr hsame, List.filter_beq, List.count_eq_one_of_mem hnodup hvalue]
  rfl

end Scope

/-! ## Bodies -/

namespace State

/-- The values of a state: the keys of the fields that are no methods. -/
def values (state : Fields) : List String :=
  state.filterMap fun field => if (method? field.2).isSome then none else some field.1.asText

/-- The functions that the methods of a state become. -/
def functions (state : Fields) : List String :=
  state.filterMap fun field =>
    (method? field.2).map fun code => functionName (Item.method (Text.trimmed code)).text

section Cons

variable {field : Json × Json} {code : String} (state : Fields)

theorem values_of_value (h : method? field.2 = none) :
    values (field :: state) = field.1.asText :: values state := by
  simp [values, h]

theorem values_of_method (h : method? field.2 = some code) :
    values (field :: state) = values state := by
  simp [values, h]

theorem functions_of_value (h : method? field.2 = none) :
    functions (field :: state) = functions state := by
  simp [functions, h]

theorem functions_of_method (h : method? field.2 = some code) : functions (field :: state) =
    functionName (Item.method (Text.trimmed code)).text :: functions state := by
  simp [functions, h]

end Cons

end State

namespace Item

theorem ofState_useState (state : Fields) :
    ofState .useState state = state.map fun field => ofField field.1 field.2 := by
  cases state <;> rfl

/-- With a hook for each field, the state declares its values, their setters and its functions. -/
theorem perm_names_ofState (state : Fields) :
    ((ofState .useState state).flatMap names).Perm
      (State.values state ++ ((State.values state).map State.setter ++ State.functions state)) := by
  rw [ofState_useState]
  induction state with
  | nil => exact .refl _
  | cons field state ih =>
    rw [List.map_cons, List.flatMap_cons]
    cases hmethod : State.method? field.2 with
    | none =>
      obtain ⟨initial, hitem⟩ := ofField_of_value hmethod field.1
      rw [hitem, State.values_of_value _ hmethod, State.functions_of_value _ hmethod]
      exact ((ih.cons _).trans List.perm_middle.symm).cons _
    | some code =>
      rw [ofField_of_method hmethod, State.values_of_method _ hmethod,
        State.functions_of_method _ hmethod, ← List.append_assoc]
      refine (ih.cons _).trans ?_
      rw [← List.append_assoc]
      exact List.perm_middle.symm

/-- What a name sets: the values whose setter is called so. -/
theorem filterMap_setBy?_ofState (name : String) (state : Fields) :
    (ofState .useState state).filterMap (setBy? name) =
      (State.values state).filter fun value => State.setter value = name := by
  rw [ofState_useState]
  induction state with
  | nil => rfl
  | cons field state ih =>
    rw [List.map_cons, List.filterMap_cons]
    cases hmethod : State.method? field.2 with
    | none =>
      obtain ⟨initial, hitem⟩ := ofField_of_value hmethod field.1
      rw [hitem, setBy?, State.values_of_value _ hmethod, List.filter_cons, ih]
      by_cases hname : State.setter field.1.asText = name
      · rw [if_pos hname, if_pos (decide_eq_true hname)]
      · rw [if_neg hname, if_neg (by simpa using hname)]
    | some code =>
      rw [ofField_of_method hmethod, State.values_of_method _ hmethod]
      exact ih

end Item

/-- The scope of the body that is made of a prepared component. -/
def Prepared.scope (p : Prepared) : Scope :=
  ⟨State.values p.component.state, State.functions p.component.state, p.refs,
    p.component.init.truthy⟩

namespace Prepared

variable (p : Prepared) (code : String)

/-- **The names of a body are those of its scope.** -/
theorem perm_names : ((p.blocks .useState code).flatten.flatMap Item.names).Perm p.scope.names := by
  have hhandles : (p.refs.map Item.handle).flatMap Item.names = p.refs := by
    rw [List.flatMap_map]
    exact List.flatMap_singleton' p.refs
  have hflag : (if p.component.init.truthy then
      [Item.firstRender (Text.trimmed p.component.init.asText)] else []).flatMap Item.names =
        p.scope.flag := by
    unfold Scope.flag scope
    split <;> rfl
  have heffect : (if p.component.onMount.truthy then [Item.effect code] else []).flatMap
      Item.names = [] := by
    split <;> rfl
  have hstate := Item.perm_names_ofState p.component.state
  rw [blocks, List.flatten_cons, List.flatten_cons, List.flatten_cons, List.flatten_cons,
    List.flatten_nil, List.flatMap_append, List.flatMap_append, List.flatMap_append,
    List.flatMap_append, hhandles, hflag, heffect, List.flatMap_nil]
  refine (hstate.append_right _).trans ?_
  -- both sides now append the same lists in different orders
  rw [Scope.names, Scope.own, List.perm_iff_count]
  intro name
  simp only [List.count_append, List.count_nil, scope]
  omega

/-- In a clear scope every setter sets its own value and no other. -/
theorem filterMap_setBy? (hclear : p.scope.Clear)
    (hvalue : value ∈ State.values p.component.state) :
    (p.blocks .useState code).flatten.filterMap (Item.setBy? (State.setter value)) = [value] := by
  have hhandles : (p.refs.map Item.handle).filterMap (Item.setBy? (State.setter value)) = [] := by
    rw [List.filterMap_map]
    exact List.filterMap_eq_nil_iff.2 fun _ _ => rfl
  have hflag : (if p.component.init.truthy then
      [Item.firstRender (Text.trimmed p.component.init.asText)] else []).filterMap
        (Item.setBy? (State.setter value)) = [] := by
    split
    · rename_i hstarts
      have hne : State.setter value ≠ "setFirstRender" := fun heq =>
        (hclear.flag hstarts).2.2 (List.mem_map.2 ⟨value, hvalue, Scope.setter_eq_flag_iff.1 heq⟩)
      simp [Item.setBy?, hne]
    · rfl
  have heffect : (if p.component.onMount.truthy then [Item.effect code] else []).filterMap
      (Item.setBy? (State.setter value)) = [] := by
    split <;> rfl
  rw [blocks, List.flatten_cons, List.flatten_cons, List.flatten_cons, List.flatten_cons,
    List.flatten_nil, List.filterMap_append, List.filterMap_append, List.filterMap_append,
    List.filterMap_append, hhandles, hflag, heffect, Item.filterMap_setBy?_ofState,
    List.filterMap_nil, List.append_nil, List.append_nil, List.append_nil, List.append_nil]
  exact hclear.filter_setter hvalue

end Prepared

/-! ## Components that are written plainly -/

namespace State

/-- What stands in front of the parameters of a method. -/
def frontOf (code : String) : List Char := code.toList.takeWhile (· != '(')

/-- The name of a method: what stands in front of its parameters, and behind `get` if it is a
getter. -/
def methodName (code : String) : List Char :=
  let front := Text.trimStart (frontOf code)
  if Text.startsWith "get ".toList front then front.drop 4 else front

theorem opens_frontOf (h : '(' ∈ code.toList) : Opens (frontOf code) code.toList := by
  obtain ⟨front, rest, hcode, hnot⟩ := List.eq_append_cons_of_mem h
  have hfront : frontOf code = front := by
    have hpass : ∀ c ∈ front, (c != '(') = true := by
      intro c hc
      rw [bne_iff_ne]
      rintro rfl
      exact hnot hc
    rw [frontOf, hcode, List.takeWhile_append_of_pos hpass]
    exact List.append_nil front
  exact ⟨rest, by rw [hfront, hcode]⟩

theorem trimStart_frontOf (code : String) :
    (Text.trimStart (frontOf code) = "get ".toList ++ methodName code) ∨
      (Text.trimStart (frontOf code) = methodName code ∧
        Text.startsWith "get ".toList (methodName code) = false) := by
  unfold methodName
  dsimp only
  split
  · rename_i hget
    obtain ⟨name, hname⟩ := Text.startsWith_iff.1 hget
    rw [hname]
    exact .inl rfl
  · rename_i hget
    exact .inr ⟨rfl, by simpa using hget⟩

theorem trimEnd_opens {front s : List Char} (h : Opens front s) :
    Opens front (Text.trimEnd s) := by
  obtain ⟨rest, rfl⟩ := h
  rw [Text.trimEnd, List.reverse_append, List.reverse_cons, List.append_assoc,
    List.dropWhile_append]
  split
  · exact ⟨[], by rw [List.reverse_eq_iff]; simp [Text.isBlank]⟩
  · exact ⟨(rest.reverse.dropWhile Text.isBlank).reverse, by simp⟩

theorem trimmed_opens {front : List Char} (hne : Text.trimStart front ≠ [])
    (h : Opens front code.toList) : Opens (Text.trimStart front) (Text.trimmed code).toList := by
  obtain ⟨rest, hcode⟩ := h
  rw [Text.trimmed, String.toList_ofList, Text.trim, hcode]
  refine trimEnd_opens ⟨rest, ?_⟩
  have hfront : ¬(front.dropWhile Text.isBlank).isEmpty = true := by
    rw [List.isEmpty_iff]
    exact hne
  rw [Text.trimStart, List.dropWhile_append, if_neg hfront, Text.trimStart]

/-- A method becomes a function that opens with its name, whatever became of its body. -/
theorem functionOf_opens {code' : String} (hname : isName (methodName code) = true)
    (h : Opens (frontOf code) code'.toList) :
    Opens ("function ".toList ++ methodName code) (functionOf (Text.trimmed code')).toList := by
  obtain ⟨c, w, hcons, -⟩ := Script.isName_head hname
  have hne : Text.trimStart (frontOf code) ≠ [] := by
    rcases trimStart_frontOf code with hfront | ⟨hfront, -⟩ <;> simp [hfront, hcons]
  have hopens := trimmed_opens hne h
  rcases trimStart_frontOf code with hfront | ⟨hfront, hget⟩
  · rw [hfront] at hopens
    obtain ⟨rest, hrest⟩ := hopens
    have hstart : Text.hasStart "get " (Text.trimmed code') = true := by
      rw [Text.hasStart, hrest, List.append_assoc]
      exact Text.startsWith_iff.2 ⟨_, rfl⟩
    have hdrop : ("get ".toList ++ (methodName code ++ '(' :: rest)).drop 4 =
        methodName code ++ '(' :: rest := List.drop_left' (by decide)
    refine ⟨rest, ?_⟩
    rw [functionOf, if_pos hstart, String.toList_append, Text.dropChars, hrest, List.append_assoc,
      List.append_assoc, hdrop]
    exact congrArg ("function ".toList ++ ·) String.toList_ofList
  · rw [hfront] at hopens
    -- the word of a getter holds no parenthesis, so it would have to lie within the name
    have hstart : Text.hasStart "get " (Text.trimmed code') ≠ true := by
      intro hstart
      obtain ⟨after, hafter⟩ := hopens.exists_append (by decide) hstart
      rw [hafter, Text.startsWith_iff.2 ⟨after, rfl⟩] at hget
      cases hget
    obtain ⟨rest, hrest⟩ := hopens
    refine ⟨rest, ?_⟩
    rw [functionOf, if_neg hstart, String.toList_append, hrest, List.append_assoc]

theorem dot_not_mem_of_isName {name : List Char} (h : isName name = true) : '.' ∉ name := by
  intro hdot
  rw [isName, Bool.and_eq_true, List.all_eq_true] at h
  exact absurd (h.2 _ hdot) (by decide)

theorem functionName_of_front {code' : String} (hname : isName (methodName code) = true)
    (h : Opens (frontOf code) code'.toList) :
    functionName (Item.method (Text.trimmed code')).text = String.ofList (methodName code) := by
  refine functionName_of_opens hname (strip_opens ?_ (functionOf_opens hname h))
  intro hdot
  rcases List.mem_append.1 hdot with hword | hdot
  · exact absurd hword (by decide)
  · exact dot_not_mem_of_isName hname hdot

/-- The names of the methods of a state. -/
def methodNames (state : Fields) : List String :=
  state.filterMap fun field => (method? field.2).map fun code => String.ofList (methodName code)

theorem values_of_keepsFields {refs : List String} {state state' : Fields}
    (h : List.Forall₂ (KeepsField refs) state state') : values state' = values state := by
  induction h with
  | nil => rfl
  | cons hfield _ ih =>
    obtain ⟨hkey, hvalue⟩ := hfield
    unfold values at ih ⊢
    rw [List.filterMap_cons, List.filterMap_cons, hvalue.isSome, ← hkey, ih]

/-- Calling getters and renaming handles keep the names of the functions, if they spare the fronts
of the methods. -/
theorem functions_of_keepsFields {refs : List String} {state state' : Fields}
    (h : List.Forall₂ (KeepsField refs) state state')
    (hplain : ∀ field ∈ state, ∀ code, method? field.2 = some code →
      '(' ∈ code.toList ∧ isName (methodName code) = true ∧ SparedFront refs (frontOf code)) :
    functions state' = methodNames state := by
  induction h with
  | nil =>
    have hfunctions : functions [] = [] := rfl
    exact hfunctions
  | @cons field field' state state' hfield _ ih =>
    obtain ⟨hplain, hrest⟩ := List.forall_mem_cons.1 hplain
    cases hmethod : method? field.2 with
    | none =>
      have hnone : method? field'.2 = none := by
        rw [← Option.isNone_iff_eq_none, ← Option.not_isSome, hfield.2.isSome, hmethod]
        rfl
      rw [functions_of_value _ hnone, ih hrest, methodNames, methodNames,
        List.filterMap_cons_none (by rw [hmethod]; rfl)]
    | some code =>
      obtain ⟨hparen, hname, hspared⟩ := hplain code hmethod
      obtain ⟨code', hcode', hopens⟩ :=
        hfield.2.front hspared hmethod (opens_frontOf hparen)
      rw [functions_of_method _ hcode', functionName_of_front hname hopens, ih hrest,
        methodNames, methodNames, List.filterMap_cons_some (by rw [hmethod]; rfl)]

end State

/-- The scope of a body as it is written in a component. -/
def Component.scope (c : Component) : Scope :=
  ⟨State.values c.state, State.methodNames c.state, c.refs, c.init.truthy⟩

/-- Whether handles are texts without dots and parentheses, and each method starts with its name and
mentions no handle in front of its parameters. -/
structure Component.Plain (c : Component) : Prop where
  refs : ∀ h ∈ c.heads, ∀ value, h.bindings.get? refKey = some value →
    ∃ s : String, value = .str s ∧ '.' ∉ s.toList ∧ '(' ∉ s.toList
  methods : ∀ field ∈ c.state, ∀ code, State.method? field.2 = some code →
    '(' ∈ code.toList ∧ isName (State.methodName code) = true ∧
      ∀ ref ∈ c.refs, Text.occurs ref.toList (State.frontOf code) = false

namespace Component

variable {c : Component}

theorem mem_addNew {names more : List String} (h : name ∈ addNew names more) :
    name ∈ names ∨ name ∈ more := by
  induction more generalizing names with
  | nil => exact .inl h
  | cons first more ih =>
    rcases ih h with hnames | hmore
    · split at hnames
      · exact .inl hnames
      · rcases List.mem_append.1 hnames with hold | hnew
        · exact .inl hold
        · exact .inr (List.mem_singleton.1 hnew ▸ List.mem_cons_self)
    · exact .inr (List.mem_cons_of_mem _ hmore)

theorem mem_of_mem_trim {c : Char} {s : List Char} (h : c ∈ Text.trim s) : c ∈ s := by
  rw [Text.trim, Text.trimEnd, List.mem_reverse] at h
  exact (List.dropWhile_sublist _).subset (List.mem_reverse.1 ((List.dropWhile_sublist _).subset h))

/-- A handle of a plain component has no parenthesis in its name. -/
theorem Plain.paren_not_mem (h : c.Plain) {ref : String} (href : ref ∈ c.refs) :
    '(' ∉ ref.toList := by
  rcases mem_addNew href with hnil | hmem
  · cases hnil
  · obtain ⟨head, hhead, href⟩ := List.mem_filterMap.1 hmem
    unfold Head.ref? at href
    split at href
    · rename_i s hget
      obtain ⟨text, heq, -, hparen⟩ := h.refs head hhead _ hget
      obtain rfl := Json.str.inj heq
      split at href
      · cases href
      · obtain rfl := Option.some.inj href
        intro hmem
        rw [Text.trimmed, String.toList_ofList] at hmem
        exact hparen (mem_of_mem_trim hmem)
    · cases href

/-- So no handle is renamed in the front of a method. -/
theorem Plain.sparedFront (h : c.Plain) {field : Json × Json} (hfield : field ∈ c.state)
    (hcode : State.method? field.2 = some code) : SparedFront c.refs (State.frontOf code) := by
  obtain ⟨-, hname, hrefs⟩ := h.methods field hfield code hcode
  refine ⟨?_, fun ref => h.paren_not_mem, hrefs⟩
  obtain ⟨blanks, hfront, hblanks⟩ := State.exists_blank_append_trimStart (State.frontOf code)
  have hdot := State.dot_not_mem_of_isName hname
  intro hmem
  rw [hfront, List.mem_append] at hmem
  rcases hmem with hblank | hmem
  · exact absurd (hblanks _ hblank) (by decide)
  · rcases State.trimStart_frontOf code with hget | ⟨hname, -⟩
    · rw [hget, List.mem_append] at hmem
      exact hmem.elim (by decide) hdot
    · exact hdot (hname ▸ hmem)

/-- **The scope of a body can be read off a component that is written plainly.** -/
theorem Plain.scope_eq (hplain : c.Plain) {styles : StyleStrategy} {p : Prepared}
    (h : (prepare .useState styles c).outcome = .ok p) : p.scope = c.scope := by
  have hrefs : p.refs = c.refs := by
    refine refs_of_prepare ?_ h
    intro head hhead value hvalue
    obtain ⟨s, rfl, hdot, -⟩ := hplain.refs head hhead value hvalue
    exact ⟨s, rfl, hdot⟩
  have hfields := KeepsFields.of_prepare h
  have hfunctions : State.functions p.component.state = State.methodNames c.state := by
    refine State.functions_of_keepsFields hfields ?_
    intro field hfield code hcode
    obtain ⟨hparen, hname, -⟩ := hplain.methods field hfield code hcode
    rw [hrefs]
    exact ⟨hparen, hname, hplain.sparedFront hfield hcode⟩
  rw [Prepared.scope, scope, State.values_of_keepsFields hfields, hfunctions, hrefs,
    (SameUses.of_prepare h).1.init]

end Component

/-! ## Compilations -/

/-- **When the names of a body are usable.** A compilation with a hook for each field of the state,
without plugins and formatting, writes items into the body that declare names. These are distinct
identifiers exactly if the scope of the body is clear. An assignment to a value then becomes a call
of the setter of this value and of no other one. The values in the scope are those of the component;
if the component is written plainly, the whole scope can be read off it. -/
theorem compile_names_usable_iff {host : Host} {o : Options} {c : Component}
    {source : String} (hstate : o.state = .useState) (hplugins : o.plugins = [])
    (hformat : o.format = false) (h : (c.compile host o).outcome = .ok source) :
    ∃ (p : Prepared) (parts : Parts) (code : String),
      (prepare .useState o.styles c).outcome = .ok p ∧
      partsOf .useState o.styles p p.component = .ok parts ∧ source = parts.assemble ∧
      [parts.state, parts.refs, parts.init, parts.mount] =
        (p.blocks .useState code).map Item.block ∧
      (∀ item ∈ (p.blocks .useState code).flatten, item.Declares) ∧
      (Usable ((p.blocks .useState code).flatten.flatMap Item.names) ↔ p.scope.Clear) ∧
      (p.scope.Clear → ∀ t field, State.assignedField? t = some field →
        String.ofList field ∈ State.values c.state → ∃ name pieces,
          State.setterCall t = some (.text (name ++ "(").toList :: pieces) ∧
          (p.blocks .useState code).flatten.filterMap (Item.setBy? name) =
            [String.ofList field]) ∧
      p.scope.values = State.values c.state ∧ p.scope.starts = c.init.truthy ∧
      (c.Plain → p.scope = c.scope) := by
  rw [outcome_compile hplugins hformat, hstate] at h
  obtain ⟨p, hp, h⟩ := bind_eq_ok.1 h
  obtain ⟨parts, hparts, h⟩ := bind_eq_ok.1 h
  obtain ⟨huses, hdeclared⟩ := Component.SameUses.of_prepare hp
  obtain ⟨code, htexts⟩ := texts_of_partsOf hdeclared hparts
  have hvalues := State.values_of_keepsFields (Component.KeepsFields.of_prepare hp)
  refine ⟨p, parts, code, hp, hparts, (Except.ok.inj h).symm, htexts, fun item _ => item.declares,
    (Usable.perm (p.perm_names code)).trans Scope.usable_iff_clear, ?_, hvalues, huses.init,
    fun hplain => hplain.scope_eq hp⟩
  intro hclear t field hfield hvalue
  refine ⟨State.setter (String.ofList field), [.part .right, .text [')']], ?_, ?_⟩
  · rw [State.setterCall, hfield, String.toList_append, State.toList_setter, String.toList_ofList]
    rfl
  · rw [← hvalues] at hvalue
    exact p.filterMap_setBy? code hclear hvalue

/-- A component with a value, a getter, a handle and something to run before the first rendering. -/
def counterBox : Component :=
  ⟨.str "App",
    [(.str "count", .int 0),
     (.str "next", .str "@jsx-lite/method:get next() \x7b return state.count + 1 \x7d")],
    .str "go()", .null, [], [⟨⟨.str "input", [], [(.str "ref", .str "box")]⟩, []⟩]⟩

theorem compile_names_usable_iff_counterBox :
    ∃ (source : String) (p : Prepared) (parts : Parts) (code : String),
      (counterBox.compile .bare State.perField).outcome = .ok source ∧
      (prepare .useState .emotion counterBox).outcome = .ok p ∧ source = parts.assemble ∧
      [parts.state, parts.refs, parts.init, parts.mount] =
        (p.blocks .useState code).map Item.block ∧
      p.scope.names = ["count", "next", "box", "setCount", "firstRender", "setFirstRender"] ∧
      Usable ((p.blocks .useState code).flatten.flatMap Item.names) := by
  have hcompiles : (counterBox.compile .bare State.perField).outcome.toOption.isSome = true := by
    decide +kernel
  obtain ⟨source, hsource⟩ := Option.isSome_iff_exists.1 hcompiles
  have hok := State.ok_of_toOption hsource
  obtain ⟨p, parts, code, hp, -, hassemble, htexts, -, husable, -, -, -, -⟩ :=
    compile_names_usable_iff rfl rfl rfl hok
  change (prepare .useState .emotion counterBox).outcome = .ok p at hp
  have hscope : (prepare .useState .emotion counterBox).outcome.toOption.map
      (fun p => (p.scope.names, decide p.scope.Clear)) =
      some (["count", "next", "box", "setCount", "firstRender", "setFirstRender"], true) := by
    decide +kernel
  rw [hp] at hscope
  obtain ⟨hnames, hclear⟩ := Prod.mk.inj (Option.some.inj hscope)
  exact ⟨source, p, parts, code, hok, hp, hassemble, htexts, hnames,
    husable.2 (of_decide_eq_true hclear)⟩

/-- A component with two values that differ in the case of their first character. -/
def twins : Component :=
  ⟨.str "App", [(.str "count", .int 0), (.str "Count", .int 1)], .null, .null, [], []⟩

/-- The source of the component with two values. -/
def twinsSource : String :=
  "import \x7b useState \x7d from 'react';\n\nexport default function App(props) \x7b\n" ++
    "  const [count, setCount] = useState(() => (0));\n" ++
    "  const [Count, setCount] = useState(() => (1));\n\n  return (\n    <>\n\n    </>\n" ++
    "  );\n\x7d\n"

/-- Both values have the same setter, so the body binds it twice, and an assignment to one of them
calls the setter of both. -/
theorem compile_binds_setter_twice :
    (twins.compile .bare State.perField).outcome = .ok twinsSource ∧
      ∃ p, (prepare .useState .emotion twins).outcome = .ok p ∧ ∀ code,
        (p.blocks .useState code).flatten.flatMap Item.names =
            ["count", "setCount", "Count", "setCount"] ∧
          ¬ Usable ((p.blocks .useState code).flatten.flatMap Item.names) ∧
          (p.blocks .useState code).flatten.filterMap (Item.setBy? (State.setter "count")) =
            ["count", "Count"] := by
  have hsource : (twins.compile .bare State.perField).outcome.toOption = some twinsSource := by
    decide +kernel
  have hprepared : ((prepare .useState .emotion twins).outcome.toOption.map fun p =>
      (p.component.onMount.truthy, (p.blocks .useState "").flatten.flatMap Item.names,
        (p.blocks .useState "").flatten.filterMap (Item.setBy? (State.setter "count")))) =
      some (false, ["count", "setCount", "Count", "setCount"], ["count", "Count"]) := by
    decide +kernel
  obtain ⟨p, hp, heq⟩ := Option.map_eq_some_iff.1 hprepared
  obtain ⟨hmount, heq⟩ := Prod.mk.inj heq
  obtain ⟨hnames, hset⟩ := Prod.mk.inj heq
  refine ⟨State.ok_of_toOption hsource, p, State.ok_of_toOption hp, fun code => ?_⟩
  -- Without an effect, it does not matter which code the effect would run.
  have hblocks : p.blocks .useState code = p.blocks .useState "" := by
    rw [Prepared.blocks, Prepared.blocks, hmount]
    rfl
  rw [hblocks, hnames]
  exact ⟨rfl, fun husable => absurd husable.2 (by decide), hset⟩

end ReactWeave
