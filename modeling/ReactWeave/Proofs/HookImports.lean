import ReactWeave.Proofs.Literals
import ReactWeave.Proofs.StyleAttributes

/-!
# ReactWeave.Proofs.HookImports

**Which hooks are imported.**

The body of a compiled component starts with the items that the compiler writes:
the state, the handles, the block for the first rendering and the effect. Some of
them call a hook. Whether a hook is imported is decided elsewhere, from the text
of the state and from what the component holds, so the two have to agree.

* `compile_imports_used_hooks_iff`: the hooks that are imported are those that
  are called, unless all fields of the state are methods.
-/

namespace ReactWeave

/-! ## Items -/

/-- What the compiler writes into the body of a component, in front of the markup. -/
inductive Item where
  /-- A value of the state and its setter. -/
  | pair (key initial : String)
  /-- A method of the state. -/
  | method (code : String)
  /-- The object that holds the state. -/
  | object (strategy : StateStrategy) (state : Fields)
  | handle (name : String)
  /-- The flag of the first rendering, and what runs before it. -/
  | firstRender (code : String)
  /-- What runs after the first rendering. -/
  | effect (code : String)
  deriving Repr

variable {strategy : StateStrategy} {c : Component} {styles : StyleStrategy} {p : Prepared}
  {f : Json → Outcome Json}

namespace Item

def text : Item → String
  | pair key initial => State.hookLine key initial
  | method code => State.strip "state" (State.functionOf code)
  | object strategy state => State.objectDeclaration strategy state
  | handle name => "const " ++ name ++ " = useRef();"
  | firstRender code => Lifecycle.firstRender code
  | effect code => Lifecycle.effect code

/-- The hook that an item calls. -/
def hook? : Item → Option Hook
  | pair _ _ => some .useState
  | firstRender _ => some .useState
  | handle _ => some .useRef
  | effect _ => some .useEffect
  | method _ => none
  | object _ _ => none

/-- An item that needs a hook has the call of it in its text. -/
theorem call_infix_text {item : Item} {hook : Hook} (h : item.hook? = some hook) :
    (hook.name ++ "(").toList <:+: item.text.toList := by
  cases item with
  | pair key initial =>
    cases h
    refine ⟨("const [" ++ key ++ ", set" ++ Naming.capitalize key ++ "] = ").toList,
      ("() => (" ++ initial ++ "));").toList, ?_⟩
    simp only [text, State.hookLine, Hook.name, String.toList_append, List.append_assoc]
    rfl
  | firstRender code =>
    cases h
    refine List.IsInfix.trans ?_ (infix_intercalate "\n" List.mem_cons_self)
    exact ⟨"const [firstRender, setFirstRender] = ".toList, "true);".toList, by decide⟩
  | handle name =>
    cases h
    refine ⟨("const " ++ name ++ " = ").toList, ");".toList, ?_⟩
    simp only [text, Hook.name, String.toList_append, List.append_assoc]
    rfl
  | effect code =>
    cases h
    refine List.IsInfix.trans ?_ (infix_intercalate "\n" List.mem_cons_self)
    exact ⟨[], "() => \x7b".toList, by decide⟩
  | method code => cases h
  | object strategy state => cases h

/-- The item for a field that has its own hook, or for a method. -/
def ofField (key value : Json) : Item :=
  match State.Value.ofJson value with
  | .code .method code => method (Text.trimmed code)
  | .code .function code => pair key.asText (State.strip "state" code)
  | .data data => pair key.asText (State.strip "state" (Json5.write data))

/-- The text of neighbouring items, each on a line of its own. -/
def block (items : List Item) : String := "\n".intercalate (items.map text)

theorem text_of_pairDeclaration {key : Json} {initial line : String}
    (h : State.pairDeclaration key initial = .ok line) :
    line = (pair key.asText (State.strip "state" initial)).text := by
  obtain ⟨capital, hcapital, h⟩ := bind_eq_ok.1 h
  cases key with
  | str name =>
    cases hcapital
    exact (Except.ok.inj h).symm
  | null | bool _ | int _ | real _ | arr _ | obj _ => cases hcapital

theorem text_of_fieldDeclaration {key value : Json} {line : String}
    (h : State.fieldDeclaration key value = .ok line) : line = (ofField key value).text := by
  unfold State.fieldDeclaration at h
  unfold ofField
  cases hvalue : State.Value.ofJson value with
  | data data =>
    rw [hvalue] at h
    exact text_of_pairDeclaration h
  | code tag code =>
    rw [hvalue] at h
    cases tag with
    | function => exact text_of_pairDeclaration h
    | method => exact (Except.ok.inj h).symm

/-- The items of the state. -/
def ofState (strategy : StateStrategy) (state : Fields) : List Item :=
  if state.isEmpty then []
  else
    match strategy with
    | .useState => state.map fun f => ofField f.1 f.2
    | strategy => [object strategy state]

theorem block_of_fieldDeclarations {state : Fields} {declaration : String}
    (h : State.fieldDeclarations state = .ok declaration) :
    declaration = block (state.map fun f => ofField f.1 f.2) := by
  obtain ⟨lines, hlines, h⟩ := bind_eq_ok.1 h
  obtain rfl := Except.ok.inj h
  have htexts : List.Forall₂ Eq (state.map fun f => (ofField f.1 f.2).text) lines := by
    rw [List.forall₂_map_left_iff]
    exact (forall₂_of_mapM hlines).imp fun _ _ hline => (text_of_fieldDeclaration hline).symm
  rw [List.forall₂_eq_eq_eq] at htexts
  rw [← htexts, block, List.map_map]
  rfl

/-- The declaration of the state is the block of its items. -/
theorem block_of_declaration {state : Fields} {declaration : String}
    (h : State.declaration strategy state = .ok declaration) :
    declaration = block (ofState strategy state) := by
  unfold State.declaration at h
  unfold ofState
  split
  · rename_i hempty
    rw [if_pos hempty] at h
    exact (Except.ok.inj h).symm
  · rename_i hne
    rw [if_neg hne] at h
    cases strategy with
    | useState => exact block_of_fieldDeclarations h
    | _ =>
      obtain rfl := Except.ok.inj h
      simp [block, text]

/-- The hooks that items call, in the order in which hooks are imported. -/
def hooks (items : List Item) : List Hook :=
  Hook.all.filter fun hook => items.any fun item => item.hook? == some hook

end Item

/-! ## Lines of hooks -/

namespace Hook

/-- The import of some hooks; nothing if there are none. -/
def line (hooks : List Hook) : String :=
  if hooks.isEmpty then ""
  else "import \x7b " ++ ", ".intercalate (hooks.map name) ++ " \x7d from 'react';"

theorem importLine_eq_line (used : List String) :
    importLine used = line (all.filter fun hook => used.contains hook.name) := by
  have hnames : (all.map name).filter (fun n => used.contains n) =
      (all.filter fun hook => used.contains hook.name).map name := List.filter_map
  simp only [importLine, line, hnames, List.isEmpty_map]

theorem line_eq_empty {hooks : List Hook} : line hooks = "" ↔ hooks = [] := by
  cases hooks with
  | nil => simp [line]
  | cons hook hooks => simp [line]

theorem line_cons_ne (hook : Hook) (hooks : List Hook) : line (hook :: hooks) ≠ line hooks := by
  intro heq
  have hlength := congrArg String.length heq
  cases hooks with
  | nil => simp [line, String.length_append] at hlength
  | cons next hooks =>
    simp only [line, List.isEmpty_cons, List.map_cons, String.intercalate_cons_cons,
      Bool.false_eq_true, if_false, String.length_append] at hlength
    simp at hlength

end Hook

/-! ## Bodies -/

/-- The items of a body, in blocks: the state, the handles, what runs before the first rendering and
what runs after it. The effect runs `code`. -/
def Prepared.blocks (strategy : StateStrategy) (p : Prepared) (code : String) : List (List Item) :=
  [Item.ofState strategy p.component.state,
   p.refs.map .handle,
   if p.component.init.truthy then [.firstRender (Text.trimmed p.component.init.asText)] else [],
   if p.component.onMount.truthy then [.effect code] else []]

/-- The code before the first rendering is a block with the flag. -/
theorem block_of_initCode {text : String} (h : Lifecycle.initCode c = .ok text) :
    text = Item.block
      (if c.init.truthy then [.firstRender (Text.trimmed c.init.asText)] else []) := by
  unfold Lifecycle.initCode at h
  split
  · rename_i htruthy
    rw [if_pos htruthy] at h
    obtain ⟨code, hcode, rfl⟩ := map_eq_ok.1 h
    cases hinit : c.init with
    | str s =>
      rw [hinit] at hcode
      obtain rfl := Except.ok.inj hcode
      simp [Item.block, Item.text, Json.asText]
    | null | bool _ | int _ | real _ | arr _ | obj _ =>
      rw [hinit] at hcode
      cases hcode
  · rename_i hfalsy
    rw [if_neg hfalsy] at h
    exact (Except.ok.inj h).symm

/-- The code after it is a block with an effect. -/
theorem block_of_mountCode {text : String} (h : Lifecycle.mountCode strategy c = .ok text) :
    ∃ code, text = Item.block (if c.onMount.truthy then [.effect code] else []) := by
  unfold Lifecycle.mountCode at h
  split at h
  · rename_i htruthy
    obtain ⟨code, rfl⟩ : ∃ code, Lifecycle.effect code = text := by
      cases strategy with
      | useState | mobx | valtio | solid | builder =>
        obtain ⟨mount, -, h⟩ := bind_eq_ok.1 h
        obtain ⟨processed, -, h⟩ := bind_eq_ok.1 h
        obtain ⟨code, -, h⟩ := bind_eq_ok.1 h
        exact ⟨code, Except.ok.inj h⟩
    exact ⟨code, by simp [Item.block, Item.text, htruthy]⟩
  · rename_i hfalsy
    obtain rfl := Except.ok.inj h
    exact ⟨"", by rw [if_neg hfalsy]; rfl⟩

/-- **The parts of a body are the texts of its items.** -/
theorem texts_of_partsOf {parts : Parts}
    (hstate : State.declaration strategy p.component.state = .ok p.state)
    (h : partsOf strategy styles p p.component = .ok parts) :
    ∃ code, [parts.state, parts.refs, parts.init, parts.mount] =
      (p.blocks strategy code).map Item.block := by
  have hparts := steps_of_partsOf h
  obtain ⟨code, hcode⟩ := block_of_mountCode hparts.mount
  have hrefs : parts.refs = Item.block (p.refs.map .handle) := by
    rw [hparts.refs, Item.block, List.map_map]
    rfl
  refine ⟨code, ?_⟩
  rw [hparts.state, Item.block_of_declaration hstate, hrefs, block_of_initCode hparts.init, hcode]
  rfl

/-! ## What a preparation keeps -/

namespace State

/-- The tag of a value of the state; data has none. -/
def tag? (value : Json) : Option Tag :=
  match Value.ofJson value with
  | .code tag _ => some tag
  | .data _ => none

/-- A text that starts with a tag is read as this tag and the code behind it. -/
theorem ofJson_text (tag : Tag) (code : String) :
    Value.ofJson (.str (tag.text ++ code)) = .code tag code := by
  have hcut : Text.dropChars tag.text.length (tag.text ++ code) = code := by
    rw [Text.dropChars, String.toList_append, ← String.length_toList, List.drop_left,
      String.ofList_toList]
  have hself : Text.hasStart tag.text (tag.text ++ code) = true := by
    rw [Text.hasStart, String.toList_append]
    exact Text.startsWith_iff.2 ⟨_, rfl⟩
  cases tag with
  | function =>
    rw [Tag.text] at hself hcut
    simp [Value.ofJson, Tag.text, hself, hcut]
  | method =>
    rw [Tag.text] at hself hcut
    have hother : Text.hasStart functionTag (methodTag ++ code) = false := by
      rw [Text.hasStart, String.toList_append]
      rfl
    simp [Value.ofJson, Tag.text, hself, hother, hcut]

theorem tag?_text (tag : Tag) (code : String) : tag? (.str (tag.text ++ code)) = some tag := by
  rw [tag?, ofJson_text]

theorem eq_of_ofJson_eq_data {value data : Json} (h : Value.ofJson value = .data data) :
    data = value := by
  unfold Value.ofJson at h
  split at h
  · split at h
    · cases h
    · split at h
      · cases h
      · exact (Value.data.inj h).symm
  · exact (Value.data.inj h).symm

theorem tag?_of_mapCode {value new : Json} (h : Value.mapCode f value = .ok new) :
    tag? new = tag? value := by
  unfold Value.mapCode at h
  cases hvalue : Value.ofJson value with
  | code tag code =>
    rw [hvalue] at h
    obtain ⟨changed, -, rfl⟩ := map_eq_ok.1 h
    rw [tag?_text, tag?, hvalue]
  | data data =>
    rw [hvalue] at h
    obtain rfl := Except.ok.inj h
    rw [eq_of_ofJson_eq_data hvalue]

end State

namespace Component

/-- The tags of the fields of the state. -/
def tags (c : Component) : List (Option State.Tag) := c.state.map fun f => State.tag? f.2

/-- Whether there is a state, and all its fields are methods. -/
def hasOnlyMethods (c : Component) : Bool :=
  !c.tags.isEmpty && c.tags.all (· == some .method)

/-- Whether a component has fields with the same tags as another one, and something to run before
the first rendering exactly if that one has. -/
structure SameUses (c c' : Component) : Prop where
  tags : c'.tags = c.tags
  init : c'.init.truthy = c.init.truthy

variable {c c' c'' : Component}

theorem SameUses.refl (c : Component) : c.SameUses c := ⟨rfl, rfl⟩

theorem SameUses.trans (h : c.SameUses c') (h' : c'.SameUses c'') : c.SameUses c'' :=
  ⟨h'.tags.trans h.tags, h'.init.trans h.init⟩

/-- Whether a change of codes leaves none of them empty. -/
def KeepsTruth (f : Json → Outcome Json) : Prop :=
  ∀ code new : Json, code.truthy = true → f code = .ok new → new.truthy = true

/-- Passes that keep what is blank keep the uses of hooks. -/
theorem SameUses.of_passed {spared : Json → Bool} (hf : KeepsTruth f) (h : Passed f spared c c') :
    c.SameUses c' := by
  constructor
  · have htags : List.Forall₂ Eq c.tags c'.tags := by
      unfold Component.tags
      rw [List.forall₂_map_left_iff, List.forall₂_map_right_iff]
      exact h.state.imp fun _ _ hfield => (State.tag?_of_mapCode hfield.2).symm
    rw [List.forall₂_eq_eq_eq] at htags
    exact htags.symm
  · have hinit := h.init
    unfold passHook at hinit
    split at hinit
    · rename_i htruthy
      exact (hf _ _ htruthy hinit).trans htruthy.symm
    · rw [Except.ok.inj hinit]

end Component

theorem Script.splice_ne_nil {s : List Char} {es : List Script.Edit} (hs : s ≠ [])
    (hes : ∀ e ∈ es, e.text ≠ []) : Script.splice s es ≠ [] := by
  cases es with
  | nil => exact hs
  | cons e es => simp [Script.splice, Script.spliceFrom, hes e List.mem_cons_self]

theorem Script.text_ne_nil_of_mem_renamings {names : List String} {f : Script.Fragment} :
    ∀ e ∈ f.renamings names, e.text ≠ [] := by
  intro e he
  obtain ⟨o, -, rfl⟩ := List.mem_map.1 he
  simp [Script.Occurrence.become, currentElement]

theorem Code.asText_ne_of_mentionsAny {names : List String} {code : Json}
    (htruthy : code.truthy = true) (h : Code.mentionsAny code names = .ok true) :
    code.asText.toList ≠ [] := by
  cases code with
  | str s => simpa [Json.truthy, Json.asText] using htruthy
  | arr items => simp [Json.asText, Json.display]
  | obj fields => simp [Json.asText, Json.display]
  | null | bool _ | int _ | real _ => cases names <;> cases h

/-- Renaming makes no code blank and no blank code anything else. -/
theorem Code.keepsTruth_rename (names : List String) :
    Component.KeepsTruth (Code.rename names currentElement) := by
  intro code new htruthy h
  unfold Code.rename at h
  split at h
  · cases h
  · obtain rfl := Except.ok.inj h
    exact htruthy
  · rename_i hmentions
    obtain ⟨text, htext, rfl⟩ := map_eq_ok.1 h
    change Code.rewrite (Script.renamer names currentElement) code = .ok text at htext
    unfold Code.rewrite at htext
    split at htext
    · rename_i f hf
      obtain rfl := Except.ok.inj htext
      -- The new text is the old one with texts put in, none of which is empty.
      have hne : f.rewrite (Script.renamer names currentElement) ≠ [] := by
        rw [Script.Fragment.rewrite_rename (Code.parse_eq_ok.1 hf)]
        exact Script.splice_ne_nil (Code.asText_ne_of_mentionsAny htruthy hmentions)
          Script.text_ne_nil_of_mem_renamings
      simpa [Json.truthy] using hne
    · cases htext

namespace State

theorem getterCall_eq_cons {name : List Char} {template : List TemplatePart}
    (h : getterCall name = .ok template) : ∃ parts, template = .text ['s'] :: parts := by
  obtain ⟨parts, -, h⟩ := bind_eq_ok.1 h
  exact ⟨parts, (Except.ok.inj h).symm⟩

theorem keepsTruth_callGetter (name : String) : Component.KeepsTruth (callGetter name) := by
  intro code new htruthy h
  obtain ⟨template, htemplate, h⟩ := bind_eq_ok.1 h
  obtain ⟨parts, rfl⟩ := getterCall_eq_cons htemplate
  cases code with
  | str s =>
    obtain rfl := Except.ok.inj h
    cases hs : s.toList with
    | nil => simp [Json.truthy, String.toList_eq_nil_iff.1 hs] at htruthy
    | cons c rest =>
      simp only [Json.truthy, callFrom]
      split <;> simp [Template.fill]
  | null | bool _ | int _ | real _ | arr _ | obj _ => cases h

theorem keepsTruth_callGetters (names : List String) :
    Component.KeepsTruth (callGetters names) := by
  induction names with
  | nil =>
    intro code new htruthy h
    obtain rfl := Except.ok.inj h
    exact htruthy
  | cons name names ih =>
    intro code new htruthy h
    obtain ⟨called, hcalled, h⟩ := bind_eq_ok.1 h
    exact ih _ _ (keepsTruth_callGetter name _ _ htruthy hcalled) h

end State

namespace Component

variable {c c' : Component}

theorem SameUses.of_mapRefs (h : (c.mapRefs currentElement).toOutcome = .ok c') :
    c.SameUses c' := by
  rcases passed_of_mapRefs h with rfl | h
  · exact .refl _
  · exact .of_passed (Code.keepsTruth_rename c.refs) h

theorem SameUses.of_prepareState (h : prepareState strategy c = .ok c') : c.SameUses c' := by
  cases strategy with
  | useState =>
    obtain ⟨called, hgetters, hsetters⟩ := Progress.andThen_eq_ok.1 h
    obtain ⟨children, rfl, -⟩ := eq_of_passBindings hsetters
    rcases passed_of_passGetters hgetters with rfl | ⟨names, h⟩
    · exact ⟨rfl, rfl⟩
    · exact (SameUses.of_passed (State.keepsTruth_callGetters names) h).trans ⟨rfl, rfl⟩
  | _ =>
    obtain rfl := Except.ok.inj h
    exact .refl c

/-- **A preparation keeps the tags of the state**, and whether something runs before the first
rendering. -/
theorem SameUses.of_prepare {state : StateStrategy} (h : (prepare state styles c).outcome = .ok p) :
    c.SameUses p.component ∧ State.declaration state p.component.state = .ok p.state := by
  obtain ⟨⟨set, mapped, hset, hmapped, hstyles, -, -, hdeclaration⟩⟩ := exists_preparation h
  obtain ⟨⟨children, hchildren⟩, -⟩ := eq_of_prepareStyles hstyles
  have huses := (SameUses.of_prepareState hset).trans (.of_mapRefs hmapped)
  refine ⟨?_, hdeclaration⟩
  rw [hchildren]
  exact ⟨huses.tags, huses.init⟩

end Component

/-! ## Imported and used -/

theorem Item.hook?_ofField (key value : Json) : (ofField key value).hook? =
    if State.tag? value = some .method then none else some .useState := by
  unfold ofField State.tag?
  cases State.Value.ofJson value with
  | data data => rfl
  | code tag code => cases tag <;> rfl

/-- The item of a field is never blank. -/
theorem Item.isBlankText_ofField (key value : Json) :
    Text.isBlankText (ofField key value).text.toList = false := by
  have hpair (key initial : String) : Text.isBlankText (pair key initial).text.toList = false := by
    have hhead : (pair key initial).text.toList = 'c' ::
        ("onst [" ++ key ++ ", set" ++ Naming.capitalize key ++ "] = useState(() => (" ++ initial ++
          "));").toList := by
      simp [text, State.hookLine]
    rw [hhead]
    rfl
  unfold ofField
  split
  · -- No access starts with the word that opens a function.
    rename_i code _
    have hhead : ∃ rest, (method (Text.trimmed code)).text.toList = 'f' :: rest := by
      simp only [text, State.strip, State.functionOf, String.toList_append, String.toList_ofList]
      exact ⟨_, rfl⟩
    obtain ⟨rest, hrest⟩ := hhead
    rw [hrest]
    rfl
  · exact hpair _ _
  · exact hpair _ _

theorem isBlankText_of_infix {s t : List Char} (h : s <:+: t)
    (hs : Text.isBlankText s = false) : Text.isBlankText t = false := by
  rw [Text.isBlankText, List.all_eq_false] at hs ⊢
  obtain ⟨c, hc, hblank⟩ := hs
  exact ⟨c, h.subset hc, hblank⟩

theorem Item.isBlankText_ofState (state : Fields) :
    Text.isBlankText (block (ofState .useState state)).toList = state.isEmpty := by
  cases state with
  | nil => rfl
  | cons f state =>
    refine isBlankText_of_infix (infix_intercalate "\n" List.mem_cons_self) ?_
    exact isBlankText_ofField f.1 f.2

theorem hooks_of_partsOf {parts : Parts} (h : partsOf strategy styles p c = .ok parts) :
    parts.hooks = Hook.line
      (Hook.all.filter fun hook => (usedHooks strategy p c).contains hook.name) :=
  (steps_of_partsOf h).hooks.trans (Hook.importLine_eq_line _)

/-- Which hooks are called for what a body holds: fields of the state with hooks of their own,
handles, something to run before the first rendering, and something to run after it. -/
def Hook.isCalledFor (fields handles init mount : Bool) : Hook → Bool
  | useState => fields || init
  | useRef => handles
  | useEffect => mount

/-- **What is imported.** Whatever the fields are, they ask for the hook of the state. -/
theorem contains_usedHooks (hstate : State.declaration strategy p.component.state = .ok p.state)
    (hook : Hook) :
    (usedHooks strategy p p.component).contains hook.name =
      hook.isCalledFor (strategy = .useState && !p.component.tags.isEmpty) (!p.refs.isEmpty)
        p.component.init.truthy p.component.onMount.truthy := by
  have hblank : (decide (strategy = .useState) && !Text.isBlankText p.state.toList) =
      (decide (strategy = .useState) && !p.component.tags.isEmpty) := by
    by_cases hstrategy : strategy = .useState
    · subst hstrategy
      rw [Item.block_of_declaration hstate, Item.isBlankText_ofState, Component.tags,
        List.isEmpty_map]
    · simp [hstrategy]
  -- What is left depends on four flags and the hook.
  unfold usedHooks
  rw [hblank]
  generalize (decide (strategy = .useState) && !p.component.tags.isEmpty) = fields
  generalize p.component.init.truthy = init
  generalize p.component.onMount.truthy = mount
  cases fields <;> cases init <;> cases p.refs.isEmpty <;> cases mount <;> cases hook <;> rfl

theorem Item.any_map {α : Type} {f : α → Item} {own : Hook} (calls : α → Bool)
    (hf : ∀ a, (f a).hook? = if calls a then some own else none) (xs : List α) (hook : Hook) :
    ((xs.map f).any fun item => item.hook? == some hook) = (xs.any calls && hook == own) := by
  have hstep : ∀ a, ((f a).hook? == some hook) = (calls a && hook == own) := by
    intro a
    rw [hf a]
    cases calls a <;> cases hook <;> cases own <;> rfl
  cases hown : hook == own <;> simp [Function.comp_def, hstep, hown]

/-- The state calls its hook exactly if a field of it is no method. -/
theorem Item.any_ofState (strategy : StateStrategy) (c : Component) (hook : Hook) :
    ((ofState strategy c.state).any fun item => item.hook? == some hook) =
      (strategy = .useState && c.tags.any (· != some .method) && hook == .useState) := by
  have hfields : ((c.state.map fun f => ofField f.1 f.2).any fun item => item.hook? == some hook) =
      (c.tags.any (· != some .method) && hook == .useState) := by
    rw [any_map fun f : Json × Json => State.tag? f.2 != some .method,
      Component.tags, List.any_map]
    · rfl
    · intro f
      rw [hook?_ofField]
      by_cases htag : State.tag? f.2 = some .method <;> simp [htag]
  unfold ofState
  split
  · rename_i hempty
    simp [Component.tags, List.isEmpty_iff.1 hempty]
  · cases strategy with
    | useState => simpa using hfields
    | _ => rfl

/-- **What is called.** Only fields that are no methods call the hook of the state. -/
theorem Prepared.any_blocks (strategy : StateStrategy) (p : Prepared) (code : String)
    (hook : Hook) : ((p.blocks strategy code).flatten.any fun item => item.hook? == some hook) =
      hook.isCalledFor (strategy = .useState && p.component.tags.any (· != some .method))
        (!p.refs.isEmpty) p.component.init.truthy p.component.onMount.truthy := by
  have hhandles : ((p.refs.map Item.handle).any fun item => item.hook? == some hook) =
      (!p.refs.isEmpty && hook == .useRef) := by
    rw [Item.any_map (fun _ => true) fun _ => rfl]
    cases p.refs <;> simp
  simp only [blocks, List.flatten_cons, List.flatten_nil, List.append_nil, List.any_append,
    Item.any_ofState, hhandles]
  generalize (decide (strategy = .useState) && p.component.tags.any (· != some .method)) = fields
  cases fields <;> cases p.component.init.truthy <;> cases p.refs.isEmpty <;>
    cases p.component.onMount.truthy <;> cases hook <;> rfl

/-- A source that imports the hook of the state for methods only. -/
def Component.importsIdly (strategy : StateStrategy) (c : Component) : Bool :=
  strategy = .useState && c.hasOnlyMethods && !c.init.truthy

/-- The hooks that are imported are those that are called, and the one of the state that is not. -/
theorem Component.filter_isCalledFor (strategy : StateStrategy) (c : Component)
    (handles mount : Bool) :
    (Hook.all.filter fun hook => hook.isCalledFor (strategy = .useState && !c.tags.isEmpty)
        handles c.init.truthy mount) =
      (if c.importsIdly strategy then [.useState] else []) ++ Hook.all.filter fun hook =>
        hook.isCalledFor (strategy = .useState && c.tags.any (· != some .method)) handles
          c.init.truthy mount := by
  have hany : c.tags.any (· != some .method) = !c.tags.all (· == some .method) := by
    rw [List.not_all_eq_any_not]
    rfl
  unfold importsIdly hasOnlyMethods
  rw [hany]
  cases htags : c.tags with
  | nil => simp
  | cons tag tags =>
    generalize (tag :: tags).all (· == some .method) = methods
    generalize c.init.truthy = init
    cases decide (strategy = .useState) <;> cases methods <;> cases init <;> cases handles <;>
      cases mount <;> rfl

/-- **The hooks that are imported are those that are called.** The items of the body are what the
source holds in front of the markup, and each has the call of its hook in it. The import lists the
hooks that they call, each once and in order, and there is none if no hook is called. The exception
are components whose state is kept in hooks and holds nothing but methods, and that have nothing to
run before the first rendering: they import the hook of the state and do not call it. -/
theorem compile_imports_used_hooks_iff {host : Host} {o : Options} {c : Component}
    {source : String} (hplugins : o.plugins = []) (hformat : o.format = false)
    (h : (c.compile host o).outcome = .ok source) :
    ∃ (p : Prepared) (parts : Parts) (code : String),
      (prepare o.state o.styles c).outcome = .ok p ∧
      partsOf o.state o.styles p p.component = .ok parts ∧ source = parts.assemble ∧
      [parts.state, parts.refs, parts.init, parts.mount] =
        (p.blocks o.state code).map Item.block ∧
      (∀ item ∈ (p.blocks o.state code).flatten, ∀ hook, item.hook? = some hook →
        (hook.name ++ "(").toList <:+: item.text.toList) ∧
      parts.hooks = Hook.line
        ((if c.importsIdly o.state then [.useState] else []) ++
          Item.hooks (p.blocks o.state code).flatten) ∧
      (parts.hooks = "" ↔
        c.importsIdly o.state = false ∧ Item.hooks (p.blocks o.state code).flatten = []) ∧
      (parts.hooks = Hook.line (Item.hooks (p.blocks o.state code).flatten) ↔
        c.importsIdly o.state = false) := by
  rw [outcome_compile hplugins hformat] at h
  obtain ⟨p, hp, h⟩ := bind_eq_ok.1 h
  obtain ⟨parts, hparts, h⟩ := bind_eq_ok.1 h
  obtain ⟨huses, hstate⟩ := Component.SameUses.of_prepare hp
  obtain ⟨code, htexts⟩ := texts_of_partsOf hstate hparts
  have hline : parts.hooks = Hook.line
      ((if c.importsIdly o.state then [.useState] else []) ++
        Item.hooks (p.blocks o.state code).flatten) := by
    have hlisted : (Hook.all.filter fun hook =>
        (usedHooks o.state p p.component).contains hook.name) = Hook.all.filter fun hook =>
          hook.isCalledFor (o.state = .useState && !c.tags.isEmpty) (!p.refs.isEmpty) c.init.truthy
            p.component.onMount.truthy := by
      simp only [contains_usedHooks hstate, huses.tags, huses.init]
    have hcalled : Item.hooks (p.blocks o.state code).flatten = Hook.all.filter fun hook =>
        hook.isCalledFor (o.state = .useState && c.tags.any (· != some .method)) (!p.refs.isEmpty)
          c.init.truthy p.component.onMount.truthy := by
      simp only [Item.hooks, Prepared.any_blocks, huses.tags, huses.init]
    rw [hooks_of_partsOf hparts, hlisted, hcalled, c.filter_isCalledFor]
  refine ⟨p, parts, code, hp, hparts, (Except.ok.inj h).symm, htexts,
    fun _ _ _ => Item.call_infix_text, hline, ?_, ?_⟩
  · rw [hline, Hook.line_eq_empty]
    cases c.importsIdly o.state <;> simp
  · rw [hline]
    cases c.importsIdly o.state with
    | false => simp
    | true => simpa using Hook.line_cons_ne _ _

/-- A component with a value, a method, a handle and something to run after the first rendering. -/
def stepper : Component :=
  ⟨.str "Stepper",
    [(.str "count", .int 0),
     (.str "next", .str "@jsx-lite/method:next() \x7b return state.count + 1 \x7d")],
    .null, .str "go()", [], [⟨⟨.str "input", [], [(.str "ref", .str "box")]⟩, []⟩]⟩

theorem compile_imports_used_hooks_iff_stepper :
    ∃ (source : String) (p : Prepared) (parts : Parts) (code : String),
      (stepper.compile .bare State.perField).outcome = .ok source ∧
      (prepare .useState .emotion stepper).outcome = .ok p ∧ source = parts.assemble ∧
      [parts.state, parts.refs, parts.init, parts.mount] =
        (p.blocks .useState code).map Item.block ∧
      parts.hooks = Hook.line (Item.hooks (p.blocks .useState code).flatten) := by
  have hidle : stepper.importsIdly .useState = false := by decide +kernel
  have hcompiles : (stepper.compile .bare State.perField).outcome.toOption.isSome = true := by
    decide +kernel
  obtain ⟨source, hsource⟩ := Option.isSome_iff_exists.1 hcompiles
  have hok := State.ok_of_toOption hsource
  obtain ⟨p, parts, code, hp, -, hassemble, htexts, -, -, -, hhooks⟩ :=
    compile_imports_used_hooks_iff rfl rfl hok
  exact ⟨source, p, parts, code, hok, hp, hassemble, htexts, hhooks.2 hidle⟩

/-- A component with a method for a state. -/
def waver : Component :=
  ⟨.str "App", [(.str "wave", .str "@jsx-lite/method:wave() \x7b return 1 \x7d")], .null, .null,
    [], []⟩

/-- The source of the component with a method for a state. -/
def waverSource : String :=
  "import \x7b useState \x7d from 'react';\n\nexport default function App(props) \x7b\n" ++
    "  function wave() \x7b return 1 \x7d\n\n  return (\n    <>\n\n    </>\n  );\n\x7d\n"

/-- The hook of the state is imported, and nothing in the body calls it. -/
theorem compile_imports_uncalled_hook :
    (waver.compile .bare State.perField).outcome = .ok waverSource ∧
      ∃ p, (prepare .useState .emotion waver).outcome = .ok p ∧
        ∀ code, Item.hooks (p.blocks .useState code).flatten = [] := by
  have hsource : (waver.compile .bare State.perField).outcome.toOption = some waverSource := by
    decide +kernel
  have hprepared : ((prepare .useState .emotion waver).outcome.toOption.map fun p =>
      (p.component.onMount.truthy, Item.hooks (p.blocks .useState "").flatten)) =
      some (false, []) := by decide +kernel
  obtain ⟨p, hp, heq⟩ := Option.map_eq_some_iff.1 hprepared
  obtain ⟨hmount, hnone⟩ := Prod.mk.inj heq
  refine ⟨State.ok_of_toOption hsource, p, State.ok_of_toOption hp, fun code => ?_⟩
  -- Without an effect, it does not matter which code the effect would run.
  rw [← hnone, Prepared.blocks, Prepared.blocks, hmount]
  rfl

end ReactWeave
