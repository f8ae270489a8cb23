import ReactWeave.Proofs.MissingBindings
import ReactWeave.Proofs.Rejection

/-!
# ReactWeave.Proofs.WellShaped

**Components that only fail in ways the user is told of.**

Loading does not check that a value has the sort that its place asks for, so a
value of another sort surfaces as a fault somewhere on the way to the source. If
all values have the right sorts, every failure that is left is no fault of the program.

* `Component.Shaped.faultless_compile` says that a compilation of such a component gives a
  source or a failure that is no fault.
-/

namespace ReactWeave

/-! ## Shapes of values -/

namespace Json

/-- The value of a field; null if there is none. -/
def fieldOf (key : String) (fields : List (String × Json)) : Json := (lookup key fields).getD .null

/-- Whether a value is a table: an object, or something that counts as absent. -/
def isTable : Json → Bool
  | obj _ => true
  | j => !j.truthy

/-- Whether a value is a table of texts. -/
def isTextTable : Json → Bool
  | obj fields => fields.all fun f => f.2.isText
  | j => !j.truthy

/-- Whether a value is the code of a hook, or none. -/
def isHook : Json → Bool
  | null => true
  | j => j.isText

/-- Whether a value is a table of hooks. -/
def isHookTable : Json → Bool
  | obj fields => (fieldOf "init" fields).isHook && (fieldOf "onMount" fields).isHook
  | j => !j.truthy

/-- Whether a value is an import: an object that has a path. -/
def isImport : Json → Bool
  | obj fields => (lookup "path" fields).isSome && (fieldOf "imports" fields).isTable
  | _ => false

/-- Whether a value is a list of imports. -/
def isImportList : Json → Bool
  | arr items => items.all isImport
  | j => !j.truthy

/-- Whether a value is refused because it has no name, whatever else it is. -/
def isNameless (j : Json) : Bool :=
  match Reader.mentions "name" j with
  | .ok named => !named
  | .error _ => false

mutual

/-- Whether a value has the shape of a node. -/
def isNodeShaped : Json → Bool
  | obj fields =>
    (lookup "name" fields).all isText && (fieldOf "properties" fields).isTable &&
      (fieldOf "bindings" fields).isTextTable && hasShapedChildren fields
  | j => j.isNameless

/-- Whether the children among some fields have the shape of nodes. -/
def hasShapedChildren : List (String × Json) → Bool
  | [] => true
  | (key, value) :: rest => if key = "children" then isNodeList value else hasShapedChildren rest

/-- Whether a value is a list of nodes. -/
def isNodeList : Json → Bool
  | arr items => allNodeShaped items
  | j => !j.truthy

/-- Whether all values have the shape of nodes. -/
def allNodeShaped : List Json → Bool
  | [] => true
  | j :: js => isNodeShaped j && allNodeShaped js

end

/-- Whether a value has the shape of a component. -/
def isComponentShaped : Json → Bool
  | obj fields =>
    (fieldOf "state" fields).isTable && (fieldOf "hooks" fields).isHookTable &&
      (fieldOf "imports" fields).isImportList && hasShapedChildren fields
  | j => j.isNameless

end Json

/-! ## Components of the right shape -/

/-- The tag of a node and the keys of its bindings. -/
def Head.label (h : Head) : Json × List Json := (h.name, h.bindings.map Prod.fst)

/-- Whether the tag of a node is a text, and so are the keys and the codes of its bindings. -/
structure Head.Shaped (h : Head) : Prop where
  name : h.name.isText = true
  bindings : ∀ b ∈ h.bindings, b.1.isText = true ∧ b.2.isText = true

variable {h : Head} {j : Json} {E : Failure → Prop}

theorem Head.Shaped.hasTexts (hh : h.Shaped) : h.HasTexts := by
  refine ⟨?_, hh.bindings⟩
  obtain ⟨tag, htag⟩ := Json.isText_iff.1 hh.name
  exact congrArg Fields.isScalar htag

theorem Head.Passed.label_eq {f : Json → Json → Outcome Json} {h' : Head} (hpass : h.Passed f h') :
    h'.label = h.label := by
  have hkeys : h'.bindings.map Prod.fst = h.bindings.map Prod.fst := by
    rw [← List.forall₂_eq_eq_eq, List.forall₂_map_left_iff, List.forall₂_map_right_iff]
    exact (hpass.bindings.imp fun _ _ hfield => hfield.1.symm).flip
  rw [Head.label, Head.label, hpass.name, hkeys]

namespace Component

/-- Whether everything in a component that should be a text is one. -/
structure Shaped (c : Component) : Prop extends Typed c where
  heads : ∀ h ∈ c.heads, h.Shaped

variable {c c' : Component}

/-- A component that keeps its labels keeps its shape. -/
theorem Shaped.of_labels (hc : c.Shaped) (htyped : c'.Typed)
    (h : List.Forall₂ (fun h h' => h'.label = h.label) c.heads c'.heads) : c'.Shaped := by
  refine ⟨htyped, fun head hhead => ?_⟩
  obtain ⟨old, hold, hlabel⟩ := exists_mem_of_forall₂ h hhead
  obtain ⟨hname, hkeys⟩ := Prod.mk.inj hlabel
  refine ⟨hname ▸ (hc.heads old hold).name, fun b hb => ⟨?_, ?_⟩⟩
  · have hkey : b.1 ∈ head.bindings.map Prod.fst := List.mem_map_of_mem hb
    rw [hkeys] at hkey
    obtain ⟨b', hb', heq⟩ := List.mem_map.1 hkey
    exact heq ▸ ((hc.heads old hold).bindings b' hb').1
  · exact Json.isText_iff.2 (htyped.bindings head hhead b hb)

theorem Shaped.mapRefs (hc : c.Shaped) (h : (c.mapRefs currentElement).toOutcome = .ok c') :
    c'.Shaped := by
  have htyped := hc.toTyped.mapRefs h
  rcases passed_of_mapRefs h with rfl | h
  · exact hc
  · exact hc.of_labels htyped (h.heads.imp fun _ _ => Head.Passed.label_eq)

theorem Shaped.passSetters (hc : c.Shaped) (h : (State.passSetters c).toOutcome = .ok c') :
    c'.Shaped := by
  have htyped := hc.toTyped.passSetters h
  obtain ⟨children, rfl, hheads⟩ := eq_of_passBindings h
  exact hc.of_labels htyped (hheads.imp fun _ _ => Head.Passed.label_eq)

theorem Shaped.exists_passGetters (hc : c.Shaped) (hplain : State.PlainGetters c) :
    ∃ called, (State.passGetters c).toOutcome = .ok called ∧ called.Shaped := by
  obtain ⟨called, hcalled, htyped⟩ := State.exists_passGetters hc.toTyped hplain
  refine ⟨called, hcalled, ?_⟩
  rcases passed_of_passGetters hcalled with rfl | ⟨names, h⟩
  · exact hc
  · exact hc.of_labels htyped (h.heads.imp fun _ _ => Head.Passed.label_eq)

end Component

/-! ## Loading -/

/-- Whether a failure is no fault of the program. -/
abbrev NoFault (e : Failure) : Prop := Cli.isFault e = false

namespace Fields

theorem ofJson_of_absent (h : j.truthy = false) : Fields.ofJson j = .ok [] := by
  simp [Fields.ofJson, h]

theorem ofJson_obj (fields : List (String × Json)) :
    Fields.ofJson (.obj fields) = .ok (ofObject fields) := by
  cases fields <;> rfl

theorem isText_of_mem_ofObject {fields : List (String × Json)} {f : Json × Json}
    (hf : f ∈ ofObject fields) : f.1.isText = true := by
  obtain ⟨field, -, rfl⟩ := List.mem_map.1 hf
  rfl

theorem ends_ofJson (h : j.isTable = true) :
    Ends E (fun fields => ∀ f ∈ fields, f.1.isText = true) (Fields.ofJson j) := by
  cases j with
  | obj fields =>
    rw [ofJson_obj]
    exact fun f hf => isText_of_mem_ofObject hf
  | _ =>
    rw [ofJson_of_absent (by simpa [Json.isTable] using h)]
    exact List.forall_mem_nil _

theorem ends_ofJson_texts (h : j.isTextTable = true) :
    Ends E (fun fields => ∀ f ∈ fields, f.1.isText = true ∧ f.2.isText = true)
      (Fields.ofJson j) := by
  cases j with
  | obj fields =>
    rw [ofJson_obj]
    intro f hf
    refine ⟨isText_of_mem_ofObject hf, ?_⟩
    obtain ⟨field, hfield, rfl⟩ := List.mem_map.1 hf
    exact List.all_eq_true.1 h field hfield
  | _ =>
    rw [ofJson_of_absent (by simpa [Json.isTextTable] using h)]
    exact List.forall_mem_nil _

end Fields

namespace Reader

theorem noFault_notANode (h : j.isNameless = true) : NoFault (notANode j) := by
  unfold Json.isNameless at h
  unfold notANode
  split at h
  · rename_i named hnamed
    rw [hnamed]
    cases named with
    | false => rfl
    | true => cases h
  · cases h

theorem ends_nil : Ends E (fun ns => ∀ h ∈ Node.headsOf ns, h.Shaped) (.ok []) := by
  change ∀ h ∈ Node.headsOf [], h.Shaped
  rw [Node.headsOf]
  exact List.forall_mem_nil _

theorem nodesIn_of_absent (h : j.truthy = false) : nodesIn j = .ok [] := by
  cases j with
  | arr items =>
    obtain rfl : items = [] := by simpa [Json.truthy] using h
    simp [nodesIn, nodesOf]
  | str s =>
    obtain rfl : s = "" := by simpa [Json.truthy] using h
    simp [nodesIn, strangeNodes]
  | obj fields =>
    obtain rfl : fields = [] := by simpa [Json.truthy] using h
    simp [nodesIn, strangeNodes]
  | _ => simp [nodesIn, h]

mutual

/-- A value with the shape of a node is read without a fault, as a shaped node. -/
theorem ends_nodeOf : ∀ j : Json, j.isNodeShaped = true →
    Ends NoFault (fun n => ∀ h ∈ n.heads, h.Shaped) (nodeOf j)
  | .obj fields, hj => by
    rw [Json.isNodeShaped, Bool.and_eq_true, Bool.and_eq_true, Bool.and_eq_true] at hj
    obtain ⟨⟨⟨hname, hproperties⟩, hbindings⟩, hchildren⟩ := hj
    rw [nodeOf]
    split
    · rename_i name hlookup
      rw [hlookup] at hname
      refine (Fields.ends_ofJson hproperties).bind fun properties _ => ?_
      refine (Fields.ends_ofJson_texts hbindings).bind fun bindings hbindings => ?_
      refine (ends_childrenIn fields hchildren).bind fun children hheads => ?_
      change ∀ h ∈ Node.heads _, h.Shaped
      rw [Node.heads, List.forall_mem_cons]
      exact ⟨⟨hname, hbindings⟩, hheads⟩
    · rfl
  | .null, hj | .bool _, hj | .int _, hj | .real _, hj | .str _, hj | .arr _, hj =>
    noFault_notANode hj

theorem ends_childrenIn : ∀ fields : List (String × Json), Json.hasShapedChildren fields = true →
    Ends NoFault (fun ns => ∀ h ∈ Node.headsOf ns, h.Shaped) (childrenIn fields)
  | [], _ => by
    rw [childrenIn]
    exact ends_nil
  | (key, value) :: rest, hfields => by
    rw [Json.hasShapedChildren] at hfields
    rw [childrenIn]
    split
    · rename_i hkey
      rw [if_pos hkey] at hfields
      exact ends_nodesIn value hfields
    · rename_i hkey
      rw [if_neg hkey] at hfields
      exact ends_childrenIn rest hfields

theorem ends_nodesIn : ∀ j : Json, j.isNodeList = true →
    Ends NoFault (fun ns => ∀ h ∈ Node.headsOf ns, h.Shaped) (nodesIn j)
  | .arr items, hj => ends_nodesOf items hj
  | .null, hj | .bool _, hj | .int _, hj | .real _, hj | .str _, hj | .obj _, hj => by
    rw [Json.isNodeList, Bool.not_eq_true'] at hj
    · rw [nodesIn_of_absent hj]
      exact ends_nil
    · rintro _ ⟨⟩

theorem ends_nodesOf : ∀ js : List Json, Json.allNodeShaped js = true →
    Ends NoFault (fun ns => ∀ h ∈ Node.headsOf ns, h.Shaped) (nodesOf js)
  | [], _ => by
    rw [nodesOf]
    exact ends_nil
  | j :: js, hjs => by
    rw [Json.allNodeShaped, Bool.and_eq_true] at hjs
    rw [nodesOf]
    refine (ends_nodeOf j hjs.1).bind fun n hn => (ends_nodesOf js hjs.2).bind fun ns hns => ?_
    change ∀ h ∈ Node.headsOf (n :: ns), h.Shaped
    rw [Node.headsOf, List.forall_mem_append]
    exact ⟨hn, hns⟩

end

theorem ends_importOf (h : j.isImport = true) :
    Ends NoFault (fun i => ∀ n ∈ i.names, ∃ name : String, n.1 = .str name) (importOf j) := by
  cases j with
  | obj fields =>
    rw [Json.isImport, Bool.and_eq_true] at h
    obtain ⟨path, hpath⟩ := Option.isSome_iff_exists.1 h.1
    have hrequired : required "path" (.obj fields) = .ok path := by
      rw [required, hpath]
    rw [importOf, hrequired, ok_bind]
    change Ends _ _ (Fields.ofJson (Json.fieldOf "imports" fields) >>= fun names => _)
    refine (Fields.ends_ofJson h.2).bind fun names hnames n hn => ?_
    exact Json.isText_iff.1 (hnames n hn)
  | _ => cases h

theorem exists_items (h : j.isImportList = true) :
    ∃ js, items j = .ok js ∧ ∀ i ∈ js, i.isImport = true := by
  cases j with
  | arr js => exact ⟨js, by cases js <;> rfl, List.all_eq_true.1 h⟩
  | _ =>
    rw [Json.isImportList, Bool.not_eq_true'] at h
    · exact ⟨[], by simp [items, h], List.forall_mem_nil _⟩
    · rintro _ ⟨⟩

theorem exists_hook (h : j.isHook = true) : j = .null ∨ ∃ code : String, j = .str code := by
  cases j with
  | null => exact .inl rfl
  | str code => exact .inr ⟨code, rfl⟩
  | _ => cases h

theorem exists_hooks (h : j.isHookTable = true) :
    ∃ init onMount : Json, optional "init" (if j.truthy then j else .obj []) = .ok init ∧
      optional "onMount" (if j.truthy then j else .obj []) = .ok onMount ∧
      init.isHook = true ∧ onMount.isHook = true := by
  cases j with
  | obj fields =>
    rw [Json.isHookTable, Bool.and_eq_true] at h
    cases fields with
    | nil => exact ⟨.null, .null, rfl, rfl, rfl, rfl⟩
    | cons field fields => exact ⟨_, _, rfl, rfl, h.1, h.2⟩
  | _ =>
    rw [Json.isHookTable, Bool.not_eq_true'] at h
    · rw [h]
      exact ⟨.null, .null, rfl, rfl, rfl, rfl⟩
    · rintro _ ⟨⟩

end Reader

theorem Component.ends_of_isNameless (h : j.isNameless = true) :
    Ends NoFault Component.Shaped (Component.ofJson j) := by
  unfold Json.isNameless at h
  split at h
  · rename_i named hnamed
    unfold Component.ofJson
    rw [hnamed, ok_bind]
    cases named with
    | false => rfl
    | true => cases h
  · cases h

/-- **A value of the right shape is loaded as a component of the right shape**, or refused in a way
that is no fault. -/
theorem Component.ends_ofJson (h : j.isComponentShaped = true) :
    Ends NoFault Component.Shaped (Component.ofJson j) := by
  cases j with
  | obj fields =>
    rw [Json.isComponentShaped, Bool.and_eq_true, Bool.and_eq_true, Bool.and_eq_true] at h
    obtain ⟨⟨⟨hstate, hhooks⟩, himports⟩, hchildren⟩ := h
    obtain ⟨init, onMount, hinit, hmount, hinitHook, hmountHook⟩ := Reader.exists_hooks hhooks
    obtain ⟨items, hitems, himport⟩ := Reader.exists_items himports
    unfold Json.fieldOf at hstate hinit hmount hitems
    unfold Component.ofJson
    rw [Reader.mentions, ok_bind]
    dsimp only
    split
    · rfl
    · refine (Fields.ends_ofJson hstate).bind fun state hkeys => ?_
      rw [hinit, ok_bind, hmount, ok_bind, hitems, ok_bind]
      refine (Ends.mapM fun i hi => Reader.ends_importOf (himport i hi)).bind
        fun imports hnames => ?_
      refine (Reader.ends_childrenIn fields hchildren).bind fun children hheads => ?_
      refine ⟨⟨⟨?_, Reader.exists_hook hinitHook, Reader.exists_hook hmountHook⟩, ?_, hnames⟩,
        hheads⟩
      · exact fun h hh b hb => Json.isText_iff.1 ((hheads h hh).bindings b hb).2
      · exact fun f hf => Json.isText_iff.1 (hkeys f hf)
  | _ =>
    exact ends_of_isNameless h

/-! ## Compiling -/

section Compiling

variable {c c' : Component}

/-- Whether a step of a collector takes the style off a node, and keeps its tag or puts a text in
its place. -/
def Undressed (h h' : Head) : Prop := Stripped h h' ∧ (h'.name = h.name ∨ h'.name.isText = true)

theorem Style.undressed_of_classify {property : String} {s s' : Classes} {h' : Head}
    (hstep : (classify property s h).toOutcome = .ok (s', h')) : Undressed h h' := by
  refine ⟨stripped_of_classify hstep, .inl ?_⟩
  unfold classify at hstep
  split at hstep
  · cases hstep
    rfl
  · split at hstep
    · cases hstep
    · dsimp only at hstep
      split at hstep <;> cases hstep
      rfl

theorem Style.undressed_of_dress {s s' : Wardrobe} {h' : Head}
    (hstep : (dress s h).toOutcome = .ok (s', h')) : Undressed h h' := by
  refine ⟨stripped_of_dress hstep, ?_⟩
  unfold dress at hstep
  split at hstep
  · cases hstep
    exact .inl rfl
  · split at hstep
    · cases hstep
    · dsimp only at hstep
      split at hstep <;> cases hstep
      exact .inr rfl

theorem Head.Shaped.undressed {h' : Head} (hh : h.Shaped) (hstep : Undressed h h') : h'.Shaped := by
  obtain ⟨hstripped, hname⟩ := hstep
  refine ⟨?_, fun b hb => hh.bindings b (Fields.mem_of_mem_erase (hstripped ▸ hb))⟩
  rcases hname with hname | hname
  · exact hname ▸ hh.name
  · exact hname

theorem Component.Shaped.prepareStyles {strategy : StyleStrategy} {hasStyles : Bool}
    {sheet styled : String} (hc : c.Shaped)
    (h : (prepareStyles strategy hasStyles c).outcome = .ok (sheet, styled, c')) : c'.Shaped := by
  rcases forall₂_of_prepareStyles (R := Undressed) (fun _ _ _ _ => Style.undressed_of_classify)
    (fun _ _ _ _ => Style.undressed_of_dress) h with ⟨rfl, -⟩ | ⟨⟨children, rfl⟩, hheads⟩
  · exact hc
  · have hshaped : ∀ h ∈ ({ c with children } : Component).heads, h.Shaped := by
      intro head hhead
      obtain ⟨old, hold, hundressed⟩ := exists_mem_of_forall₂ hheads hhead
      exact (hc.heads old hold).undressed hundressed
    refine ⟨⟨⟨?_, hc.init, hc.onMount⟩, hc.fields, hc.imported⟩, hshaped⟩
    exact fun h hh b hb => Json.isText_iff.1 ((hshaped h hh).bindings b hb).2

theorem noFault_of_rejection {bad : String → Bool} {codes : List String} :
    ∀ e, rejection bad codes = some e → NoFault e := by
  intro e he
  obtain ⟨code, -, rfl⟩ := Option.map_eq_some_iff.1 he
  rfl

theorem ends_prepareState (hc : c.Shaped) (strategy : StateStrategy)
    (hplain : strategy = .useState → State.PlainGetters c) :
    Ends NoFault Component.Shaped (prepareState strategy c) := by
  cases strategy with
  | useState =>
    obtain ⟨called, hcalled, hshaped⟩ := hc.exists_passGetters (hplain rfl)
    rw [prepareState_useState hcalled]
    exact (State.told_passSetters called).faultless.ends fun _ => hshaped.passSetters
  | _ => exact hc

theorem Component.Shaped.ends_mapRefs (hc : c.Shaped) :
    Ends NoFault Component.Shaped (c.mapRefs currentElement).toOutcome := by
  refine FailsIn.ends (Ends.of_failure ?_) fun _ => hc.mapRefs
  rw [failure_mapRefs hc.toHasTexts]
  exact noFault_of_rejection

theorem Component.Shaped.ends_prepareStyles (hc : c.Shaped) (strategy : StyleStrategy)
    (hasStyles : Bool) :
    Ends NoFault (fun r => r.2.2.Shaped)
      (ReactWeave.prepareStyles strategy hasStyles c).outcome := by
  refine FailsIn.ends (Style.ends_prepareStyles strategy hasStyles ?_ ?_ ?_) ?_
  · intro h hh
    obtain ⟨tag, htag⟩ := Json.isText_iff.1 (hc.heads h hh).name
    rw [htag]
    trivial
  · intro h hh
    obtain ⟨tag, htag⟩ := Json.isText_iff.1 (hc.heads h hh).name
    rw [htag, Style.styledBase]
    split
    · split <;> trivial
    · trivial
  · exact fun css => (Style.told_readMap css).faultless
  · exact fun r hr => hc.prepareStyles hr

/-- A shaped component is prepared without a fault. -/
theorem Component.Shaped.ends_prepare (hc : c.Shaped) (state : StateStrategy)
    (styles : StyleStrategy) (hplain : state = .useState → State.PlainGetters c) :
    Ends NoFault (fun p => p.component.Shaped) (prepare state styles c).outcome := by
  rw [outcome_prepare]
  refine Ends.bind c.told_checkName.faultless fun _ _ => ?_
  refine (ends_prepareState hc state hplain).bind fun set hset => ?_
  refine hset.ends_mapRefs.bind fun mapped hmapped => ?_
  refine (hmapped.ends_prepareStyles styles c.hasStyles).bind fun r hr => ?_
  obtain ⟨text, htext⟩ := State.exists_declaration state hr.toTyped
  rw [htext]
  exact hr

/-- And its parts are written without one. -/
theorem Component.Shaped.faultless_partsOf (hc : c.Shaped) (state : StateStrategy)
    (styles : StyleStrategy) (p : Prepared) : FailsIn NoFault (partsOf state styles p c) := by
  obtain ⟨imports, himports⟩ := exists_importStatements hc.toTyped
  obtain ⟨init, hinit⟩ := Lifecycle.exists_initCode hc.toTyped
  have hmount : FailsIn NoFault (Lifecycle.mountCode state c) := by
    refine .of_failure? ?_
    rw [Lifecycle.failure?_mountCode state hc.toTyped]
    split
    · rintro e ⟨⟩
    · exact noFault_of_rejection
  have hmarkup : FailsIn NoFault (Markup.forest state c.children) := by
    refine FailsIn.bind (.of_failure? ?_) fun _ => trivial
    rw [Markup.failure?_nodes _ _ fun h hh => (hc.heads h hh).hasTexts]
    refine forall_of_findSome? fun h _ e he => ?_
    obtain ⟨key, -, rfl⟩ := Option.map_eq_some_iff.1 he
    rfl
  unfold partsOf
  rw [himports, ok_bind, hinit, ok_bind]
  exact hmount.bind fun _ => hmarkup.bind fun _ => trivial

/-- **A component of the right shape is compiled**, or refused in a way that is no fault. -/
theorem Component.Shaped.faultless_compile {host : Host} {o : Options} (hc : c.Shaped)
    (hplugins : o.plugins = []) (hchoice : o.formatter = .unset)
    (hplain : o.state = .useState → State.PlainGetters c)
    (hcommand : o.format = true →
      Shell.words (host.setting.getD CommandFormatter.defaultCommand) ≠ .ok []) :
    FailsIn NoFault (c.compile host o).outcome := by
  rw [outcome_compile_of_plugins hplugins]
  refine Ends.bind (hc.ends_prepare o.state o.styles hplain) fun p hp => ?_
  refine (hp.faultless_partsOf o.state o.styles p).bind fun parts => ?_
  split
  · rename_i hformat
    refine failsIn_formatSource ?_ _ _ hchoice fun hempty => absurd hempty (hcommand hformat)
    intro e he
    cases e <;> first | rfl | cases he
  · trivial

end Compiling

end ReactWeave
