import ReactWeave.Proofs.Stages

/-!
# ReactWeave.Proofs.Strategies

**Strategies that keep the state in one object** lead to the same source, but for
two parts of it: the declaration of the state and the import of the library that
makes the object.

* `Markup.node_congr`, `Lifecycle.mountCode_of_isObject` and `usedHooks_of_isObject`
  say that no other part asks which of these strategies it is.
* `compile_agrees` lays two compilations side by side, failures included.
-/

namespace ReactWeave

/-- Whether a strategy keeps the state in one object. -/
def StateStrategy.isObject : StateStrategy → Bool
  | .useState => false
  | _ => true

theorem State.processed_of_isObject {s : StateStrategy} (hs : s.isObject = true) (code : Json) :
    State.processed s code = .ok code := by
  cases s with
  | useState => cases hs
  | _ => cases code <;> rfl

/-! ## Markup -/

namespace Markup

variable {s s' : StateStrategy}

theorem bindingsOf_congr (h : State.processed s = State.processed s') (fields : Fields) :
    bindingsOf s fields = bindingsOf s' fields := by
  induction fields with
  | nil => rfl
  | cons field fields ih => simp only [bindingsOf, binding, h, ih]

theorem opening_congr (h : State.processed s = State.processed s') (head : Head) :
    opening s head = opening s' head := by
  simp only [opening, spread, h, bindingsOf_congr h]

mutual

theorem node_congr (h : State.processed s = State.processed s') : ∀ n : Node, node s n = node s' n
  | ⟨head, children⟩ => by
    simp only [node, textContent, loopHead, conditionHead, h, opening_congr h,
      nodes_congr h children]

theorem nodes_congr (h : State.processed s = State.processed s') :
    ∀ (ns : List Node) (skip : Bool), nodes s skip ns = nodes s' skip ns
  | [], _ => by simp only [nodes]
  | ⟨head, children⟩ :: rest, skip => by
    simp only [nodes, node_congr h ⟨head, children⟩, nodes_congr h rest]

end

theorem forest_congr (h : State.processed s = State.processed s') (children : List Node) :
    forest s children = forest s' children := by
  simp only [forest, nodes_congr h]

end Markup

/-! ## Other parts -/

section Parts

variable {s : StateStrategy}

theorem Lifecycle.mountCode_of_isObject (hs : s.isObject = true) (c : Component) :
    Lifecycle.mountCode s c =
      if c.onMount.truthy then (Lifecycle.body c.onMount).map Lifecycle.effect else .ok "" := by
  unfold Lifecycle.mountCode
  split
  · cases s with
    | useState => cases hs
    | _ =>
      simp only [State.processed_of_isObject hs]
      change (Lifecycle.body c.onMount >>= fun code => pure (Lifecycle.effect code)) = _
      cases Lifecycle.body c.onMount <;> rfl
  · rfl

theorem usedHooks_of_isObject (hs : s.isObject = true) (p : Prepared) (c : Component) :
    usedHooks s p c =
      (if c.init.truthy then [Hook.useState.name] else []) ++
      (if p.refs.isEmpty then [] else [Hook.useRef.name]) ++
      (if c.onMount.truthy then [Hook.useEffect.name] else []) := by
  have hne : s ≠ .useState := by
    intro heq
    rw [heq] at hs
    cases hs
  simp [usedHooks, hne]

end Parts

/-! ## Compilations -/

/-- Whether two sources have the same parts, up to the declaration of the state and the import of
the library that holds it. -/
def Parts.Alike (p q : Parts) : Prop := { p with state := q.state, library := q.library } = q

/-- Whether the two parts that tell of the state are those of a strategy. -/
structure Parts.Holds (strategy : StateStrategy) (state : Fields) (p : Parts) : Prop where
  declaration : State.declaration strategy state = .ok p.state
  library : p.library = if state.isEmpty then "" else (State.libraryImport? strategy).getD ""

theorem State.declaration_of_isObject {s : StateStrategy} (hs : s.isObject = true)
    (state : Fields) :
    State.declaration s state =
      .ok (if state.isEmpty then "" else State.objectDeclaration s state) := by
  unfold State.declaration
  split
  · rfl
  · cases s with
    | useState => cases hs
    | _ => rfl

theorem Component.isEmpty_state_of_mapRefs {c c' : Component}
    (h : (c.mapRefs currentElement).toOutcome = .ok c') :
    c'.state.isEmpty = c.state.isEmpty := by
  rcases passed_of_mapRefs h with rfl | h
  · rfl
  · rw [Bool.eq_iff_iff, List.isEmpty_iff_length_eq_zero, List.isEmpty_iff_length_eq_zero,
      h.state.length_eq]

theorem Parts.Holds.eq_of_isEmpty {s s' : StateStrategy} {state : Fields} {p q : Parts}
    (hp : p.Holds s state) (hq : q.Holds s' state) (hempty : state.isEmpty = true)
    (halike : p.Alike q) : p = q := by
  have hnone : ∀ s, State.declaration s state = .ok "" := by
    intro s
    simp [State.declaration, hempty]
  have hstate : q.state = p.state := by
    rw [← Except.ok.inj ((hnone s').symm.trans hq.declaration),
      ← Except.ok.inj ((hnone s).symm.trans hp.declaration)]
  have hlibrary : q.library = p.library := by
    rw [hp.library, hq.library, if_pos hempty, if_pos hempty]
  rw [← halike, hstate, hlibrary]

section Compilations

variable {s s' : StateStrategy} {styles : StyleStrategy} {c : Component}

theorem prepareState_of_isObject (hs : s.isObject = true) (c : Component) :
    prepareState s c = .ok c := by
  cases s with
  | useState => cases hs
  | _ => rfl

/-- Two libraries prepare alike, up to the text of the declaration. -/
theorem prepare_agrees (hs : s.isObject = true) (hs' : s'.isObject = true) (styles : StyleStrategy)
    (c : Component) :
    (∃ e, (prepare s styles c).outcome = .error e ∧ (prepare s' styles c).outcome = .error e) ∨
      ∃ mapped p d, (c.mapRefs currentElement).toOutcome = .ok mapped ∧
        (prepare s styles c).outcome = .ok p ∧
        (prepare s' styles c).outcome = .ok { p with state := d } ∧
        p.hasState = !mapped.state.isEmpty ∧
        State.declaration s mapped.state = .ok p.state ∧
        State.declaration s' mapped.state = .ok d := by
  simp only [outcome_prepare, prepareState_of_isObject hs, prepareState_of_isObject hs', ok_bind,
    State.declaration_of_isObject hs, State.declaration_of_isObject hs']
  cases c.checkName with
  | error e => exact .inl ⟨e, rfl, rfl⟩
  | ok =>
    cases hmapped : (c.mapRefs currentElement).toOutcome with
    | error e => exact .inl ⟨e, rfl, rfl⟩
    | ok mapped =>
      simp only [ok_bind]
      cases hstyles : (prepareStyles styles c.hasStyles mapped).outcome with
      | error e => exact .inl ⟨e, rfl, rfl⟩
      | ok r =>
        obtain ⟨⟨children, hr⟩, -⟩ := eq_of_prepareStyles hstyles
        refine .inr ⟨mapped, _, _, rfl, rfl, rfl, ?_, ?_, ?_⟩
        · rw [Component.isEmpty_state_of_mapRefs hmapped]
        · simp only [hr]
        · simp only [hr]

/-- And their parts agree up to this text and the import. -/
theorem partsOf_agrees (hs : s.isObject = true) (hs' : s'.isObject = true) (styles : StyleStrategy)
    (p : Prepared) (d : String) (c : Component) :
    (∃ e, partsOf s styles p c = .error e ∧ partsOf s' styles { p with state := d } c = .error e) ∨
      ∃ parts parts', partsOf s styles p c = .ok parts ∧
        partsOf s' styles { p with state := d } c = .ok parts' ∧ parts.Alike parts' ∧
        parts.state = p.state ∧ parts'.state = d ∧
        parts.library = (if p.hasState then (State.libraryImport? s).getD "" else "") ∧
        parts'.library = if p.hasState then (State.libraryImport? s').getD "" else "" := by
  have hprocessed : State.processed s' = State.processed s := by
    funext code
    rw [State.processed_of_isObject hs, State.processed_of_isObject hs']
  simp only [partsOf, Lifecycle.mountCode_of_isObject hs, Lifecycle.mountCode_of_isObject hs',
    Markup.forest_congr hprocessed, usedHooks_of_isObject hs, usedHooks_of_isObject hs']
  cases c.importStatements with
  | error e => exact .inl ⟨e, rfl, rfl⟩
  | ok imports =>
    cases Lifecycle.initCode c with
    | error e => exact .inl ⟨e, rfl, rfl⟩
    | ok init =>
      simp only [ok_bind]
      generalize (if c.onMount.truthy then _ else _ : Outcome String) = mount
      cases mount with
      | error e => exact .inl ⟨e, rfl, rfl⟩
      | ok mount =>
        cases Markup.forest s c.children with
        | error e => exact .inl ⟨e, rfl, rfl⟩
        | ok markup => exact .inr ⟨_, _, rfl, rfl, rfl, rfl, rfl, rfl, rfl⟩

/-- **Strategies that keep the state in one object** fail alike, or lead to the same parts, but for
the declaration of the state and the import of the library. The state that is declared is that of
the component with its handles replaced. Without a state, the sources are the same. -/
theorem compile_agrees (host : Host) (o o' : Options) (c : Component)
    (hs : o.state.isObject = true) (hs' : o'.state.isObject = true) (hstyles : o'.styles = o.styles)
    (hplugins : o.plugins = []) (hplugins' : o'.plugins = [])
    (hformat : o.format = false) (hformat' : o'.format = false) :
    ((∃ e, (c.compile host o).outcome = .error e ∧ (c.compile host o').outcome = .error e) ∨
      ∃ (mapped : Component) (parts parts' : Parts),
        (c.mapRefs currentElement).toOutcome = .ok mapped ∧
        (c.compile host o).outcome = .ok parts.assemble ∧
        (c.compile host o').outcome = .ok parts'.assemble ∧
        parts.Alike parts' ∧ parts.Holds o.state mapped.state ∧ parts'.Holds o'.state mapped.state) ∧
    (c.state = [] → (c.compile host o).outcome = (c.compile host o').outcome) := by
  rw [outcome_compile hplugins hformat, outcome_compile hplugins' hformat', hstyles]
  rcases prepare_agrees hs hs' o.styles c with
    ⟨e, hp, hp'⟩ | ⟨mapped, p, d, hmapped, hp, hp', hhas, hdeclared, hdeclared'⟩
  · rw [hp, hp']
    exact ⟨.inl ⟨e, rfl, rfl⟩, fun _ => rfl⟩
  · rw [hp, hp', ok_bind, ok_bind]
    rcases partsOf_agrees hs hs' o.styles p d p.component with
      ⟨e, hparts, hparts'⟩ | ⟨parts, parts', hparts, hparts', halike, hstate, hstate', hlib, hlib'⟩
    · rw [hparts, hparts']
      exact ⟨.inl ⟨e, rfl, rfl⟩, fun _ => rfl⟩
    · rw [hparts, hparts', ok_bind, ok_bind]
      have hholds : parts.Holds o.state mapped.state := by
        refine ⟨hstate ▸ hdeclared, ?_⟩
        rw [hlib, hhas]
        cases mapped.state.isEmpty <;> rfl
      have hholds' : parts'.Holds o'.state mapped.state := by
        refine ⟨hstate' ▸ hdeclared', ?_⟩
        rw [hlib', hhas]
        cases mapped.state.isEmpty <;> rfl
      refine ⟨.inr ⟨mapped, parts, parts', hmapped, rfl, rfl, halike, hholds, hholds'⟩, ?_⟩
      intro hnone
      have hempty : mapped.state.isEmpty = true := by
        rw [Component.isEmpty_state_of_mapRefs hmapped, hnone]
        rfl
      rw [hholds.eq_of_isEmpty hholds' hempty halike]

/-- A component with a field of the state and a handle. -/
def searchBox : Component :=
  ⟨.str "Search", [(.str "text", .str "")], .null, .str "box.focus()", [],
    [⟨⟨.str "input", [], [(.str "ref", .str "box"), (.str "value", .str "state.text")]⟩, []⟩]⟩

/-- Options for a state in one object, without plugins and formatting. -/
def oneObject (state : StateStrategy) : Options := ⟨false, .emotion, state, [], .unset⟩

theorem compile_agrees_searchBox :
    (oneObject .mobx).state.isObject = true ∧ (oneObject .valtio).state.isObject = true ∧
      ∃ (mapped : Component) (parts parts' : Parts),
        (searchBox.mapRefs currentElement).toOutcome = .ok mapped ∧
        (searchBox.compile .bare (oneObject .mobx)).outcome = .ok parts.assemble ∧
        (searchBox.compile .bare (oneObject .valtio)).outcome = .ok parts'.assemble ∧
        parts.Alike parts' ∧ parts.Holds .mobx mapped.state ∧
        parts'.Holds .valtio mapped.state := by
  refine ⟨rfl, rfl, ?_⟩
  have hagree := (compile_agrees .bare (oneObject .mobx) (oneObject .valtio) searchBox
    rfl rfl rfl rfl rfl rfl rfl).1
  refine hagree.resolve_left ?_
  rintro ⟨e, he, -⟩
  have hok : (searchBox.compile .bare (oneObject .mobx)).outcome.toOption.isSome = true := by
    decide +kernel
  rw [he] at hok
  cases hok

end Compilations

end ReactWeave
