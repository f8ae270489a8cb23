import ReactWeave.Proofs.FailureKinds
import ReactWeave.Proofs.Strategies

/-!
# ReactWeave.Proofs.Rejection

**Which codes end a compilation.**

If the state is one object, code is read only to replace handles in it, and only
if it mentions one. If every field of the state has its own hook, bindings are
read for their assignments first, and the code that runs after the first
rendering is read for them last. Markup reads no code, so that a code that cannot
be read is told of before anything that is missing in the render tree.

* `compile_unparsable_iff` is the criterion.
-/

namespace ReactWeave

/-! ## Steps that refuse no code -/

section Unrejected

variable {α β : Type}

/-- Whether an outcome is not the failure of a code that cannot be read. -/
def Unrejected (x : Outcome α) : Prop := ∀ code, x ≠ .error (.unparsable code)

theorem unrejected_ok (a : α) : Unrejected (.ok a : Outcome α) := by
  intro code h
  cases h

/-- Whether a failure is that of a code that cannot be read. -/
def Failure.isUnparsable : Failure → Bool
  | .unparsable _ => true
  | _ => false

theorem Unrejected.of_failsIn {x : Outcome α} (hx : FailsIn (fun e => e.isUnparsable = false) x) :
    Unrejected x := by
  rintro code rfl
  cases hx

/-- Computations that refuse no code do not refuse one together. -/
theorem Unrejected.bind {x : Outcome α} {f : α → Outcome β} (hx : Unrejected x)
    (hf : ∀ a, Unrejected (f a)) : Unrejected (x >>= f) := by
  cases x with
  | ok a => exact hf a
  | error e =>
    intro code h
    exact hx code (by rw [error_bind] at h; rw [Except.error.inj h])

theorem Failure.admits_isUnparsable : Markup.Admits fun e => e.isUnparsable = false :=
  ⟨fun _ _ => rfl, rfl, rfl⟩

theorem Markup.unrejected_forest {strategy : StateStrategy} (children : List Node) :
    Unrejected (forest strategy children) :=
  .of_failsIn (failsIn_forest Failure.admits_isUnparsable children)

end Unrejected

/-! ## The last stages -/

section LastStages

variable {α β : Type} {c : Component}

theorem exists_mapM_eq_ok {f : α → Outcome β} {xs : List α} (h : ∀ x ∈ xs, ∃ y, f x = .ok y) :
    ∃ ys, xs.mapM f = .ok ys := by
  induction xs with
  | nil => exact ⟨[], rfl⟩
  | cons x xs ih =>
    rw [List.forall_mem_cons] at h
    obtain ⟨y, hy⟩ := h.1
    obtain ⟨ys, hys⟩ := ih h.2
    refine ⟨y :: ys, ?_⟩
    rw [List.mapM_cons, hy, hys]
    rfl

theorem exists_bind_eq_ok {x : Outcome α} {g : α → Outcome β} (hx : ∃ a, x = .ok a)
    (hg : ∀ a, ∃ b, g a = .ok b) : ∃ b, x >>= g = .ok b := by
  obtain ⟨a, rfl⟩ := hx
  rw [ok_bind]
  exact hg a

namespace Import

section Clauses

variable {names : Fields} (h : ∀ n ∈ names, ∃ name : String, n.1 = .str name)

include h

theorem exists_mapM_filter (p : Json × Json → Bool) {f : Json × Json → Outcome String}
    (hf : ∀ (name : String) (imported : Json), ∃ text, f (.str name, imported) = .ok text) :
    ∃ texts, (names.filter p).mapM f = .ok texts := by
  refine exists_mapM_eq_ok fun n hn => ?_
  obtain ⟨name, hname⟩ := h n (List.mem_of_mem_filter hn)
  obtain ⟨text, htext⟩ := hf name n.2
  exact ⟨text, by rw [← htext, ← hname]⟩

theorem exists_namedClauses : ∃ texts, namedClauses names = .ok texts := by
  unfold namedClauses
  dsimp only
  split
  · exact ⟨_, rfl⟩
  · refine exists_bind_eq_ok (exists_mapM_filter h _ fun name imported => ?_) fun _ => ⟨_, rfl⟩
    dsimp only [namedClause]
    split
    · exact ⟨name, rfl⟩
    · exact ⟨_, rfl⟩

theorem exists_clauses : ∃ texts, clauses names = .ok texts := by
  refine exists_bind_eq_ok (exists_namedClauses h) fun _ => ?_
  exact exists_bind_eq_ok (exists_mapM_filter h _ fun name _ => ⟨name, rfl⟩) fun _ => ⟨_, rfl⟩

end Clauses

end Import

theorem Component.exists_importStatements (hc : c.Typed) :
    ∃ text, c.importStatements = .ok text := by
  have hstatements : ∃ texts, (c.imports.filter fun i => !i.path.same (.str corePath)).mapM
      Import.statement = .ok texts := by
    refine exists_mapM_eq_ok fun i hi => ?_
    obtain ⟨texts, htexts⟩ := Import.exists_clauses (hc.imported i (List.mem_of_mem_filter hi))
    unfold Import.statement
    rw [htexts, ok_bind]
    split <;> exact ⟨_, rfl⟩
  obtain ⟨texts, htexts⟩ := hstatements
  simp only [importStatements, htexts]
  exact ⟨_, rfl⟩

theorem State.exists_fieldDeclarations (hc : c.Typed) :
    ∃ text, State.fieldDeclarations c.state = .ok text := by
  refine exists_bind_eq_ok (exists_mapM_eq_ok fun field hfield => ?_) fun _ => ⟨_, rfl⟩
  obtain ⟨key, hkey⟩ := hc.fields field hfield
  obtain ⟨k, v⟩ := field
  cases hkey
  dsimp only [State.fieldDeclaration]
  split <;> exact ⟨_, rfl⟩

theorem State.exists_declaration (strategy : StateStrategy) (hc : c.Typed) :
    ∃ text, State.declaration strategy c.state = .ok text := by
  cases hs : strategy.isObject with
  | true => exact ⟨_, State.declaration_of_isObject hs c.state⟩
  | false =>
    cases strategy with
    | mobx | valtio | solid | builder => cases hs
    | useState =>
      unfold State.declaration
      split
      · exact ⟨_, rfl⟩
      · exact State.exists_fieldDeclarations hc

theorem Lifecycle.exists_initCode (hc : c.Typed) : ∃ text, Lifecycle.initCode c = .ok text := by
  unfold Lifecycle.initCode
  split
  · rename_i htruthy
    rcases hc.init with hnull | ⟨code, hcode⟩
    · rw [hnull] at htruthy
      cases htruthy
    · rw [hcode]
      exact ⟨_, rfl⟩
  · exact ⟨_, rfl⟩

/-- The code that runs after the first rendering is read if every field has its own hook, and only
then. -/
theorem Lifecycle.failure?_mountCode (strategy : StateStrategy) (hc : c.Typed) :
    failure? (Lifecycle.mountCode strategy c) =
      if strategy.isObject then none
      else rejection (fun code => !Code.isScript code) (State.hookCodes c.onMount) := by
  cases hs : strategy.isObject with
  | true =>
    rw [Lifecycle.mountCode_of_isObject hs]
    split
    · rename_i htruthy
      rcases hc.onMount with hnull | ⟨code, hcode⟩
      · rw [hnull] at htruthy
        cases htruthy
      · rw [hcode]
        rfl
    · rfl
  | false =>
    cases strategy with
    | mobx | valtio | solid | builder => cases hs
    | useState =>
      unfold Lifecycle.mountCode State.hookCodes
      rcases hc.onMount with hnull | ⟨code, hcode⟩
      · rw [hnull]
        rfl
      · rw [hcode]
        split
        · have hset := failure?_rewrite State.setterCall.rewriter code
          change _ = rejection (fun code => !Code.isScript code) [code]
          rw [← hset]
          simp only [State.useSetters, Code.replace]
          cases Code.rewrite State.setterCall.rewriter (.str code) <;> rfl
        · rfl

end LastStages

/-! ## Compilations -/

section Compilations

variable {o : Options} {c : Component} (host : Host)

/-- The first code that cannot be read, if the state is one object: handles are replaced first, and
no other code is read. -/
def FirstObstacle (c : Component) (code : String) : Prop :=
  c.handleCodes.find? (Code.isObstacle c.refs) = some code

/-- The first code that cannot be read, if every field of the state has its own hook. `called` is
the component with calls instead of reads of getters, `set` the same with calls of setters in the
bindings, `mapped` the same with the elements behind the handles. -/
inductive FirstRefused (c : Component) (code : String) : Prop where
  /-- A binding is read for its assignments. -/
  | binding {called : Component} (hcalled : (State.passGetters c).toOutcome = .ok called)
      (hcode : (State.bindingCodes called).find? (fun code => !Code.isScript code) = some code)
  /-- Else a code is read for its handles. -/
  | handle {called set : Component} (hcalled : (State.passGetters c).toOutcome = .ok called)
      (hbindings : ∀ code ∈ State.bindingCodes called, Code.isScript code = true)
      (hset : (State.passSetters called).toOutcome = .ok set) (hcode : FirstObstacle set code)
  /-- Else the code that runs after the first rendering is read for its assignments. -/
  | mount {called set mapped : Component}
      (hcalled : (State.passGetters c).toOutcome = .ok called)
      (hbindings : ∀ code ∈ State.bindingCodes called, Code.isScript code = true)
      (hset : (State.passSetters called).toOutcome = .ok set)
      (hhandles : ∀ code ∈ set.handleCodes, Code.isObstacle set.refs code = false)
      (hmapped : (set.mapRefs currentElement).toOutcome = .ok mapped)
      (hcode : (State.hookCodes mapped.onMount).find? (fun code => !Code.isScript code) = some code)

/-- What is left of a compilation once the handles are replaced: only the code that runs after the
first rendering and the markup can still fail. -/
theorem outcome_of_mapped {set mapped : Component} (hname : c.checkName = .ok ())
    (hstyles : o.styles = .emotion) (hplugins : o.plugins = []) (hformat : o.format = false)
    (hset : prepareState o.state c = .ok set)
    (hmapped : (set.mapRefs currentElement).toOutcome = .ok mapped) (htyped : mapped.Typed) :
    ∃ source : String → String → String, (c.compile host o).outcome =
      Lifecycle.mountCode o.state mapped >>= fun mount =>
        Markup.forest o.state mapped.children >>= fun markup => .ok (source mount markup) := by
  obtain ⟨declared, hdeclared⟩ := State.exists_declaration o.state htyped
  obtain ⟨imports, himports⟩ := Component.exists_importStatements htyped
  obtain ⟨init, hinit⟩ := Lifecycle.exists_initCode htyped
  rw [outcome_compile hplugins hformat, outcome_prepare, hname, hset, hstyles, ok_bind, ok_bind,
    hmapped, ok_bind]
  have hkept : (prepareStyles .emotion c.hasStyles mapped).outcome = .ok ("", "", mapped) := rfl
  simp only [hkept, hdeclared, ok_bind, partsOf, himports, hinit, bind_assoc, pure_bind]
  exact ⟨fun mount markup => _, rfl⟩

theorem outcome_of_prepareState_error {e : Failure} (hname : c.checkName = .ok ())
    (hplugins : o.plugins = []) (hformat : o.format = false)
    (hset : prepareState o.state c = .error e) : (c.compile host o).outcome = .error e := by
  rw [outcome_compile hplugins hformat, outcome_prepare, hname, hset]
  rfl

theorem outcome_of_mapRefs_error {set : Component} {e : Failure} (hname : c.checkName = .ok ())
    (hplugins : o.plugins = []) (hformat : o.format = false)
    (hset : prepareState o.state c = .ok set)
    (hmapped : (set.mapRefs currentElement).toOutcome = .error e) :
    (c.compile host o).outcome = .error e := by
  rw [outcome_compile hplugins hformat, outcome_prepare, hname, hset, ok_bind, ok_bind, hmapped]
  rfl

theorem prepareState_useState {called : Component}
    (hcalled : (State.passGetters c).toOutcome = .ok called) :
    prepareState .useState c = (State.passSetters called).toOutcome := by
  obtain ⟨hnone, rfl⟩ := Progress.toOutcome_eq_ok.1 hcalled
  simp [prepareState, Progress.andThen, hnone]

section Plain

variable (hname : c.checkName = .ok ()) (htyped : c.Typed) (hstyles : o.styles = .emotion)
  (hplugins : o.plugins = []) (hformat : o.format = false)

include hname htyped hplugins hformat

theorem outcome_of_firstObstacle (hobject : o.state.isObject = true) {code : String}
    (h : FirstObstacle c code) :
    (c.compile host o).outcome = .error (.unparsable (.str code)) := by
  have hfailure := Component.failure_mapRefs htyped.toHasTexts
  rw [rejection_of_find? h] at hfailure
  exact outcome_of_mapRefs_error host hname hplugins hformat (prepareState_of_isObject hobject c)
    (Progress.toOutcome_of_failure hfailure)

include hstyles in
/-- If a compilation is stopped by a code, this is the first obstacle. -/
theorem firstObstacle_of_outcome (hobject : o.state.isObject = true) {code : Json}
    (h : (c.compile host o).outcome = .error (.unparsable code)) :
    ∃ text, code = .str text ∧ FirstObstacle c text := by
  have hfailure := Component.failure_mapRefs htyped.toHasTexts
  rcases rejection_cases (Code.isObstacle c.refs) c.handleCodes with
    ⟨text, hfirst, hsome⟩ | ⟨-, hnone⟩
  · have hout := outcome_of_firstObstacle host hname htyped hplugins hformat hobject hfirst
    rw [hout] at h
    cases h
    exact ⟨text, rfl, hfirst⟩
  · rw [hnone] at hfailure
    have hmapped := Progress.toOutcome_eq_ok.2 ⟨hfailure, rfl⟩
    have hmappedTyped := htyped.mapRefs hmapped
    obtain ⟨source, hout⟩ := outcome_of_mapped host hname hstyles hplugins hformat
      (prepareState_of_isObject hobject c) hmapped hmappedTyped
    have hmount := Lifecycle.failure?_mountCode o.state hmappedTyped
    rw [if_pos hobject] at hmount
    obtain ⟨mount, hmount⟩ := exists_eq_ok_of_failure? hmount
    rw [hmount, ok_bind] at hout
    exact absurd (hout.symm.trans h)
      ((Markup.unrejected_forest _).bind (fun _ => unrejected_ok _) code)

include hstyles in
/-- The first code that is refused stops the compilation. -/
theorem outcome_of_firstRefused (hplain : State.PlainGetters c) (hstate : o.state = .useState)
    {code : String} (h : FirstRefused c code) :
    (c.compile host o).outcome = .error (.unparsable (.str code)) := by
  obtain ⟨called, hcalled, hcalledTyped⟩ := State.exists_passGetters htyped hplain
  have hprepare := prepareState_useState hcalled
  rw [← hstate] at hprepare
  have hfailure := Component.failure_passSetters hcalledTyped.toHasTexts
  cases h with
  | binding hcalled' hcode =>
    cases hcalled.symm.trans hcalled'
    rw [rejection_of_find? hcode] at hfailure
    exact outcome_of_prepareState_error host hname hplugins hformat
      (hprepare.trans (Progress.toOutcome_of_failure hfailure))
  | handle hcalled' hbindings hset hcode =>
    cases hcalled.symm.trans hcalled'
    have hhandles := Component.failure_mapRefs (hcalledTyped.passSetters hset).toHasTexts
    rw [rejection_of_find? hcode] at hhandles
    exact outcome_of_mapRefs_error host hname hplugins hformat (hprepare.trans hset)
      (Progress.toOutcome_of_failure hhandles)
  | mount hcalled' hbindings hset hhandles hmapped hcode =>
    cases hcalled.symm.trans hcalled'
    have hmappedTyped := (hcalledTyped.passSetters hset).mapRefs hmapped
    obtain ⟨source, hout⟩ := outcome_of_mapped host hname hstyles hplugins hformat
      (hprepare.trans hset) hmapped hmappedTyped
    have hmount := Lifecycle.failure?_mountCode o.state hmappedTyped
    rw [hstate, if_neg (by decide), rejection_of_find? hcode] at hmount
    rw [hout, hstate, eq_error_of_failure? hmount]
    rfl

include hstyles in
/-- And a code that stops it is the first one that is refused. -/
theorem firstRefused_of_outcome (hplain : State.PlainGetters c) (hstate : o.state = .useState)
    {code : Json} (h : (c.compile host o).outcome = .error (.unparsable code)) :
    ∃ text, code = .str text ∧ FirstRefused c text := by
  have hfound : ∀ {text}, FirstRefused c text → ∃ text, code = .str text ∧ FirstRefused c text := by
    intro text hfirst
    have hout := outcome_of_firstRefused host hname htyped hstyles hplugins hformat hplain hstate
      hfirst
    rw [hout] at h
    cases h
    exact ⟨text, rfl, hfirst⟩
  obtain ⟨called, hcalled, hcalledTyped⟩ := State.exists_passGetters htyped hplain
  have hprepare := prepareState_useState hcalled
  rw [← hstate] at hprepare
  have hsetters := Component.failure_passSetters hcalledTyped.toHasTexts
  rcases rejection_cases (fun code => !Code.isScript code) (State.bindingCodes called) with
    ⟨text, hfirst, -⟩ | ⟨hbindings, hnone⟩
  · exact hfound (.binding hcalled hfirst)
  rw [hnone] at hsetters
  have hset := Progress.toOutcome_eq_ok.2 ⟨hsetters, rfl⟩
  have hsetTyped := hcalledTyped.passSetters hset
  have hscripts : ∀ code ∈ State.bindingCodes called, Code.isScript code = true := by
    intro code hcode
    simpa using hbindings code hcode
  have hhandles := Component.failure_mapRefs hsetTyped.toHasTexts
  rcases rejection_cases (Code.isObstacle (State.passSetters called).value.refs)
      (State.passSetters called).value.handleCodes with ⟨text, hfirst, -⟩ | ⟨hfree, hnone⟩
  · exact hfound (.handle hcalled hscripts hset hfirst)
  rw [hnone] at hhandles
  have hmapped := Progress.toOutcome_eq_ok.2 ⟨hhandles, rfl⟩
  have hmappedTyped := hsetTyped.mapRefs hmapped
  have hmount := Lifecycle.failure?_mountCode o.state hmappedTyped
  rw [hstate, if_neg (by decide)] at hmount
  rcases rejection_cases (fun code => !Code.isScript code) (State.hookCodes
      ((State.passSetters called).value.mapRefs currentElement).value.onMount) with
    ⟨text, hfirst, -⟩ | ⟨-, hnone⟩
  · exact hfound (.mount hcalled hscripts hset hfree hmapped hfirst)
  rw [hnone] at hmount
  obtain ⟨mount, hmount⟩ := exists_eq_ok_of_failure? hmount
  obtain ⟨source, hout⟩ := outcome_of_mapped host hname hstyles hplugins hformat
    (hprepare.trans hset) hmapped hmappedTyped
  rw [hstate, hmount, ok_bind] at hout
  exact absurd (hout.symm.trans h)
    ((Markup.unrejected_forest _).bind (fun _ => unrejected_ok _) code)

end Plain

/-- **Which codes end a compilation**, and which of them is told of. The component has a name that can
be one, its codes are texts, and the names of its getters have no backslash; styles stay on their
nodes, no plugin runs, and the source is not formatted. -/
theorem compile_unparsable_iff (o : Options) (c : Component) (hname : c.checkName = .ok ())
    (htyped : c.Typed) (hplain : State.PlainGetters c) (hstyles : o.styles = .emotion)
    (hplugins : o.plugins = []) (hformat : o.format = false) (code : Json) :
    (o.state.isObject = true →
      ((c.compile host o).outcome = .error (.unparsable code) ↔
        ∃ text, code = .str text ∧ FirstObstacle c text)) ∧
    (o.state = .useState →
      ((c.compile host o).outcome = .error (.unparsable code) ↔
        ∃ text, code = .str text ∧ FirstRefused c text)) := by
  refine ⟨fun hobject => ⟨?_, ?_⟩, fun hstate => ⟨?_, ?_⟩⟩
  · exact firstObstacle_of_outcome host hname htyped hstyles hplugins hformat hobject
  · rintro ⟨text, rfl, hfirst⟩
    exact outcome_of_firstObstacle host hname htyped hplugins hformat hobject hfirst
  · exact firstRefused_of_outcome host hname htyped hstyles hplugins hformat hplain hstate
  · rintro ⟨text, rfl, hfirst⟩
    exact outcome_of_firstRefused host hname htyped hstyles hplugins hformat hplain hstate hfirst

end Compilations

/-- A component with a loop that lacks its collection, and a hook that uses a handle and breaks
off. -/
def halfWritten : Component :=
  ⟨.str "App", [], .null, .str "box.focus(", [],
    [⟨⟨.str "For", [], []⟩, []⟩, ⟨⟨.str "input", [], [(.str "ref", .str "box")]⟩, []⟩]⟩

theorem typed_halfWritten : halfWritten.Typed where
  bindings := by
    have hheads : halfWritten.heads =
        [⟨.str "For", [], []⟩, ⟨.str "input", [], [(.str "ref", .str "box")]⟩] := by
      simp [halfWritten, Component.heads, Node.headsOf, Node.heads]
    rw [hheads]
    simp
  init := .inl rfl
  onMount := .inr ⟨_, rfl⟩
  fields := by simp [halfWritten]
  imported := by simp [halfWritten]

/-- Whether an outcome is the failure of the given code. -/
def isRefusalOf (code : String) : Outcome String → Bool
  | .error (.unparsable (.str text)) => text == code
  | _ => false

theorem eq_error_of_isRefusalOf {code : String} {x : Outcome String}
    (h : isRefusalOf code x = true) : x = .error (.unparsable (.str code)) := by
  unfold isRefusalOf at h
  split at h
  · rw [eq_of_beq h]
  · cases h

/-- The hook is told of before the loop. -/
theorem compile_unparsable_iff_halfWritten :
    halfWritten.checkName = .ok () ∧ halfWritten.Typed ∧ State.PlainGetters halfWritten ∧
      (halfWritten.compile .bare State.perField).outcome = .error (.unparsable (.str "box.focus(")) ∧
      FirstRefused halfWritten "box.focus(" ∧ FirstObstacle halfWritten "box.focus(" := by
  have hplain : State.PlainGetters halfWritten := by
    intro name hname
    simp [halfWritten, State.getterKeys] at hname
  have hiff := fun o => compile_unparsable_iff .bare o halfWritten rfl typed_halfWritten hplain
  have hfield : isRefusalOf "box.focus("
      (halfWritten.compile .bare State.perField).outcome = true := by decide +kernel
  have hobject : isRefusalOf "box.focus("
      (halfWritten.compile .bare (oneObject .mobx)).outcome = true := by decide +kernel
  have hrefused := eq_error_of_isRefusalOf hfield
  obtain ⟨text, htext, hfirst⟩ := ((hiff State.perField rfl rfl rfl _).2 rfl).1 hrefused
  obtain ⟨text', htext', hfirst'⟩ :=
    ((hiff (oneObject .mobx) rfl rfl rfl _).1 rfl).1 (eq_error_of_isRefusalOf hobject)
  cases htext
  cases htext'
  exact ⟨rfl, typed_halfWritten, hplain, hrefused, hfirst, hfirst'⟩

end ReactWeave
