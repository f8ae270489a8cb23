import ReactWeave.Cli.Run
import ReactWeave.Proofs.FirstFailure
import ReactWeave.Proofs.Numbering

/-!
# ReactWeave.Proofs.FailureKinds

**Which failures a run can have.**

A run reads a file, loads the component in it, compiles the component, formats the
source and writes it. Each of these steps can fail for reasons of its own. None of
them fails for a reason that only options and plugins can give, and the only nodes
that lack a binding are loops and conditions.

* `Cli.owned_perform` says that a run has no others.
-/

namespace ReactWeave

/-! ## Promises -/

section Ends

variable {α β : Type} {E : Failure → Prop} {Q Q' : α → Prop} {R : β → Prop}

/-- Whether an outcome is a value with the one property, or a failure with the other. -/
def Ends (E : Failure → Prop) (Q : α → Prop) : Outcome α → Prop
  | .ok a => Q a
  | .error e => E e

/-- Whether an outcome is a value, or a failure with the property. -/
abbrev FailsIn (E : Failure → Prop) (x : Outcome α) : Prop := Ends E (fun _ => True) x

theorem Ends.mono {x : Outcome α} (hx : Ends E Q x) (hQ : ∀ a, Q a → Q' a) : Ends E Q' x := by
  cases x with
  | ok a => exact hQ a hx
  | error e => exact hx

/-- What a computation promises, the next one may use. -/
theorem Ends.bind {x : Outcome α} {f : α → Outcome β} (hx : Ends E Q x)
    (hf : ∀ a, Q a → Ends E R (f a)) : Ends E R (x >>= f) := by
  cases x with
  | ok a => exact hf a hx
  | error e => exact hx

theorem Ends.map {x : Outcome α} {f : α → β} (hx : Ends E Q x) (hf : ∀ a, Q a → R (f a)) :
    Ends E R (x.map f) := by
  cases x with
  | ok a => exact hf a hx
  | error e => exact hx

theorem Ends.mapM {f : α → Outcome β} {xs : List α} (h : ∀ x ∈ xs, Ends E R (f x)) :
    Ends E (fun ys => ∀ y ∈ ys, R y) (xs.mapM f) := by
  induction xs with
  | nil => exact List.forall_mem_nil _
  | cons x xs ih =>
    rw [List.forall_mem_cons] at h
    rw [List.mapM_cons]
    refine h.1.bind fun y hy => (ih h.2).bind fun ys hys => ?_
    exact List.forall_mem_cons.2 ⟨hy, hys⟩

@[simp] theorem ends_ok (a : α) : Ends E Q (.ok a) ↔ Q a := .rfl

@[simp] theorem ends_error (e : Failure) : Ends E Q (.error e) ↔ E e := .rfl

theorem FailsIn.bind {x : Outcome α} {f : α → Outcome β} (hx : FailsIn E x)
    (hf : ∀ a, FailsIn E (f a)) : FailsIn E (x >>= f) :=
  Ends.bind hx fun a _ => hf a

theorem FailsIn.map {x : Outcome α} (hx : FailsIn E x) (f : α → β) : FailsIn E (x.map f) :=
  Ends.map hx fun _ _ => trivial

theorem FailsIn.ends {x : Outcome α} (hx : FailsIn E x) (hQ : ∀ a, x = .ok a → Q a) :
    Ends E Q x := by
  cases x with
  | ok a => exact hQ a rfl
  | error e => exact hx

theorem FailsIn.mapM {f : α → Outcome β} {xs : List α} (hf : ∀ x ∈ xs, FailsIn E (f x)) :
    FailsIn E (xs.mapM f) :=
  (Ends.mapM hf).mono fun _ _ => trivial

theorem Ends.of_map {x : Outcome α} {f : α → β} (hx : Ends E R (x.map f)) :
    Ends E (fun a => R (f a)) x := by
  cases x with
  | ok a => exact hx
  | error e => exact hx

theorem Ends.of_failure? {x : Outcome α} (h : ∀ e, failure? x = some e → E e) :
    FailsIn E x := by
  cases x with
  | ok a => trivial
  | error e => exact h e rfl

/-- The failure of a pass is all that can be wrong with its outcome. -/
theorem Ends.of_failure {p : Progress α} (h : ∀ e, p.failure = some e → E e) :
    FailsIn E p.toOutcome := by
  cases hp : p.failure with
  | none =>
    rw [Progress.toOutcome_eq_ok.2 ⟨hp, rfl⟩]
    trivial
  | some e =>
    rw [Progress.toOutcome_of_failure hp]
    exact h e hp

theorem Ends.failure {p : Progress α} (h : Ends E Q p.toOutcome) :
    ∀ e, p.failure = some e → E e := by
  intro e he
  rwa [Progress.toOutcome_of_failure he] at h

theorem Ends.failure? {x : Outcome α} (h : Ends E Q x) : ∀ e, failure? x = some e → E e := by
  intro e he
  rwa [eq_error_of_failure? he] at h

end Ends

/-! ## Passes -/

section Passes

variable {E : Failure → Prop}

/-- The first failure found is one of those that can be found. -/
theorem forall_of_findSome? {α : Type} {xs : List α} {f : α → Option Failure}
    (h : ∀ x ∈ xs, ∀ e, f x = some e → E e) : ∀ e, xs.findSome? f = some e → E e := by
  intro e he
  obtain ⟨x, hx, hfx⟩ := List.exists_of_findSome?_eq_some he
  exact h x hx e hfx

theorem ends_passList {σ : Type} {f : σ → Head → Progress (σ × Head)} {hs : List Head}
    (hf : ∀ s, ∀ h ∈ hs, FailsIn E (f s h).toOutcome) (s : σ) :
    FailsIn E (passList f s hs) := by
  induction hs generalizing s with
  | nil => trivial
  | cons h hs ih =>
    have hfirst := hf s h List.mem_cons_self
    have hrest := ih fun s h hh => hf s h (List.mem_cons_of_mem _ hh)
    exact hfirst.bind fun r => (hrest r.1).map _

namespace Component

variable {c : Component}

theorem ends_passHeads {σ : Type} {f : σ → Head → Progress (σ × Head)}
    (hf : ∀ s, ∀ h ∈ c.heads, FailsIn E (f s h).toOutcome) (s : σ) :
    FailsIn E (c.passHeads f s).toOutcome := by
  have hlist := ends_passList hf s
  rw [← passHeads_heads] at hlist
  exact hlist.of_map

theorem ends_passBindings {f : Json → Json → Outcome Json}
    (hf : ∀ h ∈ c.heads, ∀ b ∈ h.bindings, FailsIn E (f b.1 b.2)) :
    FailsIn E (c.passBindings f).toOutcome := by
  refine .of_failure ?_
  rw [failure_passBindings]
  exact forall_of_findSome? fun h hh => forall_of_findSome? fun b hb => (hf h hh b hb).failure?

/-- A pass over all codes fails only as the change of a code does. -/
theorem ends_passCodes {f : Json → Outcome Json} (hf : ∀ j, FailsIn E (f j))
    (spared : Json → Bool) : FailsIn E (c.passCodes f spared).toOutcome := by
  have hstate : ∀ b ∈ c.state, ∀ e, failure? (State.Value.mapCode f b.2) = some e → E e := by
    intro b _
    unfold State.Value.mapCode
    split
    · rw [failure?_map]
      exact (hf _).failure?
    · rintro e ⟨⟩
  have hbindings : ∀ h ∈ c.heads, ∀ b ∈ h.bindings, ∀ e,
      failure? (if spared b.1 then .ok b.2 else f b.2) = some e → E e := by
    intro h _ b _
    split
    · rintro e ⟨⟩
    · exact (hf _).failure?
  have hhook : ∀ hook e, failure? (passHook f hook) = some e → E e := by
    intro hook
    unfold passHook
    split
    · exact (hf _).failure?
    · rintro e ⟨⟩
  refine .of_failure fun e he => ?_
  simp only [passCodes, Progress.failure_andThen, failure_passState, failure_passBindings,
    failure_passHooks, hooks_of_passes, Option.or_eq_some_iff] at he
  rcases he with (he | ⟨-, he⟩) | ⟨-, he | ⟨-, he⟩⟩
  · exact forall_of_findSome? hstate e he
  · exact forall_of_findSome? (fun h hh => forall_of_findSome? (hbindings h hh)) e he
  · exact hhook _ e he
  · exact hhook _ e he

end Component

end Passes

/-! ## Failures of a run -/

/-- Whether a name is that of a node that can lack a binding: a loop or a condition. -/
def Json.isControl (name : Json) : Bool :=
  match NodeKind.ofJson name with
  | .ok .loop | .ok .condition => true
  | _ => false

/-- Whether a failure can come up in a run. What is wrong with options and plugins cannot, since a
run is asked for by options that exist and has no plugins; its formatter has a limit in seconds, and
only a recursion that goes too deep fails for a reason of its own. -/
@[simp] def Failure.isOwn : Failure → Bool
  | .missingBinding node _ => node.isControl
  | .formatterTimedOut seconds => seconds.str?.isNone
  | .raised message => message == depthMessage
  | .unknownChoice .. | .unknownOptions _ | .hookReply .. => false
  | _ => true

section Owned

variable {α : Type}

/-- Whether an outcome is a value, or a failure that can come up in a run. -/
abbrev Owned (x : Outcome α) : Prop := FailsIn (fun e => e.isOwn = true) x

/-- The same with failures that are no faults. -/
abbrev Told (x : Outcome α) : Prop :=
  FailsIn (fun e => e.isOwn = true ∧ Cli.isFault e = false) x

theorem Told.owned {x : Outcome α} (hx : Told x) : Owned x := by
  cases x with
  | ok a => trivial
  | error e => exact hx.1

theorem Told.faultless {x : Outcome α} (hx : Told x) :
    FailsIn (fun e => Cli.isFault e = false) x := by
  cases x with
  | ok a => trivial
  | error e => exact hx.2

end Owned

/-! ## Loading -/

namespace Fields

theorem owned_pairOf (index : Nat) (items : List Json) : Owned (pairOf index items) := by
  fun_cases pairOf <;> simp

theorem owned_pairItem (index : Nat) (j : Json) : Owned (pairItem index j) := by
  fun_cases pairItem <;> simp [owned_pairOf]

theorem owned_ofPairs (index : Nat) (done : Fields) (items : List Json) :
    Owned (ofPairs index done items) := by
  fun_induction ofPairs with
  | case1 => trivial
  | case2 index done item items e he =>
    have hitem := owned_pairItem index item
    rwa [he] at hitem
  | case3 _ _ _ _ _ _ _ ih => exact ih

theorem owned_ofJson (j : Json) : Owned (Fields.ofJson j) := by
  fun_cases Fields.ofJson <;> simp [owned_ofPairs]

end Fields

namespace Reader

theorem owned_mentions (key : String) (j : Json) : Owned (mentions key j) := by
  fun_cases mentions <;> simp

theorem owned_optional (key : String) (j : Json) : Owned (optional key j) := by
  fun_cases optional <;> simp

theorem owned_required (key : String) (j : Json) : Owned (required key j) := by
  fun_cases required <;> simp

theorem owned_items (j : Json) : Owned (items j) := by
  fun_cases items <;> simp

theorem owned_importOf (j : Json) : Owned (importOf j) :=
  (owned_required _ _).bind fun _ => (owned_optional _ _).bind fun _ =>
    (Fields.owned_ofJson _).bind fun _ => trivial

theorem isOwn_notANode (j : Json) : (notANode j).isOwn = true := by
  have hmentions := owned_mentions "name" j
  unfold notANode
  split
  · rfl
  · rfl
  · rename_i e he
    rwa [he] at hmentions

theorem owned_strangeNodes (js : List Json) : Owned (strangeNodes js) := by
  cases js with
  | nil => trivial
  | cons j js => exact (isOwn_notANode j)

theorem owned_scalarNodes (j : Json) :
    Owned (if j.truthy then .error .notApplicable else .ok [] : Outcome (List Node)) := by
  split
  · exact rfl
  · trivial

mutual

theorem owned_nodeOf : ∀ j : Json, Owned (nodeOf j)
  | .obj fields => by
    rw [nodeOf]
    split
    · refine (Fields.owned_ofJson _).bind fun _ => (Fields.owned_ofJson _).bind fun _ => ?_
      exact (owned_childrenIn fields).bind fun _ => trivial
    · exact rfl
  | .null | .bool _ | .int _ | .real _ | .str _ | .arr _ => (isOwn_notANode _)

theorem owned_childrenIn : ∀ fields : List (String × Json), Owned (childrenIn fields)
  | [] => trivial
  | (key, value) :: rest => by
    rw [childrenIn]
    split
    · exact owned_nodesIn value
    · exact owned_childrenIn rest

theorem owned_nodesIn : ∀ j : Json, Owned (nodesIn j)
  | .arr items => owned_nodesOf items
  | .str _ | .obj _ => owned_strangeNodes _
  | .null | .bool _ | .int _ | .real _ => by
    simpa only [nodesIn] using owned_scalarNodes _

theorem owned_nodesOf : ∀ js : List Json, Owned (nodesOf js)
  | [] => trivial
  | j :: js => by
    rw [nodesOf]
    exact (owned_nodeOf j).bind fun _ => (owned_nodesOf js).bind fun _ => trivial

end

end Reader

theorem Component.owned_ofJson (j : Json) : Owned (Component.ofJson j) := by
  refine (Reader.owned_mentions _ _).bind fun named => ?_
  cases named with
  | false => exact rfl
  | true =>
    cases j with
    | obj fields =>
      refine (Fields.owned_ofJson _).bind fun _ => (Reader.owned_optional _ _).bind fun _ => ?_
      refine (Reader.owned_optional _ _).bind fun _ => (Reader.owned_items _).bind fun _ => ?_
      refine (FailsIn.mapM fun j _ => Reader.owned_importOf j).bind fun _ => ?_
      exact (Reader.owned_childrenIn _).bind fun _ => trivial
    | _ => exact rfl

theorem Component.owned_ofText (text : String) : Owned (Component.ofText text) := by
  unfold Component.ofText
  split
  · exact rfl
  · exact owned_ofJson _

/-- Decoding fails only at bytes that are no text. -/
theorem Text.failsIn_decodeFrom {E : Failure → Prop}
    (hE : ∀ fault first count position, E (.undecodable fault first count position))
    (position skip : Nat) (bytes : List Nat) : FailsIn E (Text.decodeFrom position skip bytes) := by
  fun_induction Text.decodeFrom with
  | case1 => trivial
  | case2 _ _ _ _ ih => exact ih
  | case4 => exact FailsIn.map (by assumption) _
  | _ => exact hE _ _ _ _

theorem Content.failsIn_read {E : Failure → Prop}
    (hE : ∀ fault first count position, E (.undecodable fault first count position))
    (content : Content) : FailsIn E content.read := by
  cases content with
  | text s => trivial
  | bytes bs => exact (Text.failsIn_decodeFrom hE _ _ _).map _

namespace Files

theorem told_read (files : Files) (path : String) : Told (files.read path) := by
  unfold Files.read
  split
  · exact ⟨rfl, rfl⟩
  · split
    · exact ⟨rfl, rfl⟩
    · exact ⟨rfl, rfl⟩
    · exact ⟨rfl, rfl⟩
    · exact Content.failsIn_read (fun _ _ _ _ => ⟨rfl, rfl⟩) _

/-! ## Saving -/

theorem told_ensureOne (files : Files) (p : CleanPath) : Told (files.ensureOne p) := by
  fun_cases ensureOne <;> simp [Cli.isFault]

theorem told_ensureSteps (files : Files) (steps : List String) :
    Told (files.ensureSteps steps) := by
  fun_induction ensureSteps with
  | case3 _ _ _ _ ih => exact ih.bind fun _ => told_ensureOne _ _
  | _ => simp [Cli.isFault]

theorem told_write (files : Files) (p : CleanPath) (text : String) :
    Told (files.write p text) := by
  fun_cases write <;> simp [Cli.isFault]

theorem told_save (files : Files) (p : CleanPath) (text : String) : Told (files.save p text) :=
  (told_ensureSteps _ _).bind fun _ => told_write _ _ _

end Files

/-! ## Preparing -/

section Preparing

variable (c : Component)

theorem Component.told_checkName : Told c.checkName := by
  fun_cases Component.checkName <;> simp [Cli.isFault]

theorem Code.told_rewrite (v : Script.Rewriter) (code : Json) : Told (Code.rewrite v code) := by
  unfold Code.rewrite Code.parse
  split
  · trivial
  · rename_i e he
    split at he
    · cases he
    · cases he
      exact ⟨rfl, rfl⟩

theorem Code.owned_mentionsAny (code : Json) (names : List String) :
    Owned (Code.mentionsAny code names) := by
  fun_induction Code.mentionsAny with
  | case1 => trivial
  | case2 _ _ _ ih => exact ih
  | case3 name names => cases code <;> simp [Code.mentions]

theorem Code.owned_rename (names : List String) (mapper : String → String) (code : Json) :
    Owned (Code.rename names mapper code) := by
  have hmentions := owned_mentionsAny code names
  unfold Code.rename
  split
  · rename_i e he
    rw [he] at hmentions
    exact hmentions
  · trivial
  · exact (told_rewrite _ _).owned.map _

theorem Component.owned_mapRefs : Owned (c.mapRefs currentElement).toOutcome := by
  unfold Component.mapRefs
  split
  · trivial
  · exact ends_passCodes (Code.owned_rename c.refs currentElement) (Fields.isKey refKey)

namespace State

theorem owned_group (name : List Char) : Owned (Template.group name) := by
  fun_cases Template.group <;> simp

theorem owned_plainEscape (a : Char) : Owned (Template.escape.plain a) := by
  fun_cases Template.escape.plain <;> simp

theorem owned_escape (s : List Char) : Owned (Template.escape s) := by
  fun_cases Template.escape with
  | case1 => exact (owned_group _).map _
  | _ => simp [owned_plainEscape]

theorem owned_readFrom (skip : Nat) (s : List Char) : Owned (Template.readFrom skip s) := by
  induction s generalizing skip with
  | nil => trivial
  | cons c s ih =>
    cases skip with
    | succ skip => exact ih _
    | zero =>
      by_cases hc : c = '\\'
      · rw [hc, Template.readFrom]
        exact (owned_escape _).bind fun _ => (ih _).bind fun _ => trivial
      · rw [Template.readFrom]
        · exact (ih _).bind fun _ => trivial
        · exact hc

theorem owned_callGetters (names : List String) (code : Json) :
    Owned (callGetters names code) := by
  induction names generalizing code with
  | nil => trivial
  | cons name names ih =>
    have hcall : Owned (callGetter name code) := by
      refine (owned_readFrom _ _).bind fun _ => ?_
      cases code with
      | str s => trivial
      | _ => exact rfl
    exact hcall.bind fun _ => ih _

theorem owned_namesOf (keys : List Json) : Owned (namesOf keys) := by
  fun_induction namesOf with
  | case2 _ _ ih => exact ih.map _
  | _ => simp

theorem owned_passGetters : Owned (passGetters c).toOutcome := by
  have hnames := owned_namesOf (getterKeys c.state)
  unfold passGetters
  split
  · trivial
  · split
    · rename_i e he
      rw [he] at hnames
      exact hnames
    · exact c.ends_passCodes (owned_callGetters _) fun _ => false

theorem told_passSetters : Told (passSetters c).toOutcome :=
  Component.ends_passBindings fun _ _ _ _ => (Code.told_rewrite _ _).map _

end State

theorem owned_prepareState (strategy : StateStrategy) : Owned (prepareState strategy c) := by
  cases strategy with
  | useState =>
    refine Ends.of_failure fun e he => ?_
    rw [Progress.failure_andThen, Option.or_eq_some_iff] at he
    rcases he with he | ⟨-, he⟩
    · exact (State.owned_passGetters c).failure e he
    · exact (State.told_passSetters _).owned.failure e he
  | _ => trivial

namespace Style

theorem told_readMap (code : String) : Told (readMap code) := by
  fun_cases readMap <;> simp [Cli.isFault]

theorem owned_classBase (name : Json) : Owned (classBase name) := by
  fun_cases classBase <;> simp

theorem owned_styledBase (name : Json) : Owned (styledBase name) := by
  fun_cases styledBase <;> simp

/-- What stops the naming of a styled node: its tag, or else its style. -/
def obstacle {α : Type} (base : Outcome α) (h : Head) : Option Failure :=
  h.style?.bind fun css => (failure? base).or (failure? (readMap css))

theorem failure_classify (property : String) (s : Classes) (h : Head) :
    (classify property s h).failure = obstacle (classBase h.name) h := by
  unfold classify obstacle
  cases h.style? with
  | none => rfl
  | some css =>
    dsimp only [Option.bind_some]
    cases classBase h.name with
    | error e => rfl
    | ok base =>
      cases readMap css <;> rfl

theorem failure_dress (s : Wardrobe) (h : Head) :
    (dress s h).failure = obstacle (styledBase h.name) h := by
  unfold dress obstacle
  cases h.style? with
  | none => rfl
  | some css =>
    dsimp only [Option.bind_some]
    cases styledBase h.name with
    | error e => rfl
    | ok base =>
      cases readMap css <;> rfl

theorem ends_of_obstacle {α β : Type} {E : Failure → Prop} {Q : α → Prop} {R : Map → Prop}
    {base : Outcome α} {h : Head} {p : Progress β} (hp : p.failure = obstacle base h)
    (hbase : Ends E Q base) (hmap : ∀ css, Ends E R (readMap css)) :
    FailsIn E p.toOutcome := by
  refine .of_failure fun e he => ?_
  rw [hp, obstacle, Option.bind_eq_some_iff] at he
  obtain ⟨css, -, he⟩ := he
  rw [Option.or_eq_some_iff] at he
  rcases he with he | ⟨-, he⟩
  · exact hbase.failure? e he
  · exact (hmap css).failure? e he

/-- Preparing styles fails at a tag or at a style, with the failures of these. -/
theorem ends_prepareStyles {E : Failure → Prop} {c : Component} (strategy : StyleStrategy)
    (hasStyles : Bool)
    (hclass : ∀ h ∈ c.heads, FailsIn E (classBase h.name))
    (hstyled : ∀ h ∈ c.heads, FailsIn E (styledBase h.name))
    (hmap : ∀ css, FailsIn E (readMap css)) :
    FailsIn E (prepareStyles strategy hasStyles c).outcome := by
  cases strategy with
  | emotion => trivial
  | styledJsx =>
    have hpass := Component.ends_passHeads (f := classify "className") (fun s h hh =>
      ends_of_obstacle (failure_classify "className" s h) (hclass h hh) hmap) ⟨[], []⟩
    rw [prepareStyles, Traced.outcome_bind]
    refine FailsIn.bind ?_ fun _ => trivial
    rw [collectSheet, collectClasses, Progress.toOutcome_map, Progress.toOutcome_map]
    exact (hpass.map _).map _
  | styledComponents =>
    have hpass := Component.ends_passHeads (f := dress) (fun s h hh =>
      ends_of_obstacle (failure_dress s h) (hstyled h hh) hmap) ⟨[], []⟩
    simp only [prepareStyles]
    split
    · rw [Traced.outcome_bind]
      refine FailsIn.bind ?_ fun _ => trivial
      rw [prepareStyled, Traced.outcome_bind]
      rw [collectStyled, Progress.toOutcome_map, Progress.toOutcome_map]
      exact (hpass.map _).map _
    · trivial

end Style

theorem State.owned_declaration (strategy : StateStrategy) (state : Fields) :
    Owned (State.declaration strategy state) := by
  have hpair : ∀ (key : Json) (initial : String), Owned (State.pairDeclaration key initial) := by
    intro key initial
    cases key with
    | str => trivial
    | _ => exact rfl
  unfold State.declaration
  split
  · trivial
  · split
    · refine (FailsIn.mapM fun field _ => ?_).bind fun _ => trivial
      dsimp only [State.fieldDeclaration]
      split
      · trivial
      · exact hpair _ _
      · exact hpair _ _
    · trivial

/-- **A preparation fails like a run.** -/
theorem owned_prepare (state : StateStrategy) (styles : StyleStrategy) :
    Owned (prepare state styles c).outcome := by
  rw [outcome_prepare]
  refine c.told_checkName.owned.bind fun _ => (owned_prepareState c state).bind fun set => ?_
  refine set.owned_mapRefs.bind fun mapped => FailsIn.bind ?_ fun r => ?_
  · exact Style.ends_prepareStyles styles _ (fun h _ => Style.owned_classBase h.name)
      (fun h _ => Style.owned_styledBase h.name) fun css => (Style.told_readMap css).owned
  · exact (State.owned_declaration _ _).bind fun _ => trivial

end Preparing

/-! ## Parts of the source -/

theorem Import.owned_localName (name : Json) : Owned (Import.localName name) := by
  fun_cases Import.localName <;> simp

/-- An import fails only at a local name that is none. -/
theorem Import.owned_statement (i : Import) : Owned i.statement := by
  have hnamed : Owned (Import.namedClauses i.names) := by
    unfold Import.namedClauses
    dsimp only
    split
    · trivial
    · refine (FailsIn.mapM fun n _ => ?_).bind fun _ => trivial
      unfold Import.namedClause
      split
      · exact Import.owned_localName _
      · trivial
  have hclauses : Owned (Import.clauses i.names) :=
    hnamed.bind fun _ =>
      (FailsIn.mapM fun n _ => Import.owned_localName n.1).bind fun _ => trivial
  refine hclauses.bind fun _ => ?_
  split <;> trivial

theorem Component.owned_importStatements (c : Component) : Owned c.importStatements :=
  (FailsIn.mapM fun i _ => Import.owned_statement i).bind fun _ => trivial

namespace Markup

/-- Whether some failures are among those with a property: those of values that are no texts where
a text is needed, and those of loops and conditions that lack a binding. -/
structure Admits (E : Failure → Prop) : Prop where
  missing : ∀ {name : Json}, name.isControl = true → ∀ key, E (.missingBinding name key)
  notApplicable : E .notApplicable
  noSuchOperation : E .noSuchOperation

theorem isControl_of_kind {h : Head} {kind : NodeKind} (hkind : h.kind = .ok kind)
    (hcontrol : kind = .loop ∨ kind = .condition) : h.name.isControl = true := by
  unfold Head.kind at hkind
  unfold Json.isControl
  split at hkind
  · cases hkind
  · split at hkind <;> cases hkind <;> simp at hcontrol
  · rename_i hname
    cases hkind
    rw [hname]
    rcases hcontrol with rfl | rfl <;> rfl

variable {E : Failure → Prop} {strategy : StateStrategy}

theorem failsIn_processed (hE : Admits E) (code : Json) :
    FailsIn E (State.processed strategy code) := by
  cases strategy with
  | useState =>
    cases code with
    | str => trivial
    | _ => exact hE.notApplicable
  | _ => trivial

theorem failsIn_isEmptyStyle (hE : Admits E) (code : Json) : FailsIn E (isEmptyStyle code) := by
  cases code with
  | str => trivial
  | _ => exact hE.notApplicable

/-- A binding fails at a value or at a key that is no text. -/
theorem failsIn_binding (hE : Admits E) (key value : Json) :
    FailsIn E (binding strategy key value) := by
  unfold binding
  split
  · trivial
  · refine (failsIn_processed hE value).bind fun code => ?_
    cases key with
    | str name =>
      dsimp only
      split
      · refine (failsIn_isEmptyStyle hE code).bind fun isEmpty => ?_
        split <;> trivial
      · trivial
    | _ => exact hE.noSuchOperation

theorem failsIn_bindingsOf (hE : Admits E) (fields : Fields) :
    FailsIn E (bindingsOf strategy fields) := by
  induction fields with
  | nil => trivial
  | cons field fields ih =>
    exact (failsIn_binding hE _ _).bind fun _ => ih.bind fun _ => trivial

theorem failsIn_opening (hE : Admits E) (h : Head) : FailsIn E (opening strategy h) := by
  have hspread : FailsIn E (spread strategy h.bindings) := by
    unfold spread
    split
    · trivial
    · exact (failsIn_processed hE _).bind fun _ => trivial
  exact hspread.bind fun _ => (failsIn_bindingsOf hE _).bind fun _ => trivial

theorem failsIn_textContent (hE : Admits E) (h : Head) : FailsIn E (textContent strategy h) := by
  unfold textContent
  split
  · trivial
  · exact (failsIn_processed hE _).bind fun _ => trivial

theorem failsIn_required (hE : Admits E) {h : Head} (hname : h.name.isControl = true)
    (key : String) : FailsIn E (required h key) := by
  unfold required
  split
  · split
    · exact hE.missing hname key
    · trivial
  · exact hE.missing hname key

theorem failsIn_loopHead (hE : Admits E) {h : Head} (hname : h.name.isControl = true) :
    FailsIn E (loopHead strategy h) :=
  (failsIn_required hE hname _).bind fun _ => (failsIn_processed hE _).bind fun _ =>
    (failsIn_required hE hname _).bind fun _ => trivial

theorem failsIn_conditionHead (hE : Admits E) {h : Head} (hname : h.name.isControl = true) :
    FailsIn E (conditionHead strategy h) :=
  (failsIn_required hE hname _).bind fun _ => (failsIn_processed hE _).bind fun _ => trivial

/-- If the kind of a node is known, it is the one that the node has. -/
theorem ends_kind (hE : Admits E) (h : Head) :
    Ends E (fun kind => h.kind = .ok kind) h.kind := by
  cases hkind : h.kind with
  | ok kind => rfl
  | error e =>
    unfold Head.kind NodeKind.ofJson at hkind
    split at hkind
    · rename_i hname
      split at hname
      · cases hkind
        cases hname
        exact hE.notApplicable
      · split at hname <;> cases hname
    · split at hkind <;> cases hkind
    · cases hkind

mutual

/-- A node fails by its own values, or where one of its children does. -/
theorem failsIn_node (hE : Admits E) : ∀ n : Node, FailsIn E (node strategy n)
  | ⟨head, children⟩ => by
    rw [node]
    refine (ends_kind hE head).bind fun kind hkind => ?_
    cases kind with
    | text => exact failsIn_textContent hE head
    | fragment => exact (failsIn_nodes hE children false).bind fun _ => trivial
    | loop =>
      have hname := isControl_of_kind hkind (.inl rfl)
      exact (failsIn_loopHead hE hname).bind fun _ =>
        (failsIn_nodes hE children true).bind fun _ => trivial
    | condition =>
      have hname := isControl_of_kind hkind (.inr rfl)
      exact (failsIn_conditionHead hE hname).bind fun _ =>
        (failsIn_nodes hE children true).bind fun _ => trivial
    | element =>
      refine (failsIn_opening hE head).bind fun _ => ?_
      split
      · trivial
      · exact (failsIn_nodes hE children false).bind fun _ => trivial

theorem failsIn_nodes (hE : Admits E) :
    ∀ (ns : List Node) (skip : Bool), FailsIn E (nodes strategy skip ns)
  | [], _ => by
    rw [nodes]
    trivial
  | ⟨head, children⟩ :: rest, skip => by
    rw [nodes]
    split
    · exact failsIn_nodes hE rest skip
    · exact (failsIn_node hE ⟨head, children⟩).bind fun _ =>
        (failsIn_nodes hE rest skip).bind fun _ => trivial

end

/-- **What stops markup**: a value that is no text, or a loop or condition that lacks a binding. -/
theorem failsIn_forest (hE : Admits E) (children : List Node) :
    FailsIn E (forest strategy children) :=
  (failsIn_nodes hE children false).bind fun _ => trivial

end Markup

theorem Failure.admits_isOwn : Markup.Admits fun e => e.isOwn = true := ⟨fun h _ => h, rfl, rfl⟩

namespace Lifecycle

theorem owned_body (code : Json) : Owned (body code) := by
  fun_cases body <;> simp

theorem owned_initCode (c : Component) : Owned (initCode c) := by
  unfold initCode
  split
  · exact (owned_body _).map _
  · trivial

theorem owned_mountCode (strategy : StateStrategy) (c : Component) :
    Owned (mountCode strategy c) := by
  unfold mountCode
  split
  · have heffect : ∀ code, Owned (State.processed strategy code >>= fun code =>
        body code >>= fun text => pure (effect text)) := fun _ =>
      (Markup.failsIn_processed Failure.admits_isOwn _).bind fun _ =>
        (owned_body _).bind fun _ => trivial
    cases strategy with
    | useState => exact ((Code.told_rewrite _ _).owned.map _).bind heffect
    | _ => exact heffect c.onMount
  · trivial

end Lifecycle

theorem owned_partsOf (state : StateStrategy) (styles : StyleStrategy) (p : Prepared)
    (c : Component) : Owned (partsOf state styles p c) :=
  c.owned_importStatements.bind fun _ => (Lifecycle.owned_initCode c).bind fun _ =>
    (Lifecycle.owned_mountCode state c).bind fun _ =>
      (Markup.failsIn_forest Failure.admits_isOwn c.children).bind fun _ => trivial

/-! ## Formatting -/

/-- Whether a failure is one of a formatter that is a command. -/
def Failure.isOfFormatter : Failure → Bool
  | .formatterTimedOut seconds => seconds.str?.isNone
  | .unclosedQuote | .nothingEscaped | .formatterNotFound _ | .formatterStatus _
  | .formatRefused .. | .undecodable .. => true
  | _ => false

theorem outcome_callFormatter (f : Formatter) (source : String) (c : Component) :
    (callFormatter f source c).outcome = (f source).outcome := by
  unfold callFormatter
  cases h : (f source).outcome <;> simp [h]

section Formatting

variable {E : Failure → Prop} (hE : ∀ e : Failure, e.isOfFormatter = true → E e)

include hE

/-- Words of a command line fail only at an open quote or a last backslash. -/
theorem Shell.failsIn_wordsFrom (place : Shell.Place) (word line : List Char) :
    FailsIn E (Shell.wordsFrom place word line) := by
  induction line generalizing place word with
  | nil =>
    unfold wordsFrom
    split
    · trivial
    · trivial
    · exact hE _ rfl
    · exact hE _ rfl
  | cons c line ih =>
    unfold wordsFrom
    cases place with
    | between =>
      dsimp only
      split
      · exact ih _ _
      · split
        · exact ih _ _
        · split <;> exact ih _ _
    | word quote =>
      cases quote with
      | none =>
        dsimp only
        split
        · split
          · exact ih _ _
          · exact (ih _ _).map _
        · split
          · exact ih _ _
          · split <;> exact ih _ _
      | some q =>
        dsimp only
        split
        · exact ih _ _
        · split <;> exact ih _ _
    | escaped quote =>
      cases quote with
      | none => exact ih _ _
      | some q => dsimp only; split <;> exact ih _ _

/-- **A command fails like a formatter**, whatever comes of it. -/
theorem CommandFormatter.failsIn_outcome (command : List String)
    (hempty : command = [] → E .indexOutOfRange) (x : Execution) :
    FailsIn E ((CommandFormatter.ofCommand command).outcome x) := by
  have hreaches : ∀ elapsed, FailsIn E (reaches elapsed defaultTimeout) := by
    intro elapsed
    cases Number.Binary64.ofDecimal false 30 0 <;> trivial
  have hread : ∀ content : Content, FailsIn E content.read :=
    Content.failsIn_read fun _ _ _ _ => hE _ rfl
  unfold CommandFormatter.outcome
  cases x with
  | notFound =>
    dsimp only
    split
    · rename_i hcommand
      exact hempty hcommand
    · exact hE _ rfl
  | ended status output errors elapsed =>
    refine (hreaches elapsed).bind fun late => ?_
    cases late with
    | true => exact hE _ rfl
    | false =>
      refine (hread output).bind fun output => (hread errors).bind fun errors => ?_
      dsimp only
      split
      · trivial
      · split <;> exact hE _ rfl

/-- **Formatting fails like a formatter**, unless the environment asks for an empty command. -/
theorem failsIn_formatSource {host : Host} {o : Options} (source : String)
    (c : Component) (hchoice : o.formatter = .unset)
    (hempty : Shell.words (host.setting.getD CommandFormatter.defaultCommand) = .ok [] →
      E .indexOutOfRange) :
    FailsIn E (formatSource host o source c).outcome := by
  have hwords : FailsIn E (Shell.words (host.setting.getD CommandFormatter.defaultCommand)) :=
    Shell.failsIn_wordsFrom hE .between [] _
  unfold formatSource Options.formatterFor CommandFormatter.ofEnvironment
  rw [hchoice, Traced.outcome_bind]
  cases hcommand : Shell.words (host.setting.getD CommandFormatter.defaultCommand) with
  | error e => rwa [hcommand] at hwords
  | ok command =>
    change FailsIn E (callFormatter ((CommandFormatter.ofCommand command).toFormatter host)
      source c >>= fun _ => _).outcome
    rw [Traced.outcome_bind, outcome_callFormatter]
    have hrun : FailsIn E ((CommandFormatter.ofCommand command).run source host) :=
      CommandFormatter.failsIn_outcome hE command (fun hnil => hempty (hnil ▸ hcommand)) _
    have hanswer : Ends E (fun answer => ∃ text, answer = Answer.payload text)
        (((CommandFormatter.ofCommand command).run source host).map Answer.payload) :=
      Ends.map hrun fun text _ => ⟨text, rfl⟩
    refine Ends.bind hanswer ?_
    rintro - ⟨text, rfl⟩
    trivial

end Formatting

theorem Failure.isOwn_of_isOfFormatter {e : Failure} (h : e.isOfFormatter = true) :
    e.isOwn = true := by
  cases e <;> first | rfl | exact h | cases h

/-! ## Runs -/

theorem Component.owned_compile (host : Host) (r : Cli.Request) (c : Component) :
    Owned (c.compile host r.options).outcome := by
  rw [outcome_compile_of_plugins rfl]
  refine (owned_prepare c _ _).bind fun p => (owned_partsOf _ _ _ _).bind fun parts => ?_
  split
  · exact failsIn_formatSource (fun _ => Failure.isOwn_of_isOfFormatter) _ _ rfl fun _ => rfl
  · trivial

theorem Cli.told_deliver (files : Files) (r : Cli.Request) (source : String) :
    Told (Cli.deliver files r source).outcome := by
  unfold Cli.deliver
  split
  · trivial
  · rename_i path _
    have hsave := files.told_save (CleanPath.ofString path) source
    dsimp only
    split
    · rename_i e he
      rwa [he] at hsave
    · trivial

theorem Cli.owned_load (host : Host) (files : Files) (path : String) :
    Owned (Cli.load host files path) := by
  refine (files.told_read path).owned.bind fun text => ?_
  split
  · exact Component.owned_ofText text
  · exact rfl

/-- **A run fails for reasons of its own.** -/
theorem Cli.owned_perform (host : Host) (files : Files) (r : Cli.Request) :
    Owned (Cli.perform host files r).outcome := by
  have hload := owned_load host files r.input
  unfold Cli.perform
  cases hc : Cli.load host files r.input with
  | error e => rwa [hc] at hload
  | ok c =>
    have hcompile := c.owned_compile host r
    dsimp only
    split
    · rename_i e he
      rwa [he] at hcompile
    · exact (told_deliver files r _).owned

end ReactWeave
