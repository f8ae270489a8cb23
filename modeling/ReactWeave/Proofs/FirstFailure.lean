import ReactWeave.Proofs.Renaming
import ReactWeave.Proofs.SetterCoverage

/-!
# ReactWeave.Proofs.FirstFailure

**Where a pass over a component stops.**

A pass changes the parts of a component in a fixed order and stops at the first
one that it cannot change. The passes that read code stop at codes that cannot be
read, so what stops them is the first bad one in a list of codes.

* `Component.Typed` is what the passes keep of a component whose codes and names
  are texts. The pass for getters goes through on such a component
  (`State.exists_passGetters`).
-/

namespace ReactWeave

/-! ## First failures -/

section Failures

variable {α β : Type}

/-- What stopped an outcome. -/
def failure? : Outcome α → Option Failure
  | .ok _ => none
  | .error e => some e

theorem failure?_map (f : α → β) (x : Outcome α) : failure? (x.map f) = failure? x := by
  cases x <;> rfl

/-- The first failure of two computations, if the second one fails the same way for every value. -/
theorem failure?_bind {x : Outcome α} {f : α → Outcome β} {later : Option Failure}
    (hf : ∀ a, x = .ok a → failure? (f a) = later) :
    failure? (x >>= f) = (failure? x).or later := by
  cases x with
  | ok a => exact hf a rfl
  | error e => rfl

theorem failure?_bind_pure (x : Outcome α) (f : α → β) :
    failure? (x >>= fun a => pure (f a)) = failure? x := by
  cases x <;> rfl

/-- An outcome with a failure is that failure. -/
theorem eq_error_of_failure? {x : Outcome α} {e : Failure} (h : failure? x = some e) :
    x = .error e := by
  cases x with
  | ok a => cases h
  | error e' => rw [Option.some.inj h]

theorem exists_eq_ok_of_failure? {x : Outcome α} (h : failure? x = none) :
    ∃ a, x = .ok a := by
  cases x with
  | ok a => exact ⟨a, rfl⟩
  | error e => cases h

namespace Progress

/-- Of two passes the first one that fails is blamed. -/
theorem failure_andThen (p : Progress α) (f : α → Progress α) :
    (p.andThen f).failure = p.failure.or (f p.value).failure := by
  unfold andThen
  cases h : p.failure <;> simp [h]

theorem failure_ofOutcome (old : α) (x : Outcome α) :
    (ofOutcome old x).failure = failure? x := by
  cases x <;> rfl

end Progress

end Failures

/-- A pass over fields stops at the first one that fails. -/
theorem Fields.failure_pass (f : Json → Json → Outcome Json) (fields : Fields) :
    (Fields.pass f fields).failure = fields.findSome? fun b => failure? (f b.1 b.2) := by
  induction fields with
  | nil => rfl
  | cons field fields ih =>
    obtain ⟨k, v⟩ := field
    rw [Fields.pass, List.findSome?_cons]
    cases f k v with
    | error e => rfl
    | ok w => exact ih

namespace Node

variable {f : Unit → Head → Progress (Unit × Head)}

mutual

/-- A pass over a tree stops at the first node that fails, in the order of the text. -/
theorem failure_pass : ∀ n : Node,
    (n.pass f ()).failure = n.heads.findSome? fun h => (f () h).failure
  | ⟨head, children⟩ => by
    rw [pass, heads, List.findSome?_cons]
    cases hfirst : (f () head).failure with
    | some e => rfl
    | none => exact failure_passAll children

theorem failure_passAll : ∀ ns : List Node,
    (passAll f () ns).failure = (headsOf ns).findSome? fun h => (f () h).failure
  | [] => by
    rw [passAll, headsOf]
    rfl
  | n :: ns => by
    rw [passAll, headsOf, List.findSome?_append, ← failure_pass n]
    cases hfirst : (n.pass f ()).failure with
    | some e => rfl
    | none => exact failure_passAll ns

end

end Node

namespace Component

/-- A pass over bindings stops at the first one of the first node that has one that fails. -/
theorem failure_passBindings (f : Json → Json → Outcome Json) (c : Component) :
    (c.passBindings f).failure =
      c.heads.findSome? fun h => h.bindings.findSome? fun b => failure? (f b.1 b.2) := by
  simp only [← Fields.failure_pass]
  exact Node.failure_passAll c.children

theorem failure_passState (f : Json → Json → Outcome Json) (c : Component) :
    (c.passState f).failure = c.state.findSome? fun b => failure? (f b.1 b.2) :=
  Fields.failure_pass f c.state

theorem failure_passHooks (f : Json → Outcome Json) (c : Component) :
    (c.passHooks f).failure =
      (failure? (passHook f c.init)).or (failure? (passHook f c.onMount)) := by
  simp only [passHooks, Progress.failure_andThen, Progress.map, Progress.failure_ofOutcome]

end Component

/-! ## Codes that are refused -/

/-- Whether a code can be read. -/
def Code.isScript (code : String) : Bool := (Script.Fragment.parse? code.toList).isSome

/-- Whether a code in which handles are to be replaced stands in the way: it mentions one of them and
cannot be read. -/
def Code.isObstacle (refs : List String) (code : String) : Bool :=
  (refs.any fun name => Text.occursIn name code) && !isScript code

/-- The failure for the first bad one among some codes. -/
def rejection (bad : String → Bool) (codes : List String) : Option Failure :=
  (codes.find? bad).map fun code => .unparsable (.str code)

theorem rejection_append (bad : String → Bool) (xs ys : List String) :
    rejection bad (xs ++ ys) = (rejection bad xs).or (rejection bad ys) := by
  rw [rejection, List.find?_append]
  cases h : xs.find? bad <;> simp [rejection, h]

/-- The first bad code is refused by its text; without one, none is. -/
theorem rejection_cases (bad : String → Bool) (codes : List String) :
    (∃ code, codes.find? bad = some code ∧
      rejection bad codes = some (.unparsable (.str code))) ∨
      (∀ code ∈ codes, bad code = false) ∧ rejection bad codes = none := by
  cases h : codes.find? bad with
  | some code => exact .inl ⟨code, rfl, by rw [rejection, h]; rfl⟩
  | none =>
    refine .inr ⟨fun code hcode => ?_, by rw [rejection, h]; rfl⟩
    simpa using List.find?_eq_none.1 h code hcode

theorem rejection_of_find? {bad : String → Bool} {codes : List String} {code : String}
    (h : codes.find? bad = some code) :
    rejection bad codes = some (.unparsable (.str code)) := by
  rw [rejection, h]
  rfl

/-- If every item is refused by its first bad code, the list is refused by the first of all. -/
theorem findSome?_eq_rejection {α : Type} {bad : String → Bool} {xs : List α}
    {f : α → Option Failure} {codes : α → List String}
    (h : ∀ x ∈ xs, f x = rejection bad (codes x)) :
    xs.findSome? f = rejection bad (xs.flatMap codes) := by
  induction xs with
  | nil => rfl
  | cons x xs ih =>
    rw [List.forall_mem_cons] at h
    rw [List.findSome?_cons, h.1, ih h.2, List.flatMap_cons, rejection_append]
    cases rejection bad (codes x) <;> rfl

theorem rejection_singleton (bad : String → Bool) (code : String) :
    rejection bad [code] = if bad code then some (.unparsable (.str code)) else none := by
  rw [rejection, List.find?_singleton]
  cases bad code <;> rfl

theorem failure?_rewrite (v : Script.Rewriter) (code : String) :
    failure? (Code.rewrite v (.str code)) = rejection (fun code => !Code.isScript code) [code] := by
  rw [rejection_singleton, Code.isScript]
  cases h : Script.Fragment.parse? code.toList with
  | some f =>
    rw [Code.rewrite_of_parse (Code.parse_str_eq_ok.2 h)]
    rfl
  | none =>
    rw [Code.rewrite_of_unreadable h]
    rfl

theorem failure?_rename (names : List String) (mapper : String → String) (code : String) :
    failure? (Code.rename names mapper (.str code)) = rejection (Code.isObstacle names) [code] := by
  rw [Code.rename, Code.mentionsAny_str, rejection_singleton, Code.isObstacle]
  cases names.any fun name => Text.occursIn name code with
  | false => rfl
  | true =>
    simp only [failure?_map, Code.replace, failure?_rewrite, rejection_singleton, Bool.true_and]

/-! ## Components whose codes are texts -/

namespace Component

/-- Whether the codes of a component are texts; a hook may be missing. -/
structure HasTexts (c : Component) : Prop where
  bindings : ∀ h ∈ c.heads, ∀ b ∈ h.bindings, ∃ code : String, b.2 = .str code
  init : c.init = .null ∨ ∃ code : String, c.init = .str code
  onMount : c.onMount = .null ∨ ∃ code : String, c.onMount = .str code

/-- All codes of a component in the order in which they are changed: those of tagged values of the
state, of the bindings, and of the hooks. Bindings with spared keys are left out. -/
def codes (spared : Json → Bool) (c : Component) : List String :=
  State.taggedCodes c ++
    (c.heads.flatMap fun h => h.bindings.flatMap fun b => if spared b.1 then [] else [b.2.asText]) ++
    (State.hookCodes c.init ++ State.hookCodes c.onMount)

variable {c : Component}

theorem failure?_passHook {bad : String → Bool} {f : Json → Outcome Json} {hook : Json}
    (hhook : hook = .null ∨ ∃ code : String, hook = .str code)
    (hf : ∀ code : String, failure? (f (.str code)) = rejection bad [code]) :
    failure? (passHook f hook) = rejection bad (State.hookCodes hook) := by
  unfold passHook State.hookCodes
  rcases hhook with rfl | ⟨code, rfl⟩
  · rfl
  · cases hcode : (Json.str code).truthy with
    | false => rfl
    | true => exact hf code

theorem failure_passSetters (hc : c.HasTexts) :
    (State.passSetters c).failure =
      rejection (fun code => !Code.isScript code) (State.bindingCodes c) := by
  rw [State.passSetters, failure_passBindings]
  refine findSome?_eq_rejection fun h hh => ?_
  rw [List.map_eq_flatMap]
  refine findSome?_eq_rejection fun b hb => ?_
  obtain ⟨code, hcode⟩ := hc.bindings h hh b hb
  rw [hcode, failure?_map]
  exact failure?_rewrite _ code

theorem hooks_of_passes (f g : Json → Json → Outcome Json) (c : Component) :
    ((c.passState f).andThen fun c => c.passBindings g).value.init = c.init ∧
      ((c.passState f).andThen fun c => c.passBindings g).value.onMount = c.onMount := by
  unfold Progress.andThen
  split <;> exact ⟨rfl, rfl⟩

/-- **A pass over codes is refused by the first bad one**, in state, bindings and hooks. -/
theorem failure_passCodes {bad : String → Bool} {f : Json → Outcome Json} (hc : c.HasTexts)
    (hf : ∀ code : String, failure? (f (.str code)) = rejection bad [code])
    (spared : Json → Bool) :
    (c.passCodes f spared).failure = rejection bad (c.codes spared) := by
  have hstate : (c.state.findSome? fun b => failure? (State.Value.mapCode f b.2)) =
      rejection bad (State.taggedCodes c) := by
    rw [State.taggedCodes, List.filterMap_eq_flatMap_toList]
    refine findSome?_eq_rejection fun b _ => ?_
    unfold State.Value.mapCode
    cases State.Value.ofJson b.2 with
    | code tag code => exact (failure?_map _ _).trans (hf code)
    | data value => rfl
  have hbindings : (c.heads.findSome? fun h => h.bindings.findSome? fun b =>
      failure? (if spared b.1 then .ok b.2 else f b.2)) =
      rejection bad (c.heads.flatMap fun h => h.bindings.flatMap fun b =>
        if spared b.1 then [] else [b.2.asText]) := by
    refine findSome?_eq_rejection fun h hh => findSome?_eq_rejection fun b hb => ?_
    obtain ⟨code, hcode⟩ := hc.bindings h hh b hb
    split
    · rfl
    · rw [hcode]
      exact hf code
  simp only [passCodes, Progress.failure_andThen, failure_passState, failure_passBindings,
    failure_passHooks, hooks_of_passes, codes, rejection_append]
  exact congrArg₂ Option.or (congrArg₂ Option.or hstate hbindings)
    (congrArg₂ Option.or (failure?_passHook hc.init hf) (failure?_passHook hc.onMount hf))

/-- The codes in which handles are replaced. -/
def handleCodes (c : Component) : List String := c.codes (Fields.isKey refKey)

/-- Replacing handles is refused by the first code that mentions one and cannot be read. -/
theorem failure_mapRefs (hc : c.HasTexts) :
    (c.mapRefs currentElement).failure = rejection (Code.isObstacle c.refs) c.handleCodes := by
  unfold mapRefs
  split
  · rename_i hempty
    have hnone : c.handleCodes.find? (Code.isObstacle []) = none := by
      simp [Code.isObstacle]
    rw [List.isEmpty_iff.1 hempty, rejection, hnone]
    rfl
  · exact failure_passCodes hc (failure?_rename c.refs currentElement) _

end Component

/-! ## Steps that keep texts -/

/-- Whether a change of codes turns texts into texts. -/
def KeepsTexts (f : Json → Outcome Json) : Prop :=
  ∀ (code : String) (new : Json), f (.str code) = .ok new → ∃ text : String, new = .str text

theorem KeepsTexts.passHook {f : Json → Outcome Json} (hf : KeepsTexts f) {hook new : Json}
    (hhook : hook = .null ∨ ∃ code : String, hook = .str code)
    (h : Component.passHook f hook = .ok new) : new = .null ∨ ∃ code : String, new = .str code := by
  unfold Component.passHook at h
  split at h
  · rename_i htruthy
    rcases hhook with rfl | ⟨code, rfl⟩
    · cases htruthy
    · exact .inr (hf code new h)
  · cases h
    exact hhook

theorem keepsTexts_useSetters : KeepsTexts fun code => (State.useSetters code).map .str := by
  intro code new h
  obtain ⟨text, -, rfl⟩ := map_eq_ok.1 h
  exact ⟨text, rfl⟩

theorem keepsTexts_rename (names : List String) (mapper : String → String) :
    KeepsTexts (Code.rename names mapper) := by
  intro code new h
  rw [Code.rename, Code.mentionsAny_str] at h
  split at h
  · cases h
  · cases h
    exact ⟨code, rfl⟩
  · obtain ⟨text, -, rfl⟩ := map_eq_ok.1 h
    exact ⟨text, rfl⟩

namespace Component

/-- Whether the codes of a component are texts, and so are the names of the fields of its state and
the names that it imports. -/
structure Typed (c : Component) : Prop extends HasTexts c where
  fields : ∀ f ∈ c.state, ∃ key : String, f.1 = .str key
  imported : ∀ i ∈ c.imports, ∀ n ∈ i.names, ∃ name : String, n.1 = .str name

variable {c c' : Component}

theorem texts_of_passed {f : Json → Json → Outcome Json} {hs hs' : List Head}
    (h : List.Forall₂ (Head.Passed f) hs hs') (hf : ∀ key, KeepsTexts (f key))
    (hs : ∀ h ∈ hs, ∀ b ∈ h.bindings, ∃ code : String, b.2 = .str code) :
    ∀ h ∈ hs', ∀ b ∈ h.bindings, ∃ code : String, b.2 = .str code := by
  intro head hhead b hb
  obtain ⟨old, hold, hpass⟩ := exists_mem_of_forall₂ h hhead
  obtain ⟨b₀, hb₀, -, hcode⟩ := exists_mem_of_forall₂ hpass.bindings hb
  obtain ⟨code, heq⟩ := hs old hold b₀ hb₀
  rw [heq] at hcode
  exact hf _ code _ hcode

theorem Typed.passSetters (hc : c.Typed) (h : (State.passSetters c).toOutcome = .ok c') :
    c'.Typed := by
  obtain ⟨children, rfl, hheads⟩ := eq_of_passBindings h
  exact ⟨⟨texts_of_passed hheads (fun _ => keepsTexts_useSetters) hc.bindings, hc.init, hc.onMount⟩,
    hc.fields, hc.imported⟩

/-- Passes that keep texts keep a component typed. -/
theorem Typed.passed {f : Json → Outcome Json} {spared : Json → Bool} (hc : c.Typed)
    (hf : KeepsTexts f) (h : Passed f spared c c') : c'.Typed := by
  refine ⟨⟨texts_of_passed h.heads ?_ hc.bindings, hf.passHook hc.init h.init,
    hf.passHook hc.onMount h.onMount⟩, ?_, h.imports ▸ hc.imported⟩
  · intro key code new hnew
    split at hnew
    · exact ⟨code, (Except.ok.inj hnew).symm⟩
    · exact hf code new hnew
  · intro field hfield
    obtain ⟨old, hold, hkey, -⟩ := exists_mem_of_forall₂ h.state hfield
    exact (hc.fields old hold).imp fun _ => hkey ▸ id

theorem Typed.mapRefs (hc : c.Typed) (h : (c.mapRefs currentElement).toOutcome = .ok c') :
    c'.Typed := by
  rcases passed_of_mapRefs h with rfl | h
  · exact hc
  · exact hc.passed (keepsTexts_rename c.refs currentElement) h

end Component

/-! ## Getters -/

namespace State

theorem Template.readFrom_of_plain {s : List Char} (hs : '\\' ∉ s) :
    ∃ parts, Template.readFrom 0 s = .ok parts := by
  induction s with
  | nil => exact ⟨[], rfl⟩
  | cons c s ih =>
    rw [List.mem_cons, not_or] at hs
    obtain ⟨parts, hparts⟩ := ih hs.2
    refine ⟨.text [c] :: parts, ?_⟩
    rw [Template.readFrom]
    · rw [hparts]
      rfl
    · exact fun h => hs.1 h.symm

/-- Names without a backslash can be called in every text. -/
theorem callGetters_str {names : List String} (hnames : ∀ name ∈ names, '\\' ∉ name.toList)
    (code : String) : ∃ text : String, callGetters names (.str code) = .ok (.str text) := by
  induction names generalizing code with
  | nil => exact ⟨code, rfl⟩
  | cons name names ih =>
    rw [List.forall_mem_cons] at hnames
    have hplain : '\\' ∉ "state.".toList ++ name.toList ++ "()".toList := by
      simp [hnames.1]
    obtain ⟨parts, hparts⟩ := Template.readFrom_of_plain hplain
    obtain ⟨text, htext⟩ := ih hnames.2
      (String.ofList (callFrom name.toList parts none 0 code.toList))
    refine ⟨text, ?_⟩
    rw [callGetters, callGetter, getterCall, Template.read, hparts]
    exact htext

/-- Whether the names of the getters of a component can stand in a replacement text. -/
def PlainGetters (c : Component) : Prop :=
  ∀ name : String, .str name ∈ getterKeys c.state → '\\' ∉ name.toList

theorem namesOf_eq_ok {keys : List Json} (h : ∀ key ∈ keys, ∃ name : String, key = .str name) :
    ∃ names, namesOf keys = .ok names ∧ ∀ name ∈ names, .str name ∈ keys := by
  induction keys with
  | nil => exact ⟨[], rfl, by simp⟩
  | cons key keys ih =>
    rw [List.forall_mem_cons] at h
    obtain ⟨name, rfl⟩ := h.1
    obtain ⟨names, hnames, hmem⟩ := ih h.2
    refine ⟨name :: names, ?_, ?_⟩
    · rw [namesOf, hnames]
      rfl
    · intro n hn
      rcases List.mem_cons.1 hn with rfl | hn
      · exact List.mem_cons_self
      · exact List.mem_cons_of_mem _ (hmem n hn)

theorem mem_getterKeys {state : Fields} {key : Json} (h : key ∈ getterKeys state) :
    ∃ field ∈ state, field.1 = key := by
  obtain ⟨⟨k, v⟩, hfield, hkey⟩ := List.mem_filterMap.1 h
  refine ⟨(k, v), hfield, ?_⟩
  dsimp only at hkey
  split at hkey
  · split at hkey
    · exact Option.some.inj hkey
    · cases hkey
  · cases hkey

/-- Calling getters goes through a typed component with plain names. -/
theorem exists_passGetters {c : Component} (hc : c.Typed) (hplain : PlainGetters c) :
    ∃ called, (passGetters c).toOutcome = .ok called ∧ called.Typed := by
  unfold passGetters
  split
  · exact ⟨c, rfl, hc⟩
  · have hkeys : ∀ key ∈ getterKeys c.state, ∃ name : String, key = .str name := by
      intro key hkey
      obtain ⟨field, hfield, rfl⟩ := mem_getterKeys hkey
      exact hc.fields field hfield
    obtain ⟨names, hnames, hmem⟩ := namesOf_eq_ok hkeys
    have hcall := callGetters_str fun name hname => hplain name (hmem name hname)
    have hkeeps : KeepsTexts (callGetters names) := by
      intro code new hnew
      obtain ⟨text, htext⟩ := hcall code
      rw [htext] at hnew
      cases hnew
      exact ⟨text, rfl⟩
    have hnever : ∀ code : String,
        failure? (callGetters names (.str code)) = rejection (fun _ => false) [code] := by
      intro code
      obtain ⟨text, htext⟩ := hcall code
      rw [htext]
      rfl
    have hnone : (c.passCodes (callGetters names) fun _ => false).failure = none := by
      rw [Component.failure_passCodes hc.toHasTexts hnever]
      simp [rejection]
    have hok := Progress.toOutcome_eq_ok.2 ⟨hnone, rfl⟩
    rw [hnames]
    exact ⟨_, hok, hc.passed hkeeps (Component.passed_of_passCodes hok)⟩

end State

end ReactWeave
