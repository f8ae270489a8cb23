import ReactWeave.Proofs.SetterCalls
import ReactWeave.Proofs.Stages

/-!
# ReactWeave.Proofs.SetterCoverage

**Which code of a component calls setters.**

When every field of the state has its own hook, an assignment to a field has no
effect unless it becomes a call of the setter. Bindings and the code that runs
after the first rendering are rewritten; the code that runs before it and the
code of tagged values of the state are written as they are. So the assignments of
a component are all rewritten exactly if these last assign to no field.

* `compile_complete_iff` collects them over a compilation.
-/

namespace ReactWeave.State

open Script Script.Tree

/-! ## Rewritten code -/

/-- Whether the assignments to fields in a code lie in the code itself. Code that is no script has
no assignments. -/
def OwnsAssignments (code : String) : Prop :=
  ∀ f, Fragment.parse? code.toList = some f →
    ∀ s ∈ f.sites, (assignedField? s.tree).isSome → f.Owns code.toList s

/-- Whether a code assigns to no field of the state. -/
def Unassigned (code : String) : Prop :=
  ∀ f, Fragment.parse? code.toList = some f → assignedFields f.sites = []

/-- Whether `new` is `old` with every assignment to a field of the state replaced by a call of its
setter, and nothing else changed. -/
def Rewritten (old new : String) : Prop :=
  ∀ f, Fragment.parse? old.toList = some f →
    (∀ s ∈ f.sites, (assignedField? s.tree).isSome → f.Owns old.toList s) ∧
      SetterCalls old.toList (assignedFields f.sites) new.toList ∧
      new.toList = splice old.toList (f.edits setters)

theorem rewritten_iff_owns {code : Json} {new : String} (h : useSetters code = .ok new) :
    Rewritten code.asText new ↔ OwnsAssignments code.asText := by
  constructor
  · intro hrew f hf
    exact (hrew f hf).1
  · intro hown f hf
    have hnew : new.toList = splice code.asText.toList (f.edits setters) := by
      rw [useSetters, Code.replace, Code.rewrite_of_parse (Code.parse_eq_ok.2 hf),
        Fragment.rewrite_eq_splice hf (owns_of_mem_replaced (hown f hf))] at h
      cases h
      exact String.toList_ofList
    rw [hnew]
    exact ⟨hown f hf, setterCalls_edits hf (hown f hf), rfl⟩

/-- Where something is replaced, the text changes: a reference to the state starts with other
letters than the call of a setter. -/
theorem splice_edits_ne {code : List Char} {f : Fragment} (hf : Fragment.parse? code = some f)
    (hown : ∀ s ∈ f.sites, (assignedField? s.tree).isSome → f.Owns code s)
    (hne : f.replaced setters ≠ []) : splice code (f.edits setters) ≠ code := by
  have howns := owns_of_mem_replaced hown
  rw [Fragment.splice_edits howns]
  cases hreplaced : f.replaced setters with
  | nil => exact absurd hreplaced hne
  | cons o rest =>
    have ho : o ∈ f.replaced setters := by simp [hreplaced]
    obtain ⟨hmem, hfield⟩ := isSome_of_mem_replaced ho
    obtain ⟨field, hfield⟩ := Option.isSome_iff_exists.1 hfield
    have hwell := Fragment.wellShaped_of_mem_sites hf hmem
    obtain ⟨u, hu⟩ := text_of_field hwell hfield
    obtain ⟨p, -, -, -, hanswer⟩ := answer?_setters hwell hfield o.start
    have hold := Fragment.text_of_owns hf hmem (howns o ho)
    have hlen : (code.take (o.start - f.wrapper.opening.length)).length =
        o.start - f.wrapper.opening.length := by
      obtain ⟨hlo, hhi⟩ := howns o ho
      rw [Site.stop] at hhi
      rw [List.length_take]
      omega
    intro heq
    have hdrop := congrArg (List.drop (o.start - f.wrapper.opening.length)) heq
    rw [List.map_cons, spliceFrom, List.append_assoc, Rewriter.edit, hanswer,
      List.drop_left' hlen] at hdrop
    rw [← hdrop, hu] at hold
    -- The second letter is an `e` on one side and a `t` on the other.
    simp [setterName] at hold

/-- A code is its own rewriting exactly if it assigns no field. -/
theorem rewritten_self_iff {code : String} : Rewritten code code ↔ Unassigned code := by
  constructor
  · intro hrew f hf
    obtain ⟨hown, -, hsplice⟩ := hrew f hf
    have hnil : f.replaced setters = [] :=
      Decidable.byContradiction fun hne => splice_edits_ne hf hown hne hsplice.symm
    rw [Fragment.sites, assignedFields_replaced, ← Fragment.replaced, hnil]
    rfl
  · intro hnone f hf
    have hfields : ∀ s ∈ f.sites, assignedField? s.tree = none :=
      List.filterMap_eq_nil_iff.1 (hnone f hf)
    have hnil : f.replaced setters = [] := by
      rw [List.eq_nil_iff_forall_not_mem]
      intro s hs
      obtain ⟨hmem, hfield⟩ := isSome_of_mem_replaced hs
      simp [hfields s hmem] at hfield
    refine ⟨fun s hs h => by simp [hfields s hs] at h, ?_, ?_⟩
    · rw [hnone f hf]
      exact .keep _
    · simp [Fragment.edits, hnil, splice, spliceFrom]

/-! ## Code in a component -/

/-- The codes of all bindings of the render tree, parents first. -/
def bindingCodes (c : Component) : List String :=
  c.heads.flatMap fun h => h.bindings.map fun b => b.2.asText

/-- The code of a hook, if there is one. -/
def hookCodes (hook : Json) : List String := if hook.truthy then [hook.asText] else []

/-- The codes of the tagged values of the state. -/
def taggedCodes (c : Component) : List String :=
  c.state.filterMap fun field =>
    match Value.ofJson field.2 with
    | .code _ code => some code
    | .data _ => none

/-- What a line that declares a field of the state makes of the code of its value. -/
def DeclaredAs (line : String) : Tag → String → Prop
  | .function, code => ∃ front back, line = front ++ strip "state" code ++ back
  | .method, code => line = strip "state" (functionOf (Text.trimmed code))

variable {o : Options} {c : Component} {source : String}

/-- How the codes of a component are written into the source. Those of the bindings go into the
markup, up to handles; those of the hooks and of the tagged values of the state into parts of their
own. `mounted` is the code that runs after the first rendering. -/
structure Written (st : Stages o c source) (mounted : List String) : Prop where
  bindings : List.Forall₂ (Component.HandlesMapped st.set.refs) st.set.heads
    st.prepared.component.heads
  markup : Markup.forest .useState st.prepared.component.children = .ok st.parts.markup
  mount : st.parts.mount = String.join (mounted.map fun code =>
    Lifecycle.effect (Text.trimmed (strip "state" code)))
  init : st.parts.init = String.join ((hookCodes st.mapped.init).map fun code =>
    Lifecycle.firstRender (Text.trimmed code))
  state : ∃ lines, st.parts.state = "\n".intercalate lines ∧
    List.Forall₂ (fun field line => ∀ tag code, Value.ofJson field.2 = .code tag code →
      DeclaredAs line tag code) st.mapped.state lines

/-- Whether all assignments of a component are rewritten: in its bindings, in both hooks, and in the
tagged values of its state. -/
structure Complete (st : Stages o c source) (mounted : List String) : Prop where
  bindings : List.Forall₂ Rewritten (bindingCodes st.called) (bindingCodes st.set)
  mount : List.Forall₂ Rewritten (hookCodes st.mapped.onMount) mounted
  init : ∀ code ∈ hookCodes st.mapped.init, Rewritten code code
  tagged : ∀ code ∈ taggedCodes st.mapped, Rewritten code code

/-! ## What the stages do -/

theorem rewritten_bindings {c c' : Component} (h : (passSetters c).toOutcome = .ok c') :
    List.Forall₂ (fun old new => Rewritten old new ↔ OwnsAssignments old)
      (bindingCodes c) (bindingCodes c') := by
  obtain ⟨children, rfl, hheads⟩ := Component.eq_of_passBindings h
  refine List.rel_flatMap hheads fun head head' hpass => ?_
  rw [List.forall₂_map_left_iff, List.forall₂_map_right_iff]
  refine hpass.bindings.imp ?_
  rintro ⟨key, code⟩ ⟨key', code'⟩ ⟨-, hset⟩
  obtain ⟨new, hnew, heq⟩ := map_eq_ok.1 hset
  dsimp only at heq ⊢
  rw [← heq]
  exact rewritten_iff_owns hnew

/-- A code after the first rendering is rewritten exactly if it owns its assignments. -/
theorem rewritten_mount {c : Component} {text : String}
    (h : Lifecycle.mountCode .useState c = .ok text) :
    ∃ mounted, text = String.join (mounted.map fun code =>
        Lifecycle.effect (Text.trimmed (strip "state" code))) ∧
      List.Forall₂ (fun old new => Rewritten old new ↔ OwnsAssignments old)
        (hookCodes c.onMount) mounted := by
  unfold Lifecycle.mountCode at h
  split at h
  · rename_i htruthy
    obtain ⟨code, hcode, h⟩ := bind_eq_ok.1 h
    obtain ⟨new, hnew, rfl⟩ := map_eq_ok.1 hcode
    rw [hookCodes, if_pos htruthy]
    refine ⟨[new], ?_, .cons (rewritten_iff_owns hnew) .nil⟩
    simpa [String.join] using (Except.ok.inj h).symm
  · rename_i htruthy
    rw [hookCodes, if_neg htruthy]
    exact ⟨[], (Except.ok.inj h).symm, .nil⟩

/-- A code before the first rendering is written as it is. -/
theorem written_init {c : Component} {text : String} (h : Lifecycle.initCode c = .ok text) :
    text = String.join ((hookCodes c.init).map fun code =>
      Lifecycle.firstRender (Text.trimmed code)) := by
  unfold Lifecycle.initCode at h
  split at h
  · rename_i htruthy
    obtain ⟨code, hcode, rfl⟩ := map_eq_ok.1 h
    rw [hookCodes, if_pos htruthy]
    unfold Lifecycle.body at hcode
    split at hcode
    · rename_i hinit
      rw [← Except.ok.inj hcode, hinit]
      simp [String.join, Json.asText]
    · cases hcode
  · rename_i htruthy
    rw [hookCodes, if_neg htruthy]
    exact (Except.ok.inj h).symm

/-- The code of tagged values of the state is written without the accesses to the state, and else
as it is. -/
theorem declared_state {state : Fields} {text : String}
    (h : declaration .useState state = .ok text) :
    ∃ lines, text = "\n".intercalate lines ∧
      List.Forall₂ (fun field line => ∀ tag code, Value.ofJson field.2 = .code tag code →
        DeclaredAs line tag code) state lines := by
  unfold declaration at h
  split at h
  · rename_i hempty
    cases h
    exact ⟨[], rfl, by rw [List.isEmpty_iff.1 hempty]; exact .nil⟩
  · obtain ⟨lines, hlines, h⟩ := bind_eq_ok.1 h
    cases h
    refine ⟨lines, rfl, (forall₂_of_mapM hlines).imp ?_⟩
    rintro ⟨key, value⟩ line hline tag code hcode
    simp only [fieldDeclaration] at hline
    dsimp only at hcode
    rw [hcode] at hline
    cases tag with
    | function =>
      obtain ⟨capital, -, hline⟩ := bind_eq_ok.1 hline
      exact ⟨_, _, (Except.ok.inj hline).symm⟩
    | method => exact (Except.ok.inj hline).symm

/-! ## Compilations -/

theorem ok_of_toOption {ε α : Type} {x : Except ε α} {a : α} (h : x.toOption = some a) :
    x = .ok a := by
  cases x with
  | error e => cases h
  | ok b => rw [Option.some.inj h]

/-- **When all assignments of a component are rewritten.** A compilation with a hook for each field
of the state, without plugins and formatting, rewrites the codes of the bindings and the code that
runs after the first rendering, and writes the code that runs before it and the codes of tagged
values as they are, up to accesses to the state. All assignments to fields become calls of setters
exactly if those of the first lie in the code itself and those of the second assign to no field. -/
theorem compile_complete_iff {host : Host} (hstate : o.state = .useState)
    (hplugins : o.plugins = []) (hformat : o.format = false)
    (h : (c.compile host o).outcome = .ok source) :
    ∃ (st : Stages o c source) (mounted : List String), Written st mounted ∧
      (Complete st mounted ↔
        (∀ code ∈ bindingCodes st.called ++ hookCodes st.mapped.onMount, OwnsAssignments code) ∧
        ∀ code ∈ hookCodes st.mapped.init ++ taggedCodes st.mapped, Unassigned code) := by
  obtain ⟨st⟩ := exists_stages hstate hplugins hformat h
  obtain ⟨hinit, hmount, hmarkup, hpartsState⟩ := steps_of_partsOf st.parts_eq
  obtain ⟨⟨children, hcomponent⟩, -⟩ := eq_of_prepareStyles st.styles_eq
  rw [hcomponent] at hinit hmount
  obtain ⟨mounted, hmounted, hrewritten⟩ := rewritten_mount hmount
  obtain ⟨lines, hlines, hdeclared⟩ := declared_state st.state_eq
  have hbindings := forall₂_iff_forall (rewritten_bindings st.set_eq)
  have hmounts := forall₂_iff_forall hrewritten
  refine ⟨st, mounted, ⟨st.forall₂_handlesMapped, hmarkup, hmounted, written_init hinit, lines,
    hpartsState.trans hlines, hdeclared⟩, ?_⟩
  simp only [List.forall_mem_append]
  constructor
  · intro hcomplete
    refine ⟨⟨hbindings.1 hcomplete.bindings, hmounts.1 hcomplete.mount⟩, ?_, ?_⟩
    · exact fun code hcode => rewritten_self_iff.1 (hcomplete.init code hcode)
    · exact fun code hcode => rewritten_self_iff.1 (hcomplete.tagged code hcode)
  · rintro ⟨⟨hown, hownMount⟩, hunassigned, htagged⟩
    exact ⟨hbindings.2 hown, hmounts.2 hownMount,
      fun code hcode => rewritten_self_iff.2 (hunassigned code hcode),
      fun code hcode => rewritten_self_iff.2 (htagged code hcode)⟩

/-- A hook for each field of the state, and no formatting. -/
def perField : Options := ⟨false, .emotion, .useState, [], .unset⟩

/-- A component that counts clicks. -/
def clicker : Component :=
  ⟨.str "App", [(.str "n", .int 0)], .null, .str "state.n = 1", [],
    [⟨⟨.str "b", [], [(.str "onClick", .str "state.n = state.n + 1")]⟩, []⟩]⟩

/-- The source of the component that counts clicks. -/
def clickerSource : String :=
  "import \x7b useState, useEffect \x7d from 'react';\n\n" ++
    "export default function App(props) \x7b\n  const [n, setN] = useState(() => (0));\n\n" ++
    "  useEffect(() => \x7b\n    setN(1)\n  \x7d, []);\n\n  return (\n    <>\n" ++
    "      <b onClick=\x7bevent => (setN(n + 1))\x7d></b>\n    </>\n  );\n\x7d\n"

theorem compile_complete_iff_clicker :
    (clicker.compile .bare perField).outcome = .ok clickerSource ∧
      ∃ (st : Stages perField clicker clickerSource) (mounted : List String), Written st mounted ∧
        (Complete st mounted ↔
          (∀ code ∈ bindingCodes st.called ++ hookCodes st.mapped.onMount, OwnsAssignments code) ∧
          ∀ code ∈ hookCodes st.mapped.init ++ taggedCodes st.mapped, Unassigned code) := by
  have hsource : (clicker.compile .bare perField).outcome.toOption = some clickerSource := by
    decide +kernel
  have hok := ok_of_toOption hsource
  exact ⟨hok, compile_complete_iff rfl rfl rfl hok⟩

/-- A component that sets a field before the first rendering. -/
def starter : Component :=
  ⟨.str "App", [(.str "count", .int 0)], .str "state.count = 1", .null, [], []⟩

/-- The source of the component that sets a field before the first rendering. -/
def starterSource : String :=
  "import \x7b useState \x7d from 'react';\n\nexport default function App(props) \x7b\n" ++
    "  const [count, setCount] = useState(() => (0));\n\n" ++
    "  const [firstRender, setFirstRender] = useState(true);\n  if (firstRender) \x7b\n" ++
    "    setFirstRender(false);\n    state.count = 1\n  \x7d\n\n  return (\n    <>\n\n" ++
    "    </>\n  );\n\x7d\n"

theorem hookCodes_starter {source : String} (st : Stages perField starter source) :
    hookCodes st.mapped.init = ["state.count = 1"] := by
  have hcodes : ((passGetters starter).toOutcome >>= fun called =>
      (passSetters called).toOutcome >>= fun set =>
        (set.mapRefs currentElement).toOutcome).toOption.map (fun mapped => hookCodes mapped.init) =
      some ["state.count = 1"] := by decide +kernel
  rw [bind_eq_ok.2 ⟨_, st.called_eq, bind_eq_ok.2 ⟨_, st.set_eq, st.mapped_eq⟩⟩] at hcodes
  exact Option.some.inj hcodes

/-- The assignment that runs before the first rendering stays in the source, so not all assignments
are rewritten. -/
theorem compile_keeps_init_assignment :
    (starter.compile .bare perField).outcome = .ok starterSource ∧
      ¬ Unassigned "state.count = 1" ∧
      ∀ (st : Stages perField starter starterSource) (mounted : List String),
        ¬ Complete st mounted := by
  have hsource : (starter.compile .bare perField).outcome.toOption = some starterSource := by
    decide +kernel
  have hassigned : ((Fragment.parse? "state.count = 1".toList).map fun f =>
      assignedFields f.sites) = some ["count".toList] := by decide +kernel
  have hnot : ¬ Unassigned "state.count = 1" := by
    intro hnone
    obtain ⟨f, hf, hfields⟩ := Option.map_eq_some_iff.1 hassigned
    rw [hnone f hf] at hfields
    cases hfields
  refine ⟨ok_of_toOption hsource, hnot, fun st mounted hcomplete => hnot ?_⟩
  refine rewritten_self_iff.1 (hcomplete.init _ ?_)
  rw [hookCodes_starter]
  exact List.mem_singleton_self _

end ReactWeave.State
