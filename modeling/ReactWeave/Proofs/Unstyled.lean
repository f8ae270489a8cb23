import ReactWeave.Proofs.EmptyStyles

/-!
# ReactWeave.Proofs.Unstyled

**Without styles, it does not matter how styles are handled.**

Styles stay on their nodes, become classes, or become components. If all styles of
a component are empty, the first and the last of these leave the tree alone, and the
second takes the empty styles off; the markup leaves them out in any case.

* `compile_unstyled`: two compilations that handle styles in different ways end
  alike, failures included.
-/

namespace ReactWeave

/-! ## Nodes with empty styles -/

/-- Whether the styles of a node are all empty. -/
def Head.isBare (h : Head) : Bool :=
  h.bindings.all fun b => !Fields.isKey cssKey b.1 ||
    match b.2 with
    | .str css => !Style.hasDeclarations css
    | _ => false

/-- A head is bare exactly if no style of it has declarations. -/
theorem Head.isBare_iff {h : Head} : h.isBare = true ↔
    ∀ b ∈ h.bindings, Fields.isKey cssKey b.1 = true →
      ∃ css : String, b.2 = .str css ∧ Style.hasDeclarations css = false := by
  rw [isBare, List.all_eq_true]
  refine forall₂_congr fun b _ => ?_
  cases Fields.isKey cssKey b.1 with
  | false => simp
  | true =>
    cases hvalue : b.2 with
    | str css => simp
    | _ => simp

theorem Style.Kept.isBare {h h' : Head} (hkept : Kept h h') (hbare : h.isBare = true) :
    h'.isBare = true := by
  rw [Head.isBare_iff] at hbare ⊢
  intro b' hb' hkey
  obtain ⟨b, hb, hbinding⟩ := exists_mem_of_forall₂ hkept hb'
  obtain ⟨css, hcss, hempty⟩ := hbare b hb (by rwa [hbinding.1])
  exact ⟨css, hbinding.2 css hcss hempty, hempty⟩

theorem Head.style?_of_isBare {h : Head} (hbare : h.isBare = true) : h.style? = none := by
  rw [Head.isBare_iff] at hbare
  unfold Head.style?
  split
  · rename_i css hget
    obtain ⟨css', hcss, hempty⟩ := hbare _ (Fields.mem_of_get? hget) (Fields.isKey_iff.2 rfl)
    cases hcss
    rw [hempty]
    rfl
  · rfl

/-- Whether no node of a component has a style that is not empty. -/
def Component.isBare (c : Component) : Bool := c.heads.all Head.isBare

theorem Component.hasStyles_of_isBare {c : Component} (hbare : c.isBare = true) :
    c.hasStyles = false := by
  rw [Component.isBare, List.all_eq_true] at hbare
  rw [Component.hasStyles, List.any_eq_false]
  intro h hh
  simp [Head.style?_of_isBare (hbare h hh)]

theorem Component.isBare_of_kept {c c' : Component}
    (hkept : List.Forall₂ Style.Kept c.heads c'.heads) (hbare : c.isBare = true) :
    c'.isBare = true := by
  rw [Component.isBare, List.all_eq_true] at hbare ⊢
  intro h' hh'
  obtain ⟨h, hh, hhead⟩ := exists_mem_of_forall₂ hkept hh'
  exact hhead.isBare (hbare h hh)

/-! ## Markup -/

namespace Markup

open Style (unstyled)

variable {s : StateStrategy} {h : Head}

theorem binding_of_empty {key : Json} {css : String} (hkey : Fields.isKey cssKey key = true)
    (hempty : Style.hasDeclarations css = false) : binding s key (.str css) = .ok none := by
  have hspread : Fields.isKey spreadKey key = false := by
    rw [Fields.isKey_iff.1 hkey]
    rfl
  have hstyle : isEmptyStyle (.str css) = .ok true := by
    rw [isEmptyStyle, hempty]
    rfl
  simp only [binding, hspread, Bool.false_eq_true, if_false, Style.processed_empty hempty, ok_bind,
    hkey, if_true, hstyle]
  rfl

/-- A style without declarations is written like none. -/
theorem bindingsOf_unstyled (hbare : h.isBare = true) :
    bindingsOf s (unstyled h).bindings = bindingsOf s h.bindings := by
  rw [Head.isBare_iff] at hbare
  rw [unstyled]
  generalize h.bindings = fields at hbare
  induction fields with
  | nil => rfl
  | cons field fields ih =>
    obtain ⟨key, value⟩ := field
    obtain ⟨hfirst, hrest⟩ := List.forall_mem_cons.1 hbare
    simp only [Fields.erase]
    split
    · rename_i hkey
      obtain ⟨css, rfl, hempty⟩ := hfirst hkey
      simp only [bindingsOf, binding_of_empty hkey hempty, ok_bind]
      cases bindingsOf s fields <;> rfl
    · simp only [bindingsOf]
      rw [← ih hrest]

theorem opening_unstyled (hbare : h.isBare = true) : opening s (unstyled h) = opening s h := by
  have hspread : spread s (unstyled h).bindings = spread s h.bindings := by
    rw [spread, Style.get?_unstyled h (by decide)]
    rfl
  simp only [opening, hspread, bindingsOf_unstyled hbare]
  rfl

theorem required_unstyled (h : Head) (key : String) (hkey : cssKey ≠ key) :
    required (unstyled h) key = required h key := by
  rw [required, Style.get?_unstyled h hkey]
  rfl

theorem textContent_unstyled (h : Head) : textContent s (unstyled h) = textContent s h := by
  unfold textContent
  rw [Style.get?_unstyled h (by decide)]
  rfl

theorem loopHead_unstyled (h : Head) : loopHead s (unstyled h) = loopHead s h := by
  simp only [loopHead, required_unstyled h "each" (by decide),
    required_unstyled h forNameKey (by decide)]

theorem conditionHead_unstyled (h : Head) : conditionHead s (unstyled h) = conditionHead s h := by
  simp only [conditionHead, required_unstyled h "when" (by decide)]

end Markup

/-! ## Trees -/

namespace Node

mutual

/-- Changes the heads of a tree. -/
def mapHeads (g : Head → Head) : Node → Node
  | ⟨head, children⟩ => ⟨g head, mapHeadsOf g children⟩

/-- Changes the heads of neighbouring trees. -/
def mapHeadsOf (g : Head → Head) : List Node → List Node
  | [] => []
  | n :: ns => mapHeads g n :: mapHeadsOf g ns

end

section Steady

variable {σ : Type} {f : σ → Head → Progress (σ × Head)} {g : Head → Head} {s : σ}

mutual

theorem pass_eq_mapHeads : ∀ {n : Node}, (∀ h ∈ n.heads, f s h = .done (s, g h)) →
    n.pass f s = .done (s, n.mapHeads g)
  | ⟨head, children⟩, hstep => by
    rw [heads] at hstep
    obtain ⟨hhead, hchildren⟩ := List.forall_mem_cons.1 hstep
    rw [pass, hhead, mapHeads]
    change (passAll f s children).map _ = _
    rw [passAll_eq_mapHeadsOf hchildren]
    rfl

theorem passAll_eq_mapHeadsOf : ∀ {ns : List Node}, (∀ h ∈ headsOf ns, f s h = .done (s, g h)) →
    passAll f s ns = .done (s, mapHeadsOf g ns)
  | [], _ => by
    rw [passAll, mapHeadsOf]
  | n :: ns, hstep => by
    rw [headsOf] at hstep
    obtain ⟨hfirst, hrest⟩ := List.forall_mem_append.1 hstep
    rw [passAll, pass_eq_mapHeads hfirst, mapHeadsOf]
    change (passAll f s ns).map _ = _
    rw [passAll_eq_mapHeadsOf hrest]
    rfl

end

end Steady

end Node

namespace Markup

open Style (unstyled)

variable {s : StateStrategy}

mutual

/-- **Empty styles leave no trace in the markup.** -/
theorem node_unstyled : ∀ {n : Node}, (∀ h ∈ n.heads, h.isBare = true) →
    node s (n.mapHeads unstyled) = node s n
  | ⟨head, children⟩, hbare => by
    rw [Node.heads] at hbare
    obtain ⟨hhead, hchildren⟩ := List.forall_mem_cons.1 hbare
    have hname : (unstyled head).name = head.name := rfl
    simp only [Node.mapHeads, node, Style.kind_unstyled, textContent_unstyled, loopHead_unstyled,
      conditionHead_unstyled, opening_unstyled hhead, nodes_unstyled hchildren, hname]

theorem nodes_unstyled : ∀ {ns : List Node}, (∀ h ∈ Node.headsOf ns, h.isBare = true) →
    ∀ {skip : Bool}, nodes s skip (Node.mapHeadsOf unstyled ns) = nodes s skip ns
  | [], _, _ => by rw [Node.mapHeadsOf]
  | ⟨head, children⟩ :: rest, hbare, skip => by
    rw [Node.headsOf] at hbare
    obtain ⟨hfirst, hrest⟩ := List.forall_mem_append.1 hbare
    have hempty : (unstyled head).isEmptyText = head.isEmptyText := rfl
    have hnode := node_unstyled (n := ⟨head, children⟩) hfirst
    rw [Node.mapHeads] at hnode
    simp only [Node.mapHeadsOf, Node.mapHeads, nodes, hempty, hnode, nodes_unstyled hrest]

end

end Markup

/-! ## Compilations -/

/-- What is left of a component after empty styles are handled. -/
def Component.bared (styles : StyleStrategy) (c : Component) : Component :=
  match styles with
  | .styledJsx => { c with children := Node.mapHeadsOf Style.unstyled c.children }
  | _ => c

section Bare

variable {c : Component} (hbare : c.isBare = true)

include hbare

theorem Component.collectSheet_of_isBare (property : String) :
    Style.collectSheet property c = .done ("", c.bared .styledJsx) := by
  rw [Component.isBare, List.all_eq_true] at hbare
  have hstep : ∀ h ∈ Node.headsOf c.children,
      Style.classify property ⟨[], []⟩ h = .done (⟨[], []⟩, Style.unstyled h) := by
    intro h hh
    simp [Style.classify, Head.style?_of_isBare (hbare h hh)]
  rw [Style.collectSheet, Style.collectClasses, Component.passHeads,
    Node.passAll_eq_mapHeadsOf hstep]
  rfl

theorem outcome_prepareStyles_of_isBare (styles : StyleStrategy) :
    (prepareStyles styles false c).outcome = .ok ("", "", c.bared styles) := by
  cases styles with
  | emotion => rfl
  | styledComponents => rfl
  | styledJsx =>
    rw [prepareStyles, Component.collectSheet_of_isBare hbare]
    rfl

theorem Component.forest_bared (s : StateStrategy) (styles : StyleStrategy) :
    Markup.forest s (c.bared styles).children = Markup.forest s c.children := by
  rw [Component.isBare, List.all_eq_true] at hbare
  cases styles with
  | styledJsx =>
    change Markup.forest s (Node.mapHeadsOf Style.unstyled c.children) = _
    rw [Markup.forest, Markup.nodes_unstyled hbare]
    rfl
  | _ => rfl

theorem partsOf_of_isBare (s : StateStrategy) (styles : StyleStrategy) (hasState : Bool)
    (refs : List String) (state : String) :
    partsOf s styles ⟨c.bared styles, false, hasState, refs, "", "", state⟩ (c.bared styles) =
      partsOf s .emotion ⟨c, false, hasState, refs, "", "", state⟩ c := by
  have hmarkup := Component.forest_bared hbare s styles
  unfold partsOf
  rw [hmarkup]
  cases styles <;> rfl

end Bare

/-- A component without declarations is compiled with no step for its styles. -/
theorem outcome_compile_of_isBare (host : Host) {o : Options} {c : Component}
    (hbare : c.isBare = true) (hplugins : o.plugins = []) (hformat : o.format = false) :
    (c.compile host o).outcome =
      c.checkName >>= fun _ => prepareState o.state c >>= fun set =>
        (set.mapRefs currentElement).toOutcome >>= fun mapped =>
          State.declaration o.state mapped.state >>= fun state =>
            partsOf o.state .emotion
              ⟨mapped, false, !set.state.isEmpty, set.refs, "", "", state⟩ mapped >>= fun parts =>
                .ok parts.assemble := by
  rw [outcome_compile hplugins hformat, outcome_prepare, Component.hasStyles_of_isBare hbare]
  cases c.checkName with
  | error e => rfl
  | ok =>
    simp only [ok_bind]
    cases hset : prepareState o.state c with
    | error e => rfl
    | ok set =>
      have hsetBare := Component.isBare_of_kept (Style.kept_of_prepareState hset) hbare
      simp only [ok_bind]
      cases hmapped : (set.mapRefs currentElement).toOutcome with
      | error e => rfl
      | ok mapped =>
        have hmappedBare := Component.isBare_of_kept (Style.kept_of_mapRefs hmapped) hsetBare
        have hstate : (mapped.bared o.styles).state = mapped.state := by
          cases o.styles <;> rfl
        simp only [ok_bind, outcome_prepareStyles_of_isBare hmappedBare, hstate]
        cases State.declaration o.state mapped.state with
        | error e => rfl
        | ok state => simp only [ok_bind, partsOf_of_isBare hmappedBare]

/-- **Without styles, it does not matter how styles are handled**: compilations that differ in
nothing else give the same source, or fail alike. -/
theorem compile_unstyled (host : Host) {o o' : Options} {c : Component}
    (hbare : c.isBare = true) (hstate : o'.state = o.state)
    (hplugins : o.plugins = []) (hplugins' : o'.plugins = [])
    (hformat : o.format = false) (hformat' : o'.format = false) :
    (c.compile host o).outcome = (c.compile host o').outcome := by
  rw [outcome_compile_of_isBare host hbare hplugins hformat,
    outcome_compile_of_isBare host hbare hplugins' hformat', hstate]

/-- A component with an empty object and with blanks as styles. -/
def plainCard : Component :=
  ⟨.str "Card", [(.str "title", .str "Note")], .null, .null, [],
    [⟨⟨.str "div", [], [(.str cssKey, .str " \x7b\n\x7d "), (.str "title", .str "state.title")]⟩,
      [⟨⟨.str "p", [], [(.str cssKey, .str " ")]⟩, []⟩]⟩]⟩

/-- Options for a hook of each field of the state, without plugins and formatting. -/
def styledBy (styles : StyleStrategy) : Options := ⟨false, styles, .useState, [], .unset⟩

theorem compile_unstyled_plainCard :
    plainCard.isBare = true ∧
      (plainCard.compile .bare (styledBy .emotion)).outcome.toOption.isSome = true ∧
      (plainCard.compile .bare (styledBy .emotion)).outcome =
        (plainCard.compile .bare (styledBy .styledJsx)).outcome ∧
      (plainCard.compile .bare (styledBy .emotion)).outcome =
        (plainCard.compile .bare (styledBy .styledComponents)).outcome := by
  have hbare : plainCard.isBare = true := by decide +kernel
  refine ⟨hbare, by decide +kernel, ?_, ?_⟩
  · exact compile_unstyled .bare hbare rfl rfl rfl rfl rfl
  · exact compile_unstyled .bare hbare rfl rfl rfl rfl rfl

end ReactWeave
