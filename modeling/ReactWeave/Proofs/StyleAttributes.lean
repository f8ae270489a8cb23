import ReactWeave.Proofs.Unstyled

/-!
# ReactWeave.Proofs.StyleAttributes

**A style that is written as an attribute comes with what makes it work.**

Styles that stay on their nodes become attributes, and the source then has to open
with the pragma and the import that give such attributes a meaning. Classes and
styled components take the styles off, so nothing is left to become an attribute.

* `Component.emotion_of_styleAttributes`: if a style is left for an attribute, styles
  stay on their nodes and the component was found to have one.
* `compile_style_attributes`: a source with such an attribute opens with both lines.
-/

namespace ReactWeave

/-! ## Parts of texts -/

theorem infix_between (before text behind : String) :
    text.toList <:+: (before ++ text ++ behind).toList := by
  rw [String.toList_append, String.toList_append]
  exact List.infix_append _ _ _

variable {text key : String} {texts : List String} {fields : Fields} {b : Json × Json}
  {children : List Node} {h' h : Head} {c : Component}

theorem infix_intercalate (separator : String) (h : text ∈ texts) :
    text.toList <:+: (separator.intercalate texts).toList := by
  induction texts with
  | nil => cases h
  | cons first rest ih =>
    cases rest with
    | nil =>
      obtain rfl := List.mem_singleton.1 h
      exact String.intercalate_singleton ▸ List.infix_rfl
    | cons second rest =>
      rw [String.intercalate_cons_cons, String.toList_append]
      rcases List.mem_cons.1 h with rfl | hrest
      · rw [String.toList_append]
        exact ((List.prefix_append _ _).trans (List.prefix_append _ _)).isInfix
      · exact (ih hrest).trans (List.suffix_append _ _).isInfix

theorem Parts.infix_joinFilled (separator : String) (h : text ∈ texts) :
    text.toList <:+: (joinFilled separator texts).toList := by
  by_cases hempty : text.isEmpty = true
  · rw [String.isEmpty_iff.1 hempty]
    exact List.nil_infix
  · exact infix_intercalate separator (List.mem_filter.2 ⟨h, by simpa using hempty⟩)

theorem Parts.emotion_infix_header (parts : Parts) :
    parts.emotion.toList <:+: parts.header.toList :=
  infix_joinFilled "\n" (by simp)

theorem Parts.header_prefix_assemble (parts : Parts) :
    parts.header.toList <+: parts.assemble.toList := by
  rw [assemble, String.toList_append, joinFilled]
  by_cases hempty : parts.header.isEmpty = true
  · rw [String.isEmpty_iff.1 hempty]
    exact List.nil_prefix
  · rw [List.filter_cons_of_pos (by simpa using hempty)]
    refine List.IsPrefix.trans ?_ (List.prefix_append _ _)
    cases [parts.function].filter fun t => !t.isEmpty with
    | nil => exact (String.intercalate_singleton ▸ List.prefix_rfl)
    | cons second rest =>
      rw [String.intercalate_cons_cons, String.toList_append, String.toList_append]
      exact (List.prefix_append _ _).trans (List.prefix_append _ _)

/-! ## Attributes -/

namespace Markup

variable {s : StateStrategy} {h : Head}

/-- The attributes that the markup makes of the style of a node. -/
def styleAttributes (s : StateStrategy) (h : Head) : List String :=
  h.bindings.filterMap fun b =>
    if Fields.isKey cssKey b.1 then (binding s b.1 b.2).toOption.join else none

theorem mem_styleAttributes : text ∈ styleAttributes s h ↔
    ∃ b ∈ h.bindings, Fields.isKey cssKey b.1 = true ∧ binding s b.1 b.2 = .ok (some text) := by
  rw [styleAttributes, List.mem_filterMap]
  refine exists_congr fun b => and_congr_right fun _ => ?_
  cases hkey : Fields.isKey cssKey b.1 with
  | false => simp
  | true =>
    cases hbinding : binding s b.1 b.2 with
    | error e => simp [Except.toOption]
    | ok made => simp [Except.toOption]

theorem styleAttributes_of_isBare (hbare : h.isBare = true) : styleAttributes s h = [] := by
  rw [List.eq_nil_iff_forall_not_mem]
  intro text htext
  obtain ⟨b, hb, hkey, hbinding⟩ := mem_styleAttributes.1 htext
  obtain ⟨css, hcss, hempty⟩ := Head.isBare_iff.1 hbare b hb hkey
  rw [hcss, binding_of_empty hkey hempty] at hbinding
  cases hbinding

theorem mem_of_bindingsOf (h : bindingsOf s fields = .ok texts) (hb : b ∈ fields)
    (hbinding : binding s b.1 b.2 = .ok (some text)) : text ∈ texts := by
  induction fields generalizing texts with
  | nil => cases hb
  | cons field fields ih =>
    obtain ⟨first, hfirst, h⟩ := bind_eq_ok.1 h
    obtain ⟨more, hmore, h⟩ := bind_eq_ok.1 h
    cases h
    rcases List.mem_cons.1 hb with rfl | hb
    · obtain rfl := Except.ok.inj (hfirst.symm.trans hbinding)
      exact List.mem_append_left _ (List.mem_singleton.2 rfl)
    · exact List.mem_append_right _ (ih hmore hb)

theorem styleAttributes_infix_opening {tag : String} (hopening : opening s h = .ok tag)
    (htext : text ∈ styleAttributes s h) : text.toList <:+: tag.toList := by
  obtain ⟨b, hb, -, hbinding⟩ := mem_styleAttributes.1 htext
  obtain ⟨spread, -, hopening⟩ := bind_eq_ok.1 hopening
  obtain ⟨texts, htexts, hopening⟩ := bind_eq_ok.1 hopening
  cases hopening
  exact infix_intercalate " " (List.mem_append_right _ (mem_of_bindingsOf htexts hb hbinding))

/-! ## Elements -/

theorem infix_guarded (before content behind : String) :
    content.toList <:+: (braced (before ++ fragment content ++ behind)).toList :=
  ((infix_between _ _ _).trans (infix_between _ _ _)).trans (infix_between _ _ _)

mutual

/-- The nodes of a tree that the markup writes a tag for. -/
def elements : Node → List Head
  | ⟨head, children⟩ =>
    match head.kind with
    | .ok .fragment => elementsOf false children
    | .ok .loop => elementsOf true children
    | .ok .condition => elementsOf true children
    | .ok .element => head :: if isVoid head.name then [] else elementsOf false children
    | _ => []

/-- The same of neighbouring trees; `skip` says whether empty texts are left out. -/
def elementsOf (skip : Bool) : List Node → List Head
  | [] => []
  | ⟨head, children⟩ :: rest =>
    if skip && head.isEmptyText then elementsOf skip rest
    else elements ⟨head, children⟩ ++ elementsOf skip rest

end

/-- How the markup goes on below a node: whether empty texts are left out there, if it does. -/
def inner? (h : Head) : Option Bool :=
  match h.kind with
  | .ok .fragment => some false
  | .ok .loop => some true
  | .ok .condition => some true
  | .ok .element => if isVoid h.name then none else some false
  | _ => none

/-- The elements of a node are the node itself, or those of its children. -/
theorem mem_elements (hh : h' ∈ elements ⟨h, children⟩) :
    (h.kind = .ok .element ∧ h' = h) ∨
      ∃ skip, inner? h = some skip ∧ h' ∈ elementsOf skip children := by
  rw [elements] at hh
  split at hh
  case h_4 hkind =>
    rcases List.mem_cons.1 hh with rfl | hh
    · exact .inl ⟨hkind, rfl⟩
    · split at hh
      · cases hh
      · rename_i hvoid
        exact .inr ⟨false, by simp [inner?, hkind, hvoid], hh⟩
  case h_5 => cases hh
  all_goals
    rename_i hkind
    exact .inr ⟨_, by simp only [inner?, hkind], hh⟩

theorem opening_infix_element (hkind : h.kind = .ok .element)
    (hnode : node s ⟨h, children⟩ = .ok text) :
    ∃ tag, opening s h = .ok tag ∧ tag.toList <:+: text.toList := by
  rw [node, hkind, ok_bind] at hnode
  obtain ⟨tag, htag, hnode⟩ := bind_eq_ok.1 hnode
  refine ⟨tag, htag, List.IsPrefix.isInfix ?_⟩
  split at hnode
  · cases hnode
    rw [String.toList_append]
    exact List.prefix_append _ _
  · obtain ⟨parts, -, hnode⟩ := bind_eq_ok.1 hnode
    cases hnode
    simp only [String.toList_append, List.append_assoc]
    exact List.prefix_append _ _

/-- The texts of the children stand in the text of the node. -/
theorem inner_infix_node (hnode : node s ⟨h, children⟩ = .ok text) {skip : Bool}
    (hinner : inner? h = some skip) :
    ∃ parts, nodes s skip children = .ok parts ∧
      ("\n".intercalate parts).toList <:+: text.toList := by
  rw [node] at hnode
  obtain ⟨kind, hkind, hnode⟩ := bind_eq_ok.1 hnode
  rw [inner?, hkind] at hinner
  cases kind with
  | text => cases hinner
  | fragment =>
    cases hinner
    obtain ⟨parts, hparts, hnode⟩ := bind_eq_ok.1 hnode
    cases hnode
    exact ⟨parts, hparts, infix_between _ _ _⟩
  | loop | condition =>
    cases hinner
    obtain ⟨_, -, hnode⟩ := bind_eq_ok.1 hnode
    obtain ⟨parts, hparts, hnode⟩ := bind_eq_ok.1 hnode
    cases hnode
    exact ⟨parts, hparts, infix_guarded _ _ _⟩
  | element =>
    obtain ⟨_, -, hnode⟩ := bind_eq_ok.1 hnode
    dsimp only at hinner
    split at hinner
    · cases hinner
    · rename_i hvoid
      cases hinner
      rw [if_neg hvoid] at hnode
      obtain ⟨parts, hparts, hnode⟩ := bind_eq_ok.1 hnode
      cases hnode
      refine ⟨parts, hparts, ?_⟩
      rw [String.append_assoc, String.append_assoc]
      exact infix_between _ _ _

mutual

theorem opening_infix_node : ∀ {n : Node} {text : String}, node s n = .ok text →
    ∀ {h : Head}, h ∈ elements n →
      ∃ tag, opening s h = .ok tag ∧ tag.toList <:+: text.toList
  | ⟨head, children⟩, text, hnode, h, hh => by
    rcases mem_elements hh with ⟨hkind, rfl⟩ | ⟨skip, hinner, hh⟩
    · exact opening_infix_element hkind hnode
    · obtain ⟨parts, hparts, hwithin⟩ := inner_infix_node hnode hinner
      obtain ⟨tag, hopening, htag⟩ := opening_infix_nodes hparts hh
      exact ⟨tag, hopening, htag.trans hwithin⟩

/-- The tag of every element below neighbouring nodes stands in their text. -/
theorem opening_infix_nodes : ∀ {ns : List Node} {skip : Bool} {texts : List String},
    nodes s skip ns = .ok texts → ∀ {h : Head}, h ∈ elementsOf skip ns →
      ∃ tag, opening s h = .ok tag ∧ tag.toList <:+: ("\n".intercalate texts).toList
  | [], _, _, _, _, hh => by
    rw [elementsOf] at hh
    cases hh
  | ⟨head, children⟩ :: rest, skip, texts, hnodes, h, hh => by
    rw [nodes] at hnodes
    rw [elementsOf] at hh
    split at hnodes
    · rename_i hskip
      rw [if_pos hskip] at hh
      exact opening_infix_nodes hnodes hh
    · rename_i hskip
      rw [if_neg hskip] at hh
      obtain ⟨first, hfirst, hnodes⟩ := bind_eq_ok.1 hnodes
      obtain ⟨more, hmore, hnodes⟩ := bind_eq_ok.1 hnodes
      cases hnodes
      rcases List.mem_append.1 hh with hh | hh
      · obtain ⟨tag, hopening, htag⟩ := opening_infix_node hfirst hh
        exact ⟨tag, hopening, htag.trans (infix_intercalate "\n" List.mem_cons_self)⟩
      · obtain ⟨tag, hopening, htag⟩ := opening_infix_nodes hmore hh
        refine ⟨tag, hopening, htag.trans ?_⟩
        cases more with
        | nil => exact List.nil_infix
        | cons second more =>
          rw [String.intercalate_cons_cons, String.toList_append]
          exact (List.suffix_append _ _).isInfix

end

mutual

theorem mem_heads_of_mem_elements : ∀ {n : Node} {h : Head}, h ∈ elements n → h ∈ n.heads
  | ⟨head, children⟩, h, hh => by
    rw [Node.heads]
    rcases mem_elements hh with ⟨-, rfl⟩ | ⟨skip, -, hh⟩
    · exact List.mem_cons_self
    · exact List.mem_cons_of_mem _ (mem_headsOf_of_mem_elementsOf hh)

theorem mem_headsOf_of_mem_elementsOf : ∀ {ns : List Node} {skip : Bool} {h : Head},
    h ∈ elementsOf skip ns → h ∈ Node.headsOf ns
  | [], _, _, hh => by
    rw [elementsOf] at hh
    cases hh
  | ⟨head, children⟩ :: rest, skip, h, hh => by
    rw [elementsOf] at hh
    rw [Node.headsOf, List.mem_append]
    split at hh
    · exact .inr (mem_headsOf_of_mem_elementsOf hh)
    · rcases List.mem_append.1 hh with hh | hh
      · exact .inl (mem_heads_of_mem_elements hh)
      · exact .inr (mem_headsOf_of_mem_elementsOf hh)

end

end Markup

/-! ## Prepared trees -/

theorem Fields.isKey_of_mem_behind {field : Json × Json}
    (hnodup : ((field :: fields).map Prod.fst).Nodup) (hkey : Fields.isKey key field.1 = true)
    (hb : b ∈ fields) : Fields.isKey key b.1 = false := by
  rw [List.map_cons, List.nodup_cons] at hnodup
  rw [Bool.eq_false_iff]
  intro hagain
  have hsame : b.1 = field.1 := (Fields.isKey_iff.1 hagain).trans (Fields.isKey_iff.1 hkey).symm
  exact hnodup.1 (hsame ▸ List.mem_map_of_mem hb)

theorem Fields.get?_of_mem (hnodup : (fields.map Prod.fst).Nodup) (hb : b ∈ fields)
    (hkey : Fields.isKey key b.1 = true) : fields.get? key = some b.2 := by
  induction fields with
  | nil => cases hb
  | cons field fields ih =>
    rw [Fields.get?]
    rcases List.mem_cons.1 hb with rfl | hb
    · rw [if_pos hkey]
    · have hother : ¬ Fields.isKey key field.1 = true := by
        intro hfirst
        rw [Fields.isKey_of_mem_behind hnodup hfirst hb] at hkey
        cases hkey
      rw [if_neg hother, ih hnodup.of_cons hb]

theorem Fields.isKey_of_mem_erase (hnodup : (fields.map Prod.fst).Nodup)
    (hb : b ∈ fields.erase key) : Fields.isKey key b.1 = false := by
  induction fields with
  | nil => cases hb
  | cons field fields ih =>
    rw [Fields.erase] at hb
    by_cases hkey : Fields.isKey key field.1 = true
    · rw [if_pos hkey] at hb
      exact Fields.isKey_of_mem_behind hnodup hkey hb
    · rw [if_neg hkey] at hb
      rcases List.mem_cons.1 hb with rfl | hb
      · exact Bool.eq_false_iff.2 hkey
      · exact ih hnodup.of_cons hb

/-- Whether no key stands twice among the bindings of a node, and its style is a text. -/
structure Head.TextStyled (h : Head) : Prop where
  nodup : (h.bindings.map Prod.fst).Nodup
  style : ∀ b ∈ h.bindings, Fields.isKey cssKey b.1 = true → ∃ css : String, b.2 = .str css

theorem Head.TextStyled.isBare (hstyled : h.TextStyled) (hnone : h.style? = none) :
    h.isBare = true := by
  rw [Head.isBare_iff]
  intro b hb hkey
  obtain ⟨css, hcss⟩ := hstyled.style b hb hkey
  refine ⟨css, hcss, ?_⟩
  have hget := Fields.get?_of_mem hstyled.nodup hb hkey
  rw [hcss] at hget
  simp only [Head.style?, hget] at hnone
  simpa using hnone

theorem Component.isBare_of_hasStyles (hstyled : ∀ h ∈ c.heads, h.TextStyled)
    (hnone : c.hasStyles = false) : c.isBare = true := by
  rw [Component.hasStyles, List.any_eq_false] at hnone
  rw [Component.isBare, List.all_eq_true]
  intro h hh
  exact (hstyled h hh).isBare (by simpa using hnone h hh)

theorem Style.Kept.keys (hkept : Style.Kept h h') :
    h'.bindings.map Prod.fst = h.bindings.map Prod.fst := by
  rw [Style.Kept] at hkept
  generalize h.bindings = fields, h'.bindings = fields' at hkept ⊢
  induction hkept with
  | nil => rfl
  | cons hbinding _ ih => rw [List.map_cons, List.map_cons, hbinding.1, ih]

theorem Markup.styleAttributes_of_stripped {s : StateStrategy}
    (hnodup : (h.bindings.map Prod.fst).Nodup) (hstripped : Stripped h h') :
    styleAttributes s h' = [] := by
  rw [List.eq_nil_iff_forall_not_mem]
  intro text htext
  obtain ⟨b, hb, hkey, -⟩ := mem_styleAttributes.1 htext
  rw [hstripped] at hb
  rw [Fields.isKey_of_mem_erase hnodup hb] at hkey
  cases hkey

/-- **If a style is left for an attribute, styles stay on their nodes**, and the component was found
to have one. -/
theorem Component.emotion_of_styleAttributes {state : StateStrategy} {styles : StyleStrategy}
    {p : Prepared} (hstyled : ∀ h ∈ c.heads, h.TextStyled)
    (hp : (prepare state styles c).outcome = .ok p) (hh : h ∈ p.component.heads)
    (hattributes : Markup.styleAttributes state h ≠ []) :
    styles = .emotion ∧ p.hasStyles = true := by
  obtain ⟨⟨set, mapped, hset, hmapped, hstyles, hhasStyles, -, -⟩⟩ := exists_preparation hp
  have hkept : List.Forall₂ Style.Kept c.heads mapped.heads := by
    refine forall₂_trans (T := Style.Kept) ?_ (Style.kept_of_prepareState hset)
      (Style.kept_of_mapRefs hmapped)
    exact fun _ _ _ => Style.Kept.trans
  rcases cases_of_prepareStyles hstyles with ⟨hleft, hwhy⟩ | ⟨-, hstripped⟩
  · -- The tree was left alone, so its styles are those of the component.
    rw [hleft] at hh
    have hhas : c.hasStyles = true := by
      rw [← Bool.not_eq_false]
      intro hnone
      have hbare := Component.isBare_of_kept hkept (Component.isBare_of_hasStyles hstyled hnone)
      exact hattributes (Markup.styleAttributes_of_isBare (List.all_eq_true.1 hbare h hh))
    rcases hwhy with hemotion | hnone
    · exact ⟨hemotion, hhasStyles.trans hhas⟩
    · rw [hnone] at hhas
      cases hhas
  · obtain ⟨old, hold, hhead⟩ := exists_mem_of_forall₂ hstripped hh
    obtain ⟨first, hfirst, hkeys⟩ := exists_mem_of_forall₂ hkept hold
    have hnodup : (old.bindings.map Prod.fst).Nodup := by
      rw [hkeys.keys]
      exact (hstyled first hfirst).nodup
    exact absurd (Markup.styleAttributes_of_stripped hnodup hhead) hattributes

/-! ## Sources -/

/-- The pragma and the import that styles on nodes ask for, as they stand in a source. -/
theorem emotionImport_lines (parts : Parts) (h : parts.emotion = emotionImport) :
    "/** @jsx jsx */\n".toList <:+: parts.header.toList ∧
      "import \x7b jsx \x7d from '@emotion/react';".toList <:+: parts.header.toList := by
  have hheader : emotionImport.toList <:+: parts.header.toList := h ▸ parts.emotion_infix_header
  refine ⟨.trans ?_ hheader, .trans ?_ hheader⟩ <;> decide +kernel

theorem emotion_of_partsOf {state : StateStrategy} {p : Prepared} {parts : Parts}
    (h : partsOf state .emotion p c = .ok parts) (hhas : p.hasStyles = true) :
    parts.emotion = emotionImport := by
  simp [(steps_of_partsOf h).emotion, hhas]

/-- **Style attributes and the pragma go together.** The markup in the source of a component holds
the tags of its elements with the attributes made of their styles. If there is such an attribute,
styles stay on their nodes, and the header that opens the source has the pragma and the import. -/
theorem compile_style_attributes (host : Host) {o : Options} {c : Component}
    {source : String} (hstyled : ∀ h ∈ c.heads, h.TextStyled) (hplugins : o.plugins = [])
    (hformat : o.format = false) (hsource : (c.compile host o).outcome = .ok source) :
    ∃ p parts, (prepare o.state o.styles c).outcome = .ok p ∧
      partsOf o.state o.styles p p.component = .ok parts ∧ source = parts.assemble ∧
      (∀ h ∈ Markup.elementsOf false p.component.children, h ∈ p.component.heads ∧
        ∃ tag, Markup.opening o.state h = .ok tag ∧ tag.toList <:+: parts.markup.toList ∧
          ∀ text ∈ Markup.styleAttributes o.state h, text.toList <:+: tag.toList) ∧
      ∀ h ∈ p.component.heads, Markup.styleAttributes o.state h ≠ [] →
        o.styles = .emotion ∧ "/** @jsx jsx */\n".toList <:+: parts.header.toList ∧
          "import \x7b jsx \x7d from '@emotion/react';".toList <:+: parts.header.toList ∧
          parts.header.toList <+: source.toList := by
  rw [outcome_compile hplugins hformat] at hsource
  obtain ⟨p, hp, hsource⟩ := bind_eq_ok.1 hsource
  obtain ⟨parts, hparts, hsource⟩ := bind_eq_ok.1 hsource
  cases hsource
  refine ⟨p, parts, hp, hparts, rfl, ?_, ?_⟩
  · intro h hh
    obtain ⟨-, -, hmarkup, -⟩ := steps_of_partsOf hparts
    obtain ⟨texts, htexts, hmarkup⟩ := bind_eq_ok.1 hmarkup
    obtain ⟨tag, hopening, htag⟩ := Markup.opening_infix_nodes htexts hh
    rw [← Except.ok.inj hmarkup]
    exact ⟨Markup.mem_headsOf_of_mem_elementsOf hh, tag, hopening, htag,
      fun text htext => Markup.styleAttributes_infix_opening hopening htext⟩
  · intro h hh hattributes
    obtain ⟨hemotion, hhas⟩ := Component.emotion_of_styleAttributes hstyled hp hh hattributes
    rw [hemotion] at hparts
    obtain ⟨hpragma, himport⟩ := emotionImport_lines parts (emotion_of_partsOf hparts hhas)
    exact ⟨hemotion, hpragma, himport, parts.header_prefix_assemble⟩

/-- A list whose items and whose frame have styles. -/
def styledList : Component :=
  ⟨.str "Items", [(.str "items", .arr [])], .null, .null, [],
    [⟨⟨.str "ul", [], [(.str cssKey, .str "\x7b margin: 0 \x7d")]⟩,
      [⟨⟨.str "For", [], [(.str "each", .str "state.items"), (.str forNameKey, .str "item")]⟩,
        [⟨⟨.str "li", [], [(.str cssKey, .str "\x7b color: 'red' \x7d")]⟩, []⟩]⟩]⟩]⟩

theorem compile_style_attributes_styledList :
    (∀ h ∈ styledList.heads, h.TextStyled) ∧
      ∃ source p parts, (styledList.compile .bare (styledBy .emotion)).outcome = .ok source ∧
        (prepare .useState .emotion styledList).outcome = .ok p ∧
        partsOf .useState .emotion p p.component = .ok parts ∧
        (∃ h ∈ Markup.elementsOf false p.component.children,
          Markup.styleAttributes .useState h ≠ []) ∧
        "/** @jsx jsx */\n".toList <:+: source.toList ∧
          "import \x7b jsx \x7d from '@emotion/react';".toList <:+: source.toList := by
  have hstyled : ∀ h ∈ styledList.heads, h.TextStyled := by
    simp only [styledList, Component.heads, Node.headsOf, Node.heads, List.append_nil,
      List.forall_mem_cons]
    refine ⟨⟨by simp, by simp⟩, ⟨by simp [forNameKey], by simp [Fields.isKey, cssKey, forNameKey]⟩,
      ⟨by simp, by simp⟩, by simp⟩
  have hattributes : ((prepare .useState .emotion styledList).outcome.toOption.all fun p =>
      (Markup.elementsOf false p.component.children).any fun h =>
        !(Markup.styleAttributes .useState h).isEmpty) = true := by
    decide +kernel
  cases hsource : (styledList.compile .bare (styledBy .emotion)).outcome with
  | error e =>
    have hcompiles :
        (styledList.compile .bare (styledBy .emotion)).outcome.toOption.isSome = true := by
      decide +kernel
    rw [hsource] at hcompiles
    cases hcompiles
  | ok source =>
    obtain ⟨p, parts, hp, hparts, -, hwritten, hagree⟩ :=
      compile_style_attributes .bare hstyled rfl rfl hsource
    have hp' : (prepare .useState .emotion styledList).outcome = .ok p := hp
    rw [hp'] at hattributes
    obtain ⟨h, hh, hsome⟩ := List.any_eq_true.1 hattributes
    have hne : Markup.styleAttributes .useState h ≠ [] := by simpa using hsome
    obtain ⟨-, hpragma, himport, hheader⟩ := hagree h (hwritten h hh).1 hne
    exact ⟨hstyled, source, p, parts, rfl, hp, hparts, ⟨h, hh, hne⟩,
      hpragma.trans hheader.isInfix, himport.trans hheader.isInfix⟩

end ReactWeave
