import ReactWeave.Proofs.Stages
import ReactWeave.Proofs.Statements

/-!
# ReactWeave.Proofs.Elements

**Markup that can be read again.** The code of a binding goes into a container:
braces, a spread, an event handler, an object. If the code is an expression that
ends where its last token does, the markup of an element is read to its end,
whatever the containers, and so is a bound text.

* `node_readable`: their markup is a fragment.
-/

namespace ReactWeave.Markup

open Script (isName Enclosed IsAttribute attributesText Expr Fragment startsExpression isNoMember)

/-! ## Attributes -/

/-- A binding whose attribute can be read: its key is a name or that of the spread expression, its
code is enclosed, and the strategy leaves it as it is. -/
structure IsReadable (strategy : StateStrategy) (name code : String) : Prop where
  key : name = spreadKey ∨ isName name.toList = true
  enclosed : Enclosed code.toList
  kept : State.processed strategy (.str code) = .ok (.str code)

/-- A binding between braces is an attribute. -/
theorem isAttribute_bindingText {name code : String} (hname : isName name.toList = true)
    (hcode : Enclosed code.toList) : IsAttribute (bindingText name (.str code)).toList := by
  unfold bindingText
  split
  · have h : IsAttribute (name.toList ++ '=' :: '{' ::
        (("event => (".toList ++ (code.toList ++ [')'])) ++ ['}'])) :=
      Script.isAttribute_named hname fun s rest hs => hcode.handler (by simpa using hs)
    simpa [braced, Json.asText] using h
  · split
    · have h : IsAttribute ("dangerouslySetInnerHTML".toList ++ '=' :: '{' ::
          (("\x7b\"__html\": ".toList ++ (code.toList ++ ['}'])) ++ ['}'])) :=
        Script.isAttribute_named (by decide) fun s rest hs => hcode.html (by simpa using hs)
      simpa [braced, Json.asText] using h
    · have h : IsAttribute (name.toList ++ '=' :: '{' :: (code.toList ++ ['}'])) :=
        Script.isAttribute_named hname fun s rest hs => hcode.braces hs
      simpa [braced, Json.asText] using h

section Bindings

variable {strategy : StateStrategy} {name code : String} {fields : List (String × String)}

/-- What becomes of a readable binding: a spread expression stands elsewhere, an empty style is left
out. -/
theorem IsReadable.binding (h : IsReadable strategy name code) :
    ∃ first : Option String, binding strategy (.str name) (.str code) = .ok first ∧
      ∀ text ∈ first, IsAttribute text.toList := by
  have hkept := h.kept
  by_cases hspread : name = spreadKey
  · refine ⟨none, ?_, by simp⟩
    simp [Markup.binding, Fields.isKey, hspread, pure, Except.pure]
  · have hattribute := isAttribute_bindingText (h.key.resolve_left hspread) h.enclosed
    have hsome : ∀ text ∈ some (bindingText name (.str code)), IsAttribute text.toList := by
      simpa using hattribute
    by_cases hcss : name = cssKey
    · subst hcss
      by_cases hempty : Style.hasDeclarations code = true
      · refine ⟨some (bindingText cssKey (.str code)), ?_, hsome⟩
        simp [Markup.binding, Fields.isKey, hspread, hkept, isEmptyStyle, hempty, bind,
          Except.bind, pure, Except.pure]
      · refine ⟨none, ?_, by simp⟩
        simp [Markup.binding, Fields.isKey, hspread, hkept, isEmptyStyle, hempty, bind,
          Except.bind, pure, Except.pure]
    · refine ⟨some (bindingText name (.str code)), ?_, hsome⟩
      simp [Markup.binding, Fields.isKey, hspread, hkept, hcss, bind, Except.bind, pure, Except.pure]

/-- Bindings as they stand in a node. -/
def bindingsOfTexts (fields : List (String × String)) : Fields :=
  fields.map fun f => (.str f.1, .str f.2)

/-- Readable bindings become attributes. -/
theorem bindingsOf_eq_ok (h : ∀ f ∈ fields, IsReadable strategy f.1 f.2) :
    ∃ texts, bindingsOf strategy (bindingsOfTexts fields) = .ok texts ∧
      ∀ text ∈ texts, IsAttribute text.toList := by
  induction fields with
  | nil => exact ⟨[], rfl, by simp⟩
  | cons f fields ih =>
    rw [List.forall_mem_cons] at h
    obtain ⟨texts, htexts, hall⟩ := ih h.2
    obtain ⟨first, hfirst, hattribute⟩ := h.1.binding
    refine ⟨first.toList ++ texts, ?_, ?_⟩
    · simp only [bindingsOfTexts] at htexts
      simp only [bindingsOfTexts, List.map_cons, bindingsOf, hfirst, htexts]
      rfl
    · intro text hmem
      rcases List.mem_append.1 hmem with hmem | hmem
      · exact hattribute text (by simpa using hmem)
      · exact hall text hmem

/-- So does a readable spread. -/
theorem spread_eq_ok (h : ∀ f ∈ fields, IsReadable strategy f.1 f.2) :
    ∃ texts, spread strategy (bindingsOfTexts fields) = .ok texts ∧
      ∀ text ∈ texts, IsAttribute text.toList := by
  induction fields with
  | nil => exact ⟨[], rfl, by simp⟩
  | cons f fields ih =>
    rw [List.forall_mem_cons] at h
    by_cases hkey : f.1 = spreadKey
    · refine ⟨[braced ("...(" ++ f.2 ++ ")")], ?_, ?_⟩
      · simp [spread, bindingsOfTexts, Fields.get?, Fields.isKey, hkey, h.1.kept, bind, Except.bind,
          pure, Except.pure, Json.asText]
      · simpa [braced] using Script.isAttribute_spread h.1.enclosed
    · obtain ⟨texts, htexts, hall⟩ := ih h.2
      refine ⟨texts, ?_, hall⟩
      rw [← htexts]
      simp [spread, bindingsOfTexts, Fields.get?, Fields.isKey, hkey]

theorem toList_intercalate_blank (first : String) (texts : List String) :
    (" ".intercalate (first :: texts)).toList =
      first.toList ++ attributesText (texts.map String.toList) := by
  induction texts generalizing first with
  | nil => simp [attributesText]
  | cons text texts ih =>
    rw [String.intercalate_cons_cons]
    simp [ih, attributesText]

/-- The tag of an element has attributes and nothing else behind its name. -/
theorem opening_eq_ok (tag : String) (h : ∀ f ∈ fields, IsReadable strategy f.1 f.2) :
    ∃ text texts, opening strategy ⟨.str tag, [], bindingsOfTexts fields⟩ = .ok text ∧
      text.toList = '<' :: (tag.toList ++ attributesText texts) ∧
      ∀ text ∈ texts, IsAttribute text := by
  obtain ⟨first, hfirst, hspread⟩ := spread_eq_ok h
  obtain ⟨more, hmore, hbindings⟩ := bindingsOf_eq_ok h
  refine ⟨" ".intercalate (("<" ++ tag) :: (first ++ more)), (first ++ more).map String.toList, ?_,
    ?_, ?_⟩
  · simp only [opening, hfirst, hmore, ok_bind]
    rfl
  · rw [toList_intercalate_blank]
    simp
  · intro text hmem
    obtain ⟨text, hsource, rfl⟩ := List.mem_map.1 hmem
    rcases List.mem_append.1 hsource with hsource | hsource
    · exact hspread text hsource
    · exact hbindings text hsource

end Bindings

/-! ## Nodes -/

/-- A node without children whose markup can be read: an element whose bindings can, or a text that
is bound to an expression. -/
inductive IsReadableNode (strategy : StateStrategy) : Head → Prop where
  | element {tag : String} {fields : List (String × String)}
      (hkind : Head.kind ⟨.str tag, [], bindingsOfTexts fields⟩ = .ok .element)
      (htag : isName tag.toList = true) (hfields : ∀ f ∈ fields, IsReadable strategy f.1 f.2) :
      IsReadableNode strategy ⟨.str tag, [], bindingsOfTexts fields⟩
  | text {tag : Json} {bindings : Fields} {code : String}
      (hkind : Head.kind ⟨tag, [], bindings⟩ = .ok .text)
      (hcode : bindings.get? textKey = some (.str code)) (henclosed : Enclosed code.toList)
      (hstart : startsExpression (Script.Lexis.behindGap (code.toList ++ ['}'])) = true)
      (hmember : isNoMember (code.toList ++ ['}']) = true)
      (hkept : State.processed strategy (.str code) = .ok (.str code)) :
      IsReadableNode strategy ⟨tag, [], bindings⟩

section Nodes

variable {strategy : StateStrategy} {head : Head}

/-- An element with readable bindings is written as one that can be read. -/
theorem node_element {tag : String} {fields : List (String × String)}
    (hkind : Head.kind ⟨.str tag, [], bindingsOfTexts fields⟩ = .ok .element)
    (htag : isName tag.toList = true) (hfields : ∀ f ∈ fields, IsReadable strategy f.1 f.2) :
    ∃ text u, node strategy ⟨⟨.str tag, [], bindingsOfTexts fields⟩, []⟩ = .ok text ∧
      text.toList = '<' :: u ∧ Script.TakesPart (.rule .jsx) ('<' :: u) [] := by
  obtain ⟨start, texts, hopening, htext, hattributes⟩ := opening_eq_ok tag hfields
  by_cases hvoid : isVoid (.str tag) = true
  · refine ⟨start ++ " />", tag.toList ++ (attributesText texts ++ (" />".toList ++ [])), ?_, ?_,
      Script.takesPart_selfClosing htag hattributes []⟩
    · simp only [node, hkind, ok_bind, hopening, hvoid, if_true]
      rfl
    · simp [htext]
  · refine ⟨start ++ ">" ++ "" ++ "</" ++ tag ++ ">", tag.toList ++ (attributesText texts ++
      ("></".toList ++ (tag.toList ++ '>' :: []))), ?_, ?_,
      Script.takesPart_jsxElement htag hattributes []⟩
    · simp only [node, hkind, ok_bind, hopening, hvoid, if_false, nodes, Bool.false_eq_true]
      rfl
    · simp [htext]

/-- **The markup of such a node is a fragment.** -/
theorem node_readable (h : IsReadableNode strategy head) :
    ∃ text, node strategy ⟨head, []⟩ = .ok text ∧ ∃ f, Fragment.parse? text.toList = some f := by
  cases h with
  | element hkind htag hfields =>
    obtain ⟨text, u, hnode, htext, htakes⟩ := node_element hkind htag hfields
    refine ⟨text, hnode, Fragment.exists_parse? ?_⟩
    rw [htext]
    exact Script.exists_readProgram_of_jsx htakes
  | @text tag bindings code hkind hcode henclosed hstart hmember hkept =>
    refine ⟨braced code, ?_, Fragment.exists_parse? ?_⟩
    · simp only [node, hkind, ok_bind, textContent, hcode, hkept, Option.getD_some, Fields.get?]
      rfl
    · simpa [braced] using henclosed.exists_readProgram_block hstart hmember

/-- Every container, and a bound text. -/
theorem node_readable_containers :
    (∃ text, node .mobx ⟨⟨.str "button", [], bindingsOfTexts [("_spread", "props"),
        ("onClick", "state.open = !state.open"), ("innerHTML", "a ? b : c"),
        ("title", "a || f(x)")]⟩, []⟩ = .ok text ∧ ∃ f, Fragment.parse? text.toList = some f) ∧
      ∃ text, node .mobx ⟨⟨.str "Text", [], [(.str textKey, .str "state.name")]⟩, []⟩ = .ok text ∧
        ∃ f, Fragment.parse? text.toList = some f := by
  let field (w : String) : Expr := .member (.name "state".toList) w.toList
  have hprops : Enclosed "props".toList := Expr.enclosed (e := .name "props".toList) rfl
  have hopen : Enclosed "state.open = !state.open".toList :=
    Expr.enclosed (e := .assign (field "open") .space Script.equals .space
      (.unary (.sign "!" "") .empty (field "open")))
      ⟨⟨rfl, rfl, rfl⟩, ⟨⟨rfl, rfl, rfl⟩, rfl, by decide, rfl⟩, rfl, by decide, rfl⟩
  have hchoice : Enclosed "a ? b : c".toList :=
    Expr.enclosed (e := .ternary (.name ['a']) .space .space (.name ['b']) .space .space (.name ['c']))
      ⟨rfl, rfl, rfl, rfl, by decide, rfl⟩
  have heither : Enclosed "a || f(x)".toList :=
    Expr.enclosed (e := .binary 2 (.name ['a']) .space (.sign "||" "=") .space
      (.call (.name ['f']) [.name ['x']]))
      ⟨rfl, ⟨rfl, rfl, rfl, trivial⟩, by decide, rfl, by decide, by decide, by decide, rfl⟩
  have hname : Enclosed "state.name".toList := Expr.enclosed (e := field "name") ⟨rfl, rfl, rfl⟩
  refine ⟨node_readable (.element rfl (by decide) ?_),
    node_readable (.text rfl rfl hname (by decide) (by decide) rfl)⟩
  simp only [List.forall_mem_cons, List.not_mem_nil, false_implies, implies_true, and_true]
  exact ⟨⟨.inl rfl, hprops, rfl⟩, ⟨.inr (by decide), hopen, rfl⟩, ⟨.inr (by decide), hchoice, rfl⟩,
    ⟨.inr (by decide), heither, rfl⟩⟩

/-- A comment swallows the end of its container. -/
theorem node_unreadable :
    (Fragment.parse? "a // c".toList).isSome = true ∧
      node .mobx ⟨⟨.str "p", [], [(.str "title", .str "a // c")]⟩, []⟩ =
        .ok "<p title=\x7ba // c\x7d></p>" ∧
      (Fragment.parse? "<p title=\x7ba // c\x7d></p>".toList).isSome = false := by
  refine ⟨?_, rfl, ?_⟩
  all_goals decide +kernel

end Nodes

end ReactWeave.Markup
