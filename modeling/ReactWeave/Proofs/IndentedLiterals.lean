import ReactWeave.Proofs.Indentation
import ReactWeave.Proofs.Quoting
import ReactWeave.Proofs.Strategies
import ReactWeave.Proofs.TagWords

/-!
# ReactWeave.Proofs.IndentedLiterals

**Literals in indented code.**

The code of bindings, of the state and of the hooks goes into the source as it is, and
the source is indented line by line. A literal that spans lines is code as well: the
margins go into it, and they are part of its value.

* `Component.places`: the codes that a source is made of, each with the margins that
  the source puts in front of its lines.
* `compile_literals`: a literal of such a code stands in the source with these margins,
  so it is the same exactly if no line ends in it.
-/

namespace ReactWeave

/-! ## Codes in the markup -/

namespace Markup

/-- The codes that the markup of a node has, without those of the nodes below. -/
def ownCodes (s : StateStrategy) (h : Head) : List Json :=
  match h.kind with
  | .ok .text =>
    if (h.properties.get? textKey).isSome then [] else (h.bindings.get? textKey).toList
  | .ok .loop => (h.bindings.get? "each").toList ++ (h.bindings.get? forNameKey).toList
  | .ok .condition => (h.bindings.get? "when").toList
  | .ok .element =>
    (h.bindings.get? spreadKey).toList ++
      (h.bindings.filter fun b => (binding s b.1 b.2).toOption.join.isSome).map Prod.snd
  | _ => []

mutual

/-- The codes that the markup of a tree has. -/
def codes (s : StateStrategy) : Node → List Json
  | ⟨head, children⟩ =>
    ownCodes s head ++
      match inner? head with
      | some skip => codesOf s skip children
      | none => []

/-- The same of neighbouring trees; `skip` says whether empty texts are left out. -/
def codesOf (s : StateStrategy) (skip : Bool) : List Node → List Json
  | [] => []
  | ⟨head, children⟩ :: rest =>
    (if skip && head.isEmptyText then [] else codes s ⟨head, children⟩) ++ codesOf s skip rest

end

variable {s : StateStrategy} {h : Head} {code : Json} {text : String}

theorem infix_behind {x : List Char} (before : String) (hx : x <:+: text.toList) :
    x <:+: (before ++ text).toList := by
  rw [String.toList_append]
  exact hx.trans (List.suffix_append _ _).isInfix

theorem infix_before {x : List Char} (hx : x <:+: text.toList) (behind : String) :
    x <:+: (text ++ behind).toList := by
  rw [String.toList_append]
  exact hx.trans (List.prefix_append _ _).isInfix

theorem infix_braced {x : List Char} (hx : x <:+: text.toList) : x <:+: (braced text).toList :=
  infix_before (infix_behind _ hx) _

/-- The code of a binding stands in the text of its attribute. -/
theorem code_infix_binding (hs : s.isObject = true) {key : Json}
    (h : binding s key code = .ok (some text)) : code.asText.toList <:+: text.toList := by
  cases key with
  | str name =>
    rcases binding_cases h with h | ⟨code', hcode, h⟩
    · cases h
    · obtain rfl := Except.ok.inj ((State.processed_of_isObject hs code).symm.trans hcode)
      obtain rfl := Option.some.inj h
      unfold bindingText
      split
      · exact infix_behind _ (infix_braced (infix_before (infix_behind _ List.infix_rfl) _))
      · split
        · exact infix_behind _ (infix_braced (infix_braced (infix_behind _ List.infix_rfl)))
        · exact infix_behind _ (infix_braced List.infix_rfl)
  | _ =>
    unfold binding at h
    rw [State.processed_of_isObject hs] at h
    cases h

theorem required_eq {key : String} {found : Json} (hrequired : required h key = .ok found)
    (hcode : h.bindings.get? key = some code) : found = code := by
  unfold required at hrequired
  rw [hcode] at hrequired
  split at hrequired
  · split at hrequired
    · cases hrequired
    · rename_i heq _
      rw [← Except.ok.inj hrequired, Option.some.inj heq]
  · cases hrequired

/-- **Every code of a node stands in its text.** -/
theorem code_infix_own (hs : s.isObject = true) {children : List Node}
    (hnode : node s ⟨h, children⟩ = .ok text) (hcode : code ∈ ownCodes s h) :
    code.asText.toList <:+: text.toList := by
  have hprocessed := State.processed_of_isObject hs
  cases hkind : h.kind with
  | error e => simp [ownCodes, hkind] at hcode
  | ok kind =>
    cases kind with
    | text =>
      simp only [ownCodes, hkind] at hcode
      rw [node, hkind, ok_bind] at hnode
      split at hcode
      · cases hcode
      · rename_i hproperty
        have hnone : h.properties.get? textKey = none := by simpa using hproperty
        have hget : h.bindings.get? textKey = some code := by simpa using hcode
        dsimp only [textContent] at hnode
        rw [hnone, hget] at hnode
        dsimp only [Option.getD] at hnode
        rw [hprocessed, ok_bind] at hnode
        cases hnode
        exact infix_braced List.infix_rfl
    | fragment => simp [ownCodes, hkind] at hcode
    | loop =>
      rw [node, hkind, ok_bind] at hnode
      obtain ⟨head, hhead, hnode⟩ := bind_eq_ok.1 hnode
      obtain ⟨parts, -, hnode⟩ := bind_eq_ok.1 hnode
      obtain ⟨each, heach, hhead⟩ := bind_eq_ok.1 hhead
      rw [hprocessed, ok_bind] at hhead
      obtain ⟨name, hname, hhead⟩ := bind_eq_ok.1 hhead
      cases hnode
      cases hhead
      refine infix_braced (infix_before (infix_before ?_ _) _)
      simp only [ownCodes, hkind, List.mem_append, Option.mem_toList] at hcode
      rcases hcode with hget | hget
      · obtain rfl := required_eq heach hget
        exact infix_before (infix_before (infix_before List.infix_rfl _) _) _
      · obtain rfl := required_eq hname hget
        exact infix_before (infix_behind _ List.infix_rfl) _
    | condition =>
      have hget : h.bindings.get? "when" = some code := by simpa [ownCodes, hkind] using hcode
      rw [node, hkind, ok_bind] at hnode
      obtain ⟨head, hhead, hnode⟩ := bind_eq_ok.1 hnode
      obtain ⟨parts, -, hnode⟩ := bind_eq_ok.1 hnode
      obtain ⟨condition, hcondition, hhead⟩ := bind_eq_ok.1 hhead
      rw [required_eq hcondition hget, hprocessed, ok_bind] at hhead
      cases hnode
      cases hhead
      refine infix_braced (infix_before (infix_before ?_ _) _)
      exact infix_before (infix_behind _ List.infix_rfl) _
    | element =>
      obtain ⟨tag, hopening, htag⟩ := opening_infix_element hkind hnode
      refine List.IsInfix.trans ?_ htag
      obtain ⟨spreads, hspreads, hopening⟩ := bind_eq_ok.1 hopening
      obtain ⟨texts, htexts, hopening⟩ := bind_eq_ok.1 hopening
      cases hopening
      simp only [ownCodes, hkind, List.mem_append, Option.mem_toList, List.mem_map,
        List.mem_filter] at hcode
      rcases hcode with hcode | ⟨⟨key, value⟩, ⟨hb, hmade⟩, rfl⟩
      · rw [spread, hcode] at hspreads
        dsimp only at hspreads
        rw [hprocessed, ok_bind] at hspreads
        cases hspreads
        refine List.IsInfix.trans ?_ (infix_intercalate " " (List.mem_append_left _
          (List.mem_append_right _ List.mem_cons_self)))
        exact infix_braced (infix_before (infix_behind _ List.infix_rfl) _)
      · cases hbinding : binding s key value with
        | error e => simp [hbinding, Except.toOption] at hmade
        | ok made =>
          cases made with
          | none => simp [hbinding, Except.toOption] at hmade
          | some written =>
            exact (code_infix_binding hs hbinding).trans (infix_intercalate " "
              (List.mem_append_right _ (mem_of_bindingsOf htexts hb hbinding)))

mutual

theorem code_infix_node (hs : s.isObject = true) : ∀ {n : Node} {text : String},
    node s n = .ok text → code ∈ codes s n → code.asText.toList <:+: text.toList
  | ⟨head, children⟩, text, hnode, hcode => by
    rw [codes, List.mem_append] at hcode
    rcases hcode with hcode | hcode
    · exact code_infix_own hs hnode hcode
    · split at hcode
      · rename_i skip hinner
        obtain ⟨parts, hparts, hwithin⟩ := inner_infix_node hnode hinner
        obtain ⟨part, hpart, hcode⟩ := code_infix_nodes hs hparts hcode
        exact (hcode.trans (infix_intercalate "\n" hpart)).trans hwithin
      · cases hcode

/-- Every code of neighbouring trees stands in the text of one of them. -/
theorem code_infix_nodes (hs : s.isObject = true) : ∀ {ns : List Node} {skip : Bool}
    {texts : List String}, nodes s skip ns = .ok texts → code ∈ codesOf s skip ns →
      ∃ text ∈ texts, code.asText.toList <:+: text.toList
  | [], _, _, _, hcode => by
    rw [codesOf] at hcode
    cases hcode
  | ⟨head, children⟩ :: rest, skip, texts, hnodes, hcode => by
    rw [nodes] at hnodes
    rw [codesOf, List.mem_append] at hcode
    split at hnodes
    · rename_i hskip
      rw [if_pos hskip] at hcode
      exact code_infix_nodes hs hnodes (hcode.resolve_left (by simp))
    · rename_i hskip
      rw [if_neg hskip] at hcode
      obtain ⟨first, hfirst, hnodes⟩ := bind_eq_ok.1 hnodes
      obtain ⟨more, hmore, hnodes⟩ := bind_eq_ok.1 hnodes
      cases hnodes
      rcases hcode with hcode | hcode
      · exact ⟨first, List.mem_cons_self, code_infix_node hs hfirst hcode⟩
      · obtain ⟨text, htext, hcode⟩ := code_infix_nodes hs hmore hcode
        exact ⟨text, List.mem_cons_of_mem _ htext, hcode⟩

end

end Markup

/-! ## Pieces of codes -/

open Text (Firm hang isBlank isLineEnd)

/-- Dropping blanks spares what starts solid. -/
theorem infix_dropWhile {x s : List Char} (hx : ∃ c ∈ x.head?, isBlank c = false) (h : x <:+: s) :
    x <:+: s.dropWhile isBlank := by
  obtain ⟨before, behind, rfl⟩ := h
  rw [List.append_assoc, List.dropWhile_append]
  split
  · obtain ⟨c, hc, hsolid⟩ := hx
    cases x with
    | nil => simp at hc
    | cons d x =>
      obtain rfl : d = c := by simpa using hc
      rw [List.cons_append, List.dropWhile_cons_of_neg (by simp [hsolid])]
      exact (List.prefix_append _ _).isInfix
  · rw [← List.append_assoc]
    exact List.infix_append _ _ _

theorem infix_trimmed {x : List Char} (hx : Firm x) {code : String} (h : x <:+: code.toList) :
    x <:+: (Text.trimmed code).toList := by
  have hstart : x <:+: Text.trimStart code.toList := infix_dropWhile hx.head h
  have hend : x.reverse <:+: (Text.trimStart code.toList).reverse.dropWhile isBlank := by
    refine infix_dropWhile ?_ (List.reverse_infix.2 hstart)
    rw [List.head?_reverse]
    exact hx.last
  rw [Text.trimmed, String.toList_ofList, Text.trim, Text.trimEnd, ← List.reverse_infix,
    List.reverse_reverse]
  exact hend

theorem Script.Fenced.firm {x : List Char} (h : Script.Fenced x) : Firm x := by
  cases h with
  | @mk o c mid ho hc =>
    have hsolid : ∀ c ∈ Script.literalOpeners ++ Script.literalClosers, isBlank c = false := by decide
    show Firm ([o] ++ (mid ++ [c]))
    exact Text.firm_between ⟨o, rfl, hsolid o (List.mem_append_left _ ho)⟩
      ⟨c, rfl, hsolid c (List.mem_append_right _ hc)⟩ mid

section Places

variable {x : List Char} {code : String}

/-- The code of a field stands in the declaration of the object. -/
theorem State.infix_objectDeclaration {s : StateStrategy} {state : Fields} {field : Json × Json}
    (hfield : field ∈ state) {tag : Tag} (hcode : Value.ofJson field.2 = .code tag code)
    (hx : Firm x) (h : x <:+: code.toList) : x <:+: (objectDeclaration s state).toList := by
  have hmember : x <:+: (member field.1 field.2).toList := by
    rw [member, hcode]
    cases tag with
    | function => exact Markup.infix_behind _ h
    | method => exact infix_trimmed hx h
  have hne : state.isEmpty = false := by
    rw [List.isEmpty_eq_false_iff]
    exact List.ne_nil_of_mem hfield
  have hobject : x <:+: (objectText state).toList := by
    rw [objectText, hne]
    refine (hmember.trans (infix_intercalate ", " ?_)).trans (infix_between _ _ _)
    exact List.mem_map_of_mem hfield
  delta objectDeclaration
  exact Markup.infix_before (Markup.infix_before (Markup.infix_behind _ hobject) _) _

theorem Lifecycle.hang_infix (hx : Firm x) (h : x <:+: code.toList) :
    hang "  ".toList x <:+: (Text.indent "  " (Text.trimmed code)).toList := by
  rw [Parts.toList_indent]
  exact Text.hang_infix_indentChars _ hx (infix_trimmed hx h)

theorem eq_str_of_str? {j : Json} (h : j.str? = some code) : j = .str code := by
  cases j <;> cases h
  rfl

theorem Json.truthy_of_infix (hx : Firm x) (h : x <:+: code.toList) :
    (Json.str code).truthy = true := by
  obtain ⟨c, hc, -⟩ := hx.head
  rw [Json.truthy, Bool.not_eq_true', Bool.eq_false_iff]
  intro hempty
  rw [String.isEmpty_iff.1 hempty, String.toList_empty, List.infix_nil] at h
  simp [h] at hc

end Places

/-! ## Places of codes -/

/-- The codes of a component that a source is made of, with the margins that it puts in front of
their lines. -/
def Component.places (s : StateStrategy) (c : Component) : List (List String × String) :=
  (Markup.codesOf s false c.children).map (fun code => (["  ", "    "], code.asText)) ++
    (c.state.filterMap fun field =>
      match State.Value.ofJson field.2 with
      | .code _ code => some (["  "], code)
      | .data _ => none) ++
    (c.init.str?.toList ++ c.onMount.str?.toList).map fun code => (["  ", "  "], code)

/-- **Literals stand in the source with the margins of their lines.** -/
theorem compile_literals {host : Host} {o : Options} {c : Component} {source : String}
    (hobject : o.state.isObject = true) (hstyles : o.styles = .emotion) (hplugins : o.plugins = [])
    (hformat : o.format = false) (hrefs : c.refs = [])
    (h : (c.compile host o).outcome = .ok source) :
    ∀ place ∈ c.places o.state, ∀ x, Script.Fenced x → x <:+: place.2.toList →
      (place.1.map String.toList).foldr hang x <:+: source.toList ∧
      ((place.1.map String.toList).foldr hang x = x ↔ ∀ char ∈ x, isLineEnd char = false) := by
  obtain ⟨p, parts, hp, hparts, rfl⟩ := steps_of_compile hplugins hformat h
  obtain ⟨⟨set, mapped, hset, hmapped, hprepared, -, -, hdeclared⟩⟩ := exists_preparation hp
  obtain rfl : c = set := Except.ok.inj ((prepareState_of_isObject hobject c).symm.trans hset)
  obtain rfl : c = mapped := by
    rw [Component.mapRefs, hrefs] at hmapped
    exact Except.ok.inj hmapped
  rw [hstyles] at hprepared
  have hkept : p.component = c := congrArg (·.2.2) (Except.ok.inj hprepared).symm
  rw [hkept] at hparts hdeclared
  obtain ⟨hinit, hmount, hmarkup, hstate⟩ := steps_of_partsOf hparts
  intro place hplace x hx hwithin
  simp only [Component.places, List.mem_append, List.mem_map, List.mem_filterMap,
    Option.mem_toList] at hplace
  rcases hplace with (⟨code, hcode, rfl⟩ | ⟨field, hfield, hplace⟩) | ⟨code, hcode, rfl⟩
  · refine ⟨?_, Text.foldr_hang_eq_self_iff (by simp) (by simp) hx.firm⟩
    obtain ⟨texts, htexts, hmarkup⟩ := bind_eq_ok.1 hmarkup
    obtain ⟨text, htext, hcode⟩ := Markup.code_infix_nodes hobject htexts hcode
    have htext := infix_intercalate "\n" htext
    rw [Except.ok.inj hmarkup] at htext
    exact Parts.hang_infix_markup hx.firm (by simp) ((hwithin.trans hcode).trans htext)
  · cases hvalue : State.Value.ofJson field.2 with
    | data value => simp [hvalue] at hplace
    | code tag code =>
      obtain rfl : (["  "], code) = place := by simpa [hvalue] using hplace
      refine ⟨?_, Text.foldr_hang_eq_self_iff (by simp) (by simp) hx.firm⟩
      have hsome : c.state.isEmpty = false := by
        rw [List.isEmpty_eq_false_iff]
        exact List.ne_nil_of_mem hfield
      rw [State.declaration_of_isObject hobject, hsome] at hdeclared
      have hpart : State.objectDeclaration o.state c.state = parts.state :=
        (Except.ok.inj hdeclared).trans hstate.symm
      have hdeclaration := State.infix_objectDeclaration (s := o.state) hfield hvalue hx.firm hwithin
      rw [hpart] at hdeclaration
      exact Parts.hang_infix_assemble hx.firm (by simp) hdeclaration
  · refine ⟨?_, Text.foldr_hang_eq_self_iff (by simp) (by simp) hx.firm⟩
    have htruthy := Json.truthy_of_infix hx.firm hwithin
    have hindented := Lifecycle.hang_infix hx.firm hwithin
    rcases hcode with hcode | hcode
    · rw [Lifecycle.initCode, eq_str_of_str? hcode, if_pos htruthy] at hinit
      have hpart : hang "  ".toList x <:+: parts.init.toList := by
        rw [← Except.ok.inj hinit]
        exact hindented.trans (infix_intercalate "\n" (by simp))
      exact Parts.hang_infix_assemble (hx.firm.hang _) (by simp) hpart
    · rw [Lifecycle.mountCode_of_isObject hobject, eq_str_of_str? hcode, if_pos htruthy] at hmount
      have hpart : hang "  ".toList x <:+: parts.mount.toList := by
        rw [← Except.ok.inj hmount]
        exact hindented.trans (infix_intercalate "\n" (by simp))
      exact Parts.hang_infix_assemble (hx.firm.hang _) (by simp) hpart

/-- A component that runs a code before the first rendering. -/
def initially (code : String) : Component := ⟨.str "App", [], .str code, .null, [], []⟩

theorem compile_literals_hello :
    ∃ source, ((initially "log('hello')").compile .bare (oneObject .mobx)).outcome = .ok source ∧
      "'hello'".toList <:+: source.toList := by
  cases hsource : ((initially "log('hello')").compile .bare (oneObject .mobx)).outcome with
  | error e =>
    have hcompiles : ((initially "log('hello')").compile .bare
        (oneObject .mobx)).outcome.toOption.isSome = true := by
      decide +kernel
    rw [hsource] at hcompiles
    cases hcompiles
  | ok source =>
    have hplace : (["  ", "  "], "log('hello')") ∈ (initially "log('hello')").places .mobx := by
      decide +kernel
    have hfenced : Script.Fenced ('\x27' :: ("hello".toList ++ ['\x27'])) :=
      .mk (by decide) (by decide)
    have hwithin : "'hello'".toList <:+: "log('hello')".toList := ⟨"log(".toList, [')'], by decide⟩
    obtain ⟨hstands, hself⟩ :=
      compile_literals rfl rfl rfl rfl rfl hsource _ hplace _ hfenced hwithin
    rw [hself.2 (by decide)] at hstands
    exact ⟨source, rfl, hstands⟩

/-- A template literal of two lines is another one in the source. -/
theorem compile_indents_template :
    ((initially "x = \x60a\nb\x60").compile .bare (oneObject .mobx)).outcome.toOption =
        some ("import \x7b useState \x7d from 'react';\n\n" ++
          "export default function App(props) \x7b\n" ++
          "  const [firstRender, setFirstRender] = useState(true);\n  if (firstRender) \x7b\n" ++
          "    setFirstRender(false);\n    x = \x60a\n    b\x60\n  \x7d\n\n  return (\n" ++
          "    <>\n\n    </>\n  );\n\x7d\n") ∧
      ∀ source ∈ ((initially "x = \x60a\nb\x60").compile .bare (oneObject .mobx)).outcome.toOption,
        ¬ "\x60a\nb\x60".toList <:+: source.toList := by
  exact ⟨by decide +kernel, by decide +kernel⟩

end ReactWeave
