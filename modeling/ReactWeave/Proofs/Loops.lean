import ReactWeave.Proofs.Precedence
import ReactWeave.Proofs.Stages

/-!
# ReactWeave.Proofs.Loops

**What a loop runs over.** A loop is written as the code of its collection with
`.map(…)` behind it. Members bind closer than every operator, so what the call
belongs to is the last operand of the code, and this is the whole code only if
the code is one operand.

* `Markup.receiver_of_loop`: the method call of a loop belongs to the last operand
  of the collection.
-/

namespace ReactWeave.Script

open Grammar Rules

/-! ## The last operand -/

namespace Expr

/-- The operand that an expression ends with. -/
def last : Expr → Expr
  | unary _ _ e | await _ e | binary _ _ _ _ _ e | ternary _ _ _ _ _ _ e | assign _ _ _ _ e
  | arrow _ _ _ e => e.last
  | e => e

/-- An expression with another operand at its end. -/
def mapLast (f : Expr → Expr) : Expr → Expr
  | unary o g e => unary o g (e.mapLast f)
  | await g e => await g (e.mapLast f)
  | binary k l g o g' r => binary k l g o g' (r.mapLast f)
  | ternary c g₁ g₂ a g₃ g₄ b => ternary c g₁ g₂ a g₃ g₄ (b.mapLast f)
  | assign place g o g' e => assign place g o g' (e.mapLast f)
  | arrow w g g' e => arrow w g g' (e.mapLast f)
  | e => f e

theorem last_of_isChain {e : Expr} (h : e.isChain = true) : e.last = e := by
  cases e <;> first | rfl | cases h

/-- The last operand of an expression fits. -/
theorem fits_last : ∀ {e : Expr}, e.Fits → e.last.Fits
  | unary _ _ e, h | await _ e, h | arrow _ _ _ e, h => fits_last (e := e) h.1
  | binary _ _ _ _ _ e, h | assign _ _ _ _ e, h => fits_last (e := e) h.2.1
  | ternary _ _ _ _ _ _ e, h => fits_last (e := e) h.2.2.1
  | atom _, h | name _, h | paren _, h | member _ _, h | index _ _, h | call _ _, h => h

variable {f : Expr → Expr} {added : List Char}

/-- What is added to the last operand is added at the end of the text. -/
theorem text_mapLast : ∀ {e : Expr}, (f e.last).text = e.last.text ++ added →
    (e.mapLast f).text = e.text ++ added
  | unary o g e, h | await g e, h | binary _ _ _ _ _ e, h | ternary _ _ _ _ _ _ e, h
  | assign _ _ _ _ e, h | arrow _ _ _ e, h => by
    have ih : (e.mapLast f).text = e.text ++ added := text_mapLast h
    simp [mapLast, text, ih]
  | atom _, h | name _, h | paren _, h | member _ _, h | index _ _, h | call _ _, h => h

theorem rank_mapLast (h : ∀ x : Expr, (f x).isChain = true) (e : Expr) :
    (e.mapLast f).rank = e.rank := by
  have hchain {x : Expr} : (f x).rank = 13 := by
    have := h x
    cases hx : f x <;> first | rfl | (rw [hx] at this; cases this)
  cases e with
  | atom | name | paren | member | index | call => exact hchain
  | _ => rfl

/-- A chain that takes the place of the last operand fits there. -/
theorem fits_mapLast (hchain : ∀ x : Expr, (f x).isChain = true) :
    ∀ {e : Expr}, e.Fits → (f e.last).text = e.last.text ++ added → (f e.last).Fits →
      (e.mapLast f).Fits
  | unary o g e, hfits, htext, hlast => by
    obtain ⟨he, hrank, ho, hparted⟩ := hfits
    refine ⟨fits_mapLast hchain he htext hlast, by rw [rank_mapLast hchain, hrank], ho, ?_⟩
    rwa [text_mapLast (e := e) htext, isParted_append he]
  | await g e, hfits, htext, hlast => by
    obtain ⟨he, hrank, hparted⟩ := hfits
    refine ⟨fits_mapLast hchain he htext hlast, by rw [rank_mapLast hchain, hrank], ?_⟩
    rwa [text_mapLast (e := e) htext, isParted_append he]
  | binary k l g o g' e, hfits, htext, hlast => by
    obtain ⟨hl, he, ho, hclosed, hleft, hright, hg, hparted⟩ := hfits
    refine ⟨hl, fits_mapLast hchain he htext hlast, ho, hclosed, hleft, ?_, hg, ?_⟩
    · rwa [rank_mapLast hchain]
    · rwa [text_mapLast (e := e) htext, isParted_append he]
  | ternary c g₁ g₂ a g₃ g₄ e, hfits, htext, hlast => by
    obtain ⟨hc, ha, he, hrest⟩ := hfits
    exact ⟨hc, ha, fits_mapLast hchain he htext hlast, hrest⟩
  | assign place g o g' e, hfits, htext, hlast => by
    obtain ⟨hplace, he, hisPlace, ho, hparted⟩ := hfits
    refine ⟨hplace, fits_mapLast hchain he htext hlast, hisPlace, ho, ?_⟩
    rwa [text_mapLast (e := e) htext, isParted_append he]
  | arrow w g g' e, hfits, htext, hlast => by
    obtain ⟨he, hw, hbrace, hparted⟩ := hfits
    refine ⟨fits_mapLast hchain he htext hlast, hw, ?_, ?_⟩
    · obtain ⟨c, u, hu⟩ := List.exists_cons_of_ne_nil (text_ne he)
      rw [text_mapLast (e := e) htext]
      rw [hu] at hbrace ⊢
      exact hbrace
    · rwa [text_mapLast (e := e) htext, isParted_append he]
  | atom _, _, _, hlast | name _, _, _, hlast | paren _, _, _, hlast | member _ _, _, _, hlast
  | index _ _, _, _, hlast | call _ _, _, _, hlast => hlast

theorem length_last_le : ∀ e : Expr, e.last.text.length ≤ e.text.length
  | unary _ _ e | await _ e | binary _ _ _ _ _ e | ternary _ _ _ _ _ _ e | assign _ _ _ _ e
  | arrow _ _ _ e => by
    have ih := length_last_le e
    simp only [last, text, List.length_append, List.length_cons]
    omega
  | atom _ | name _ | paren _ | member _ _ | index _ _ | call _ _ => Nat.le_refl _

/-- Unless an expression is a chain, its last operand is shorter. -/
theorem length_last_lt {e : Expr} (hfits : e.Fits) (h : e.isChain = false) :
    e.last.text.length < e.text.length := by
  cases e with
  | atom | name | paren | member | index | call => cases h
  | unary o g e =>
    have ho : o.text.length ≠ 0 := by
      have hall : ∀ o ∈ counters ++ unaries, o.text.length ≠ 0 := by decide
      exact hall o hfits.2.2.1
    have hle := length_last_le e
    simp only [last, text, List.length_append]
    omega
  | await g e =>
    have hle := length_last_le e
    have hlen : "await".toList.length = 5 := rfl
    simp only [last, text, List.length_append, hlen]
    omega
  | binary k l g o g' e | assign l g o g' e =>
    have hl : l.text.length ≠ 0 := by simpa using text_ne hfits.1
    have hle := length_last_le e
    simp only [last, text, List.length_append]
    omega
  | ternary c g₁ g₂ a g₃ g₄ e | arrow w g g' e =>
    have hle := length_last_le e
    simp only [last, text, List.length_append, List.length_cons]
    omega

end Expr

/-! ## The last call -/

namespace Tree

theorem part?_first {t : Tree} (ht : t.isTrivia = false) {r : Role} (k : Kind) (r' : Option Role)
    (ps : List Tree) : (node k r' (t.withRole r :: ps)).part? r = some (t.withRole r) := by
  simp [part?, parts, role?_withRole ht]

/-- What a call is a method of. -/
def callee? (ps : List Tree) : Option Tree :=
  ((node .call none ps).part? .function).bind (·.part? .object)

mutual

/-- What the last call of a construct is a method of, if the construct ends with a call. -/
def receiver? : Tree → Option Tree
  | node .call _ ps => callee? ps
  | node _ _ ps => lastReceiver? ps
  | _ => none

/-- The same for neighbouring trees. -/
def lastReceiver? : List Tree → Option Tree
  | [] => none
  | [t] => receiver? t
  | _ :: u :: ts => lastReceiver? (u :: ts)

end

theorem lastReceiver?_concat (ts : List Tree) (t : Tree) :
    lastReceiver? (ts ++ [t]) = receiver? t := by
  induction ts with
  | nil => simp [lastReceiver?]
  | cons u ts ih =>
    cases ts with
    | nil => simp [lastReceiver?]
    | cons v ts => simpa [lastReceiver?] using ih

theorem receiver?_node {k : Kind} (hk : k ≠ .call) (r : Option Role) (ps : List Tree) :
    receiver? (node k r ps) = lastReceiver? ps := by
  cases k <;> first | exact absurd rfl hk | simp [receiver?]

theorem receiver?_withRole (r : Role) (t : Tree) : (t.withRole r).receiver? = t.receiver? := by
  cases t with
  | gap | token => simp [withRole, receiver?]
  | node k r' ps =>
    by_cases hk : k = .call
    · subst hk
      simp [withRole, receiver?]
    · simp only [withRole, receiver?_node hk]

end Tree

namespace Expr

variable (f : Expr → Expr)

/-- The receiver of a call at the end is looked for in the last operand. -/
theorem receiver?_mapLast : ∀ e : Expr, (e.mapLast f).tree.receiver? = (f e.last).tree.receiver?
  | unary o g e => by
    have ih := receiver?_mapLast e
    have hkind : (if counters.contains o then Kind.update else .unary) ≠ .call := by
      split <;> decide
    rw [mapLast, tree, Tree.receiver?_node hkind, ← List.cons_append, Tree.lastReceiver?_concat,
      Tree.receiver?_withRole, ih, last]
  | await g e => by
    have ih := receiver?_mapLast e
    rw [mapLast, tree, Tree.receiver?_node (by decide), ← List.cons_append,
      Tree.lastReceiver?_concat, ih, last]
  | binary k l g o g' e => by
    have ih := receiver?_mapLast e
    simp only [mapLast, tree, Tree.receiver?_node (by decide : Kind.binary ≠ .call),
      ← List.cons_append, ← List.append_assoc, Tree.lastReceiver?_concat,
      Tree.receiver?_withRole, ih, last]
  | ternary c g₁ g₂ a g₃ g₄ e => by
    have ih := receiver?_mapLast e
    simp only [mapLast, tree, Tree.receiver?_node (by decide : Kind.ternary ≠ .call),
      ← List.cons_append, ← List.append_assoc, Tree.lastReceiver?_concat,
      Tree.receiver?_withRole, ih, last]
  | assign place g o g' e => by
    have ih := receiver?_mapLast e
    by_cases ho : o = equals
    · simp only [mapLast, tree, ho, if_true,
        Tree.receiver?_node (by decide : Kind.assignment ≠ .call),
        ← List.cons_append, ← List.append_assoc, Tree.lastReceiver?_concat,
        Tree.receiver?_withRole, ih, last]
    · simp only [mapLast, tree, ho, if_false,
        Tree.receiver?_node (by decide : Kind.augmentedAssignment ≠ .call),
        ← List.cons_append, ← List.append_assoc, Tree.lastReceiver?_concat,
        Tree.receiver?_withRole, ih, last]
  | arrow w g g' e => by
    have ih := receiver?_mapLast e
    simp only [mapLast, tree, Tree.receiver?_node (by decide : Kind.arrowFunction ≠ .call),
      ← List.cons_append, ← List.append_assoc, Tree.lastReceiver?_concat,
      Tree.receiver?_withRole, ih, last]
  | atom _ | name _ | paren _ | member _ _ | index _ _ | call _ _ => rfl

end Expr

/-! ## Markup as an operand -/

/-- Markup between tags, read to its end. -/
structure Content where
  text : List Char
  trees : List Tree
  complete : Reshape.anyHoldsDefault trees = false
  textOf_trees : Tree.textOf trees = text
  reads (rest : List Char) : Answers (.many (.rule .jsxChild))
    (text ++ '<' :: '/' :: rest) (some (trees, '<' :: '/' :: rest))

/-- No markup. -/
def Content.empty : Content where
  text := []
  trees := []
  complete := by rw [Reshape.anyHoldsDefault]
  textOf_trees := rfl
  reads rest := (gives_jsxChild_none rest).many_nil

namespace Content

variable (content : Content)

/-- Markup without a tag around it. -/
def fragmentText : List Char := '<' :: '>' :: (content.text ++ ['<', '/', '>'])

/-- Its syntax tree. -/
def fragmentTree : Tree := .node .jsxElement none
  (.node .jsxOpeningElement (some .openTag) [leaf ['<'], leaf ['>']] :: (content.trees ++
    [.node .jsxClosingElement (some .closeTag) [leaf ['<', '/'], leaf ['>']]]))

theorem gives_jsxName_none (u : List Char) :
    Answers (.rule .jsxName) ('>' :: u) none := by
  refine ⟨20, fun d hd => ?_⟩
  obtain ⟨d, rfl⟩ := Nat.exists_eq_add_of_le hd
  rw [Nat.add_comm]
  rfl

/-- A fragment in markup is read with its content. -/
theorem gives_fragment (g : Gap) (rest : List Char) :
    Answers (.rule .jsx) (g.text ++ (content.fragmentText ++ rest))
      (some (g.trees ++ [content.fragmentTree], rest)) := by
  let inner := content.text ++ '<' :: '/' :: '>' :: rest
  have htext : content.fragmentText ++ rest = '<' :: '>' :: inner := by
    simp [fragmentText, inner]
  have hopen : Answers (markBut "<" "/!") (g.text ++ '<' :: '>' :: inner)
      (some (g.trees ++ [leaf ['<']], '>' :: inner)) :=
    g.gives_token .symbol (w := ['<']) rfl rfl
  have hangle (u : List Char) : Answers closeAngle ('>' :: u)
      (some ([leaf ['>']], u)) :=
    Gap.empty.gives_mark ">" rfl
  have hslash : Answers (Rules.mark "</") ('<' :: '/' :: '>' :: rest)
      (some ([leaf ['<', '/']], '>' :: rest)) :=
    Gap.empty.gives_mark "</" rfl
  have hname (u : List Char) :
      Answers (.field .name (.rule .jsxName)) ('>' :: u) none :=
    (gives_jsxName_none u).field_none
  let attributes : G := .many (.field .attribute (.rule .jsxAttribute))
  -- The name and the attributes of the opening tag are missing, so it has an end of its own.
  have hopening : Answers (.field .openTag (.node .jsxOpeningElement
      (.seq (markBut "<" "/!") (.seq (opt (.seq (.field .name (.rule .jsxName)) attributes))
        closeAngle))))
      (g.text ++ '<' :: '>' :: inner)
      (some (g.trees ++ [.node .jsxOpeningElement (some .openTag) [leaf ['<'], leaf ['>']]],
        inner)) := by
    have hparts := hopen.seq (((hname inner).seq_none (b := attributes)
      |>.alt_second gives_empty).seq (hangle inner))
    rw [List.append_assoc] at hparts
    exact g.field (t := .node .jsxOpeningElement none [leaf ['<'], leaf ['>']]) rfl
      (g.node .jsxOpeningElement (t := leaf ['<']) rfl hparts)
  have hclosing : Answers (.field .closeTag (.node .jsxClosingElement
      (.seq (Rules.mark "</") (.seq (opt (.field .name (.rule .jsxName))) closeAngle))))
      ('<' :: '/' :: '>' :: rest)
      (some ([.node .jsxClosingElement (some .closeTag) [leaf ['<', '/'], leaf ['>']]], rest)) := by
    have hparts := hslash.seq (((hname rest).alt_second gives_empty).seq (hangle rest))
    exact Gap.empty.field (t := .node .jsxClosingElement none [leaf ['<', '/'], leaf ['>']]) rfl
      (Gap.empty.node .jsxClosingElement (t := leaf ['<', '/']) rfl hparts)
  have hparts := hopening.seq ((content.reads ('>' :: rest)).seq hclosing)
  rw [List.append_assoc] at hparts
  have hnot := (hname inner).seq_none (b := .seq attributes (Rules.mark "/>"))
  have hselfClosing := (hopen.seq_second hnot).node_none .jsxSelfClosingElement
  rw [htext]
  exact .rule (hselfClosing.alt_second (g.node .jsxElement
    (t := .node .jsxOpeningElement (some .openTag) [leaf ['<'], leaf ['>']]) rfl hparts))

end Content

/-- Markup without a tag around it, as an operand. -/
def Atom.fragment (content : Content) : Atom where
  text := content.fragmentText
  tree := content.fragmentTree
  isLinked := true
  operand := operand_node (by decide) _ _
  complete := by
    rw [Content.fragmentTree, holdsDefault_node (by decide)]
    simp [Reshape.anyHoldsDefault, anyHoldsDefault_append, content.complete, leaf, Reshape.holdsDefault]
  text_tree := by
    simp [Content.fragmentTree, Content.fragmentText, Tree.text, Tree.textOf, leaf,
      content.textOf_trees]
  text_ne := by simp [Content.fragmentText]
  solid rest := rfl
  leads g rest hrest := by
    refine Expr.leads_of_opening (.inl ⟨'<', by decide, ?_⟩)
    rw [g.behindGap (u := content.fragmentText ++ rest) rfl]
    rfl
  reads g rest us rest' hrest _ hnext := by
    have hahead : (Lexis.behindGap (g.text ++ (content.fragmentText ++ rest))).head? = some '<' := by
      rw [g.behindGap (u := content.fragmentText ++ rest) rfl]
      rfl
    exact Expr.gives_chain g (.inl ⟨'<', by decide, hahead⟩) (t := content.fragmentTree) rfl
      (gives_primary_jsx hahead (content.gives_fragment g rest)) hnext

/-! ## Loops -/

namespace Expr

variable {x : Expr} {parameter : List Char} {content : Content}

/-- The call that runs over an operand, with markup for each item. -/
def mapping (parameter : List Char) (content : Content) (x : Expr) : Expr :=
  call (member x "map".toList) [arrow parameter .space .space (paren (atom (.fragment content)))]

/-- What the call adds to the operand. -/
def mappingText (parameter : List Char) (content : Content) : List Char :=
  ".map(".toList ++ (parameter ++ (" => (".toList ++ (content.fragmentText ++ "))".toList)))

theorem mappingText_eq : mappingText parameter content =
    ".map(".toList ++ (parameter ++ (" => (".toList ++ (content.fragmentText ++ "))".toList))) :=
  rfl

theorem text_mapping : (mapping parameter content x).text =
    x.text ++ mappingText parameter content := by
  rw [mapping, mappingText_eq]
  simp [text, textOf, moreText, Atom.fragment, Gap.space, Gap.ofBlanks]

theorem fits_mapping (hx : x.Fits) (hlinked : x.isLinked = true)
    (hparameter : isPlainName parameter = true) : (mapping parameter content x).Fits := by
  refine ⟨⟨hx, hlinked, by decide⟩, rfl, ⟨trivial, hparameter, ?_, rfl⟩, trivial⟩
  simp [text]

theorem receiver?_mapping :
    (mapping parameter content x).tree.receiver? = some (x.tree.withRole .object) := by
  have hfunction := (member x "map".toList).operand.part
  rw [tree] at hfunction
  rw [mapping, tree, tree, Tree.receiver?, Tree.callee?, Tree.part?_first hfunction, Option.bind_some,
    Tree.withRole, Tree.part?_first x.operand.part]

/-- An expression is read between the braces of markup. -/
theorem ReadsAt.braces {e : Expr} (h : ReadsAt 0 e) (rest : List Char) :
    Answers (.rule .jsxExpression) ('{' :: (e.text ++ '}' :: rest))
      (some ([.node .jsxExpression none [leaf ['{'], e.tree, leaf ['}']]], rest)) := by
  have hopen : Answers (Rules.mark "\x7b") ('{' :: (e.text ++ '}' :: rest))
      (some ([leaf ['{']], e.text ++ '}' :: rest)) :=
    Gap.empty.gives_mark "\x7b" rfl
  have hclose : Answers (Rules.mark "\x7d") ('}' :: rest)
      (some ([leaf ['}']], rest)) :=
    Gap.empty.gives_mark "\x7d" rfl
  have hhalts := halts_of_closer (c := '}') (by decide) rest
  have hexpressions : Answers (.rule .expressions) (e.text ++ '}' :: rest)
      (some ([e.tree], '}' :: rest)) :=
    h.expressions Gap.empty hhalts (gives_listEnd (by decide) (by decide) rest _)
  have hdots : Answers (.node .spread (.seq (Rules.mark "...") (.rule .expression)))
      (e.text ++ '}' :: rest) none :=
    .node_none _ (gives_dots_none (h.element Gap.empty hhalts)).seq_none
  have hparts := hopen.seq ((Gives.alt (b := .empty) (hdots.alt_second hexpressions)).seq hclose)
  exact .rule (Gap.empty.node .jsxExpression (t := leaf ['{']) rfl hparts)

end Expr

end ReactWeave.Script

namespace ReactWeave.Markup

open Script

variable {strategy : StateStrategy} {head : Head} {children : List Node}
  {each name collection : String} {parts : List String}

theorem node_loop (hkind : head.kind = .ok .loop) (heach : required head "each" = .ok (.str each))
    (hname : required head forNameKey = .ok (.str name))
    (hprocessed : State.processed strategy (.str each) = .ok (.str collection))
    (hparts : nodes strategy true children = .ok parts) :
    node strategy ⟨head, children⟩ = .ok (braced (collection ++ ".map(" ++ name ++ " => (" ++
      fragment ("\n".intercalate parts) ++ "))")) := by
  rw [node, hkind]
  simp only [ok_bind, loopHead, heach, hname, hprocessed, hparts]
  rfl

/-- The text of a loop is an expression in braces: the collection, whose last operand goes on with
the call. -/
theorem toList_loop {e : Expr} {content : Script.Content} (htext : collection.toList = e.text)
    (hcontent : ("\n".intercalate parts).toList = content.text) :
    collection ++ ".map(" ++ name ++ " => (" ++ fragment ("\n".intercalate parts) ++ "))" =
      String.ofList (e.mapLast (Expr.mapping name.toList content)).text := by
  have hlast : (e.mapLast (Expr.mapping name.toList content)).text =
      e.text ++ Expr.mappingText name.toList content :=
    Expr.text_mapLast Expr.text_mapping
  apply String.toList_injective
  simp [hlast, fragment, Expr.mappingText_eq, Script.Content.fragmentText, htext, hcontent]

/-- The call of a loop is a method of the last operand of its collection, so the loop runs over the
whole collection if and only if this is a single operand. -/
theorem receiver_of_loop {e : Expr} {content : Script.Content} (hkind : head.kind = .ok .loop)
    (heach : required head "each" = .ok (.str each))
    (hname : required head forNameKey = .ok (.str name))
    (hprocessed : State.processed strategy (.str each) = .ok (.str collection))
    (hparts : nodes strategy true children = .ok parts)
    (hcontent : ("\n".intercalate parts).toList = content.text)
    (htext : collection.toList = e.text) (hfits : e.Fits) (hlinked : e.last.isLinked = true)
    (hplain : isPlainName name.toList = true) :
    ∃ code body receiver, node strategy ⟨head, children⟩ = .ok (braced (String.ofList code)) ∧
      (∀ rest, Grammar.Gives Lexis.lexicon rules (.rule .jsxExpression) ('{' :: (code ++ '}' :: rest))
        (some ([.node .jsxExpression none [leaf ['{'], body, leaf ['}']]], rest))) ∧
      body.receiver? = some receiver ∧ receiver.text = e.last.text ∧
      (receiver.text = e.text ↔ e.isChain = true) := by
  let loop := e.mapLast (Expr.mapping name.toList content)
  have hloop : loop.Fits :=
    Expr.fits_mapLast (fun _ => rfl) hfits Expr.text_mapping
      (Expr.fits_mapping (Expr.fits_last hfits) hlinked hplain)
  have hreceiver : (e.last.tree.withRole .object).text = e.last.text := by
    rw [Tree.text_withRole, Expr.text_tree]
  refine ⟨loop.text, loop.tree, e.last.tree.withRole .object, ?_, (Expr.reads_zero hloop).braces, ?_,
    hreceiver, ?_⟩
  · rw [node_loop hkind heach hname hprocessed hparts, toList_loop htext hcontent]
  · rw [Expr.receiver?_mapLast, Expr.receiver?_mapping]
  · rw [hreceiver]
    constructor
    · intro hwhole
      cases hchain : e.isChain with
      | true => rfl
      | false =>
        have hlt := Expr.length_last_lt hfits hchain
        rw [hwhole] at hlt
        exact absurd hlt (Nat.lt_irrefl _)
    · intro hchain
      rw [Expr.last_of_isChain hchain]

/-- In parentheses, one of two names is a single operand. -/
theorem receiver_of_loop_parentheses :
    ∃ code body receiver, node .mobx (.loop (.str "(a || b)") (.str "item") []) =
        .ok (braced (String.ofList code)) ∧
      (∀ rest, Grammar.Gives Lexis.lexicon rules (.rule .jsxExpression) ('{' :: (code ++ '}' :: rest))
        (some ([.node .jsxExpression none [leaf ['{'], body, leaf ['}']]], rest))) ∧
      body.receiver? = some receiver ∧ receiver.text = "(a || b)".toList := by
  let either : Expr := .binary 2 (.name ['a']) .space (.sign "||" "=") .space (.name ['b'])
  have hfits : (Expr.paren either).Fits :=
    ⟨rfl, rfl, by decide, rfl, by decide, by decide, by decide, rfl⟩
  have htext : "(a || b)".toList = (Expr.paren either).text := rfl
  let head : Head := (Node.loop (.str "(a || b)") (.str "item") []).head
  have hkind : head.kind = .ok .loop := rfl
  have heach : required head "each" = .ok (.str "(a || b)") := rfl
  have hname : required head forNameKey = .ok (.str "item") := rfl
  have hprocessed : State.processed .mobx (.str "(a || b)") = .ok (.str "(a || b)") := rfl
  have hparts : nodes .mobx true [] = .ok [] := rfl
  have hcontent : ("\n".intercalate []).toList = Script.Content.empty.text := rfl
  obtain ⟨code, body, receiver, hnode, hreads, hreceiver, -, hwhole⟩ :=
    receiver_of_loop hkind heach hname hprocessed hparts hcontent htext hfits rfl (by decide)
  exact ⟨code, body, receiver, hnode, hreads, hreceiver, hwhole.2 rfl⟩

/-- Without them, the loop runs over the second name. -/
theorem loop_runs_over_last_operand :
    node .mobx (.loop (.str "a || b") (.str "item") []) =
        .ok "\x7ba || b.map(item => (<></>))\x7d" ∧
      (Fragment.parse? "a || b.map(item => (<></>))".toList).bind
        (fun f => f.root.receiver?.map Tree.text) = some ['b'] :=
  ⟨rfl, by decide +kernel⟩

end ReactWeave.Markup
