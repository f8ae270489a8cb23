import ReactWeave.Proofs.Levels

/-!
# ReactWeave.Proofs.Spelling

**Expressions and how they are written.** `Expr` is the abstract syntax of
expressions: operands that are made of names, members, calls and parentheses,
and what operators, conditions, assignments and functions make of them. Each is
written as a text (`Expr.text`) and has a syntax tree (`Expr.tree`).

* `Expr.solid`, `Expr.leads`: what an expression starts with.
-/

namespace ReactWeave.Script

open Grammar Rules

/-! ## Parts behind a gap -/

section Parts

variable {a : G} {s rest rest' : List Char} {t : Tree} {ts us : List Tree}

theorem Gap.field (g : Gap) {r : Role} (ht : t.isTrivia = false)
    (h : Answers a s (some (g.trees ++ [t], rest))) :
    Answers (.field r a) s (some (g.trees ++ [t.withRole r], rest)) :=
  h.field (by simp [giveRole, splitTrivia_part g.isTrivia_of_mem_trees ht])

theorem Gap.node (g : Gap) (k : Kind) (ht : t.isTrivia = false)
    (h : Answers a s (some (g.trees ++ t :: ts, rest))) :
    Answers (.node k a) s (some (g.trees ++ [.node k none (t :: ts)], rest)) := by
  have hnode := h.node k
  rwa [splitTrivia_part g.isTrivia_of_mem_trees ht] at hnode

theorem Gap.grow (g : Gap) {again : Bool} {ways : List (Continuation × G)} (ht : t.isTrivia = false)
    (h : Answers a s (some (g.trees ++ [t], rest)))
    (hnext : Answers (.extend [t] again ways) rest (some (us, rest'))) :
    Answers (.grow a again ways) s (some (g.trees ++ us, rest')) := by
  have hsplit := splitTrivia_part g.isTrivia_of_mem_trees ht []
  have hstep : Answers (.extend (splitTrivia (g.trees ++ [t])).2 again ways) rest
      (some (us, rest')) := by
    rwa [hsplit]
  have hgrow := h.grow hstep
  rwa [hsplit] at hgrow

end Parts

theorem Gap.gives_mark (g : Gap) (w : String) {rest : List Char} (hsolid : Solid (w.toList ++ rest)) :
    Answers (Rules.mark w) (g.text ++ (w.toList ++ rest))
      (some (g.trees ++ [.token .symbol none w.toList], rest)) := by
  refine g.gives_token .symbol hsolid ?_
  rw [mark_append]
  cases rest <;> simp

theorem Apart.gives_arrow {rest : List Char} (h : Apart rest) :
    Answers (Rules.mark "=>") rest none := by
  refine gives_token_none .symbol ?_
  rw [Lexis.mark, h.arrow]
  rfl

/-! ## Abstract syntax -/

/-- The alternatives of an operand that start with an operator or a keyword. -/
def operatorAlternatives : List G := [
  .node .update (.seq (.field .operator (.alt (Rules.mark "++") (Rules.mark "--")))
    (.field .argument (.rule .unary))),
  .node .unary (.seq (.field .operator (alts [Rules.mark "!", Rules.mark "~", Rules.mark "-",
      Rules.mark "+", word "typeof", word "void", word "delete"]))
    (.field .argument (.rule .unary))),
  .node .await (.seq (word "await") (.rule .unary)),
  .node .yield (.seq (word "yield") (opt (.alt (.seq star (.rule .element))
    (.seq unfinished (.rule .element)))))]

/-- Whether a text starts with no operator. -/
def Leads (s : List Char) : Prop := ∀ a ∈ operatorAlternatives, Answers a s none

/-- An operand of any other kind: a literal, a function with a body, an element. It is read wherever
its last token ends, and members and calls may follow. -/
structure Atom where
  text : List Char
  tree : Tree
  /-- Whether a dot may follow. -/
  isLinked : Bool
  operand : Operand tree
  complete : Reshape.holdsDefault tree = false
  text_tree : tree.text = text
  text_ne : text ≠ []
  solid (rest : List Char) : Solid (text ++ rest)
  leads (g : Gap) (rest : List Char) : Apart rest → Leads (g.text ++ (text ++ rest))
  reads (g : Gap) (rest us rest') : Apart rest → (isLinked = false → rest.head? ≠ some '.') →
    Answers (.extend [tree] true (ways 15)) rest (some (us, rest')) →
      Answers (.rule .chain) (g.text ++ (text ++ rest)) (some (g.trees ++ us, rest'))

/-- The operators in front of an operand. -/
def unaries : List Mark :=
  [.sign "!" "", .sign "~" "", .sign "-" "", .sign "+" "", .word "typeof", .word "void",
    .word "delete"]

/-- Counting up and down. -/
def counters : List Mark := [.sign "++" "", .sign "--" ""]

/-- Expressions. -/
inductive Expr where
  | atom (a : Atom)
  | name (w : List Char)
  | paren (e : Expr)
  | member (e : Expr) (w : List Char)
  | index (e i : Expr)
  | call (e : Expr) (args : List Expr)
  | unary (o : Mark) (g : Gap) (e : Expr)
  | await (g : Gap) (e : Expr)
  | binary (level : Nat) (l : Expr) (g : Gap) (o : Mark) (g' : Gap) (r : Expr)
  | ternary (c : Expr) (g₁ g₂ : Gap) (a : Expr) (g₃ g₄ : Gap) (b : Expr)
  | assign (place : Expr) (g : Gap) (o : Mark) (g' : Gap) (e : Expr)
  | arrow (parameter : List Char) (g g' : Gap) (body : Expr)

/-- A mark or keyword as a leaf. -/
def leaf (w : List Char) : Tree := .token .symbol none w

/-- An operator as a leaf. -/
def operatorLeaf (w : List Char) : Tree := .token .symbol (some .operator) w

namespace Expr

mutual

/-- What an expression is written as. -/
def text : Expr → List Char
  | atom a => a.text
  | name w => w
  | paren e => '(' :: (e.text ++ [')'])
  | member e w => e.text ++ '.' :: w
  | index e i => e.text ++ '[' :: (i.text ++ [']'])
  | call e args => e.text ++ '(' :: (textOf args ++ [')'])
  | unary o g e => o.text ++ (g.text ++ e.text)
  | await g e => "await".toList ++ (g.text ++ e.text)
  | binary _ l g o g' r => l.text ++ (g.text ++ (o.text ++ (g'.text ++ r.text)))
  | ternary c g₁ g₂ a g₃ g₄ b =>
    c.text ++ (g₁.text ++ '?' :: (g₂.text ++ (a.text ++ (g₃.text ++ ':' :: (g₄.text ++ b.text)))))
  | assign place g o g' e => place.text ++ (g.text ++ (o.text ++ (g'.text ++ e.text)))
  | arrow parameter g g' body => parameter ++ (g.text ++ '=' :: '>' :: (g'.text ++ body.text))

/-- What the arguments of a call are written as. -/
def textOf : List Expr → List Char
  | [] => []
  | e :: es => e.text ++ moreText es

/-- Further arguments. -/
def moreText : List Expr → List Char
  | [] => []
  | e :: es => ',' :: ' ' :: (e.text ++ moreText es)

end

mutual

/-- The syntax tree of an expression. -/
def tree : Expr → Tree
  | atom a => a.tree
  | name w => .token .identifier none w
  | paren e => .node .parenthesized none [leaf ['('], e.tree, leaf [')']]
  | member e w => .node .member none
      [e.tree.withRole .object, leaf ['.'], .token .propertyIdentifier (some .property) w]
  | index e i => .node .subscript none
      [e.tree.withRole .object, leaf ['['], i.tree.withRole .index, leaf [']']]
  | call e args => .node .call none
      [e.tree.withRole .function,
        .node .arguments (some .arguments) (leaf ['('] :: (treesOf args ++ [leaf [')']]))]
  | unary o g e => .node (if counters.contains o then .update else .unary) none
      (operatorLeaf o.text :: (g.trees ++ [e.tree.withRole .argument]))
  | await g e => .node .await none (leaf "await".toList :: (g.trees ++ [e.tree]))
  | binary _ l g o g' r => .node .binary none (l.tree.withRole .left :: (g.trees ++
      operatorLeaf o.text :: (g'.trees ++ [r.tree.withRole .right])))
  | ternary c g₁ g₂ a g₃ g₄ b => .node .ternary none (c.tree.withRole .condition :: (g₁.trees ++
      leaf ['?'] :: (g₂.trees ++ a.tree.withRole .consequence :: (g₃.trees ++
        leaf [':'] :: (g₄.trees ++ [b.tree.withRole .alternative])))))
  | assign place g o g' e =>
    if o = equals then .node .assignment none (place.tree.withRole .left :: (g.trees ++
      leaf o.text :: (g'.trees ++ [e.tree.withRole .right])))
    else .node .augmentedAssignment none (place.tree.withRole .left :: (g.trees ++
      operatorLeaf o.text :: (g'.trees ++ [e.tree.withRole .right])))
  | arrow parameter g g' body => .node .arrowFunction none
      (.token .identifier (some .parameter) parameter :: (g.trees ++
        leaf ['=', '>'] :: (g'.trees ++ [body.tree.withRole .body])))

/-- The syntax trees of the arguments of a call. -/
def treesOf : List Expr → List Tree
  | [] => []
  | e :: es => e.tree :: moreTrees es

/-- Further arguments. -/
def moreTrees : List Expr → List Tree
  | [] => []
  | e :: es => leaf [','] :: .gap [' '] :: e.tree :: moreTrees es

end

/-- Operands that members and calls may follow. -/
def isChain : Expr → Bool
  | atom _ | name _ | paren _ | member _ _ | index _ _ | call _ _ => true
  | _ => false

/-- Operands that a dot may follow. -/
def isLinked : Expr → Bool
  | atom a => a.isLinked
  | e => e.isChain

/-- Operands that can be assigned to. -/
def isPlace : Expr → Bool
  | name _ | paren _ | member _ _ | index _ _ => true
  | _ => false

/-- The level of an expression. -/
def rank : Expr → Nat
  | binary level _ _ _ _ _ => level
  | ternary _ _ _ _ _ _ _ => 0
  | _ => 13

/-- Whether a looser operator may follow without becoming a part of the expression. -/
def isClosed : Expr → Bool
  | unary _ _ e | await _ e | binary _ _ _ _ _ e => e.isClosed
  | ternary _ _ _ _ _ _ _ | assign _ _ _ _ _ | arrow _ _ _ _ => false
  | _ => true

mutual

/-- Whether an expression is written so that every part stands where it belongs: operands at their
level, and tokens apart. -/
def Fits : Expr → Prop
  | atom _ => True
  | name w => isPlainName w = true
  | paren e => e.Fits
  | member e w => e.Fits ∧ e.isLinked = true ∧ isName w = true
  | index e i => e.Fits ∧ e.isChain = true ∧ i.Fits
  | call e args => e.Fits ∧ e.isChain = true ∧ FitsAll args
  | unary o g e => e.Fits ∧ e.rank = 13 ∧ o ∈ counters ++ unaries ∧
      isParted o.text (g.text ++ e.text) = true
  | await g e => e.Fits ∧ e.rank = 13 ∧ isParted "await".toList (g.text ++ e.text) = true
  | binary level l g o g' r => l.Fits ∧ r.Fits ∧ o ∈ operators level ∧
      l.isClosed = true ∧ (if level = 12 then 13 else level) ≤ l.rank ∧
      (if level = 12 then 12 else level + 1) ≤ r.rank ∧
      (isName o.text = true → g.text ≠ []) ∧ isParted o.text (g'.text ++ r.text) = true
  | ternary c _ g₂ a _ _ b => c.Fits ∧ a.Fits ∧ b.Fits ∧ c.isClosed = true ∧ 1 ≤ c.rank ∧
      isParted ['?'] (g₂.text ++ a.text) = true
  | assign place _ o g' e => place.Fits ∧ e.Fits ∧ place.isPlace = true ∧
      o ∈ equals :: compounds ∧ isParted o.text (g'.text ++ e.text) = true
  | arrow parameter _ g' body => body.Fits ∧ isPlainName parameter = true ∧
      body.text.head? ≠ some '{' ∧ isParted ['=', '>'] (g'.text ++ body.text) = true

/-- The same for arguments. -/
def FitsAll : List Expr → Prop
  | [] => True
  | e :: es => e.Fits ∧ FitsAll es

end

/-! ## Trees -/

mutual

/-- The tree of an expression has its text. -/
theorem text_tree : ∀ e : Expr, e.tree.text = e.text
  | atom a => a.text_tree
  | name w => rfl
  | paren e => by simp [tree, text, Tree.text, Tree.textOf, leaf, text_tree e]
  | member e w => by simp [tree, text, Tree.text, Tree.textOf, leaf, text_tree e]
  | index e i => by simp [tree, text, Tree.text, Tree.textOf, leaf, text_tree e, text_tree i]
  | call e args => by
    simp [tree, text, Tree.text, Tree.textOf, leaf, text_tree e, textOf_treesOf args]
  | unary o g e => by
    simp [tree, text, Tree.text, Tree.textOf, operatorLeaf, g.textOf_trees, text_tree e]
  | await g e => by simp [tree, text, Tree.text, Tree.textOf, leaf, g.textOf_trees, text_tree e]
  | binary level l g o g' r => by
    simp [tree, text, Tree.text, Tree.textOf, operatorLeaf, g.textOf_trees, g'.textOf_trees,
      text_tree l, text_tree r]
  | ternary c g₁ g₂ a g₃ g₄ b => by
    simp [tree, text, Tree.text, Tree.textOf, leaf, g₁.textOf_trees, g₂.textOf_trees,
      g₃.textOf_trees, g₄.textOf_trees, text_tree c, text_tree a, text_tree b]
  | assign place g o g' e => by
    by_cases ho : o = equals <;>
      simp [tree, ho, text, Tree.text, Tree.textOf, leaf, operatorLeaf, g.textOf_trees,
        g'.textOf_trees, text_tree place, text_tree e]
  | arrow parameter g g' body => by
    simp [tree, text, Tree.text, Tree.textOf, leaf, g.textOf_trees, g'.textOf_trees,
      text_tree body]

theorem textOf_treesOf : ∀ es : List Expr, Tree.textOf (treesOf es) = textOf es
  | [] => rfl
  | e :: es => by simp [treesOf, textOf, text_tree e, textOf_moreTrees es]

theorem textOf_moreTrees : ∀ es : List Expr, Tree.textOf (moreTrees es) = moreText es
  | [] => rfl
  | e :: es => by
    simp [moreTrees, moreText, Tree.text, leaf, text_tree e, textOf_moreTrees es]

end

/-- The tree of an expression is an operand. -/
theorem operand : ∀ e : Expr, Operand e.tree
  | atom a => a.operand
  | name w => operand_token (by decide) _ _
  | assign place g o g' e => by
    by_cases ho : o = equals
    · simpa only [tree, ho, if_true] using operand_node (by decide) _ _
    · simpa only [tree, ho, if_false] using operand_node (by decide) _ _
  | unary o g e => by
    refine operand_node ?_ _ _
    split <;> decide
  | paren _ | member _ _ | index _ _ | call _ _ | await _ _ | binary _ _ _ _ _ _
  | ternary _ _ _ _ _ _ _ | arrow _ _ _ _ => operand_node (by decide) _ _

section Complete

open Reshape (holdsDefault anyHoldsDefault)

theorem anyHoldsDefault_trees (g : Gap) : anyHoldsDefault g.trees = false :=
  anyHoldsDefault_of_isTrivia g.isTrivia_of_mem_trees

mutual

/-- No default in an expression waits for a pattern. -/
theorem complete : ∀ e : Expr, holdsDefault e.tree = false
  | atom a => a.complete
  | name w => by simp [tree, holdsDefault]
  | paren e => by
    rw [tree, holdsDefault_node (by decide)]
    simp [anyHoldsDefault, leaf, holdsDefault, complete e]
  | member e w => by
    rw [tree, holdsDefault_node (by decide)]
    simp [anyHoldsDefault, leaf, holdsDefault, holdsDefault_withRole, complete e]
  | index e i => by
    rw [tree, holdsDefault_node (by decide)]
    simp [anyHoldsDefault, leaf, holdsDefault, holdsDefault_withRole, complete e, complete i]
  | call e args => by
    rw [tree, holdsDefault_node (by decide)]
    simp [anyHoldsDefault, anyHoldsDefault_append, leaf, holdsDefault, holdsDefault_withRole,
      complete e, completeAll args]
  | unary o g e => by
    have hkind : (if counters.contains o then Kind.update else .unary) ≠ .object := by
      split <;> decide
    rw [tree, holdsDefault_node hkind]
    simp [anyHoldsDefault, anyHoldsDefault_append, operatorLeaf, holdsDefault,
      holdsDefault_withRole, anyHoldsDefault_trees, complete e]
  | await g e => by
    rw [tree, holdsDefault_node (by decide)]
    simp [anyHoldsDefault, anyHoldsDefault_append, leaf, holdsDefault, anyHoldsDefault_trees,
      complete e]
  | binary level l g o g' r => by
    rw [tree, holdsDefault_node (by decide)]
    simp [anyHoldsDefault, anyHoldsDefault_append, operatorLeaf, holdsDefault,
      holdsDefault_withRole, anyHoldsDefault_trees, complete l, complete r]
  | ternary c g₁ g₂ a g₃ g₄ b => by
    rw [tree, holdsDefault_node (by decide)]
    simp [anyHoldsDefault, anyHoldsDefault_append, leaf, holdsDefault, holdsDefault_withRole,
      anyHoldsDefault_trees, complete c, complete a, complete b]
  | assign place g o g' e => by
    rw [tree]
    split
    all_goals
      rw [holdsDefault_node (by decide)]
      simp [anyHoldsDefault, anyHoldsDefault_append, leaf, operatorLeaf, holdsDefault,
        holdsDefault_withRole, anyHoldsDefault_trees, complete place, complete e]
  | arrow parameter g g' body => by
    rw [tree, holdsDefault_node (by decide)]
    simp [anyHoldsDefault, anyHoldsDefault_append, leaf, holdsDefault, holdsDefault_withRole,
      anyHoldsDefault_trees, complete body]

theorem completeAll : ∀ es : List Expr, anyHoldsDefault (treesOf es) = false
  | [] => by simp [treesOf, anyHoldsDefault]
  | e :: es => by simp [treesOf, anyHoldsDefault, complete e, completeMore es]

theorem completeMore : ∀ es : List Expr, anyHoldsDefault (moreTrees es) = false
  | [] => by simp [moreTrees, anyHoldsDefault]
  | e :: es => by
    simp [moreTrees, anyHoldsDefault, leaf, holdsDefault, complete e, completeMore es]

end

end Complete

/-! ## How expressions start -/

theorem text_ne : ∀ {e : Expr}, e.Fits → e.text ≠ []
  | atom a, _ => a.text_ne
  | name w, h => by
    obtain ⟨c, w, rfl, -⟩ := isPlainName_head h
    simp [text]
  | arrow w _ _ _, h => by
    obtain ⟨c, w, rfl, -⟩ := isPlainName_head h.2.1
    simp [text]
  | binary _ e _ _ _ _, h | assign e _ _ _ _, h | unary _ _ e, h => by simp [text, text_ne h.1]
  | paren _, _ | await _ _, _ | member _ _, _ | index _ _, _ | call _ _, _
  | ternary _ _ _ _ _ _ _, _ => by simp [text]

theorem isParted_append {w : List Char} {e : Expr} (he : e.Fits) (g : Gap) (rest : List Char) :
    isParted w (g.text ++ (e.text ++ rest)) = isParted w (g.text ++ e.text) := by
  have hne : g.text ++ e.text ≠ [] := by simp [text_ne he]
  obtain ⟨c, u, hu⟩ := List.exists_cons_of_ne_nil hne
  rw [← List.append_assoc, hu]
  rfl

theorem unaries_plain : ∀ o ∈ counters ++ unaries, o.isRegular = true ∧ isToken o.text = true ∧
    (isTight o.text = false ∨ o.isFree = true) := by
  decide

/-- No expression starts with a gap. -/
theorem solid : ∀ {e : Expr}, e.Fits → ∀ rest, Solid (e.text ++ rest)
  | atom a, _, rest => a.solid rest
  | name w, h, rest => solid_of_isName (isName_of_isPlainName h) rest
  | arrow w g g' e, h, rest => by
    rw [text, List.append_assoc]
    exact solid_of_isName (isName_of_isPlainName h.2.1) _
  | paren e, _, rest => rfl
  | unary o g e, h, rest => by
    obtain ⟨he, -, ho, hparted⟩ := h
    rw [text, List.append_assoc, List.append_assoc]
    exact solid_of_isToken (unaries_plain o ho).2.1 (by rwa [isParted_append he])
  | await g e, h, rest => by
    rw [text, List.append_assoc]
    exact solid_of_isName (by decide) _
  | member e _, h, rest | index e _, h, rest | call e _, h, rest | assign e _ _ _ _, h, rest
  | binary _ e _ _ _ _, h, rest | ternary e _ _ _ _ _ _, h, rest => by
    rw [text, List.append_assoc]
    exact solid h.1 _

theorem leads_of_opening {s : List Char} (hs : opening.ahead (Lexis.behindGap s)) : Leads s := by
  have hmark := fun {w : List Char} => opening_mark (w := w)
  have hword := fun {k : List Char} => opening_keyword (k := k)
  intro a ha
  refine opening_right.gives hs ?_
  revert a
  simp (disch := decide) [operatorAlternatives, Sight.Refuses, alts, Rules.mark, word, hmark, hword]

theorem apart_of_head {c : Char} (hc : c ∈ ['.', '[', '(']) (u : List Char) : Apart (c :: u) := by
  have hplain : endsWord c = true ∧ Lexis.isBlank c = false ∧ c ≠ '/' ∧ c ≠ '=' := by
    revert c
    decide
  refine ⟨by simpa using hplain.1, ?_⟩
  simp [Lexis.behindGap, Lexis.gapFrom, hplain.2.1, hplain.2.2.1, Text.startsWith,
    hplain.2.2.2.symm]

theorem opening_of_name {w rest : List Char} (hw : isPlainName w = true) (g : Gap)
    (hrest : ∀ c ∈ rest.head?, endsWord c = true) :
    opening.ahead (Lexis.behindGap (g.text ++ (w ++ rest))) := by
  have hname := isName_of_isPlainName hw
  rw [g.behindGap (solid_of_isName hname rest)]
  exact .inr ⟨w, rest, hw, rfl, nameLength_of_endsWord hname hrest⟩

theorem isChain_of_isLinked {e : Expr} (h : e.isLinked = true) : e.isChain = true := by
  cases e with
  | atom a => rfl
  | _ => exact h

/-- A chain starts like an operand, whatever follows it. -/
theorem leads : ∀ {e : Expr}, e.Fits → e.isChain = true → ∀ (g : Gap) (rest : List Char),
    Apart rest → Leads (g.text ++ (e.text ++ rest))
  | atom a, _, _, g, rest, hrest => a.leads g rest hrest
  | name w, h, _, g, rest, hrest => leads_of_opening (opening_of_name h g hrest.word)
  | paren e, h, _, g, rest, hrest => by
    refine leads_of_opening (.inl ⟨'(', by decide, ?_⟩)
    rw [g.behindGap (solid (e := paren e) h rest)]
    rfl
  | member e w, h, _, g, rest, hrest => by
    rw [text, List.append_assoc]
    exact leads h.1 (isChain_of_isLinked h.2.1) g _ (apart_of_head (by decide) _)
  | index e i, h, _, g, rest, hrest => by
    rw [text, List.append_assoc]
    exact leads h.1 h.2.1 g _ (apart_of_head (by decide) _)
  | call e args, h, _, g, rest, hrest => by
    rw [text, List.append_assoc]
    exact leads h.1 h.2.1 g _ (apart_of_head (by decide) _)

end Expr

end ReactWeave.Script
