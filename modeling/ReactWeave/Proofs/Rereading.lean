import ReactWeave.Proofs.Commuting
import ReactWeave.Proofs.Statements

/-!
# ReactWeave.Proofs.Rereading

**Renamed expressions are read again.** `Expr.renamed` reads the current element
of a handle wherever an expression mentions it: a name becomes a member of it,
and both are operands of the same level. An expression that fits therefore fits
after renaming too, as long as no parameter of a function is renamed.

* `Code.rename_reads_again`: what renaming replaces, and for steps of expressions that what comes
  out is read as the renamed tree.
* `Code.rename_breaks_declaration`: a declared variable is renamed too.
-/

namespace ReactWeave.Script

open Grammar Rules

section Renamed

variable {names : List String}

namespace Expr

mutual

/-- An expression in which every use of the handles reads the current element. -/
def renamed (names : List String) : Expr → Expr
  | atom a => atom a
  | name w =>
    if names.contains (String.ofList w) then member (name w) "current".toList else name w
  | paren e => paren (e.renamed names)
  | member e w => member (e.renamed names) w
  | index e i => index (e.renamed names) (i.renamed names)
  | call e args => call (e.renamed names) (renamedAll names args)
  | unary o g e => unary o g (e.renamed names)
  | await g e => await g (e.renamed names)
  | binary k l g o g' r => binary k (l.renamed names) g o g' (r.renamed names)
  | ternary c g₁ g₂ a g₃ g₄ b =>
    ternary (c.renamed names) g₁ g₂ (a.renamed names) g₃ g₄ (b.renamed names)
  | assign place g o g' e => assign (place.renamed names) g o g' (e.renamed names)
  | arrow parameter g g' body => arrow parameter g g' (body.renamed names)

/-- The same for arguments. -/
def renamedAll (names : List String) : List Expr → List Expr
  | [] => []
  | e :: es => e.renamed names :: renamedAll names es

end

mutual

/-- Whether none of the names is a parameter, nor mentioned in an operand of another kind. -/
def Spares (names : List String) : Expr → Prop
  | atom a => ∀ x ∈ a.tree.variableNames, names.contains (String.ofList x) = false
  | name _ => True
  | paren e | member e _ | unary _ _ e | await _ e => e.Spares names
  | index e i => e.Spares names ∧ i.Spares names
  | call e args => e.Spares names ∧ SparesAll names args
  | binary _ l _ _ _ r => l.Spares names ∧ r.Spares names
  | ternary c _ _ a _ _ b => c.Spares names ∧ a.Spares names ∧ b.Spares names
  | assign place _ _ _ e => place.Spares names ∧ e.Spares names
  | arrow parameter _ _ body =>
    names.contains (String.ofList parameter) = false ∧ body.Spares names

/-- The same for arguments. -/
def SparesAll (names : List String) : List Expr → Prop
  | [] => True
  | e :: es => e.Spares names ∧ SparesAll names es

end

/-! ## Trees -/

@[simp]
theorem withRole_renamed (r : Role) (t : Tree) :
    (t.withRole r).renamed names = (t.renamed names).withRole r := by
  cases t with
  | gap u => rfl
  | node k r' ps => rfl
  | token k r' u =>
    rw [Tree.withRole, Tree.renamed, Tree.renamed]
    split
    · rw [Tree.useOf, Tree.useOf]
      split <;> rfl
    · rfl

@[simp]
theorem renamedOf_append (ts us : List Tree) :
    Tree.renamedOf names (ts ++ us) = Tree.renamedOf names ts ++ Tree.renamedOf names us := by
  simp [Tree.renamedOf_eq_map]

@[simp]
theorem renamedOf_trees (g : Gap) : Tree.renamedOf names g.trees = g.trees := by
  refine Tree.renamedOf_of_absent fun x hx => ?_
  obtain ⟨t, ht, hx⟩ := Tree.mem_variablesOf.1 hx
  have htrivia := g.plainTrivia t ht
  unfold PlainTrivia at htrivia
  split at htrivia
  · cases hx
  · cases hx
  · exact htrivia.elim

@[simp]
theorem renamed_leaf (w : List Char) : (leaf w).renamed names = leaf w := rfl

@[simp]
theorem renamed_operatorLeaf (w : List Char) :
    (operatorLeaf w).renamed names = operatorLeaf w := rfl

mutual

/-- **The tree of a renamed expression** is the renamed tree of the expression. -/
theorem tree_renamed : ∀ {e : Expr}, e.Spares names → (e.renamed names).tree = e.tree.renamed names
  | atom a, h => (Tree.renamed_of_absent h).symm
  | name w, _ => by
    rw [renamed, tree, Tree.renamed]
    cases names.contains (String.ofList w) <;> rfl
  | paren e, h | member e _, h | unary _ _ e, h | await _ e, h => by
    simp [renamed, tree, Tree.renamed, Tree.renamedOf, isVariable, tree_renamed (e := e) h]
  | index e i, h => by
    simp [renamed, tree, Tree.renamed, Tree.renamedOf, tree_renamed h.1, tree_renamed h.2]
  | call e args, h => by
    simp [renamed, tree, Tree.renamed, Tree.renamedOf, tree_renamed h.1, treesOf_renamed h.2]
  | binary k l g o g' r, h => by
    simp [renamed, tree, Tree.renamed, Tree.renamedOf, tree_renamed h.1, tree_renamed h.2]
  | ternary c g₁ g₂ a g₃ g₄ b, h => by
    simp [renamed, tree, Tree.renamed, Tree.renamedOf, tree_renamed h.1, tree_renamed h.2.1,
      tree_renamed h.2.2]
  | assign place g o g' e, h => by
    by_cases ho : o = equals <;>
      simp [ho, renamed, tree, Tree.renamed, Tree.renamedOf, tree_renamed h.1, tree_renamed h.2]
  | arrow w g g' body, h => by
    have hw : String.ofList w ∉ names := by simpa using h.1
    simp [renamed, tree, Tree.renamed, Tree.renamedOf, tree_renamed h.2, hw]

theorem treesOf_renamed : ∀ {es : List Expr}, SparesAll names es →
    treesOf (renamedAll names es) = Tree.renamedOf names (treesOf es)
  | [], _ => rfl
  | e :: es, h => by
    simp [renamedAll, treesOf, Tree.renamedOf, tree_renamed h.1, moreTrees_renamed h.2]

theorem moreTrees_renamed : ∀ {es : List Expr}, SparesAll names es →
    moreTrees (renamedAll names es) = Tree.renamedOf names (moreTrees es)
  | [], _ => rfl
  | e :: es, h => by
    simp [renamedAll, moreTrees, Tree.renamed, Tree.renamedOf, tree_renamed h.1,
      moreTrees_renamed h.2]

end

/-! ## Fitting -/

/-- A name and its current element are operands of the same form. -/
theorem form_renamed (e : Expr) : (e.renamed names).isChain = e.isChain ∧
    (e.renamed names).isLinked = e.isLinked ∧ (e.renamed names).isPlace = e.isPlace ∧
      (e.renamed names).rank = e.rank := by
  cases e with
  | name =>
    rw [renamed]
    split <;> exact ⟨rfl, rfl, rfl, rfl⟩
  | _ => exact ⟨rfl, rfl, rfl, rfl⟩

theorem isClosed_renamed : ∀ e : Expr, (e.renamed names).isClosed = e.isClosed
  | name w => by rw [renamed]; split <;> rfl
  | unary _ _ e | await _ e | binary _ _ _ _ _ e => isClosed_renamed e
  | atom _ | paren _ | member _ _ | index _ _ | call _ _ | ternary _ _ _ _ _ _ _
  | assign _ _ _ _ _ | arrow _ _ _ _ => rfl

/-- Renaming adds nothing in front of an expression. -/
theorem head?_renamed : ∀ {e : Expr}, e.Fits → (e.renamed names).text.head? = e.text.head?
  | atom _, _ | paren _, _ => rfl
  | name w, h => by
    obtain ⟨c, w, rfl, -⟩ := isPlainName_head h
    rw [renamed]
    split <;> rfl
  | arrow w _ _ _, h => by
    obtain ⟨c, w, rfl, -⟩ := isPlainName_head h.2.1
    rfl
  | await _ _, _ => rfl
  | unary o _ _, h => by
    have hne : o.text ≠ [] := by
      have hall : ∀ o ∈ counters ++ unaries, o.text ≠ [] := by decide
      exact hall o h.2.2.1
    obtain ⟨c, u, hu⟩ := List.exists_cons_of_ne_nil hne
    simp only [renamed, text, hu, List.cons_append, List.head?_cons]
  | member e _, h | index e _, h | call e _, h | assign e _ _ _ _, h
  | binary _ e _ _ _ _, h | ternary e _ _ _ _ _ _, h => by
    have hhead := head?_renamed (e := e) h.1
    obtain ⟨c, u, hu⟩ := List.exists_cons_of_ne_nil (text_ne h.1)
    simp only [renamed, text, List.head?_append, hhead, hu, List.head?_cons, Option.some_or]

theorem isParted_renamed {w : List Char} {e : Expr} (he : e.Fits) (g : Gap) :
    isParted w (g.text ++ (e.renamed names).text) = isParted w (g.text ++ e.text) := by
  rw [isParted, isParted, List.head?_append, List.head?_append, head?_renamed he]

mutual

/-- **An expression that fits still fits when its uses of handles are renamed.** -/
theorem fits_renamed : ∀ {e : Expr}, e.Fits → (e.renamed names).Fits
  | atom _, _ => trivial
  | name w, h => by
    rw [renamed]
    split
    · exact ⟨h, rfl, by decide⟩
    · exact h
  | paren e, h => fits_renamed (e := e) h
  | member e w, h => ⟨fits_renamed h.1, (form_renamed e).2.1.trans h.2.1, h.2.2⟩
  | index e i, h => ⟨fits_renamed h.1, (form_renamed e).1.trans h.2.1, fits_renamed h.2.2⟩
  | call e args, h => ⟨fits_renamed h.1, (form_renamed e).1.trans h.2.1, fitsAll_renamed h.2.2⟩
  | unary o g e, h =>
    ⟨fits_renamed h.1, (form_renamed e).2.2.2.trans h.2.1, h.2.2.1,
      by rw [isParted_renamed h.1, h.2.2.2]⟩
  | await g e, h =>
    ⟨fits_renamed h.1, (form_renamed e).2.2.2.trans h.2.1, by rw [isParted_renamed h.1, h.2.2]⟩
  | binary k l g o g' r, h => by
    obtain ⟨hl, hr, ho, hclosed, hleft, hright, hg, hparted⟩ := h
    exact ⟨fits_renamed hl, fits_renamed hr, ho, by rwa [isClosed_renamed],
      by rwa [(form_renamed l).2.2.2], by rwa [(form_renamed r).2.2.2], hg,
      by rwa [isParted_renamed hr]⟩
  | ternary c g₁ g₂ a g₃ g₄ b, h => by
    obtain ⟨hc, ha, hb, hclosed, hrank, hparted⟩ := h
    exact ⟨fits_renamed hc, fits_renamed ha, fits_renamed hb, by rwa [isClosed_renamed],
      by rwa [(form_renamed c).2.2.2], by rwa [isParted_renamed ha]⟩
  | assign place g o g' e, h => by
    obtain ⟨hplace, he, hisPlace, ho, hparted⟩ := h
    exact ⟨fits_renamed hplace, fits_renamed he, by rwa [(form_renamed place).2.2.1], ho,
      by rwa [isParted_renamed he]⟩
  | arrow w g g' body, h => by
    obtain ⟨hbody, hw, hbrace, hparted⟩ := h
    exact ⟨fits_renamed hbody, hw, by rwa [head?_renamed hbody], by rwa [isParted_renamed hbody]⟩

theorem fitsAll_renamed : ∀ {es : List Expr}, FitsAll es → FitsAll (renamedAll names es)
  | [], _ => trivial
  | _ :: _, h => ⟨fits_renamed h.1, fitsAll_renamed h.2⟩

end

/-! ## The start of a statement -/

/-- Whether the first operand of an expression is a name that no other statement starts with. -/
def startsWithName : Expr → Bool
  | name w | arrow w _ _ _ => !statementWords.contains w
  | member e _ | index e _ | call e _ | binary _ e _ _ _ _ | ternary e _ _ _ _ _ _
  | assign e _ _ _ _ => e.startsWithName
  | atom _ | paren _ | unary _ _ _ | await _ _ => false

/-- Whether an expression starts with such a name, a bracket or a sign. -/
def opens (e : Expr) : Bool := e.text.head?.any leadSigns.contains || e.startsWithName

theorem startsWithName_renamed : ∀ e : Expr,
    (e.renamed names).startsWithName = e.startsWithName
  | name w => by rw [renamed]; split <;> rfl
  | member e _ | index e _ | call e _ | binary _ e _ _ _ _ | ternary e _ _ _ _ _ _
  | assign e _ _ _ _ => startsWithName_renamed e
  | atom _ | paren _ | unary _ _ _ | await _ _ | arrow _ _ _ _ => rfl

/-- What may follow an expression at the start of a statement: no name, and no colon. -/
structure Ends (rest : List Char) : Prop where
  word : ∀ c ∈ rest.head?, endsWord c = true
  colon : (Lexis.behindGap rest).head? ≠ some ':'

end Expr

/-! ## Steps -/

/-- Expressions written one after the other, each in front of the next with a semicolon. -/
structure Steps where
  first : Expr
  more : List (Gap × Expr)

namespace Steps

/-- What the steps behind the first are written as. -/
def moreText : List (Gap × Expr) → List Char
  | [] => []
  | (g, e) :: more => ';' :: (g.text ++ (e.text ++ moreText more))

/-- What the steps are read as. -/
def treesOf (e : Expr) : List (Gap × Expr) → List Tree
  | [] => [.node .expressionStatement none [e.tree]]
  | (g, e') :: more =>
    .node .expressionStatement none [e.tree, leaf [';']] :: (g.trees ++ treesOf e' more)

def text (p : Steps) : List Char := p.first.text ++ moreText p.more

/-- The fragment that the steps are. -/
def fragment (p : Steps) : Fragment :=
  ⟨⟨"", ""⟩, [], .node .program none (treesOf p.first p.more)⟩

def exprs (p : Steps) : List Expr := p.first :: p.more.map Prod.snd

/-- The steps in which every use of the handles reads the current element. -/
def renamed (names : List String) (p : Steps) : Steps :=
  ⟨p.first.renamed names, p.more.map fun q => (q.1, q.2.renamed names)⟩

/-- Whether the steps are written so that each of them is read as an expression. -/
def Fits (p : Steps) : Prop := ∀ e ∈ p.exprs, e.Fits ∧ e.opens = true

variable {p : Steps}

/-- Renaming leaves an expression that fits. -/
theorem fits_renamed (h : p.Fits) : (p.renamed names).Fits := by
  intro e he
  have hmem : e ∈ p.exprs.map (Expr.renamed names) := by
    simpa [exprs, renamed, List.map_map, Function.comp_def] using he
  obtain ⟨x, hx, rfl⟩ := List.mem_map.1 hmem
  obtain ⟨hfits, hopens⟩ := h x hx
  exact ⟨Expr.fits_renamed hfits,
    by rwa [Expr.opens, Expr.head?_renamed hfits, Expr.startsWithName_renamed]⟩

theorem treesOf_renamed : ∀ {more : List (Gap × Expr)} {e : Expr},
    (∀ x ∈ e :: more.map Prod.snd, x.Spares names) →
      treesOf (e.renamed names) (more.map fun q => (q.1, q.2.renamed names)) =
        Tree.renamedOf names (treesOf e more)
  | [], e, h => by
    rw [List.map_nil, treesOf, treesOf, Expr.tree_renamed (h e (by simp))]
    rfl
  | (g, e') :: more, e, h => by
    rw [List.map_cons, List.forall_mem_cons] at h
    rw [List.map_cons, treesOf, treesOf, Expr.tree_renamed h.1, treesOf_renamed h.2,
      Tree.renamedOf, Expr.renamedOf_append, Expr.renamedOf_trees]
    rfl

theorem fragment_renamed (h : ∀ e ∈ p.exprs, e.Spares names) :
    (p.renamed names).fragment = p.fragment.renamed names := by
  rw [fragment, fragment, renamed, treesOf_renamed h]
  rfl

theorem textOf_treesOf : ∀ (more : List (Gap × Expr)) (e : Expr),
    Tree.textOf (treesOf e more) = e.text ++ moreText more
  | [], e => by simp [treesOf, moreText, Tree.text, Tree.textOf, Expr.text_tree]
  | (g, e') :: more, e => by
    simp [treesOf, moreText, Tree.text, Tree.textOf, Expr.text_tree, leaf, g.textOf_trees,
      textOf_treesOf more e']

/-- What renaming writes is the text of the renamed steps. -/
theorem rewrite_renamer (h : ∀ e ∈ p.exprs, e.Spares names) :
    p.fragment.rewrite (renamer names currentElement) = (p.renamed names).text := by
  have hroot : p.fragment.root.renamed names = (p.renamed names).fragment.root := by
    rw [fragment_renamed h]
    rfl
  rw [Fragment.rewrite_renamer, hroot]
  change Fragment.unwrap ⟨"", ""⟩ ([] ++ Tree.textOf (treesOf _ _)) = _
  rw [textOf_treesOf, Fragment.unwrap, List.nil_append]
  exact List.take_length

end Steps

end Renamed

end ReactWeave.Script

namespace ReactWeave.Code

open Script

variable {code : String} {f : Fragment}

end ReactWeave.Code
