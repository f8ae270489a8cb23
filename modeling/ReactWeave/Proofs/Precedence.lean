import ReactWeave.Proofs.Spelling

/-!
# ReactWeave.Proofs.Precedence

**What is written is read back.** The reader takes an expression level by level;
here it is shown that it finds the expressions of `ReactWeave.Proofs.Spelling`
again, with the trees they have.

An operand can go on for as long as members and calls follow, and a level for as
long as its operators do. So what is proved of them (`Chained`, `Goes`) is about
the text that follows: the expression is read, and then what it goes on with.

* `Expr.readBack`: an expression is read at every level up to its own, in front of
  every text that does not go on with it.
* `Expr.enclosed`: between blanks and a closing bracket it is read as a whole.
-/

namespace ReactWeave.Script

open Grammar Rules

variable {w : List Char} {e r : Expr} {c : Char} {o : Mark} {g₁ g₂ : Gap} {k : Nat}

namespace Expr

/-! ## Operands -/

section Operands

variable {s rest rest' : List Char} {us : List Tree} {t : Tree}

theorem gives_chain_of_keywords (g : Gap) (hs : ∀ m ∈ ["new", "import"], ∀ k,
      Answers (.token k (Lexis.keyword m.toList)) s none)
    (ht : t.isTrivia = false)
    (h : Answers (.rule .primary) s (some (g.trees ++ [t], rest)))
    (hnext : Answers (.extend [t] true (ways 15)) rest (some (us, rest'))) :
    Answers (.rule .chain) s (some (g.trees ++ us, rest')) := by
  have hnew := hs "new" (by decide) .symbol
  have himport := hs "import" (by decide)
  have hcreation : Answers (.rule .creation) s none :=
    .rule (.node_none _ hnew.seq_none)
  refine .rule (g.grow ht ?_ hnext)
  exact .alt_second (hnew.seq_none.node_none _) (.alt_second hcreation
    (.alt_second ((himport _).seq_none.node_none _) (.alt_second (himport _).seq_none h)))

theorem gives_chain (g : Gap) (hs : opening.ahead (Lexis.behindGap s)) (ht : t.isTrivia = false)
    (h : Answers (.rule .primary) s (some (g.trees ++ [t], rest)))
    (hnext : Answers (.extend [t] true (ways 15)) rest (some (us, rest'))) :
    Answers (.rule .chain) s (some (g.trees ++ us, rest')) := by
  refine gives_chain_of_keywords g (fun m hm k => opening_right.gives hs (opening_keyword ?_)) ht h
    hnext
  revert m
  decide

/-- An expression as an operand, and what follows it. -/
def Chained (e : Expr) : Prop :=
  ∀ (g : Gap) (rest : List Char) (us rest'), Apart rest →
    (e.isLinked = false → rest.head? ≠ some '.') →
      Answers (.extend [e.tree] true (ways 15)) rest (some (us, rest')) →
        Answers (.rule .chain) (g.text ++ (e.text ++ rest))
          (some (g.trees ++ us, rest'))

/-- A name goes on as an operand does. -/
theorem chained_name (hw : isPlainName w = true) : Chained (name w) := by
  intro g rest us rest' hrest _ hnext
  have hname := isName_of_isPlainName hw
  have hsolid := solid_of_isName hname rest
  have hahead := opening_of_name hw g hrest.word
  have htests : Lexis.isLabel w = true ∧ Lexis.isIdentifier w = true := by
    simp only [isPlainName, Bool.and_eq_true] at hw
    have hlabel := hw.1.2
    simp only [Lexis.isLabel, Bool.and_eq_true] at hlabel ⊢
    exact ⟨hlabel, hlabel.1⟩
  have htoken {test : List Char → Bool} (ht : test w = true) :
      Answers (.token .identifier (Lexis.name test)) (g.text ++ (w ++ rest))
        (some (g.trees ++ [.token .identifier none w], rest)) :=
    g.gives_token .identifier hsolid (name_of_endsWord hname hrest.word ht)
  -- The name could be the parameter of a function, but no arrow follows.
  have hfunction := (g.field (r := .parameter) rfl (htoken htests.1)).seq_second
    (hrest.gives_arrow.seq_none (b := .rule .arrowBody))
  refine gives_chain g hahead (t := .token .identifier none w) rfl ?_ hnext
  refine gives_primary rfl hahead (gives_alts 13 rfl ?_ (htoken htests.2))
  have hstart : StartsWithName (Lexis.behindGap (g.text ++ (w ++ rest))) := by
    rw [g.behindGap hsolid]
    exact ⟨w, rest, hw, rfl, nameLength_of_endsWord hname hrest.word⟩
  have hword {k : List Char} (hk : isPlainName k = false) : named.Missing (Lexis.keyword k) :=
    fun u hu => StartsWithName.keyword hu hk
  have hno {a : G} (h : named.Refuses Lexis.lexicon a) :
      Answers a (g.text ++ (w ++ rest)) none :=
    named_right.gives hstart h
  rw [List.take_succ_cons, List.forall_mem_cons]
  refine ⟨hfunction.node_none _, fun a ha => hno ?_⟩
  revert a
  simp (disch := decide) [Sight.Refuses, valueWord, hword, named_number]
  decide

theorem asPart_tree (e : Expr) (r : Role) :
    Reshape.asPart r [e.tree] = some [e.tree.withRole r] := by
  simp [Reshape.asPart, e.operand.part]

/-- A name behind a dot is a property, keywords included. -/
theorem gives_property (hw : isName w = true) (hrest : ∀ c ∈ rest.head?, endsWord c = true) :
    Answers property (w ++ rest)
      (some ([.token .propertyIdentifier (some .property) w], rest)) := by
  have hprivate : Answers Rules.privateName (w ++ rest) none := by
    obtain ⟨c, w, rfl, hc⟩ := isName_head hw
    have hhash : c ≠ '#' := by
      rintro rfl
      exact absurd hc (by decide)
    refine (starting_right c).gives ?_ ((starting_within c).privateName (by simp [hhash.symm]))
    change (Lexis.behindGap (c :: (w ++ rest))).head? = some c
    rw [behindGap_of_isNameStart hc]
    rfl
  have hname : Answers memberName (w ++ rest)
      (some ([.token .propertyIdentifier none w], rest)) :=
    Gap.empty.gives_token .propertyIdentifier (solid_of_isName hw rest)
      (name_of_endsWord hw hrest rfl)
  exact Gap.empty.field (t := .token .propertyIdentifier none w) rfl (hprivate.alt_second hname)

theorem chained_member (he : Chained e) (hlinked : e.isLinked = true) (hw : isName w = true) :
    Chained (member e w) := by
  intro g rest us rest' hrest _ hnext
  have hdot : Answers (Rules.mark ".") ('.' :: (w ++ rest))
      (some ([leaf ['.']], w ++ rest)) :=
    Gap.empty.gives_mark "." rfl
  rw [text, List.append_assoc]
  refine he g _ us rest' (apart_of_head (by decide) _) (by simp [hlinked]) ?_
  exact gives_goOn 0 rfl (by simp) (asPart_tree e .object)
    (hdot.seq (gives_property hw hrest.word)) hnext

/-! ## Lists -/

/-- What has to follow an expression so that it is read at level `k` and no more: if it is open,
nothing may go on at all. -/
def edge (e : Expr) (k : Nat) : Nat := if e.isClosed then k else 0

/-- An expression is read at a level. -/
def ReadsAt (k : Nat) (e : Expr) : Prop :=
  ∀ (g : Gap) (rest : List Char), Halts (e.edge k) rest →
    Answers (.rule (level k)) (g.text ++ (e.text ++ rest))
      (some (g.trees ++ [e.tree], rest))

theorem ReadsAt.element (h : ReadsAt 0 e) (g : Gap) (hrest : Halts 0 rest) :
    Answers (.rule .element) (g.text ++ (e.text ++ rest))
      (some (g.trees ++ [e.tree], rest)) :=
  .rule (h g rest (hrest.mono (Nat.zero_le _)))

theorem ReadsAt.item (h : ReadsAt 0 e) (g : Gap) (hrest : Halts 0 rest) :
    Answers (.alt (.rule .spread) (.rule .element)) (g.text ++ (e.text ++ rest))
      (some (g.trees ++ [e.tree], rest)) :=
  have helement := h.element g hrest
  .alt_second (.rule (.node_none _ (gives_dots_none helement).seq_none)) helement

theorem halts_of_closer (hc : c ∈ closers) (u : List Char) : Halts 0 (c :: u) :=
  halts_of_closing Gap.empty (by simpa [closing] using hc)

theorem behindGap_of_closer (hc : c ∈ closers) (u : List Char) :
    Lexis.behindGap (c :: u) = c :: u := by
  have hplain : Lexis.isBlank c = false ∧ c ≠ '/' := by
    revert c
    decide
  simp [Lexis.behindGap, Lexis.gapFrom, hplain.1, hplain.2]

theorem gives_listEnd (hc : c ∈ closers) (hcomma : c ≠ ',') (u : List Char) (item : G) :
    Answers (.many (.seq (Rules.mark ",") item)) (c :: u) (some ([], c :: u)) :=
  Gives.many_nil (gives_comma_none (by simpa [behindGap_of_closer hc] using hcomma) item)

/-- An element alone is an expression list. -/
theorem ReadsAt.expressions (h : ReadsAt 0 e) (g : Gap) (hrest : Halts 0 rest)
    (hend : Answers (.many (.seq (Rules.mark ",") (.rule .element))) rest (some ([], rest))) :
    Answers (.rule .expressions) (g.text ++ (e.text ++ rest))
      (some (g.trees ++ [e.tree], rest)) := by
  have hsplit := splitTrivia_part g.isTrivia_of_mem_trees e.operand.part []
  have hlist := (h.element g hrest).seq hend
  rw [List.append_nil] at hlist
  have hone : (fun ts => some (Reshape.asSequence ts)) (splitTrivia (g.trees ++ [e.tree])).2 =
      some [e.tree] := by
    simp [hsplit, Reshape.asSequence, Reshape.significant, e.operand.part]
  have hsequence : Answers (Rules.sequence (.rule .element))
      (g.text ++ (e.text ++ rest)) _ :=
    hlist.reshape hone
  rw [hsplit] at hsequence
  have hcomplete : Reshape.complete (splitTrivia (g.trees ++ [e.tree])).2 = some [e.tree] := by
    simp [hsplit, Reshape.complete, Reshape.anyHoldsDefault, e.complete]
  have hall := hsequence.reshape hcomplete
  rw [hsplit] at hall
  exact .rule hall

/-- Parentheses go on as an operand does. -/
theorem chained_paren (he : ReadsAt 0 e) : Chained (paren e) := by
  intro g rest us rest' hrest _ hnext
  have hopen : Answers (Rules.mark "(") (g.text ++ ('(' :: (e.text ++ ')' :: rest)))
      (some (g.trees ++ [leaf ['(']], e.text ++ ')' :: rest)) :=
    g.gives_mark "(" rfl
  have hclose : Answers (Rules.mark ")") (')' :: rest)
      (some ([leaf [')']], rest)) :=
    Gap.empty.gives_mark ")" rfl
  have hitem : Answers (.alt (.rule .spread) (.rule .element))
      (e.text ++ ')' :: rest) (some ([e.tree], ')' :: rest)) :=
    he.item Gap.empty (halts_of_closer (by decide) rest)
  have hlist : Answers (commaList (.alt (.rule .spread) (.rule .element)))
      (e.text ++ ')' :: rest) (some ([e.tree] ++ [], ')' :: rest)) :=
    .seq hitem.alt (gives_listEnd (by decide) (by decide) rest _)
  have hparens := hopen.seq (hlist.seq hclose)
  simp only [List.append_assoc, List.cons_append, List.nil_append] at hparens
  have hnode : Answers (.rule .parens) (g.text ++ ('(' :: (e.text ++ ')' :: rest)))
      (some (g.trees ++ [.node .parens none [leaf ['('], e.tree, leaf [')']]], rest)) :=
    .rule (g.node .parens (t := leaf ['(']) rfl hparens)
  have hsolid : Solid ('(' :: (e.text ++ ')' :: rest)) := rfl
  have hhead : (Lexis.behindGap (g.text ++ ('(' :: (e.text ++ ')' :: rest)))).head? = some '(' := by
    rw [g.behindGap hsolid]
    rfl
  have hsplit := splitTrivia_part g.isTrivia_of_mem_trees
    (t := .node .parens none [leaf ['('], e.tree, leaf [')']]) rfl []
  have hform : Reshape.asParenthesized (splitTrivia (g.trees ++
      [.node .parens none [leaf ['('], e.tree, leaf [')']]])).2 = some [(paren e).tree] := by
    rw [hsplit]
    exact @parenthesize_one (leaf ['(']) e.tree [] [] (by simp) (by simp) e.operand
  have hprimary := gives_primary_parens hhead hrest.gives_arrow hnode hform
  rw [hsplit] at hprimary
  have hread := gives_chain g (.inl ⟨'(', by decide, hhead⟩) (t := (paren e).tree) rfl hprimary hnext
  simpa [text] using hread

theorem gives_optionalDot_none (hc : c ∈ ['[', '(']) (u : List Char) :
    Answers optionalDot (c :: u) none := by
  have hplain : Lexis.isBlank c = false ∧ c ≠ '/' ∧ c ≠ '?' := by
    revert c
    decide
  have hhead : (Lexis.behindGap (c :: u)).head? = some c := by
    simp [Lexis.behindGap, Lexis.gapFrom, hplain.1, hplain.2.1]
  have hmark : (starting c).Missing (Lexis.mark "?.".toList []) :=
    (starting_within c).mark (by simp [startsOutside, hplain.2.2.symm]) []
  exact (starting_right c).gives hhead (.inr ⟨trivial, hmark⟩)

/-- An index goes on as what it is an index of. -/
theorem chained_index {i : Expr} (he : Chained e) (hi : ReadsAt 0 i) : Chained (index e i) := by
  intro g rest us rest' hrest _ hnext
  have hopen : Answers (Rules.mark "[") ('[' :: (i.text ++ ']' :: rest))
      (some ([leaf ['[']], i.text ++ ']' :: rest)) :=
    Gap.empty.gives_mark "[" rfl
  have hclose : Answers (Rules.mark "]") (']' :: rest)
      (some ([leaf [']']], rest)) :=
    Gap.empty.gives_mark "]" rfl
  have hinner : Answers (.field .index (.rule .expressions))
      (i.text ++ ']' :: rest) (some ([i.tree.withRole .index], ']' :: rest)) :=
    Gap.empty.field i.operand.part (hi.expressions Gap.empty (halts_of_closer (by decide) rest)
      (gives_listEnd (by decide) (by decide) rest _))
  have hnone := gives_optionalDot_none (c := '[') (by decide) (i.text ++ ']' :: rest)
  have hindex := (hnone.alt_second gives_empty).seq (hopen.seq (hinner.seq hclose))
  have hdot : Answers (Rules.mark ".") ('[' :: (i.text ++ ']' :: rest)) none :=
    gives_token _ _ _
  simp only [text, List.append_assoc, List.cons_append, List.nil_append]
  refine he g _ us rest' (apart_of_head (by decide) _) (by simp) (gives_goOn 2 rfl ?_
    (asPart_tree e .object) hindex hnext)
  simp only [ways, accessWays, callWays, goesOn, List.cons_append, List.take_succ_cons,
    List.take_zero, List.forall_mem_cons, List.not_mem_nil, false_imp_iff, implies_true, and_true]
  exact ⟨hdot.seq_none, hnone.seq_none⟩

theorem halts_moreText : ∀ (es : List Expr) (rest : List Char), Halts 0 (moreText es ++ ')' :: rest)
  | [], rest => halts_of_closer (by decide) rest
  | _ :: _, _ => halts_of_closer (by decide) _

/-- Further arguments are read up to the closing parenthesis. -/
theorem gives_moreArguments : ∀ {es : List Expr}, (∀ e ∈ es, ReadsAt 0 e) → ∀ rest,
    Answers (.many (.seq (Rules.mark ",") (opt (.alt (.rule .spread)
      (.rule .element))))) (moreText es ++ ')' :: rest) (some (moreTrees es, ')' :: rest))
  | [], _, rest => gives_listEnd (by decide) (by decide) rest _
  | e :: es, h, rest => by
    rw [List.forall_mem_cons] at h
    have hcomma : Answers (Rules.mark ",")
        (',' :: ' ' :: (e.text ++ (moreText es ++ ')' :: rest)))
        (some ([leaf [',']], ' ' :: (e.text ++ (moreText es ++ ')' :: rest)))) :=
      Gap.empty.gives_mark "," rfl
    have hitem : Answers (.alt (.rule .spread) (.rule .element))
        (' ' :: (e.text ++ (moreText es ++ ')' :: rest)))
        (some ([.gap [' '], e.tree], moreText es ++ ')' :: rest)) :=
      h.1.item Gap.space (halts_moreText es rest)
    have hfirst : Answers (.seq (Rules.mark ",") (opt (.alt (.rule .spread)
        (.rule .element)))) _ _ :=
      hcomma.seq hitem.alt
    simpa [moreText, moreTrees] using hfirst.many_cons (gives_moreArguments h.2 rest)

/-- Arguments are read one by one. -/
theorem gives_arguments {es : List Expr} (h : ∀ e ∈ es, ReadsAt 0 e) (rest : List Char) :
    Answers (.rule .arguments) ('(' :: (textOf es ++ ')' :: rest))
      (some ([.node .arguments none (leaf ['('] :: (treesOf es ++ [leaf [')']]))], rest)) := by
  have hopen : Answers (Rules.mark "(") ('(' :: (textOf es ++ ')' :: rest))
      (some ([leaf ['(']], textOf es ++ ')' :: rest)) :=
    Gap.empty.gives_mark "(" rfl
  have hclose : Answers (Rules.mark ")") (')' :: rest)
      (some ([leaf [')']], rest)) :=
    Gap.empty.gives_mark ")" rfl
  have hlist : Answers (commaList (.alt (.rule .spread) (.rule .element)))
      (textOf es ++ ')' :: rest) (some (treesOf es, ')' :: rest)) := by
    cases es with
    | nil =>
      have hahead : closing.ahead (Lexis.behindGap (')' :: rest)) := by
        rw [behindGap_of_closer (by decide)]
        simp [closing, closers]
      have hitem : Answers (.alt (.rule .spread) (.rule .element))
          (')' :: rest) none :=
        closing_right.gives hahead ⟨rfl, rfl⟩
      exact (hitem.alt_second gives_empty).seq (gives_listEnd (by decide) (by decide) rest _)
    | cons e es =>
      rw [List.forall_mem_cons] at h
      have hitem : Answers (.alt (.rule .spread) (.rule .element))
          (e.text ++ (moreText es ++ ')' :: rest)) (some ([e.tree], moreText es ++ ')' :: rest)) :=
        h.1.item Gap.empty (halts_moreText es rest)
      have hfirst : Answers (opt (.alt (.rule .spread) (.rule .element))) _ _ :=
        hitem.alt
      have hall : Answers (commaList (.alt (.rule .spread) (.rule .element))) _ _ :=
        hfirst.seq (gives_moreArguments h.2 rest)
      simpa [textOf, treesOf] using hall
  have hcomplete :
      Reshape.complete (splitTrivia (treesOf es)).2 = some (splitTrivia (treesOf es)).2 := by
    have hall := completeAll es
    rw [← splitTrivia_append (treesOf es), anyHoldsDefault_append, Bool.or_eq_false_iff] at hall
    simp [Reshape.complete, hall.2]
  have hform := hlist.reshape hcomplete
  rw [splitTrivia_append] at hform
  exact .rule (Gap.empty.node .arguments (t := leaf ['(']) rfl (hopen.seq (hform.seq hclose)))

/-- A call goes on as its function does. -/
theorem chained_call {args : List Expr} (he : Chained e) (hargs : ∀ a ∈ args, ReadsAt 0 a) :
    Chained (call e args) := by
  intro g rest us rest' hrest _ hnext
  let inner := textOf args ++ ')' :: rest
  have hnone := gives_optionalDot_none (c := '(') (by decide) inner
  have hhead : (Lexis.behindGap ('(' :: inner)).head? = some '(' := rfl
  have hdot : Answers (Rules.mark ".") ('(' :: inner) none := gives_token _ _ _
  have hindex : Answers Rules.index ('(' :: inner) none :=
    .seq_none (gives_token _ _ _)
  have htemplate : Answers (.rule .template) ('(' :: inner) none :=
    (starting_right '(').gives hhead rfl
  have hcall := (hnone.alt_second gives_empty).seq (Gap.empty.field (r := .arguments)
    (t := .node .arguments none (leaf ['('] :: (treesOf args ++ [leaf [')']]))) rfl
      (gives_arguments hargs rest))
  simp only [text, List.append_assoc, List.cons_append, List.nil_append]
  refine he g _ us rest' (apart_of_head (by decide) _) (by simp) (gives_goOn 4 rfl ?_
    (asPart_tree e .function) hcall hnext)
  simp only [ways, accessWays, callWays, goesOn, List.cons_append, List.nil_append,
    List.take_succ_cons, List.take_zero, List.forall_mem_cons, List.not_mem_nil, false_imp_iff,
    implies_true, and_true]
  exact ⟨hdot.seq_none, hnone.seq_none, (hnone.alt_second gives_empty).seq_second hindex,
    htemplate.field_none⟩

end Operands

/-! ## Unary expressions -/

section Unary

variable {s rest : List Char} {t : Tree}

theorem gives_unary (g : Gap) (hs : Leads s) (ht : t.isTrivia = false) (hrest : Halts 13 rest)
    (h : Answers (.rule .operand) s (some (g.trees ++ [t], rest))) :
    Answers (.rule (level 13)) s (some (g.trees ++ [t], rest)) := by
  refine .rule ?_
  exact gives_alts 4 rfl hs (g.grow ht h (hrest.extend (Nat.le_refl _) false [t]))

theorem isClosed_of_isChain (h : e.isChain = true) : e.isClosed = true := by
  cases e <;> first | rfl | cases h

theorem reads_of_chained (he : e.Fits) (hchain : e.isChain = true) (h : Chained e) :
    ReadsAt 13 e := by
  intro g rest hrest
  rw [edge, if_pos (isClosed_of_isChain hchain)] at hrest
  have hstay := hrest.extend (j := 15) (by decide) true [e.tree]
  have hread := h g rest _ _ hrest.toApart (fun _ => hrest.dot) hstay
  refine gives_unary g (leads he hchain g rest hrest.toApart) e.operand.part hrest (.rule ?_)
  exact g.grow e.operand.part hread (hrest.extend (j := 14) (by decide) false [e.tree])

theorem counters_find : ∀ o ∈ counters, counters.find? (·.standsAt o.text) = some o := by
  decide

theorem unaries_find : ∀ o ∈ unaries, unaries.find? (·.standsAt o.text) = some o ∧
    counters.contains o = false ∧
      ∀ a ∈ counters, a.isRegular = true ∧ a.standsAt o.text = false := by
  decide

/-- A unary operator takes the operand behind it. -/
theorem reads_unary {g' : Gap} (he : ReadsAt 13 e) (hfits : (unary o g' e).Fits) :
    ReadsAt 13 (unary o g' e) := by
  obtain ⟨hfit, -, ho, hparted⟩ := hfits
  intro g rest hrest
  obtain ⟨-, htoken, htight⟩ := unaries_plain o ho
  have hrest' : isParted o.text (g'.text ++ (e.text ++ rest)) = true := by
    rwa [isParted_append hfit]
  have hargument : Answers (.field .argument (.rule .unary))
      (g'.text ++ (e.text ++ rest)) (some (g'.trees ++ [e.tree.withRole .argument], rest)) :=
    g'.field e.operand.part (he g' rest hrest)
  -- Both alternatives read one of their operators, and then the operand.
  have hnode {ms : List Mark} (k : Kind) (hfind : ms.find? (·.standsAt o.text) = some o)
      (hplain : ∀ a ∈ ms, a.isRegular = true) : Answers
        (.node k (.seq (.field .operator (alts (ms.map Mark.grammar)))
          (.field .argument (.rule .unary)))) (g.text ++ (o.text ++ (g'.text ++ (e.text ++ rest))))
        (some (g.trees ++ [.node k none (operatorLeaf o.text ::
          (g'.trees ++ [e.tree.withRole .argument]))], rest)) := by
    have hmark := g.field (r := .operator) (t := .token .symbol none o.text) rfl
      (gives_marks hfind hplain htoken htight g hrest')
    have hseq := hmark.seq hargument
    rw [List.append_assoc] at hseq
    exact g.node k rfl hseq
  have htext : g.text ++ ((unary o g' e).text ++ rest) =
      g.text ++ (o.text ++ (g'.text ++ (e.text ++ rest))) := by
    simp [text]
  rw [htext]
  refine .rule ?_
  rcases List.mem_append.1 ho with hmem | hmem
  · have hcounter := hnode .update (counters_find o hmem) (by decide)
    have hkind : counters.contains o = true := by simpa using hmem
    rw [tree, if_pos hkind]
    exact gives_alts 0 rfl (by simp) hcounter
  · obtain ⟨hfind, hkind, hother⟩ := unaries_find o hmem
    have hunary := hnode .unary hfind (by decide)
    rw [tree, hkind, if_neg (by decide)]
    refine gives_alts 1 rfl ?_ hunary
    have hahead : (facing o.text).ahead
        (Lexis.behindGap (g.text ++ (o.text ++ (g'.text ++ (e.text ++ rest))))) :=
      ⟨_, g.behindGap (solid_of_isToken htoken hrest'), hrest'⟩
    have hrefuses := refuses_marks fun a ha => facing_missing htoken (hother a ha).1 (hother a ha).2
    simp only [List.take_succ_cons, List.take_zero, List.forall_mem_singleton]
    exact (facing_right o.text).gives hahead (.inl hrefuses)

theorem reads_await {g' : Gap} (he : ReadsAt 13 e) (hfits : (await g' e).Fits) :
    ReadsAt 13 (await g' e) := by
  obtain ⟨hfit, -, hparted⟩ := hfits
  intro g rest hrest
  have hrest' : isParted (Mark.word "await").text (g'.text ++ (e.text ++ rest)) = true := by
    rwa [isParted_append hfit]
  have hword := Mark.gives (m := .word "await") (by decide) (by decide) (.inl (by decide)) g hrest'
  have hseq := hword.seq (he g' rest hrest)
  rw [List.append_assoc] at hseq
  have hnode := g.node .await (t := leaf "await".toList) rfl hseq
  have htext : g.text ++ ((await g' e).text ++ rest) =
      g.text ++ ("await".toList ++ (g'.text ++ (e.text ++ rest))) := by
    simp [text]
  rw [htext]
  refine .rule ?_
  refine gives_alts 2 rfl ?_ hnode
  have hahead : (facing "await".toList).ahead
      (Lexis.behindGap (g.text ++ ("await".toList ++ (g'.text ++ (e.text ++ rest))))) :=
    ⟨_, g.behindGap (solid_of_isName (by decide) _), hrest'⟩
  have hother : ∀ a ∈ counters ++ unaries, a.isRegular = true ∧
      a.standsAt "await".toList = false := by
    decide
  have hrefuses {ms : List Mark} (hms : ms ⊆ counters ++ unaries) :
      (facing "await".toList).Refuses Lexis.lexicon (alts (ms.map Mark.grammar)) :=
    refuses_marks fun a ha =>
      facing_missing (by decide) (hother a (hms ha)).1 (hother a (hms ha)).2
  simp only [List.take_succ_cons, List.take_zero, List.forall_mem_cons, List.not_mem_nil,
    false_imp_iff, implies_true, and_true]
  exact ⟨(facing_right _).gives hahead (.inl (hrefuses (List.subset_append_left counters unaries))),
    (facing_right _).gives hahead (.inl (hrefuses (List.subset_append_right counters unaries)))⟩

theorem isChain_of_isPlace (h : e.isPlace = true) : e.isChain = true := by
  cases e <;> first | rfl | cases h

theorem asTarget_tree (h : e.isPlace = true) :
    Reshape.asTarget [e.tree] = some [e.tree.withRole .left] ∧
      Reshape.asPlace [e.tree] = some [e.tree.withRole .left] := by
  cases e <;> first | exact ⟨rfl, rfl⟩ | cases h

theorem assignments_apart : ∀ o ∈ equals :: compounds, isName o.text = false ∧
    isToken o.text = true ∧ isTight o.text = false ∧ o.isRegular = true ∧
      outranks 15 o.text = true := by
  decide

theorem compounds_find : ∀ o ∈ compounds, compounds.find? (·.standsAt o.text) = some o ∧
    equals.standsAt o.text = false ∧ o ≠ equals := by
  decide

/-- An assignment takes a place and all of the element behind the mark. -/
theorem reads_assign {place : Expr} (hplace : Chained place) (he : ReadsAt 0 e)
    (hfits : (assign place g₁ o g₂ e).Fits) : ReadsAt 13 (assign place g₁ o g₂ e) := by
  obtain ⟨hfit, hfit', hisPlace, ho, hparted⟩ := hfits
  obtain ⟨hname, htoken, htight, hplain, houtranks⟩ := assignments_apart o ho
  intro g rest hrest
  have hrest' : isParted o.text (g₂.text ++ (e.text ++ rest)) = true := by
    rwa [isParted_append hfit']
  have hhalts := halts_of_outranks houtranks g₁ (by simp [hname]) hrest'
  have hchain := isChain_of_isPlace hisPlace
  have hread := hplace g _ _ _ hhalts.toApart (fun _ => hhalts.dot)
    (hhalts.extend (Nat.le_refl _) true [place.tree])
  have hright : Answers (.field .right (.rule .element))
      (g₂.text ++ (e.text ++ rest)) (some (g₂.trees ++ [e.tree.withRole .right], rest)) :=
    g₂.field e.operand.part (he.element g₂ hrest)
  have hstep : Answers (.extend [place.tree] false (ways 14))
      (g₁.text ++ (o.text ++ (g₂.text ++ (e.text ++ rest))))
      (some ([(assign place g₁ o g₂ e).tree], rest)) := by
    rcases List.mem_cons.1 ho with rfl | hmem
    · have hsign : Answers equals.grammar _ _ :=
        Mark.gives hplain htoken (.inl htight) g₁ hrest'
      have hseq := hsign.seq hright
      rw [List.append_assoc] at hseq
      have htarget : assignWay.1.fit [place.tree] = some [place.tree.withRole .left] :=
        (asTarget_tree hisPlace).1
      exact gives_goOnOnce 0 rfl (by simp) htarget hseq
    · obtain ⟨hfind, hequals, hne⟩ := compounds_find o hmem
      have hsign := g₁.field (r := .operator) (t := .token .symbol none o.text) rfl
        (gives_marks hfind (by decide) htoken (.inl htight) g₁ hrest')
      have hahead : (facing o.text).ahead
          (Lexis.behindGap (g₁.text ++ (o.text ++ (g₂.text ++ (e.text ++ rest))))) :=
        ⟨_, g₁.behindGap (solid_of_isToken htoken hrest'), hrest'⟩
      have hnot : Answers equals.grammar
          (g₁.text ++ (o.text ++ (g₂.text ++ (e.text ++ rest)))) none :=
        (facing_right o.text).gives hahead (facing_missing htoken (by decide) hequals)
      have hseq := hsign.seq hright
      rw [List.append_assoc] at hseq
      rw [tree, if_neg hne]
      have htarget : compoundWay.1.fit [place.tree] = some [place.tree.withRole .left] :=
        (asTarget_tree hisPlace).2
      refine gives_goOnOnce 1 rfl ?_ htarget hseq
      simpa [ways, assignWay] using hnot.seq_none
  have htext : g.text ++ ((assign place g₁ o g₂ e).text ++ rest) =
      g.text ++ (place.text ++ (g₁.text ++ (o.text ++ (g₂.text ++ (e.text ++ rest))))) := by
    simp [text]
  rw [htext]
  exact gives_unary g (leads hfit hchain g _ hhalts.toApart) (operand _).part
    (hrest.mono (Nat.zero_le _)) (.rule (g.grow place.operand.part hread hstep))

theorem gives_arrowBody (g : Gap) (hs : (Lexis.behindGap s).head? = some c) (hc : c ≠ '{')
    (ht : t.isTrivia = false) (h : Answers (.rule .element) s (some (g.trees ++ [t], rest))) :
    Answers (.rule .arrowBody) s (some (g.trees ++ [t.withRole .body], rest)) := by
  have hno {a : G} (ha : (starting c).Refuses Lexis.lexicon a) :
      Answers a s none :=
    (starting_right c).gives hs ha
  have hbrace : Answers (Rules.mark "\x7b") s none :=
    hno ((starting_within c).mark (by simp [startsOutside, hc.symm]) [])
  have hobject : Answers (fromObject (.rule .expression)) s none :=
    hno (.inl (starting_mayOpenObject hc))
  have hblock : Answers (.rule .block) s none :=
    hno (by simp [Sight.Refuses, starting, hc])
  exact .rule (g.field ht (.alt_second hobject (.alt_second hblock (hbrace.absent.seq h))))

/-- An arrow function takes all of its body. -/
theorem reads_arrow (he : ReadsAt 0 e) (hfits : (arrow w g₁ g₂ e).Fits) :
    ReadsAt 13 (arrow w g₁ g₂ e) := by
  obtain ⟨hfit, hw, hbrace, hparted⟩ := hfits
  intro g rest hrest
  change Halts 0 rest at hrest
  let arrow := "=>".toList
  have hrest' : isParted arrow (g₂.text ++ (e.text ++ rest)) = true := by
    rwa [isParted_append hfit]
  have hname := isName_of_isPlainName hw
  have hends :
      ∀ c ∈ (g₁.text ++ (arrow ++ (g₂.text ++ (e.text ++ rest)))).head?, endsWord c = true := by
    refine endsWord_gap g₁ fun _ c hc => ?_
    obtain rfl : '=' = c := by simpa [arrow] using hc
    decide
  have hahead := opening_of_name hw g hends
  have hlabel : Lexis.isLabel w = true := by
    simp only [isPlainName, Bool.and_eq_true] at hw
    exact hw.1.2
  have hparameter : Answers
      (.field .parameter (.token .identifier (Lexis.name Lexis.isLabel))) _ _ :=
    g.field (t := .token .identifier none w) rfl (g.gives_token .identifier
      (solid_of_isName hname _) (name_of_endsWord hname hends hlabel))
  have hsign : Answers (Rules.mark "=>") _ _ :=
    g₁.gives_mark "=>" (solid_of_isToken (w := arrow) (by decide) hrest')
  obtain ⟨c, u, hu⟩ := List.exists_cons_of_ne_nil (text_ne hfit)
  have hbody := gives_arrowBody g₂ (c := c) (by rw [g₂.behindGap (solid hfit rest), hu]; rfl)
      (fun hc => hbrace (by rw [hu, hc]; rfl)) e.operand.part (he.element g₂ hrest)
  have hseq := hparameter.seq (hsign.seq hbody)
  simp only [List.append_assoc] at hseq
  have hnode := g.node .arrowFunction (t := .token .identifier (some .parameter) w) rfl hseq
  have hprimary := gives_primary rfl hahead (gives_alts 0 rfl (by simp) hnode)
  have hchain := gives_chain g hahead rfl hprimary (hrest.extend (j := 15) (by decide) true _)
  have htext : g.text ++ ((Expr.arrow w g₁ g₂ e).text ++ rest) =
      g.text ++ (w ++ (g₁.text ++ (arrow ++ (g₂.text ++ (e.text ++ rest))))) := by
    simp [text, arrow]
  rw [htext]
  exact gives_unary g (leads_of_opening hahead) (operand _).part (hrest.mono (Nat.zero_le _))
    (.rule (g.grow rfl hchain (hrest.extend (j := 14) (by decide) false _)))

end Unary

/-! ## Levels of operators -/

section Levels

variable {rest : List Char}

/-- An expression at a level of operators, and what follows it. -/
def Goes (k : Nat) (e : Expr) : Prop :=
  ∀ (g : Gap) (rest : List Char) (us rest'), Halts (k + 1) rest →
    Answers (.extend [e.tree] true (ways k)) rest (some (us, rest')) →
      Answers (.rule (level k)) (g.text ++ (e.text ++ rest))
        (some (g.trees ++ us, rest'))

theorem edge_of_isClosed (h : e.isClosed = true) (k : Nat) : e.edge k = k := by
  simp [edge, h]

theorem edge_mono (e : Expr) {j : Nat} (h : j ≤ k) : e.edge j ≤ e.edge k := by
  unfold edge
  split <;> omega

theorem edge_le (e : Expr) (k : Nat) : e.edge k ≤ k := by
  unfold edge
  split <;> omega

/-- What is read at a level is read at the one below, if nothing goes on there. -/
theorem ReadsAt.climb (hk : k ≤ 12) (h : ReadsAt (k + 1) e) : ReadsAt k e := by
  intro g rest hrest
  refine .rule ?_
  rw [rules_level k hk]
  exact g.grow e.operand.part (h g rest (hrest.mono (e.edge_mono (Nat.le_succ k))))
    (hrest.extend (e.edge_le k) (again k) [e.tree])

/-- And if something does, it goes on with it. -/
theorem ReadsAt.goes (hclosed : e.isClosed = true) (hk : again k = true) (h : ReadsAt (k + 1) e) :
    Goes k e := by
  intro g rest us rest' hrest hnext
  have hle : k ≤ 12 := by
    simp only [again, Bool.and_eq_true, decide_eq_true_eq] at hk
    omega
  refine .rule ?_
  rw [rules_level k hle, hk]
  exact g.grow e.operand.part (h g rest (by rwa [edge_of_isClosed hclosed])) hnext

/-- An expression is read back: as an operand if it is one, at all levels up to its own, and there
with what follows it. -/
structure ReadBack (e : Expr) : Prop where
  chained : e.isChain = true → Chained e
  reads (k : Nat) : k ≤ e.rank → ReadsAt k e
  goes (k : Nat) : e.isClosed = true → again k = true → k ≤ e.rank → Goes k e

/-- It is enough to read an expression at its own level. -/
theorem ReadBack.of_rank (hrank : e.rank ≤ 13) (hchained : e.isChain = true → Chained e)
    (hreads : ReadsAt e.rank e) (hgoes : e.isClosed = true → again e.rank = true → Goes e.rank e) :
    ReadBack e := by
  have hall : ∀ i, i ≤ e.rank → ReadsAt (e.rank - i) e := by
    intro i hi
    induction i with
    | zero => exact hreads
    | succ i ih =>
      refine ReadsAt.climb (by omega) ?_
      have hstep : e.rank - (i + 1) + 1 = e.rank - i := by omega
      rw [hstep]
      exact ih (by omega)
  have hlevel : ∀ k, k ≤ e.rank → ReadsAt k e := by
    intro k hk
    have h := hall (e.rank - k) (by omega)
    rwa [Nat.sub_sub_self hk] at h
  refine ⟨hchained, hlevel, fun k hclosed hk hle => ?_⟩
  by_cases heq : k = e.rank
  · subst heq
    exact hgoes hclosed hk
  · exact (hlevel (k + 1) (by omega)).goes hclosed hk

theorem ReadBack.of_unary (hrank : e.rank = 13) (hchained : e.isChain = true → Chained e)
    (hreads : ReadsAt 13 e) : ReadBack e :=
  .of_rank (by omega) hchained (by rwa [hrank]) (by rw [hrank]; simp [again])

theorem gives_rightOperand {next : Nat} (g₁ : Gap) (ho : IsOperator k o) (hr : ReadsAt next r)
    (hfit : r.Fits) (hparted : isParted o.text (g₂.text ++ r.text) = true)
    (hrest : Halts (r.edge next) rest) :
    Answers (.seq (.field .operator (alts ((operators k).map Mark.grammar)))
        (.field .right (.rule (level next)))) (g₁.text ++ (o.text ++ (g₂.text ++ (r.text ++ rest))))
      (some (g₁.trees ++ operatorLeaf o.text :: (g₂.trees ++ [r.tree.withRole .right]), rest)) := by
  have hrest' : isParted o.text (g₂.text ++ (r.text ++ rest)) = true := by
    rwa [isParted_append hfit]
  have hsign := g₁.field (r := .operator) (t := .token .symbol none o.text) rfl
    (gives_marks ho.find ho.plain ho.token (.inl ho.tight) g₁ hrest')
  have hright := g₂.field (r := .right) r.operand.part (hr g₂ rest hrest)
  have hseq := hsign.seq hright
  rw [List.append_assoc] at hseq
  exact hseq

theorem text_binary (k : Nat) (l r : Expr) (g g₁ g₂ : Gap) (o : Mark) (rest : List Char) :
    g.text ++ ((binary k l g₁ o g₂ r).text ++ rest) =
      g.text ++ (l.text ++ (g₁.text ++ (o.text ++ (g₂.text ++ (r.text ++ rest))))) := by
  simp [text]

/-- A left operand goes on with an operator of its level and a right operand of the next one. -/
theorem gives_binary {l : Expr} (hk : again k = true) (hl : Goes k l) (hr : ReadsAt (k + 1) r)
    (hfits : (binary k l g₁ o g₂ r).Fits) (g : Gap) {us : List Tree} {rest' : List Char}
    (hrest : Halts (r.edge (k + 1)) rest)
    (hnext : Answers (.extend [(binary k l g₁ o g₂ r).tree] true (ways k)) rest
      (some (us, rest'))) :
    Answers (.rule (level k)) (g.text ++ ((binary k l g₁ o g₂ r).text ++ rest))
      (some (g.trees ++ us, rest')) := by
  obtain ⟨-, hfit, ho, -, -, -, hg, hparted⟩ := hfits
  obtain ⟨-, hop⟩ := isOperator_of_mem ho
  have hk' : 1 ≤ k ∧ k ≤ 11 := by simpa [again] using hk
  have hhalts : Halts (k + 1) (g₁.text ++ (o.text ++ (g₂.text ++ (r.text ++ rest)))) :=
    halts_of_outranks hop.outranks g₁ hg (by rwa [isParted_append hfit])
  have hright := gives_rightOperand g₁ hop hr hfit hparted hrest
  rw [text_binary]
  refine hl g _ us rest' hhalts ?_
  rw [ways_binary k hk'.1 hk'.2] at hnext ⊢
  exact gives_goOn 0 rfl (by simp) (asPart_tree l .left) hright hnext

/-- Powers go on to the right. -/
theorem reads_power {l : Expr} (hl : ReadsAt 13 l) (hr : ReadsAt 12 r)
    (hfits : (binary 12 l g₁ o g₂ r).Fits) : ReadsAt 12 (binary 12 l g₁ o g₂ r) := by
  obtain ⟨-, hfit, ho, hclosed, -, -, hg, hparted⟩ := hfits
  obtain ⟨-, hop⟩ := isOperator_of_mem ho
  intro g rest hrest
  have hhalts : Halts 13 (g₁.text ++ (o.text ++ (g₂.text ++ (r.text ++ rest)))) :=
    halts_of_outranks hop.outranks g₁ hg (by rwa [isParted_append hfit])
  have hright := gives_rightOperand g₁ hop hr hfit hparted hrest
  have hpart : (binaryWay (alts ((operators 12).map Mark.grammar)) (.rule .power)).1.fit [l.tree] =
      some [l.tree.withRole .left] :=
    asPart_tree l .left
  have hstep : Answers (.extend [l.tree] false (ways 12)) _
      (some ([(binary 12 l g₁ o g₂ r).tree], rest)) :=
    gives_goOnOnce 0 rfl (by simp) hpart hright
  rw [text_binary]
  refine .rule ?_
  exact g.grow l.operand.part (hl g _ (by rwa [edge_of_isClosed hclosed])) hstep

/-- An operator is read back at its level, whatever stands on its left. -/
theorem readBack_binary {l : Expr} (hl : ReadBack l) (hr : ReadBack r)
    (hfits : (binary k l g₁ o g₂ r).Fits) : ReadBack (binary k l g₁ o g₂ r) := by
  have hfits' := hfits
  obtain ⟨-, -, ho, hclosed, hleft, hright, -, -⟩ := hfits
  obtain ⟨hle, -⟩ := isOperator_of_mem ho
  by_cases hpower : k = 12
  · subst hpower
    refine .of_rank (by simp [rank]) (by simp [isChain]) ?_ (by simp [rank, again])
    exact reads_power (hl.reads 13 hleft) (hr.reads 12 hright) hfits'
  · have hk : again k = true := by
      have hpos : k ≠ 0 := by
        rintro rfl
        cases ho
      simp [again]
      omega
    rw [if_neg hpower] at hleft hright
    have hgoes := hl.goes k hclosed hk hleft
    have hstep := hr.reads (k + 1) hright
    refine .of_rank (by simp only [rank]; omega) (by simp [isChain]) ?_ ?_
    · intro g rest hrest
      have hmono : r.edge k ≤ r.edge (k + 1) := r.edge_mono (Nat.le_succ k)
      exact gives_binary hk hgoes hstep hfits' g (hrest.mono hmono)
        (hrest.extend ((binary k l g₁ o g₂ r).edge_le k) true _)
    · intro hclosed' _ g rest us rest' hrest hnext
      have hedge : r.edge (k + 1) = k + 1 := edge_of_isClosed hclosed' (k + 1)
      exact gives_binary hk hgoes hstep hfits' g (by rwa [hedge]) hnext

/-- A condition takes elements behind both of its marks. -/
theorem reads_ternary {c a b : Expr} {g₃ g₄ : Gap} (hc : ReadsAt 1 c) (ha : ReadsAt 0 a)
    (hb : ReadsAt 0 b) (hfits : (ternary c g₁ g₂ a g₃ g₄ b).Fits) :
    ReadsAt 0 (ternary c g₁ g₂ a g₃ g₄ b) := by
  obtain ⟨-, hfit, -, hclosed, -, hparted⟩ := hfits
  intro g rest hrest
  let behind := g₄.text ++ (b.text ++ rest)
  let question := ['?']
  let inner := g₂.text ++ (a.text ++ (g₃.text ++ ':' :: behind))
  have hrest' : isParted question inner = true := by
    rw [isParted_append hfit]
    exact hparted
  have hhalts : Halts 1 (g₁.text ++ (question ++ inner)) :=
    halts_of_outranks (by decide) g₁ (fun h => absurd h (by decide)) hrest'
  have hsolid : Solid (question ++ inner) := solid_of_isToken (by decide) hrest'
  have hahead : (facing question).ahead (Lexis.behindGap (g₁.text ++ (question ++ inner))) :=
    ⟨_, g₁.behindGap hsolid, hrest'⟩
  -- Neither two question marks nor a question mark and a dot stand here.
  have hmissing {m : Mark} (hm : m.isRegular = true) (h : m.standsAt question = false) :
      (facing question).Missing m.scan :=
    facing_missing (by decide) hm h
  have hother : Answers (.alt (Rules.mark "??") optionalDot)
      (g₁.text ++ (question ++ inner)) none :=
    (facing_right question).gives hahead ⟨hmissing (m := .sign "??" "") (by decide) (by decide),
      .inr ⟨trivial, hmissing (m := .sign "?." "") (by decide) (by decide)⟩⟩
  have hquestion := hother.absent.seq (g₁.gives_mark "?" hsolid)
  have hcolon : Answers (Rules.mark ":") (g₃.text ++ (':' :: behind)) _ :=
    g₃.gives_mark ":" rfl
  have hcloser : Halts 0 (g₃.text ++ ':' :: behind) :=
    halts_of_closing g₃ (by simp [closing, closers])
  have hthen := g₂.field (r := .consequence) a.operand.part (ha.element g₂ hcloser)
  have helse := g₄.field (r := .alternative) b.operand.part (hb.element g₄ hrest)
  have hseq := hquestion.seq (hthen.seq (hcolon.seq helse))
  simp only [List.append_assoc, List.nil_append, List.cons_append] at hseq
  have htext : g.text ++ ((ternary c g₁ g₂ a g₃ g₄ b).text ++ rest) =
      g.text ++ (c.text ++ (g₁.text ++ (question ++ inner))) := by
    simp [text, question, inner, behind]
  rw [htext]
  have hpart : ternaryWay.1.fit [c.tree] = some [c.tree.withRole .condition] :=
    asPart_tree c .condition
  exact .rule (g.grow c.operand.part (hc g _ (by rwa [edge_of_isClosed hclosed]))
    (gives_goOnOnce 0 rfl (by simp) hpart hseq))

end Levels

/-! ## Whole expressions -/

theorem ReadBack.of_chained (he : e.Fits) (hchain : e.isChain = true) (h : Chained e) :
    ReadBack e := by
  refine .of_unary ?_ (fun _ => h) (reads_of_chained he hchain h)
  cases e <;> first | rfl | cases hchain

mutual

/-- **What is written is read back.** -/
theorem readBack : ∀ {e : Expr}, e.Fits → ReadBack e
  | atom a, h => .of_chained h rfl a.reads
  | name w, h => .of_chained h rfl (chained_name h)
  | paren e, h => .of_chained h rfl (chained_paren ((readBack (e := e) h).reads 0 (Nat.zero_le _)))
  | member e w, h => .of_chained h rfl
      (chained_member ((readBack h.1).chained (isChain_of_isLinked h.2.1)) h.2.1 h.2.2)
  | index e i, h => .of_chained h rfl
      (chained_index ((readBack h.1).chained h.2.1) ((readBack h.2.2).reads 0 (Nat.zero_le _)))
  | call e args, h => .of_chained h rfl
      (chained_call ((readBack h.1).chained h.2.1) (readBackAll h.2.2))
  | unary o g e, h => .of_unary rfl (by simp [isChain])
      (reads_unary ((readBack h.1).reads 13 (Nat.le_of_eq h.2.1.symm)) h)
  | await g e, h => .of_unary rfl (by simp [isChain])
      (reads_await ((readBack h.1).reads 13 (Nat.le_of_eq h.2.1.symm)) h)
  | binary k l g o g' r, h => readBack_binary (readBack h.1) (readBack h.2.1) h
  | ternary c g₁ g₂ a g₃ g₄ b, h => .of_rank (Nat.zero_le _) (by simp [isChain])
      (reads_ternary ((readBack h.1).reads 1 h.2.2.2.2.1) ((readBack h.2.1).reads 0 (Nat.zero_le _))
        ((readBack h.2.2.1).reads 0 (Nat.zero_le _)) h) (by simp [isClosed])
  | assign place g o g' e, h => .of_unary rfl (by simp [isChain])
      (reads_assign ((readBack h.1).chained (isChain_of_isPlace h.2.2.1))
        ((readBack h.2.1).reads 0 (Nat.zero_le _)) h)
  | arrow w g g' e, h => .of_unary rfl (by simp [isChain])
      (reads_arrow ((readBack h.1).reads 0 (Nat.zero_le _)) h)

theorem readBackAll : ∀ {es : List Expr}, FitsAll es → ∀ e ∈ es, ReadsAt 0 e
  | [], _, e, hmem => by cases hmem
  | a :: es, h, e, hmem => by
    rcases List.mem_cons.1 hmem with heq | hmem
    · rw [heq]
      exact (readBack h.1).reads 0 (Nat.zero_le _)
    · exact readBackAll h.2 e hmem

end

theorem reads_zero (h : e.Fits) : ReadsAt 0 e := (readBack h).reads 0 (Nat.zero_le _)

/-- **Written expressions are enclosed.** -/
theorem enclosed (h : e.Fits) : Enclosed e.text := by
  intro blanks close rest hblanks hclose
  have hcloser : close ∈ closers := by rcases hclose with rfl | rfl <;> decide
  let g := Gap.ofBlanks blanks hblanks
  have helement := (reads_zero h).element g (halts_of_closer hcloser rest)
  have hcomplete : Reshape.complete (splitTrivia (g.trees ++ [e.tree])).2 = some [e.tree] := by
    rw [splitTrivia_part g.isTrivia_of_mem_trees e.operand.part]
    simp [Reshape.complete, Reshape.anyHoldsDefault, e.complete]
  have hexpression : Answers (.rule .expression)
      (blanks ++ (e.text ++ close :: rest)) _ :=
    .rule (helement.reshape hcomplete)
  rw [← List.append_assoc] at hexpression
  exact ⟨_, close :: rest, hexpression, behindGap_of_closer hcloser rest⟩

end Expr

end ReactWeave.Script
