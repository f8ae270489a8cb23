import ReactWeave.Proofs.Precedence

/-!
# ReactWeave.Proofs.Statements

**Expressions as statements.** Many statements start like an expression, and a
brace may open an object or a block. What a statement is shows in its first two
tokens.

* `Enclosed.exists_readProgram_block`: an expression between braces is a program.
-/

namespace ReactWeave.Script

open Grammar Rules

/-! ## The start of a statement -/

section Start

variable {s u rest : List Char} {ts : List Tree}

/-- The words that only statements start with. -/
def statementWords : List (List Char) :=
  ["async", "break", "class", "const", "continue", "debugger", "do", "export", "for", "function",
    "if", "import", "let", "return", "switch", "throw", "try", "var", "while", "with"].map
    String.toList

/-- The signs that an expression may start with. -/
def leadSigns : List Char := ['<', '(', '!', '~', '-', '+']

/-- The word at the start of a text. -/
def firstWord (u : List Char) : List Char := u.take (Lexis.nameLength u)

/-- What stands behind the word at the start of a text, and the gap there. -/
def behindWord (u : List Char) : List Char := Lexis.behindGap (u.drop (Lexis.nameLength u))

/-- Whether a statement with this start can only be an expression: it starts with a sign, or with a
word that is neither the keyword of a statement nor a label. -/
def startsExpression (u : List Char) : Bool :=
  if Lexis.nameLength u = 0 then u.head?.any leadSigns.contains
  else !statementWords.contains (firstWord u) && (behindWord u).head? != some ':'

/-- Texts with such a start. -/
def leading : Sight Rule where
  ahead u := startsExpression u = true
  refused r := r = .block ∨ r = .decorator
  skipped r := r = .decorators

/-- Characters that neither a sign nor a word starts with. -/
def isForeign (c : Char) : Bool := !leadSigns.contains c && !Lexis.isNameStart c && c != '\\'

theorem head?_ne_of_startsExpression (hu : startsExpression u = true) {c : Char}
    (hc : isForeign c = true) : u.head? ≠ some c := by
  simp only [isForeign, Bool.and_eq_true, Bool.not_eq_true', bne_iff_ne] at hc
  intro hhead
  obtain ⟨r, rfl⟩ := List.head?_eq_some_iff.1 hhead
  have hzero : Lexis.nameLength (c :: r) = 0 := by simp [Lexis.nameLength, hc.1.2, hc.2]
  have hsign : leadSigns.contains c = true := by simpa [startsExpression, hzero] using hu
  rw [hc.1.1] at hsign
  cases hsign

theorem leading_mark {w : List Char} (hw : w.head?.any isForeign = true) (stop : List Char) :
    leading.Missing (Lexis.mark w stop) := by
  intro u hu
  cases w with
  | nil => simp at hw
  | cons c w => exact mark_eq_none (head?_ne_of_startsExpression hu (by simpa using hw)) w stop

theorem keyword_eq_none {w : List Char} (h : firstWord u ≠ w) : Lexis.keyword w u = none := by
  have htest : (u.take (Lexis.nameLength u) == w) = false := by simpa [firstWord] using h
  simp [Lexis.keyword, Lexis.name, htest]

theorem leading_keyword {k : List Char} (hk : statementWords.contains k = true) :
    leading.Missing (Lexis.keyword k) := by
  intro u hu
  by_cases hzero : Lexis.nameLength u = 0
  · simp [Lexis.keyword, Lexis.name, hzero]
  · refine keyword_eq_none ?_
    rintro rfl
    simp only [leading, startsExpression, hzero, if_false, hk, Bool.not_true, Bool.false_and,
      Bool.false_eq_true] at hu

/-- At the start of an expression the rules for other statements are refused. -/
theorem leading_right : leading.Right Lexis.lexicon rules where
  refused r h := by
    have hmark := fun {w : List Char} => leading_mark (w := w)
    obtain rfl | rfl := of_decide_eq_true h
    all_goals simp (disch := decide) [rules, Sight.Refuses, seqs, Rules.mark, hmark]
  skipped r h := by
    obtain rfl := of_decide_eq_true h
    simp [rules, Sight.Skips, Sight.Refuses, leading]

theorem leading_mayOpenObject : leading.Refuses Lexis.lexicon mayOpenObject := by
  intro s hs
  have hs : startsExpression (Lexis.behindGap s) = true := hs
  dsimp only
  split
  · rename_i r hr
    rw [hr] at hs
    cases hs
  · rfl

/-- Labels. -/
def labeled : G := .node .labeledStatement (seqs [
  .field .label (.token .statementIdentifier (Lexis.name Lexis.isLabel)), Rules.mark ":",
  .field .body (.rule .statement)])

/-- A name without a colon behind it is no label. -/
theorem gives_labeled_none (hs : startsExpression (Lexis.behindGap s) = true) :
    Answers labeled s none := by
  refine .node_none _ ?_
  cases hscan : Lexis.name Lexis.isLabel (Lexis.behindGap s) with
  | none => exact (gives_token_none .statementIdentifier hscan).field_none.seq_none
  | some n =>
    have hn : n = Lexis.nameLength (Lexis.behindGap s) ∧
        Lexis.nameLength (Lexis.behindGap s) ≠ 0 := by
      simp only [Lexis.name] at hscan
      split at hscan
      · cases hscan
      · split at hscan
        · cases hscan
          exact ⟨rfl, by assumption⟩
        · cases hscan
    obtain ⟨rfl, hn⟩ := hn
    obtain ⟨lead, t, htoken, -⟩ :=
      (takesPart_token (k := .statementIdentifier) (by decide) hscan).field (r := .label)
    simp only [startsExpression, hn, if_false, Bool.and_eq_true, bne_iff_ne] at hs
    exact htoken.seq_second (gives_token_none .symbol (mark_eq_none hs.2 [] [])).seq_none

/-- **What starts like an expression is read as one.** -/
theorem gives_statement (hs : startsExpression (Lexis.behindGap s) = true)
    (h : Answers (.rule .expressionStatement) s (some (ts, rest))) :
    Answers (.rule .statement) s (some (ts, rest)) := by
  have hmark := fun {w : List Char} => leading_mark (w := w)
  have hword := fun {k : List Char} => leading_keyword (k := k)
  have hno {g : G} (hg : leading.Refuses Lexis.lexicon g) : Answers g s none :=
    leading_right.gives hs hg
  have hbrace : Answers (Rules.mark "\x7b") s none :=
    hno (hmark (by decide) [])
  have hlet : Answers (.seq (word "let") (Rules.mark "[")) s none :=
    hno (.inl (hword (by decide)))
  refine .rule (gives_alts 24 rfl ?_ ((hbrace.absent.seq hlet.absent).seq h))
  intro a ha
  have hcases : leading.Refuses Lexis.lexicon a ∨ a = labeled := by
    have hblock : leading.refused .block = true := by decide
    have hskipped : leading.skipped .decorators = true := by decide
    revert a
    simp (disch := decide) [Sight.Refuses, Sight.Skips, seqs, alts, opt, fromObject,
      leading_mayOpenObject, functions, function, declarations, declaration, guarded, simple,
      Rules.mark, word, hword, hmark, hblock, hskipped, labeled]
  rcases hcases with hrefused | rfl
  · exact hno hrefused
  · exact gives_labeled_none hs

end Start

/-! ## Programs -/

section Programs

variable {s u rest : List Char} {ts : List Tree}

theorem gives_semicolon (hrest : Lexis.behindGap rest = [] ∨ ∃ u, Lexis.behindGap rest = '}' :: u) :
    Answers (.rule .semicolon) rest (some ([], rest)) := by
  have hmark : (Lexis.behindGap rest).head? ≠ some ';' := by
    rcases hrest with h | ⟨u, h⟩ <;> simp [h]
  have hends : Lexis.endsStatement rest = true := by
    rcases hrest with h | ⟨u, h⟩ <;> simp [Lexis.endsStatement, h]
  exact .rule ((gives_token_none .symbol (mark_eq_none hmark [] [])).alt_second (gives_check hends))

/-- Expressions that nothing goes on with are a statement. -/
theorem TakesPart.statement (h : TakesPart (.rule .expressions) s rest)
    (hs : startsExpression (Lexis.behindGap s) = true)
    (hrest : Lexis.behindGap rest = [] ∨ ∃ u, Lexis.behindGap rest = '}' :: u) :
    TakesPart (.rule .statement) s rest := by
  have hend : Takes (.rule .semicolon) rest rest := ⟨[], gives_semicolon hrest, rfl⟩
  obtain ⟨lead, t, hg, ht⟩ : TakesPart (.rule .expressionStatement) s rest :=
    .rule (r := .expressionStatement) ((h.takes.seq hend).node (by decide))
  exact ⟨lead, t, gives_statement hs hg, ht⟩

theorem gives_statement_nil : Answers (.rule .statement) [] none :=
  ranking_right.gives_nil (by simp [Eating]) rfl

/-- Statements up to the end are a program. -/
theorem run_of_statements (hbang : (Lexis.behindGap s).head? ≠ some '#')
    (h : Answers (.many (.rule .statement)) s (some (ts, []))) :
    run Lexis.lexicon rules (256 * (s.length + 16)) (.rule .program) s = some (ts, []) := by
  have hscan : Lexis.hashBang (Lexis.behindGap s) = none := by
    have hmark := mark_eq_none hbang ['!'] []
    simp only [Lexis.mark] at hmark
    split at hmark
    · split at hmark <;> cases hmark
    · simp_all [Lexis.hashBang]
  have hprogram : Answers (.rule .program) s (some _) :=
    .rule (.seq ((gives_token_none .hashBang hscan).alt_second gives_empty)
      (.seq h (.seq (gives_gap []) (gives_check rfl))))
  rw [run_program hprogram]
  simp [Lexis.lexicon, Lexis.piecesOf]

theorem exists_readProgram_of_statement (hbang : (Lexis.behindGap s).head? ≠ some '#')
    (h : Answers (.rule .statement) s (some (ts, []))) :
    ∃ r, readProgram s = some r := by
  unfold readProgram
  rw [run_of_statements hbang (h.many_cons gives_statement_nil.many_nil)]
  dsimp only
  split
  · exact ⟨_, rfl⟩
  · exact ⟨_, rfl⟩

theorem exists_readProgram_of_jsx (h : TakesPart (.rule .jsx) ('<' :: u) []) :
    ∃ r, readProgram ('<' :: u) = some r := by
  have hclosing : closing.ahead (Lexis.behindGap []) := by simp [closing, Lexis.behindGap]
  have hahead : opening.ahead (Lexis.behindGap ('<' :: u)) := .inl ⟨'<', by decide, rfl⟩
  obtain ⟨lead, t, hg, ht⟩ := h
  have hprimary : TakesPart (.rule .primary) ('<' :: u) [] :=
    ⟨lead, t, gives_primary_jsx rfl hg, ht⟩
  have hexpressions := (hprimary.element hahead hclosing).expressions (by simp [Lexis.behindGap])
  obtain ⟨lead, t, hstatement, -⟩ := hexpressions.statement rfl (.inl rfl)
  have hbang : (Lexis.behindGap ('<' :: u)).head? ≠ some '#' := by
    have hstay : Lexis.behindGap ('<' :: u) = '<' :: u := rfl
    simp [hstay]
  exact exists_readProgram_of_statement hbang hstatement

theorem Fragment.exists_parse? {code : List Char} (h : ∃ r, readProgram code = some r) :
    ∃ f, Fragment.parse? code = some f := by
  obtain ⟨⟨lead, root⟩, hread⟩ := h
  refine ⟨⟨⟨"", ""⟩, lead, root⟩, ?_⟩
  simp [Fragment.parse?, wrappers, Fragment.parseIn, Fragment.wrap, hread]

end Programs

/-! ## Blocks -/

section Blocks

variable {s : List Char}

/-- The words that may stand in front of the name of a method. -/
def methodWords : List (List Char) := ["static", "async", "get", "set"].map String.toList

/-- Whether no member of an object starts so, but for a lone name: no comma or equals sign follows
the first word, and no body makes a method of it. -/
def isNoMember (s : List Char) : Bool :=
  let u := Lexis.behindGap s
  Lexis.nameLength u = 0 ||
    (behindWord u).head? != some ',' && (Lexis.mark ['='] ['=', '>'] (behindWord u)).isNone &&
      ((behindWord u).head? != some '}' || behindWord u == ['}']) &&
      (!s.contains '{' || !methodWords.contains (firstWord u) && (behindWord u).head? != some '(')

theorem takesPart_word {k : Kind} (hk : k ≠ .comment)
    (hn : Lexis.nameLength (Lexis.behindGap s) ≠ 0) :
    TakesPart (.token k (Lexis.name fun _ => true)) s
      ((Lexis.behindGap s).drop (Lexis.nameLength (Lexis.behindGap s))) :=
  takesPart_token hk (by simp [Lexis.name, hn])

theorem gives_propertyName_none (hs : startsExpression (Lexis.behindGap s) = true)
    (hn : Lexis.nameLength (Lexis.behindGap s) = 0) :
    Answers (.rule .propertyName) s none := by
  obtain ⟨c, hhead, hc⟩ : ∃ c, (Lexis.behindGap s).head? = some c ∧ c ∈ leadSigns := by
    cases hu : (Lexis.behindGap s).head? with
    | none => simp [startsExpression, hn, hu] at hs
    | some c => exact ⟨c, rfl, by simpa [startsExpression, hn, hu] using hs⟩
  have hapart : ∀ c ∈ leadSigns, noName [c] = true ∧ '#' ∉ [c] ∧ '.' ∉ [c] ∧
      [c].all (!·.isDigit) = true ∧ startsOutside [c] ['['] = true ∧ c ≠ '\x22' ∧ c ≠ '\x27' := by
    decide
  obtain ⟨hnames, hhash, hdot, hdigit, hbracket, hquotes⟩ := hapart c hc
  have hname := (starting_within c).name hnames
  have hprivate := (starting_within c).privateName hhash
  have hnumber := (starting_within c).number hdot hdigit
  have hmark := (starting_within c).mark hbracket
  refine .rule ((starting_right c).gives hhead ?_)
  simp [rules, Sight.Refuses, alts, seqs, memberName, Rules.privateName, Rules.mark, hname, hprivate,
    hnumber, hmark]
  simpa [starting] using hquotes

theorem takesPart_propertyName (hn : Lexis.nameLength (Lexis.behindGap s) ≠ 0) :
    TakesPart (.rule .propertyName) s
      ((Lexis.behindGap s).drop (Lexis.nameLength (Lexis.behindGap s))) :=
  .rule (r := .propertyName) (takesPart_word (by decide) hn).alt

theorem gives_method_none_of_not_mem (hbrace : '{' ∉ s) :
    Answers (.rule .method) s none := by
  obtain ⟨r, hr⟩ : ∃ r, Answers (.rule .method) s r :=
    ranking_right.exists_gives (by decide) (by simp [Eating]) s
  cases r with
  | none => exact hr
  | some r =>
    obtain ⟨ts, rest⟩ := r
    obtain ⟨n, hn⟩ := hr
    have hreads := reads_of_run (hn n (Nat.le_refl n))
    obtain ⟨mid, hmid, us, hblock⟩ : ∃ mid, mid <:+ s ∧ ∃ us,
        Reads Lexis.lexicon rules (.rule .block) mid us rest := by
      cases hreads with
      | rule h => cases h with
        | node h => cases h with
          | seq h₁ h => cases h with
            | seq h₂ h => cases h with
              | seq h₃ h => cases h with
                | seq h₄ h => cases h with
                  | seq h₅ h => cases h with
                    | seq h₆ h => cases h with
                      | field h _ =>
                        exact ⟨_, h₆.isSuffix.trans (h₅.isSuffix.trans (h₄.isSuffix.trans
                          (h₃.isSuffix.trans (h₂.isSuffix.trans h₁.isSuffix)))), _, h⟩
    have hhead : (Lexis.behindGap mid).head? ≠ some '{' := by
      intro hhead
      exact hbrace (hmid.subset (List.mem_of_mem_drop (List.mem_of_mem_head? hhead)))
    have hscan : Lexis.mark ['{'] [] (mid.drop (Lexis.lexicon.gapLength mid)) = none :=
      mark_eq_none hhead [] []
    cases hblock with
    | rule h => cases h with
      | node h => cases h with
        | seq h _ => cases h with
          | token h => simp [readToken, hscan] at h

/-- A member without parameters is no method. -/
theorem gives_method_none (hs : startsExpression (Lexis.behindGap s) = true)
    (hwords : methodWords.contains (firstWord (Lexis.behindGap s)) = false)
    (hname : Answers (.seq (.field .name (.rule .propertyName))
      (.seq (.rule .parameters) (.field .body (.rule .block)))) s none) :
    Answers (.rule .method) s none := by
  have hmark := fun {w : List Char} => leading_mark (w := w)
  have hno {g : G} (hg : leading.Refuses Lexis.lexicon g) : Answers g s none :=
    leading_right.gives hs hg
  have hdecorators : Answers (.rule .decorators) s (some ([], s)) :=
    .rule (hno (g := .field .decorator (.rule .decorator)) rfl).many_nil
  have hword {w : String} (hw : methodWords.contains w.toList = true) :
      Answers (modifier w) s none := by
    refine .seq_none (gives_token_none .symbol (keyword_eq_none ?_))
    intro hfirst
    rw [hfirst, hw] at hwords
    cases hwords
  have hmodifier {g : G} (hg : Answers g s none) :
      Answers (opt g) s (some ([], s)) :=
    hg.alt_second gives_empty
  have hstar : Answers star s none := hno (hmark (by decide) [])
  have haccess : Answers (alts [modifier "get", modifier "set", star]) s none :=
    (hword (by decide)).alt_second ((hword (by decide)).alt_second hstar)
  exact .rule (.node_none _ (hdecorators.seq_second ((hmodifier (hword (by decide))).seq_second
    ((hmodifier (hword (by decide))).seq_second ((hmodifier haccess).seq_second hname)))))

theorem gives_member_none (hs : startsExpression (Lexis.behindGap s) = true)
    (hn : Lexis.nameLength (Lexis.behindGap s) = 0) :
    Answers (.rule .member) s none := by
  have hmark := fun {w : List Char} => leading_mark (w := w)
  have hspread : Answers (.rule .spread) s none :=
    .rule (leading_right.gives hs (.inl (hmark (by decide) [])))
  have hname := gives_propertyName_none hs hn
  have hmethod : Answers (.rule .method) s none := by
    refine gives_method_none hs ?_ hname.field_none.seq_none
    rw [firstWord, hn]
    rfl
  have hshorthand (k : Kind) : Answers (shorthand k) s none :=
    gives_token_none k (by simp [Lexis.name, hn])
  exact .rule (hspread.alt_second ((hname.field_none.seq_none.node_none _).alt_second
    (hmethod.alt_second (((hshorthand _).field_none.seq_none.node_none _).alt_second
      (hshorthand _)))))

/-- A lone name is a member, so a brace in front of one may open an object. -/
theorem takesPart_member (hs : startsExpression (Lexis.behindGap s) = true)
    (hn : Lexis.nameLength (Lexis.behindGap s) ≠ 0) (hmember : isNoMember s = true) :
    TakesPart (.rule .member) s
      ((Lexis.behindGap s).drop (Lexis.nameLength (Lexis.behindGap s))) := by
  simp only [isNoMember, hn, decide_false, Bool.false_or, Bool.and_eq_true, bne_iff_ne,
    Option.isNone_iff_eq_none, Bool.or_eq_true, Bool.not_eq_true', beq_iff_eq] at hmember
  obtain ⟨⟨⟨-, hequals⟩, -⟩, hbody⟩ := hmember
  have hcolon : (behindWord (Lexis.behindGap s)).head? ≠ some ':' := by
    simp only [startsExpression, hn, if_false, Bool.and_eq_true, bne_iff_ne] at hs
    exact hs.2
  have hmark := fun {w : List Char} => leading_mark (w := w)
  have hspread : Answers (.rule .spread) s none :=
    .rule (leading_right.gives hs (.inl (hmark (by decide) [])))
  have hname := takesPart_propertyName hn
  have hpair := hname.field (r := .key) |>.takes.seq_second
    ((gives_token_none .symbol (mark_eq_none hcolon [] [])).seq_none
      (b := .field .value (.rule .element)))
  have hmethod : Answers (.rule .method) s none := by
    rcases hbody with hbrace | ⟨hwords, hparameters⟩
    · exact gives_method_none_of_not_mem (by simpa using hbrace)
    · refine gives_method_none hs hwords (hname.field.takes.seq_second ?_)
      have hopen := gives_token_none .symbol (mark_eq_none hparameters [] [])
      have hlist : Answers (.rule .parameters)
          ((Lexis.behindGap s).drop (Lexis.nameLength (Lexis.behindGap s))) none :=
        .rule (hopen.seq_none.node_none _).field_none
      exact hlist.seq_none
  have hdefault := (takesPart_word (k := .shorthandPropertyIdentifierPattern) (by decide) hn).field
    (r := .left) |>.takes.seq_second
    ((gives_token_none .symbol hequals).seq_none (b := .field .right (.rule .element)))
  exact .rule (r := .member) (.alt_second hspread (.alt_second (hpair.node_none _)
    (.alt_second hmethod (.alt_second (hdefault.node_none _) (takesPart_word (by decide) hn)))))

/-- A brace in front of an expression opens no object, or one that ends with the text. -/
theorem gives_object (hs : startsExpression (Lexis.behindGap s) = true)
    (hmember : isNoMember s = true) :
    Answers (.rule .object) ('{' :: s) none ∨
      ∃ ts, Answers (.rule .object) ('{' :: s) (some (ts, [])) := by
  have hopen : Answers (Rules.mark "\x7b") ('{' :: s) (some ([leaf ['{']], s)) :=
    Gap.empty.gives_mark "\x7b" rfl
  by_cases hn : Lexis.nameLength (Lexis.behindGap s) = 0
  · left
    have hcomma := head?_ne_of_startsExpression hs (c := ',') (by decide)
    have hclose := head?_ne_of_startsExpression hs (c := '}') (by decide)
    have hlist := ((gives_member_none hs hn).alt_second gives_empty).seq
      (gives_comma_none hcomma (opt (.rule .member))).many_nil
    exact .rule (.node_none _ (hopen.seq_second (hlist.seq_second
      (gives_token_none .symbol (mark_eq_none hclose [] [])))))
  · obtain ⟨lead, t, hfirst, -⟩ := takesPart_member hs hn hmember
    simp only [isNoMember, hn, decide_false, Bool.false_or, Bool.and_eq_true, bne_iff_ne,
      Option.isNone_iff_eq_none, Bool.or_eq_true, Bool.not_eq_true', beq_iff_eq] at hmember
    obtain ⟨⟨⟨hcomma, -⟩, hclose⟩, -⟩ := hmember
    have hlist := (hfirst.alt (b := .empty)).seq
      (gives_comma_none hcomma (opt (.rule .member))).many_nil
    rcases hclose with hclose | hclose
    · exact .inl (.rule (.node_none _ (hopen.seq_second (hlist.seq_second
        (gives_token_none .symbol (mark_eq_none hclose [] []))))))
    · have hclose : behindWord (Lexis.behindGap s) = "\x7d".toList ++ [] := hclose
      obtain ⟨gap, hend, -⟩ := gives_mark hclose
      exact .inr ⟨_, .rule ((hopen.seq (hlist.seq hend)).node .object)⟩

theorem gives_primary_none (hs : (Lexis.behindGap s).head? = some '{')
    (h : Answers (.rule .object) s none) :
    Answers (.rule .primary) s none := by
  have hname := (starting_within '{').name (by decide)
  have hword := (starting_within '{').keyword (by decide)
  have hnumber := (starting_within '{').number (by decide) (by decide)
  refine .rule (gives_alts_none fun a ha => ?_)
  have hcases : (starting '{').Refuses Lexis.lexicon a ∨ a = .rule .object := by
    have hskipped : (starting '{').skipped .decorators = true := by decide
    revert a
    simp (disch := decide) [Sight.Refuses, Sight.Skips, seqs, opt, functions, function,
      valueWord, word, Rules.identifier, hname, hword, hnumber, hskipped]
    decide
  rcases hcases with hrefused | rfl
  · exact (starting_right '{').gives hs hrefused
  · exact h

/-- Where no operand is read, no level is. -/
theorem gives_level_none (hs : (Lexis.behindGap s).head? = some '{')
    (h : Answers (.rule .primary) s none) :
    ∀ k, k ≤ 13 → Answers (.rule (level k)) s none := by
  have hahead : opening.ahead (Lexis.behindGap s) := .inl ⟨'{', by decide, hs⟩
  have hword := fun {k : List Char} => opening_keyword (k := k)
  have hno {g : G} (hg : opening.Refuses Lexis.lexicon g) : Answers g s none :=
    opening_right.gives hahead hg
  have hchain : Answers (.rule .chain) s none := by
    refine .rule (.grow_none ?_)
    refine .alt_second (hno ?_) (.alt_second (hno ?_) (.alt_second (hno ?_) (.alt_second (hno ?_) h)))
    case refine_2 => exact rfl
    all_goals simp (disch := decide) [Sight.Refuses, seqs, word, valueWord, hword]
  have hprivate : Answers Rules.privateName s none :=
    (starting_right '{').gives hs ((starting_within '{').privateName (by decide))
  have hoperand : Answers (.rule .operand) s none := .rule hchain.grow_none
  have hunary : Answers (.rule (level 13)) s none := by
    refine .rule ?_
    refine gives_alts_none (List.forall_mem_append.2 ⟨Expr.leads_of_opening hahead, ?_⟩)
    simpa using ⟨hoperand.grow_none, hprivate.seq_none⟩
  -- Each level starts with the one above it.
  have hdown : ∀ j, j ≤ 13 → Answers (.rule (level (13 - j))) s none := by
    intro j hj
    induction j with
    | zero => exact hunary
    | succ j ih =>
      have hnext : 13 - j = 13 - (j + 1) + 1 := by omega
      have hbase := ih (by omega)
      rw [hnext] at hbase
      refine .rule ?_
      rw [rules_level (13 - (j + 1)) (by omega)]
      exact hbase.grow_none
  intro k hk
  have hlast := hdown (13 - k) (by omega)
  rwa [Nat.sub_sub_self hk] at hlast

/-- Whether what is read, if anything is, ends with the text. -/
def Closes (g : G) (s : List Char) : Prop :=
  Answers g s none ∨ ∃ ts, Answers g s (some (ts, []))

section Closes

variable {a b : G}

theorem Closes.rule {r : Rule} (h : Closes (rules r) s) : Closes (.rule r) s := by
  rcases h with h | ⟨ts, h⟩
  · exact .inl h.rule
  · exact .inr ⟨ts, h.rule⟩

theorem Closes.node (k : Kind) (h : Closes a s) : Closes (.node k a) s := by
  rcases h with h | ⟨ts, h⟩
  · exact .inl (h.node_none k)
  · exact .inr ⟨_, h.node k⟩

theorem Closes.reshape (form : List Tree → Option (List Tree)) (h : Closes a s) :
    Closes (.reshape form a) s := by
  rcases h with h | ⟨ts, h⟩
  · exact .inl h.reshape_none
  · cases hform : form (splitTrivia ts).2 with
    | none => exact .inl (h.reshape_refused hform)
    | some us => exact .inr ⟨_, h.reshape hform⟩

theorem Closes.seq (ha : Closes a s) (hb : Closes b []) : Closes (.seq a b) s := by
  rcases ha with ha | ⟨ts, ha⟩
  · exact .inl ha.seq_none
  · rcases hb with hb | ⟨us, hb⟩
    · exact .inl (ha.seq_second hb)
    · exact .inr ⟨_, ha.seq hb⟩

theorem Closes.check (test : List Char → Bool) (h : Closes a s) : Closes (.seq (.check test) a) s := by
  cases htest : test s with
  | false => exact .inl (gives_check_none htest).seq_none
  | true =>
    rcases h with h | ⟨ts, h⟩
    · exact .inl ((gives_check htest).seq_second h)
    · exact .inr ⟨_, (gives_check htest).seq h⟩

end Closes

/-- The object that a statement may start with is no object here, or ends with the text. -/
theorem closes_fromObject (hs : startsExpression (Lexis.behindGap s) = true)
    (hmember : isNoMember s = true) :
    Closes (fromObject (.rule .expressionStatement)) ('{' :: s) := by
  have hhead : (Lexis.behindGap ('{' :: s)).head? = some '{' := rfl
  have helement : Closes (.rule .element) ('{' :: s) := by
    rcases gives_object hs hmember with hnone | ⟨ts, hsome⟩
    · have hlevel := gives_level_none hhead (gives_primary_none hhead hnone) 0 (Nat.zero_le _)
      exact .inl (.rule hlevel)
    · exact .inr ⟨ts, gives_element_of_primary (.inl ⟨'{', by decide, hhead⟩)
        (by simp [closing, Lexis.behindGap]) (gives_primary_object hhead hsome)⟩
  have hlist : Closes (commaList1 (.rule .element)) ('{' :: s) :=
    helement.seq (.inr ⟨[], (gives_comma_none (by simp [Lexis.behindGap]) _).many_nil⟩)
  have hstatement : Closes (.rule .expressionStatement) ('{' :: s) :=
    .rule (.node _ (.seq (.rule (.reshape _ (.reshape _ hlist)))
      (.inr ⟨[], gives_semicolon (.inl rfl)⟩)))
  exact (hstatement.reshape _).check _

/-- No statement starts with a closing brace. -/
theorem gives_statement_none {u : List Char} (hs : Lexis.behindGap s = '}' :: u) :
    Answers (.rule .statement) s none := by
  have hname := (starting_within '}').name (by decide)
  have hword := (starting_within '}').keyword (by decide)
  have hmark := fun {w : List Char} => (starting_within '}').mark (w := w)
  have hcomment : (starting '}').Missing Lexis.markupComment := by
    intro u hu
    obtain ⟨r, rfl⟩ := List.head?_eq_some_iff.1 hu
    rfl
  have hhead : (Lexis.behindGap s).head? = some '}' := by rw [hs]; rfl
  have hno {g : G} (hg : (starting '}').Refuses Lexis.lexicon g) :
      Answers g s none :=
    (starting_right '}').gives hhead hg
  have hclosing : closing.ahead (Lexis.behindGap s) := by simp [hs, closing, closers]
  have helement : Answers (.rule .element) s none :=
    closing_right.gives hclosing (by simp [Sight.Refuses, closing, startsOperand])
  have hexpression : Answers (.rule .expressionStatement) s none :=
    .rule (.node_none _ (.seq_none (.rule (.reshape_none (.reshape_none helement.seq_none)))))
  refine .rule (gives_alts_none fun a ha => ?_)
  have hcases : (starting '}').Refuses Lexis.lexicon a ∨
      a = .seq notDeclared (.rule .expressionStatement) := by
    have hskipped : (starting '}').skipped .decorators = true := by decide
    revert a
    simp (disch := decide) [Sight.Refuses, Sight.Skips, seqs, alts, opt, fromObject,
      starting_mayOpenObject, functions, function, declarations, declaration, guarded, simple,
      Rules.mark, word, hname, hword, hmark, hskipped, hcomment]
    decide
  rcases hcases with hrefused | rfl
  · exact hno hrefused
  · have hbrace : Answers (Rules.mark "\x7b") s none := hno (hmark (by decide) [])
    have hlet : Answers (.seq (word "let") (Rules.mark "[")) s none :=
      hno (.inl (hword _))
    exact (hbrace.absent.seq hlet.absent).seq_second hexpression

/-- A code between braces is a program, with the braces for a block. -/
theorem Enclosed.exists_readProgram_block {code : List Char} (hcode : Enclosed code)
    (hs : startsExpression (Lexis.behindGap (code ++ ['}'])) = true)
    (hmember : isNoMember (code ++ ['}']) = true) :
    ∃ r, readProgram ('{' :: (code ++ ['}'])) = some r := by
  have hempty : Answers (.node .emptyStatement (Rules.mark ";"))
      ('{' :: (code ++ ['}'])) none :=
    .node_none _ (gives_token_none .symbol rfl)
  have hbang : (Lexis.behindGap ('{' :: (code ++ ['}']))).head? ≠ some '#' := by
    have hstay : Lexis.behindGap ('{' :: (code ++ ['}'])) = '{' :: (code ++ ['}']) := rfl
    simp [hstay]
  rcases closes_fromObject hs hmember with hnone | ⟨ts, hsome⟩
  · obtain ⟨left, helement, hleft⟩ : ∃ left, TakesPart (.rule .element) (code ++ ['}']) left ∧
        Lexis.behindGap left = ['}'] :=
      hcode.element [] [] (by simp) (.inl rfl)
    obtain ⟨lead, t, hstatement, -⟩ :=
      (helement.expressions (by simp [hleft])).statement hs (.inr ⟨[], hleft⟩)
    have hopen : Answers (Rules.mark "\x7b") ('{' :: (code ++ ['}']))
        (some ([leaf ['{']], code ++ ['}'])) :=
      Gap.empty.gives_mark "\x7b" rfl
    have hleft : Lexis.behindGap left = "\x7d".toList ++ [] := hleft
    obtain ⟨gap, hclose, -⟩ := gives_mark hleft
    have hblock : Answers (.rule .block) ('{' :: (code ++ ['}'])) (some _) :=
      .rule ((hopen.seq ((hstatement.many_cons (gives_statement_none hleft).many_nil).seq
        hclose)).node .block)
    exact exists_readProgram_of_statement hbang
      (.rule (hempty.alt_second (hnone.alt_second hblock.alt)))
  · exact exists_readProgram_of_statement hbang (.rule (hempty.alt_second hsome.alt))

end Blocks

end ReactWeave.Script
