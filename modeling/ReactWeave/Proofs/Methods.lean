import ReactWeave.Proofs.Statements

/-!
# ReactWeave.Proofs.Methods

**Methods and function declarations**, and what tells one from the other.

A method of an object and the declaration of a function have a name, parameters
and a body in common. They differ in what may stand in front of the name: a method
may be a getter, and says that it is asynchronous or a generator right there; in a
declaration a word other than the name itself, or none, is an error.

* `DeclaresFunction.namesFunction`: a text that declares a function goes on, behind the
  word `function` and a star, with an identifier that parameters follow.
-/

namespace ReactWeave.Script

open Grammar Rules

/-! ## Whole texts -/

/-- What a rule reads if it reads the text to its end. -/
def readWhole (r : Rule) (s : List Char) : Option (List Tree) :=
  match run Lexis.lexicon rules (256 * (s.length + 16)) (.rule r) s with
  | some (ts, []) => some ts
  | _ => none

variable {s u x : List Char} {w : Spacing} {c : Char} {k : Kind} {g : Gap} {root : Tree}

/-- A text is read as a whole exactly if nothing is left. -/
theorem readWhole_eq_some {r : Rule} {ts : List Tree} :
    readWhole r s = some ts ↔ Answers (.rule r) s (some (ts, [])) := by
  have hfits : ranking.fits 256 (.rule r) = true := by cases r <;> decide
  have heat : Eating (.rule r : G) := by simp [Eating]
  have henough : ranking.enough 256 (.rule r) s ≤ 256 * (s.length + 16) := by
    have hdepth : ranking.depth (.rule r) ≤ 256 := by cases r <;> decide
    simp only [Ranking.enough]
    omega
  obtain ⟨x, hx⟩ : ∃ x, Answers (.rule r) s x :=
    ranking_right.exists_gives hfits heat s
  have hrun := ranking_right.run_of_gives hfits heat hx henough
  unfold readWhole
  rw [hrun]
  constructor
  · intro h
    split at h
    · cases h
      exact hx
    · cases h
  · intro h
    rw [hx.unique h]

/-! ## Blanks -/

/-- Blanks between tokens. -/
structure Spacing where
  text : List Char
  blank : ∀ c ∈ text, Lexis.isBlank c = true

/-- Blanks as a gap. -/
def Spacing.gap (w : Spacing) : Gap := .ofBlanks w.text w.blank

theorem Spacing.text_gap (w : Spacing) : w.gap.text = w.text := rfl

/-! ## Tokens of a head -/

section Head

variable {name tail : List Char}

/-- What stands behind a name: blanks, and the parameters. -/
def behindName (w : Spacing) (rest : List Char) : List Char := w.text ++ '(' :: rest

theorem behindGap_behindName (w : Spacing) (rest : List Char) :
    Lexis.behindGap (behindName w rest) = '(' :: rest :=
  w.gap.behindGap (u := '(' :: rest) rfl

theorem endsWord_behindName (w : Spacing) (rest : List Char) :
    ∀ c ∈ (behindName w rest).head?, endsWord c = true := by
  refine endsWord_gap w.gap fun _ c hc => ?_
  obtain rfl := Option.some.inj hc
  decide

theorem endsWord_star (w : Spacing) (s : List Char) :
    ∀ c ∈ (w.text ++ '*' :: s).head?, endsWord c = true := by
  refine endsWord_gap w.gap fun _ c hc => ?_
  obtain rfl := Option.some.inj hc
  decide

theorem endsWord_spacing (hw : w.text ≠ []) (s : List Char) :
    ∀ c ∈ (w.text ++ s).head?, endsWord c = true :=
  endsWord_gap w.gap fun h => absurd h hw

theorem Gap.head?_name_ne (g : Gap) (hname : isName name = true) (s : List Char)
    (hc : Lexis.isNameStart c = false) :
    (Lexis.behindGap (g.text ++ (name ++ s))).head? ≠ some c := by
  rw [g.behindGap (solid_of_isName hname s)]
  obtain ⟨d, u, rfl, hd⟩ := isName_head hname
  rintro ⟨rfl⟩
  rw [hc] at hd
  cases hd

theorem Gap.gives_word (g : Gap) (v : String) (hv : isName v.toList = true)
    (hs : ∀ c ∈ s.head?, endsWord c = true) :
    Answers (word v) (g.text ++ (v.toList ++ s))
      (some (g.trees ++ [.token .symbol none v.toList], s)) :=
  g.gives_token .symbol (solid_of_isName hv s) (name_of_endsWord hv hs (by simp))

theorem Gap.gives_word_none (g : Gap) {v : String} (hname : isName name = true)
    (hne : name ≠ v.toList) (htail : ∀ c ∈ tail.head?, endsWord c = true) :
    Answers (word v) (g.text ++ (name ++ tail)) none := by
  refine gives_token_none .symbol (keyword_eq_none ?_)
  rw [g.behindGap (solid_of_isName hname tail), firstWord, nameLength_of_endsWord hname htail,
    List.take_left]
  exact hne

/-- The marks that make a word the name itself. -/
def nameMarks : List String := ["(", ",", ":", "\x7d", "=", ";"]

/-- A word in front of a name is a modifier. -/
theorem Gap.gives_modifier (g : Gap) (v : String) (hv : isName v.toList = true)
    (hs : ∀ c ∈ s.head?, endsWord c = true) (hnext : Lexis.behindGap s = c :: u)
    (hc : ∀ m ∈ nameMarks, m.toList.head? ≠ some c) :
    Answers (modifier v) (g.text ++ (v.toList ++ s))
      (some (g.trees ++ [.token .symbol none v.toList], s)) := by
  have habsent : Answers (alts (nameMarks.map Rules.mark)) s none := by
    refine gives_alts_none fun a ha => ?_
    obtain ⟨m, hm, rfl⟩ := List.mem_map.1 ha
    refine gives_token_none .symbol ?_
    have hne : ∀ m ∈ nameMarks, m.toList ≠ [] := by decide
    have hhead := hc m hm
    cases hchars : m.toList with
    | nil => exact absurd hchars (hne m hm)
    | cons d w =>
      rw [hchars, List.head?_cons] at hhead
      refine mark_eq_none ?_ w []
      rw [hnext]
      exact fun h => hhead h.symm
  have hmodifier := (g.gives_word v hv hs).seq habsent.absent
  rwa [List.append_nil] at hmodifier

theorem gives_modifier_name (v : String) (hv : isName v.toList = true) (apart : w.text ≠ [])
    (hname : isName name = true) (tail : List Char) :
    Answers (modifier v) (v.toList ++ (w.text ++ (name ++ tail)))
      (some ([.token .symbol none v.toList], w.text ++ (name ++ tail))) := by
  obtain ⟨c, u, hcons, hc⟩ := isName_head hname
  have hnext : Lexis.behindGap (w.text ++ (name ++ tail)) = c :: (u ++ tail) := by
    rw [← List.cons_append, ← hcons]
    exact w.gap.behindGap (solid_of_isName hname tail)
  have hmarks : ∀ m ∈ nameMarks, m.toList.head? ≠ some c := by
    intro m hm heq
    have hall : ∀ m ∈ nameMarks, m.toList.head?.any Lexis.isNameStart = false := by decide
    have hnot := hall m hm
    rw [heq, Option.any_some, hc] at hnot
    cases hnot
  exact Gap.empty.gives_modifier v hv (endsWord_spacing apart _) hnext hmarks

theorem Gap.gives_modifier_none (g : Gap) (v : String) (hname : isName name = true) (w : Spacing)
    (rest : List Char) :
    Answers (modifier v) (g.text ++ (name ++ behindName w rest)) none := by
  have hends := endsWord_behindName w rest
  by_cases hv : name = v.toList
  · subst hv
    have hparen : Answers (Rules.mark "(") (behindName w rest)
        (some (w.gap.trees ++ [.token .symbol none "(".toList], rest)) :=
      w.gap.gives_mark "(" rfl
    have halts : Answers (alts (nameMarks.map Rules.mark)) (behindName w rest)
        (some (w.gap.trees ++ [.token .symbol none "(".toList], rest)) := hparen.alt
    exact (g.gives_word v hname hends).seq_second halts.absent_none
  · exact (g.gives_word_none hname hv hends).seq_none

theorem Gap.gives_memberName (g : Gap) (hname : isName name = true)
    (htail : ∀ c ∈ tail.head?, endsWord c = true) :
    Answers (.field .name (.rule .propertyName)) (g.text ++ (name ++ tail))
      (some (g.trees ++ [.token .propertyIdentifier (some .name) name], tail)) := by
  have htoken : Answers memberName (g.text ++ (name ++ tail))
      (some (g.trees ++ [.token .propertyIdentifier none name], tail)) :=
    g.gives_token _ (solid_of_isName hname tail) (name_of_endsWord hname htail rfl)
  have hrule : Answers (.rule .propertyName) (g.text ++ (name ++ tail))
      (some (g.trees ++ [.token .propertyIdentifier none name], tail)) := .rule htoken.alt
  exact g.field rfl hrule

end Head

/-! ## Methods -/

/-- What stands in front of the name of a method. -/
inductive MethodHead where
  | plain
  | getter (w : Spacing) (apart : w.text ≠ [])
  | async (w : Spacing) (apart : w.text ≠ [])
  | generator (w : Spacing)
  | asyncGenerator (w w' : Spacing)

namespace MethodHead

def text : MethodHead → List Char
  | plain => []
  | getter w _ => "get".toList ++ w.text
  | async w _ => "async".toList ++ w.text
  | generator w => '*' :: w.text
  | asyncGenerator w w' => "async".toList ++ (w.text ++ '*' :: w'.text)

def trees : MethodHead → List Tree
  | plain => []
  | getter w _ => .token .symbol none "get".toList :: w.gap.trees
  | async w _ => .token .symbol none "async".toList :: w.gap.trees
  | generator w => .token .symbol none ['*'] :: w.gap.trees
  | asyncGenerator w w' =>
    .token .symbol none "async".toList ::
      (w.gap.trees ++ .token .symbol none ['*'] :: w'.gap.trees)

/-- The kind of a function with this head where it is declared. -/
def declaredKind : MethodHead → Kind
  | plain | getter _ _ | async _ _ => .functionDeclaration
  | generator _ | asyncGenerator _ _ => .generatorFunctionDeclaration

-- the equations by `rfl`: the ones that `rw` generates evaluate the words

@[simp] theorem text_plain : plain.text = [] := rfl

@[simp] theorem text_getter (w : Spacing) (apart : w.text ≠ []) :
    (getter w apart).text = "get".toList ++ w.text := rfl

@[simp] theorem text_async (w : Spacing) (apart : w.text ≠ []) :
    (async w apart).text = "async".toList ++ w.text := rfl

@[simp] theorem text_generator (w : Spacing) : (generator w).text = '*' :: w.text := rfl

@[simp] theorem text_asyncGenerator (w w' : Spacing) :
    (asyncGenerator w w').text = "async".toList ++ (w.text ++ '*' :: w'.text) := rfl

end MethodHead

/-- A method of an object as a text: a head, a name, and blanks in front of the parameters. -/
structure Method where
  head : MethodHead
  name : List Char
  spacing : Spacing
  /-- What stands behind the parenthesis that opens the parameters. -/
  rest : List Char
  named : isName name = true

namespace Method

def text (m : Method) : List Char := m.head.text ++ (m.name ++ behindName m.spacing m.rest)

/-- The tree of a method with the trees of its parameters and its body. -/
def tree (m : Method) (us : List Tree) : Tree :=
  .node .method none (m.head.trees ++ .token .propertyIdentifier (some .name) m.name :: us)

end Method

section Method

variable {s s₁ s₂ s₃ : List Char} {ts₁ ts₂ ts₃ us : List Tree}

/-- A method is read modifier by modifier. -/
theorem gives_method (hat : (Lexis.behindGap s).head? ≠ some '@')
    (hstatic : Answers (modifier "static") s none)
    (hasync : Answers (opt (modifier "async")) s (some (ts₁, s₁)))
    (haccess : Answers (opt (alts [modifier "get", modifier "set", star])) s₁
      (some (ts₂, s₂)))
    (hname : Answers (.field .name (.rule .propertyName)) s₂ (some (ts₃, s₃)))
    (hrest : Answers (.rule .functionRest) s₃ (some (us, []))) {t : Tree}
    {ts : List Tree} (hts : ts₁ ++ (ts₂ ++ (ts₃ ++ us)) = t :: ts) (ht : t.isTrivia = false) :
    Answers (.rule .method) s (some ([.node .method none (t :: ts)], [])) := by
  have hdecorator : Answers (.field .decorator (.rule .decorator)) s none :=
    .field_none (.rule (.node_none _
      (.seq_none (gives_token_none .symbol (mark_eq_none hat [] [])))))
  have hdecorators : Answers (.rule .decorators) s (some ([], s)) :=
    .rule hdecorator.many_nil
  have hbody := hdecorators.seq ((hstatic.alt_second gives_empty).seq (hasync.seq (haccess.seq
    (hname.seq hrest.of_rule))))
  rw [List.nil_append, List.nil_append, hts] at hbody
  exact .rule (Gap.empty.node .method ht hbody)

theorem Gap.gives_noAccess (g : Gap) {name : List Char} (hname : isName name = true) (w : Spacing)
    (rest : List Char) :
    Answers (opt (alts [modifier "get", modifier "set", star]))
      (g.text ++ (name ++ behindName w rest))
      (some ([], g.text ++ (name ++ behindName w rest))) := by
  have hstar : Answers star (g.text ++ (name ++ behindName w rest)) none :=
    gives_token_none .symbol (mark_eq_none (g.head?_name_ne hname _ (by decide)) [] [])
  exact ((g.gives_modifier_none "get" hname w rest).alt_second
    ((g.gives_modifier_none "set" hname w rest).alt_second hstar)).alt_second gives_empty

theorem Gap.gives_star (g : Gap) (u : List Char) :
    (∀ v : String, Answers (modifier v) (g.text ++ '*' :: u) none) ∧
      Answers (opt (alts [modifier "get", modifier "set", star]))
        (g.text ++ '*' :: u) (some (g.trees ++ [.token .symbol none ['*']], u)) := by
  have hahead : (Lexis.behindGap (g.text ++ '*' :: u)).head? = some '*' := by
    rw [g.behindGap (u := '*' :: u) rfl]
    rfl
  have hmodifier (v : String) :
      Answers (modifier v) (g.text ++ '*' :: u) none := by
    have hrefuses : (starting '*').Refuses Lexis.lexicon (word v) :=
      (starting_within '*').keyword (by decide) v.toList
    exact ((starting_right '*').gives hahead hrefuses).seq_none
  have hstar : Answers star (g.text ++ '*' :: u)
      (some (g.trees ++ [.token .symbol none ['*']], u)) :=
    g.gives_mark "*" rfl
  exact ⟨hmodifier, ((hmodifier "get").alt_second ((hmodifier "set").alt_second hstar)).alt⟩

/-- **Every head of a method is read**, with the parameters and the body behind it. -/
theorem Method.readWhole_text (m : Method)
    (h : readWhole .functionRest (behindName m.spacing m.rest) = some us) :
    readWhole .method m.text = some [m.tree us] := by
  obtain ⟨head, name, w₀, rest, hname⟩ := m
  have hrest := readWhole_eq_some.1 h
  have hfield (g : Gap) := g.gives_memberName hname (endsWord_behindName w₀ rest)
  have hat (v : String) (hv : isName v.toList = true) (s : List Char) :
      (Lexis.behindGap (v.toList ++ s)).head? ≠ some '@' :=
    Gap.empty.head?_name_ne hv s (by decide)
  have hother (v : String) (hv : isName v.toList = true) {s : List Char}
      (hs : ∀ c ∈ s.head?, endsWord c = true) (v' : String) (hne : v.toList ≠ v'.toList) :
      Answers (modifier v') (v.toList ++ s) none :=
    (Gap.empty.gives_word_none hv hne hs).seq_none
  rw [readWhole_eq_some]
  cases head with
  | plain =>
    have hnone (v : String) := Gap.empty.gives_modifier_none v hname w₀ rest
    exact gives_method (Gap.empty.head?_name_ne hname _ (by decide)) (hnone "static")
      ((hnone "async").alt_second gives_empty) (Gap.empty.gives_noAccess hname w₀ rest)
      (hfield Gap.empty) hrest rfl rfl
  | getter w apart =>
    have hspace := endsWord_spacing apart (name ++ behindName w₀ rest)
    have hget := gives_modifier_name "get" (by decide) apart hname (behindName w₀ rest)
    have hnone := hother "get" (by decide) hspace
    exact gives_method (hat "get" (by decide) _) (hnone "static" (by decide))
      ((hnone "async" (by decide)).alt_second gives_empty) hget.alt.alt (hfield w.gap) hrest
      (by simp) rfl
  | async w apart =>
    have hspace := endsWord_spacing apart (name ++ behindName w₀ rest)
    have hasync := gives_modifier_name "async" (by decide) apart hname (behindName w₀ rest)
    exact gives_method (hat "async" (by decide) _)
      (hother "async" (by decide) hspace "static" (by decide)) hasync.alt
      (w.gap.gives_noAccess hname w₀ rest) (hfield w.gap) hrest (by simp) rfl
  | generator w =>
    obtain ⟨hnone, hstar⟩ := Gap.empty.gives_star (w.text ++ (name ++ behindName w₀ rest))
    have hat : (Lexis.behindGap ('*' :: (w.text ++ (name ++ behindName w₀ rest)))).head? ≠
        some '@' := by
      have hstay : Lexis.behindGap ('*' :: (w.text ++ (name ++ behindName w₀ rest))) =
          '*' :: (w.text ++ (name ++ behindName w₀ rest)) := rfl
      simp [hstay]
    exact gives_method hat (hnone "static") ((hnone "async").alt_second gives_empty) hstar
      (hfield w.gap) hrest (by simp; rfl) rfl
  | asyncGenerator w w' =>
    have hspace := endsWord_star w (w'.text ++ (name ++ behindName w₀ rest))
    have hasync : Answers (modifier "async")
        ("async".toList ++ (w.text ++ '*' :: (w'.text ++ (name ++ behindName w₀ rest))))
        (some ([.token .symbol none "async".toList],
          w.text ++ '*' :: (w'.text ++ (name ++ behindName w₀ rest)))) :=
      Gap.empty.gives_modifier "async" (by decide) hspace (w.gap.behindGap rfl) (by decide)
    have htext : Method.text ⟨.asyncGenerator w w', name, w₀, rest, hname⟩ =
        "async".toList ++ (w.text ++ '*' :: (w'.text ++ (name ++ behindName w₀ rest))) :=
      (List.append_assoc _ _ _).trans
        (congrArg ("async".toList ++ ·) (List.append_assoc _ _ _))
    rw [htext]
    exact gives_method (hat "async" (by decide) _)
      (hother "async" (by decide) hspace "static" (by decide)) hasync.alt
      (w.gap.gives_star _).2 (hfield w'.gap) hrest (by simp) rfl

end Method

/-! ## Function declarations -/

/-- Whether a text is one declaration of this kind with this name, and behind the name with these
parameters and this body. -/
def DeclaresFunction (k : Kind) (s name : List Char) (ts : List Tree) : Prop :=
  ∃ head : List Tree, (∀ t ∈ head, t.isTrivia = true ∨ t.kind? = some .symbol) ∧
    readProgram s = some ([], .node .program none
      [.node k none (head ++ .token .identifier (some .name) name :: ts)])

/-- The statements that declare functions. -/
def functionStatement : G :=
  functions .functionDeclaration .generatorFunctionDeclaration declaredName

section Function

variable {s name tail : List Char} {ts : List Tree}

/-- A text that is one function is a program with this statement. -/
theorem readProgram_of_function {ps : List Tree} (hs : (Lexis.behindGap s).head? = some 'f')
    (h : Answers functionStatement s (some ([.node k none ps], []))) :
    readProgram s = some ([], .node .program none [.node k none ps]) := by
  have hno {g : G} (hg : (starting 'f').Refuses Lexis.lexicon g) :
      Answers g s none :=
    (starting_right 'f').gives hs hg
  have hstatement : Answers (.rule .statement) s
      (some ([.node k none ps], [])) := by
    refine .rule (gives_alts 3 rfl ?_ h)
    intro a ha
    simp only [List.take_succ_cons, List.take_zero, List.mem_cons, List.not_mem_nil, or_false] at ha
    rcases ha with rfl | rfl | rfl
    · exact hno ((starting_within 'f').mark (by decide) [])
    · exact hno (.inl (starting_mayOpenObject (by decide)))
    · exact hno (show (starting 'f').refused .block = true by decide)
  unfold readProgram
  rw [run_of_statements (by simp [hs]) (hstatement.many_cons gives_statement_nil.many_nil)]
  rfl

theorem gives_functionWord (hs : ∀ c ∈ s.head?, endsWord c = true) :
    Answers (opt (.seq (word "async") unfinished)) ("function".toList ++ s)
        (some ([], "function".toList ++ s)) ∧
      Answers (word "function") ("function".toList ++ s)
        (some ([.token .symbol none "function".toList], s)) := by
  have hasync : Answers (word "async") ("function".toList ++ s) none :=
    Gap.empty.gives_word_none (show isName "function".toList = true by decide) (by decide) hs
  exact ⟨hasync.seq_none.alt_second gives_empty, Gap.empty.gives_word "function" (by decide) hs⟩

theorem head?_functionWord (s : List Char) :
    (Lexis.behindGap ("function".toList ++ s)).head? = some 'f' := by
  rfl

theorem Gap.gives_declaredName (g : Gap) (hname : isName name = true)
    (hid : Lexis.isIdentifier name = true) (htail : ∀ c ∈ tail.head?, endsWord c = true) :
    Answers declaredName (g.text ++ (name ++ tail))
      (some (g.trees ++ [.token .identifier (some .name) name], tail)) :=
  g.field rfl (g.gives_token .identifier (solid_of_isName hname tail)
    (name_of_endsWord hname htail hid))

/-- The word `function`, a name, parameters and a body declare a function. -/
theorem declaresFunction_plain (hg : g.text ≠ []) (hname : isName name = true)
    (hid : Lexis.isIdentifier name = true) (htail : ∀ c ∈ tail.head?, endsWord c = true)
    (h : readWhole .functionRest tail = some ts) :
    DeclaresFunction .functionDeclaration ("function".toList ++ (g.text ++ (name ++ tail))) name
      ts := by
  have hspace : ∀ c ∈ (g.text ++ (name ++ tail)).head?, endsWord c = true :=
    endsWord_gap g fun h => absurd h hg
  obtain ⟨hasync, hword⟩ := gives_functionWord hspace
  have hstar : Answers star (g.text ++ (name ++ tail)) none :=
    gives_token_none .symbol (mark_eq_none (g.head?_name_ne hname _ (by decide)) [] [])
  have hplain := Gap.empty.node .functionDeclaration rfl (hasync.seq (hword.seq
      ((g.gives_declaredName hname hid htail).seq (readWhole_eq_some.1 h))))
  have hgenerator : Answers (function .generatorFunctionDeclaration
      [opt (.seq (word "async") unfinished), word "function", star, declaredName])
      ("function".toList ++ (g.text ++ (name ++ tail))) none :=
    .node_none _ (hasync.seq_second (hword.seq_second hstar.seq_none))
  refine ⟨.token .symbol none "function".toList :: g.trees, ?_, ?_⟩
  · rw [List.forall_mem_cons]
    exact ⟨.inr rfl, fun t ht => .inl (g.isTrivia_of_mem_trees t ht)⟩
  · rw [readProgram_of_function (head?_functionWord _) (hgenerator.alt_second hplain)]
    simp

/-- With a star they declare a generator. -/
theorem declaresFunction_generator {g' : Gap} (hg : g.text ≠ []) (hname : isName name = true)
    (hid : Lexis.isIdentifier name = true) (htail : ∀ c ∈ tail.head?, endsWord c = true)
    (h : readWhole .functionRest tail = some ts) :
    DeclaresFunction .generatorFunctionDeclaration
      ("function".toList ++ (g.text ++ '*' :: (g'.text ++ (name ++ tail)))) name ts := by
  have hspace : ∀ c ∈ (g.text ++ '*' :: (g'.text ++ (name ++ tail))).head?, endsWord c = true :=
    endsWord_gap g fun h => absurd h hg
  obtain ⟨hasync, hword⟩ := gives_functionWord hspace
  have hstar : Answers star (g.text ++ '*' :: (g'.text ++ (name ++ tail)))
      (some (g.trees ++ [.token .symbol none ['*']], g'.text ++ (name ++ tail))) :=
    g.gives_mark "*" rfl
  have hgenerator :=
    Gap.empty.node .generatorFunctionDeclaration rfl (hasync.seq (hword.seq (hstar.seq
      ((g'.gives_declaredName hname hid htail).seq (readWhole_eq_some.1 h)))))
  refine ⟨.token .symbol none "function".toList ::
    (g.trees ++ .token .symbol none ['*'] :: g'.trees), ?_, ?_⟩
  · simp only [List.forall_mem_cons, List.forall_mem_append]
    exact ⟨.inr rfl, fun t ht => .inl (g.isTrivia_of_mem_trees t ht), .inr rfl,
      fun t ht => .inl (g'.isTrivia_of_mem_trees t ht)⟩
  · rw [readProgram_of_function (head?_functionWord _) hgenerator.alt]
    simp

end Function

/-! ## What a declaration looks like -/

section Declared

variable {s rest : List Char} {ts : List Tree}

/-- Whether all that a grammar reads ends with a tree of a kind with this property. -/
def EndsIn (P : Kind → Prop) (g : G) : Prop :=
  ∀ s ts rest, Reads Lexis.lexicon rules g s ts rest →
    ∃ lead t k, ts = lead ++ [t] ∧ t.kind? = some k ∧ P k

variable {P : Kind → Prop} {a b : G}

theorem EndsIn.node {k : Kind} (hk : P k) (a : G) : EndsIn P (.node k a) := by
  intro s ts rest h
  cases h with
  | node h => exact ⟨_, _, k, rfl, rfl, hk⟩

theorem EndsIn.token (hk : P k) (scan : Scan) : EndsIn P (.token k scan) := by
  intro s ts rest h
  obtain ⟨lead, u, n, rfl, -, -⟩ := reads_token h
  exact ⟨lead, _, k, rfl, rfl, hk⟩

theorem EndsIn.rule {r : Rule} (h : EndsIn P (rules r)) : EndsIn P (.rule r) := by
  intro s ts rest hr
  cases hr with
  | rule hr => exact h _ _ _ hr

theorem EndsIn.seq (a : G) (hb : EndsIn P b) : EndsIn P (.seq a b) := by
  intro s ts rest h
  cases h with
  | @seq _ _ _ ts _ _ _ _ h =>
    obtain ⟨lead, t, k, rfl, ht, hk⟩ := hb _ _ _ h
    exact ⟨ts ++ lead, t, k, by rw [List.append_assoc], ht, hk⟩

theorem EndsIn.alt (ha : EndsIn P a) (hb : EndsIn P b) : EndsIn P (.alt a b) := by
  intro s ts rest h
  cases h with
  | altLeft h => exact ha _ _ _ h
  | altRight h => exact hb _ _ _ h

theorem EndsIn.fromObject (ha : EndsIn P a) : EndsIn P (fromObject a) := by
  refine .seq _ fun s ts rest h => ?_
  cases h with
  | @reshape _ _ _ ts us _ h hf =>
    rw [Reshape.startsWithMembers_eq_some hf, splitTrivia_append]
    exact ha _ _ _ h

theorem reads_alts {gs : List G} (h : Reads Lexis.lexicon rules (alts gs) s ts rest) :
    ∃ g ∈ gs, Reads Lexis.lexicon rules g s ts rest := by
  induction gs with
  | nil =>
    cases h with
    | check h => cases h
  | cons g gs ih =>
    cases gs with
    | nil => exact ⟨g, List.mem_cons_self, h⟩
    | cons g' gs =>
      cases h with
      | altLeft h => exact ⟨g, List.mem_cons_self, h⟩
      | altRight h =>
        obtain ⟨a, ha, h⟩ := ih h
        exact ⟨a, List.mem_cons_of_mem _ ha, h⟩

/-- Whether a kind is none of declared functions. -/
def NoFunction (k : Kind) : Prop := k ≠ .functionDeclaration ∧ k ≠ .generatorFunctionDeclaration

instance (k : Kind) : Decidable (NoFunction k) := inferInstanceAs (Decidable (_ ∧ _))

theorem MethodHead.not_noFunction (head : MethodHead) : ¬ NoFunction head.declaredKind := by
  have hplain : ¬ NoFunction .functionDeclaration := by decide
  have hgenerator : ¬ NoFunction .generatorFunctionDeclaration := by decide
  cases head with
  | plain | getter | async => exact hplain
  | generator | asyncGenerator => exact hgenerator

/-- A statement is a function, or ends in a tree of another kind. -/
theorem reads_statement (h : Reads Lexis.lexicon rules (.rule .statement) s ts rest) :
    Reads Lexis.lexicon rules functionStatement s ts rest ∨
      ∃ lead t k, ts = lead ++ [t] ∧ t.kind? = some k ∧ NoFunction k := by
  have hexpression : EndsIn NoFunction (.rule .expressionStatement) :=
    .rule (.node (by decide) _)
  cases h with
  | rule h =>
    obtain ⟨g, hg, h⟩ := reads_alts h
    have hcases : g = functionStatement ∨ EndsIn NoFunction g := by
      clear h
      revert g
      simp only [List.forall_mem_cons, List.not_mem_nil, false_imp_iff, implies_true, and_true]
      and_intros
      all_goals first
        | exact .inl rfl
        | exact .inr (.node (by decide) _)
        | exact .inr (.token (by decide) _)
        | exact .inr (.rule (.node (by decide) _))
        | exact .inr hexpression.fromObject
        | exact .inr (.alt (.node (by decide) _) (.node (by decide) _))
        | exact .inr (.seq _ hexpression)
    rcases hcases with rfl | hends
    · exact .inl h
    · exact .inr (hends _ _ _ h)

theorem reads_token_behindGap {scan : Scan}
    (h : Reads Lexis.lexicon rules (.token k scan) s ts rest) :
    ∃ n, scan (Lexis.behindGap s) = some n ∧ rest = (Lexis.behindGap s).drop n := by
  cases h with
  | token h =>
    simp only [readToken] at h
    split at h
    · rename_i n hn
      simp only [Option.some.injEq, Prod.mk.injEq] at h
      exact ⟨n, hn, h.2.symm⟩
    · cases h

theorem head?_of_mark {w stop : List Char} {n : Nat} (h : Lexis.mark (c :: w) stop u = some n) :
    u.head? = some c := by
  refine Decidable.byContradiction fun hne => ?_
  rw [mark_eq_none hne w stop] at h
  cases h

/-- Whether an identifier stands here, and parameters behind it. -/
structure NamesFunction (s : List Char) : Prop where
  name : Lexis.nameLength (Lexis.behindGap s) ≠ 0
  identifier : Lexis.isIdentifier (firstWord (Lexis.behindGap s)) = true
  parameters : (behindWord (Lexis.behindGap s)).head? = some '('

/-- Behind the word `function` there is a name, and parameters follow it. -/
theorem namesFunction_of_reads
    (h : Reads Lexis.lexicon rules (.seq declaredName (.rule .functionRest)) s ts rest) :
    NamesFunction s := by
  cases h with
  | seq hname hrest =>
    cases hname with
    | field hname _ =>
      obtain ⟨n, hn, rfl⟩ := reads_token_behindGap hname
      simp only [Lexis.name] at hn
      split at hn
      · cases hn
      · rename_i hne
        split at hn
        · rename_i hid
          obtain rfl := Option.some.inj hn
          refine ⟨hne, hid, ?_⟩
          cases hrest with
          | rule h => cases h with
            | seq h _ => cases h with
              | rule h => cases h with
                | field h _ => cases h with
                  | node h => cases h with
                    | seq h _ =>
                      obtain ⟨m, hm, -⟩ := reads_token_behindGap h
                      exact head?_of_mark hm
        · cases hn

/-- The word is read as such and not as part of something else. -/
theorem reads_functionWord {mid : List Char} {us : List Tree}
    (hx : ∀ c ∈ x.head?, endsWord c = true)
    (hasync : Reads Lexis.lexicon rules (opt (.seq (word "async") unfinished))
      ("function".toList ++ x) us mid)
    (hword : Reads Lexis.lexicon rules (word "function") mid ts rest) : rest = x := by
  have hstay : Lexis.behindGap ([] ++ ("function".toList ++ x)) = "function".toList ++ x :=
    Gap.empty.behindGap (solid_of_isName (by decide) x)
  rw [List.nil_append] at hstay
  have hmid : mid = "function".toList ++ x := by
    cases hasync with
    | altLeft h => cases h with
      | seq h _ =>
        obtain ⟨n, hn, -⟩ := reads_token_behindGap h
        cases hn
    | altRight h => cases h with
      | empty => rfl
  subst hmid
  obtain ⟨n, hn, rfl⟩ := reads_token_behindGap hword
  rw [hstay] at hn ⊢
  have hscan : Lexis.keyword "function".toList ("function".toList ++ x) =
      some "function".toList.length := name_of_endsWord (by decide) hx (by decide)
  rw [hscan] at hn
  rw [← Option.some.inj hn, List.drop_left]

theorem namesFunction_of_functionStatement (hx : ∀ c ∈ x.head?, endsWord c = true)
    (h : Reads Lexis.lexicon rules functionStatement ("function".toList ++ x) ts rest) :
    NamesFunction x ∨ ∃ x', Lexis.behindGap x = '*' :: x' ∧ NamesFunction x' := by
  cases h with
  | altLeft h => cases h with
    | node h => cases h with
      | seq hasync h => cases h with
        | seq hword h =>
          rw [reads_functionWord hx hasync hword] at h
          cases h with
          | seq hs h =>
            obtain ⟨n, hn, rfl⟩ := reads_token_behindGap hs
            have hstar : (Lexis.behindGap x).head? = some '*' := head?_of_mark hn
            obtain ⟨x', hx'⟩ := List.head?_eq_some_iff.1 hstar
            have hscan : Lexis.mark "*".toList [] ('*' :: x') = some 1 := by
              cases x' <;> rfl
            rw [hx', hscan] at hn
            rw [hx', ← Option.some.inj hn] at h
            exact .inr ⟨x', hx', namesFunction_of_reads h⟩
  | altRight h => cases h with
    | node h => cases h with
      | seq hasync h => cases h with
        | seq hword h =>
          rw [reads_functionWord hx hasync hword] at h
          exact .inl (namesFunction_of_reads h)

/-- A program with one statement was read as one. -/
theorem run_of_readProgram (h : readProgram s = some ([], .node .program none [root])) :
    ∃ ts rest, run Lexis.lexicon rules (256 * (s.length + 16)) (.rule .program) s = some (ts, rest) ∧
      root ∈ ts ∧ ∀ t ∈ ts, t = .gap [] ∨ t = root := by
  unfold readProgram at h
  split at h
  · rename_i ts rest hrun
    refine ⟨ts, rest, hrun, ?_⟩
    split at h
    · simp only [Option.some.injEq, Prod.mk.injEq, Tree.node.injEq, true_and] at h
      obtain ⟨rfl, rfl⟩ := h
      simp
    · simp only [Option.some.injEq, Prod.mk.injEq, Tree.node.injEq, true_and] at h
      subst h
      simp
  · cases h

/-- And the statement was read from the start of the text. -/
theorem reads_of_readProgram (h : readProgram s = some ([], .node .program none [root]))
    (hroot : root.kind? = some k) (hbang : k ≠ .hashBang) (hcomment : k ≠ .comment) :
    ∃ ts rest, Reads Lexis.lexicon rules (.rule .statement) s ts rest ∧
      ∀ t ∈ ts, ∀ k', t.kind? = some k' → k' = k := by
  obtain ⟨ts, rest, hrun, hmem, hts⟩ := run_of_readProgram h
  -- the statement is the only one, so every tree that has a kind has to be it
  have hkind {t : Tree} {k' : Kind} (ht : t ∈ ts) (hk' : t.kind? = some k') : k' = k := by
    rcases hts t ht with rfl | rfl
    · cases hk'
    · rw [hroot] at hk'
      exact (Option.some.inj hk').symm
  cases reads_of_run hrun with
  | rule h => cases h with
    | seq hbang h => cases hbang with
      | altLeft hbang =>
        obtain ⟨lead, u, n, rfl, -, -⟩ := reads_token hbang
        exact absurd (hkind (t := .token .hashBang none (u.take n)) (by simp) rfl).symm ‹_›
      | altRight hbang => cases hbang with
        | empty => cases h with
          | seq hmany h => cases hmany with
            | manyNil => cases h with
              | seq hgap hend => cases hgap with
                | gap => cases hend with
                  | check =>
                    have hplain := Lexis.plainTrivia_pieces s root (by simpa using hmem)
                    unfold PlainTrivia at hplain
                    split at hplain
                    · cases hroot
                    · exact absurd (hkind hmem rfl).symm hcomment
                    · exact hplain.elim
            | @manyCons _ _ us mid vs _ hstatement _ =>
              exact ⟨us, mid, hstatement, fun t ht k' hk' => hkind (by simp [ht]) hk'⟩

theorem reads_functionStatement (h : readProgram s = some ([], .node .program none [root]))
    (hroot : root.kind? = some k) (hk : ¬ NoFunction k) :
    ∃ ts rest, Reads Lexis.lexicon rules functionStatement s ts rest := by
  have hbang : k ≠ .hashBang := by
    rintro rfl
    exact hk (by decide)
  have hcomment : k ≠ .comment := by
    rintro rfl
    exact hk (by decide)
  obtain ⟨ts, rest, hstatement, hkind⟩ := reads_of_readProgram h hroot hbang hcomment
  rcases reads_statement hstatement with hfunction | ⟨lead, t, k', rfl, ht, hk'⟩
  · exact ⟨ts, rest, hfunction⟩
  · obtain rfl := hkind t (by simp) k' ht
    exact absurd hk' hk

/-- **Behind the word, and maybe a star, the one function that a text declares is named.** -/
theorem DeclaresFunction.namesFunction {name : List Char} (hk : ¬ NoFunction k)
    (hx : ∀ c ∈ x.head?, endsWord c = true)
    (h : DeclaresFunction k ("function".toList ++ x) name ts) :
    NamesFunction x ∨ ∃ x', Lexis.behindGap x = '*' :: x' ∧ NamesFunction x' := by
  obtain ⟨head, -, h⟩ := h
  obtain ⟨ts, rest, hreads⟩ := reads_functionStatement h rfl hk
  exact namesFunction_of_functionStatement hx hreads

section Named

variable {k : Kind} {x name tail name' : List Char}

theorem NamesFunction.of_name (hname : isName name = true)
    (htail : ∀ c ∈ tail.head?, endsWord c = true) (h : NamesFunction (g.text ++ (name ++ tail))) :
    Lexis.isIdentifier name = true ∧ (Lexis.behindGap tail).head? = some '(' := by
  have hgap := g.behindGap (solid_of_isName hname tail)
  have hlength := nameLength_of_endsWord hname htail
  have hid := h.identifier
  have hparameters := h.parameters
  rw [hgap, firstWord, hlength, List.take_left] at hid
  rw [hgap, behindWord, hlength, List.drop_left] at hparameters
  exact ⟨hid, hparameters⟩

theorem not_namesFunction (hgap : Lexis.behindGap x = c :: u) (hc : Lexis.isNameStart c = false)
    (hback : c ≠ '\\') : ¬ NamesFunction x := by
  intro h
  have hname := h.name
  rw [hgap, Lexis.nameLength, hc] at hname
  simp [hback] at hname

theorem DeclaresFunction.of_name (hk : ¬ NoFunction k) (hg : g.text ≠ [])
    (hname : isName name = true) (htail : ∀ c ∈ tail.head?, endsWord c = true)
    (h : DeclaresFunction k ("function".toList ++ (g.text ++ (name ++ tail))) name' ts) :
    Lexis.isIdentifier name = true ∧ (Lexis.behindGap tail).head? = some '(' := by
  rcases h.namesFunction hk (endsWord_gap g fun h => absurd h hg) with h | ⟨x', hx', -⟩
  · exact h.of_name hname htail
  · refine absurd ?_ (g.head?_name_ne hname tail (c := '*') (by decide))
    rw [hx', List.head?_cons]

theorem DeclaresFunction.of_star {g' : Gap} (hk : ¬ NoFunction k) (hg : g.text ≠ [])
    (hname : isName name = true) (htail : ∀ c ∈ tail.head?, endsWord c = true)
    (h : DeclaresFunction k
      ("function".toList ++ (g.text ++ '*' :: (g'.text ++ (name ++ tail)))) name' ts) :
    Lexis.isIdentifier name = true := by
  have hgap : Lexis.behindGap (g.text ++ '*' :: (g'.text ++ (name ++ tail))) =
      '*' :: (g'.text ++ (name ++ tail)) := g.behindGap rfl
  rcases h.namesFunction hk (endsWord_gap g fun h => absurd h hg) with h | ⟨x', hx', h⟩
  · exact absurd h (not_namesFunction hgap (by decide) (by decide))
  · rw [hgap] at hx'
    rw [← (List.cons.inj hx').2] at h
    exact (h.of_name hname htail).1

theorem declaresFunction_name_iff {rest : List Char} (hg : g.text ≠ [])
    (hname : isName name = true) (h : readWhole .functionRest (behindName w rest) = some ts) :
    DeclaresFunction .functionDeclaration
        ("function".toList ++ (g.text ++ (name ++ behindName w rest))) name ts ↔
      Lexis.isIdentifier name = true :=
  ⟨fun hd => (hd.of_name (by decide) hg hname (endsWord_behindName w rest)).1,
    fun hid => declaresFunction_plain hg hname hid (endsWord_behindName w rest) h⟩

theorem declaresFunction_star_iff (g' : Gap) {rest : List Char} (hg : g.text ≠ [])
    (hname : isName name = true) (h : readWhole .functionRest (behindName w rest) = some ts) :
    DeclaresFunction .generatorFunctionDeclaration ("function".toList ++
        (g.text ++ '*' :: (g'.text ++ (name ++ behindName w rest)))) name ts ↔
      Lexis.isIdentifier name = true :=
  ⟨fun hd => hd.of_star (by decide) hg hname (endsWord_behindName w rest),
    fun hid => declaresFunction_generator hg hname hid (endsWord_behindName w rest) h⟩

theorem not_declaresFunction_word {w : List Char} (hk : ¬ NoFunction k) (hg : g.text ≠ [])
    (hw : isName w = true) (hs : s = w ++ tail) (htail : ∀ c ∈ tail.head?, endsWord c = true)
    (hnot : (Lexis.behindGap tail).head? ≠ some '(') :
    ¬ DeclaresFunction k ("function".toList ++ (g.text ++ s)) name ts := by
  subst hs
  exact fun h => hnot (h.of_name hk hg hw htail).2

theorem not_declaresFunction_behindName (hk : ¬ NoFunction k) (w : Spacing) (rest : List Char) :
    ¬ DeclaresFunction k ("function".toList ++ behindName w rest) name ts := by
  intro h
  have hgap := behindGap_behindName w rest
  rcases h.namesFunction hk (endsWord_behindName w rest) with h | ⟨x', hx', -⟩
  · exact not_namesFunction hgap (by decide) (by decide) h
  · rw [hgap] at hx'
    cases hx'

end Named

end Declared

end ReactWeave.Script
