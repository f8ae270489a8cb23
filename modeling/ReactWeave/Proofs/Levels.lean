import ReactWeave.Proofs.Tags

/-!
# ReactWeave.Proofs.Levels

**Where an operand ends.** Expressions are read level by level: a level reads an
operand by the next one and goes on while one of its operators follows. Which
levels go on in front of a text depends on the first token behind the gap alone.

* `Halts`: no level from a given one on goes on in front of a text.
-/

namespace ReactWeave.Script

open Grammar Rules

/-! ## Gaps -/

/-- Whether a text starts with no gap. -/
def Solid (u : List Char) : Prop := Lexis.gapFrom 0 u = 0

/-- Blanks and comments that end where the next token starts. -/
structure Gap where
  text : List Char
  ends (u : List Char) : Solid u → Lexis.gapFrom 0 (text ++ u) = text.length

namespace Gap

/-- No gap. -/
def empty : Gap := ⟨[], fun _ h => h⟩

/-- Blanks are a gap. -/
def ofBlanks (blanks : List Char) (h : ∀ c ∈ blanks, Lexis.isBlank c = true) : Gap where
  text := blanks
  ends u hu := by
    induction blanks with
    | nil => exact hu
    | cons c blanks ih =>
      rw [List.forall_mem_cons] at h
      simp [Lexis.gapFrom, h.1, ih h.2]

/-- One space. -/
def space : Gap := ofBlanks [' '] (by decide)

/-- The pieces that the reader makes of a gap. -/
def trees (g : Gap) : List Tree := Lexis.lexicon.pieces g.text

theorem trees_eq (g : Gap) :
    g.trees = Lexis.lexicon.pieces (g.text.take (Lexis.lexicon.gapLength g.text)) := by
  have hlength : Lexis.lexicon.gapLength (g.text ++ []) = g.text.length := g.ends [] rfl
  rw [List.append_nil] at hlength
  rw [hlength, List.take_length, trees]

theorem plainTrivia (g : Gap) : ∀ p ∈ g.trees, PlainTrivia p := by
  rw [g.trees_eq]
  exact Lexis.plainTrivia_pieces g.text

theorem isTrivia_of_mem_trees (g : Gap) : ∀ p ∈ g.trees, p.isTrivia = true :=
  fun p hp => (g.plainTrivia p hp).isTrivia.1

theorem textOf_trees (g : Gap) : Tree.textOf g.trees = g.text := Lexis.textOf_piecesOf _ _

theorem behindGap (g : Gap) {u : List Char} (hu : Solid u) : Lexis.behindGap (g.text ++ u) = u := by
  rw [Lexis.behindGap, g.ends u hu, List.drop_left]

theorem head (g : Gap) : ∀ c ∈ g.text.head?, Lexis.isBlank c = true ∨ c = '/' := by
  intro c hc
  obtain ⟨u, hu⟩ := List.head?_eq_some_iff.1 hc
  have h := g.ends [] rfl
  rw [hu, List.append_nil] at h
  by_cases hblank : Lexis.isBlank c = true
  · exact .inl hblank
  · refine .inr (Decidable.byContradiction fun hslash => ?_)
    simp [Lexis.gapFrom, hblank, hslash] at h

end Gap

variable {w rest : List Char} {m : Mark} {v : Sight Rule} {k : Nat}

/-- A gap in front of a token is read along with it. -/
theorem Gap.gives_token (g : Gap) (k : Kind) {scan : Scan} (hsolid : Solid (w ++ rest))
    (hscan : scan (w ++ rest) = some w.length) :
    Answers (.token k scan) (g.text ++ (w ++ rest))
      (some (g.trees ++ [.token k none w], rest)) := by
  have hgives : Answers (.token k scan) (g.text ++ (w ++ rest))
      (readToken Lexis.lexicon k scan (g.text ++ (w ++ rest))) :=
    Grammar.gives_token k scan _
  have hlen : Lexis.lexicon.gapLength (g.text ++ (w ++ rest)) = g.text.length := g.ends _ hsolid
  simpa only [readToken, hlen, List.drop_left, List.take_left, hscan, Gap.trees] using hgives

/-! ## Names -/

/-- A name is read where it ends. -/
theorem name_of_endsWord (hw : isName w = true) (hrest : ∀ c ∈ rest.head?, endsWord c = true)
    {test : List Char → Bool} (htest : test w = true) :
    Lexis.name test (w ++ rest) = some w.length := by
  have hne : w.length ≠ 0 := by
    obtain ⟨a, w, rfl, -⟩ := isName_head hw
    simp
  simp [Lexis.name, nameLength_of_endsWord hw hrest, hne, htest]

theorem solid_of_isName (hw : isName w = true) (rest : List Char) : Solid (w ++ rest) := by
  obtain ⟨a, w, rfl, ha⟩ := isName_head hw
  have h := behindGap_of_isNameStart ha (w ++ rest)
  rw [Lexis.behindGap] at h
  have hlen := congrArg List.length h
  simp only [List.length_drop, List.length_cons] at hlen
  unfold Solid
  rw [List.cons_append]
  omega

theorem endsWord_of_isBlank {c : Char} (h : Lexis.isBlank c = true ∨ c = '/') :
    endsWord c = true := by
  rcases h with h | rfl
  · have hback : c ≠ '\\' := by
      rintro rfl
      exact absurd h (by decide)
    have hpart : Lexis.isNamePart c = false := by
      rw [Bool.eq_false_iff]
      intro hp
      simp only [Lexis.isNamePart, Bool.or_eq_true, Bool.and_eq_true, beq_iff_eq,
        Bool.not_eq_true', h, Bool.true_eq_false, and_false, or_false] at hp
      rcases hp with ((hp | hp) | rfl) | rfl
      · simp only [Lexis.isLetter, Lexis.isBlank, Bool.or_eq_true, Bool.and_eq_true,
          decide_eq_true_eq, beq_iff_eq] at hp h
        omega
      · simp only [Char.isDigit, Bool.and_eq_true, decide_eq_true_eq, UInt32.le_iff_toNat_le] at hp
        have hfirst : 48 ≤ c.toNat := hp.1
        have hlast : c.toNat ≤ 57 := hp.2
        simp only [Lexis.isBlank, Bool.or_eq_true, Bool.and_eq_true, decide_eq_true_eq,
          beq_iff_eq] at h
        omega
      · exact absurd h (by decide)
      · exact absurd h (by decide)
    simp [endsWord, hpart, hback]
  · decide

/-! ## Marks -/

/-- Characters that operators are made of. -/
def isSign (c : Char) : Bool := "=+-*/%&|^<>!?.~".toList.contains c

theorem isSign_apart {c : Char} (h : isSign c = true) : Lexis.isNameStart c = false ∧ c ≠ '\\' ∧
    Lexis.isBlank c = false ∧ endsWord c = true := by
  simp only [isSign, List.contains_eq_mem, decide_eq_true_eq] at h
  revert c
  decide

/-- A token with which a construct starts or goes on. -/
inductive Mark where
  /-- The mark `w`, not followed by one of the characters of `stop`. -/
  | sign (w stop : String)
  /-- The keyword `w`. -/
  | word (w : String)
  deriving DecidableEq

/-- Operators behind which another one may follow at once. -/
def isTight (w : List Char) : Bool := w == ['!'] || w == ['~']

namespace Mark

def text : Mark → List Char
  | sign w _ => w.toList
  | word w => w.toList

def scan : Mark → Scan
  | sign w stop => Lexis.mark w.toList stop.toList
  | word w => Lexis.keyword w.toList

/-- What reads the mark. -/
def grammar (m : Mark) : G := .token .symbol m.scan

/-- Whether only characters of operators follow the first one, which is none of a name. -/
def isRegular : Mark → Bool
  | sign w stop => w.toList.head?.any (!Lexis.isNameStart ·) && w.toList.tail.all isSign &&
      stop.toList.all isSign
  | word w => isName w.toList

/-- Whether the mark may be read where the token `w` stands. -/
def standsAt : Mark → List Char → Bool
  | sign m stop, w =>
    if isTight w then m.toList.head? == w.head?
    else m.toList.isPrefixOf w && (w.drop m.toList.length).head?.all (!stop.toList.contains ·)
  | word m, w => m.toList == w

end Mark

/-- Whether a token is no longer than `w` if `rest` follows it. -/
def isParted (w rest : List Char) : Bool :=
  rest.head?.all fun c => if isName w then endsWord c else isTight w || !isSign c

/-- Whether a token is a word or made of signs, and no comment. -/
def isToken (w : List Char) : Bool :=
  isName w || w.head?.any isSign && !"//".toList.isPrefixOf w && !"/*".toList.isPrefixOf w

/-- Texts that start with the token `w`. -/
def facing (w : List Char) : Sight Rule where
  ahead u := ∃ rest, u = w ++ rest ∧ isParted w rest = true
  refused r := isToken w && (r = .template ∨ r = .arguments)
  skipped _ := false

/-- A token is not taken for a comment, whatever it is parted from. -/
theorem solid_of_isToken (hw : isToken w = true) (hrest : isParted w rest = true) :
    Solid (w ++ rest) := by
  cases hname : isName w with
  | true => exact solid_of_isName hname rest
  | false =>
    simp only [isToken, hname, Bool.false_or, Bool.and_eq_true, Bool.not_eq_true'] at hw
    obtain ⟨⟨hsign, hline⟩, hblock⟩ := hw
    cases w with
    | nil => simp at hsign
    | cons c w =>
      have hblank : Lexis.isBlank c = false := (isSign_apart hsign).2.2.1
      by_cases hslash : c = '/'
      · subst hslash
        -- A slash starts a comment if another slash or a star follows, and both are signs.
        have hcomment : Lexis.commentLength ('/' :: (w ++ rest)) = none := by
          cases w with
          | nil =>
            cases rest with
            | nil => rfl
            | cons d rest =>
              have hd : isSign d = false := by simpa [isParted, hname, isTight] using hrest
              have hne : d ≠ '/' ∧ d ≠ '*' := by
                constructor <;> rintro rfl <;> exact absurd hd (by decide)
              simp [Lexis.commentLength, hne.1, hne.2]
          | cons d w =>
            have hne : d ≠ '/' ∧ d ≠ '*' := by
              constructor <;> rintro rfl <;> simp_all
            simp [Lexis.commentLength, hne.1, hne.2]
        simp [Solid, Lexis.gapFrom, hblank, hcomment]
      · simp [Solid, Lexis.gapFrom, hblank, hslash]

/-- A mark of signs that fits a text fits the token at its start. -/
theorem isPrefixOf_of_startsWith {m : List Char} (hm : m.all isSign = true)
    (hrest : ∀ c ∈ rest.head?, isSign c = false) (h : Text.startsWith m (w ++ rest) = true) :
    m.isPrefixOf w = true := by
  induction m generalizing w with
  | nil => rfl
  | cons a m ih =>
    simp only [List.all_cons, Bool.and_eq_true] at hm
    cases w with
    | nil =>
      cases rest with
      | nil => simp [Text.startsWith] at h
      | cons c u =>
        simp only [List.nil_append, Text.startsWith, Bool.and_eq_true, beq_iff_eq] at h
        have hc := hrest c rfl
        rw [← h.1, hm.1] at hc
        cases hc
    | cons c w =>
      simp only [List.cons_append, Text.startsWith, Bool.and_eq_true, beq_iff_eq] at h
      simp [h.1, ih hm.2 h.2]

theorem mark_append (m stop rest : List Char) : Lexis.mark m stop (m ++ rest) =
    if rest.head?.any stop.contains then none else some m.length := by
  have hstart : Text.startsWith m (m ++ rest) = true := Text.startsWith_iff.2 ⟨rest, rfl⟩
  rw [Lexis.mark, if_pos hstart, List.drop_left]
  cases rest <;> rfl

/-- In front of a token only the marks at its start are there. -/
theorem facing_sign {m stop : String} (hw : isToken w = true)
    (hm : (Mark.sign m stop).isRegular = true) (h : (Mark.sign m stop).standsAt w = false) :
    (facing w).Missing (Lexis.mark m.toList stop.toList) := by
  simp only [Mark.isRegular, Mark.standsAt] at hm h
  generalize m.toList = m at hm h
  generalize stop.toList = stop at hm h
  intro u hu
  obtain ⟨rest, rfl, hrest⟩ := hu
  cases hstart : Text.startsWith m (w ++ rest) with
  | false => simp [Lexis.mark, hstart]
  | true =>
    obtain ⟨a, m, rfl⟩ : ∃ a m', m = a :: m' := by
      cases m with
      | nil => simp at hm
      | cons a m => exact ⟨a, m, rfl⟩
    obtain ⟨c, w, rfl⟩ : ∃ c w', w = c :: w' := by
      cases w with
      | nil => simp [isToken, isName] at hw
      | cons c w => exact ⟨c, w, rfl⟩
    simp only [List.cons_append, Text.startsWith, Bool.and_eq_true, beq_iff_eq] at hstart
    obtain ⟨rfl, hstart⟩ := hstart
    simp only [List.head?_cons, Option.any_some, List.tail_cons, Bool.and_eq_true,
      Bool.not_eq_true'] at hm
    have hname : isName (a :: w) = false := by simp [isName, hm.1.1]
    -- Where another sign may follow at once, the first character decides.
    have htight : isTight (a :: w) = false := by
      cases htight : isTight (a :: w) with
      | false => rfl
      | true => simp [htight] at h
    have hsigns : ∀ c ∈ rest.head?, isSign c = false := by
      intro c hc
      rw [Option.mem_def] at hc
      simpa [isParted, hc, hname, htight] using hrest
    obtain ⟨v, rfl⟩ := List.isPrefixOf_iff_prefix.1 (isPrefixOf_of_startsWith hm.1.2 hsigns hstart)
    rw [htight] at h
    simp only [Bool.false_eq_true, if_false, ← List.cons_append,
      List.isPrefixOf_iff_prefix.2 (List.prefix_append _ _), Bool.true_and, List.drop_left] at h
    rw [← List.cons_append, List.append_assoc, mark_append]
    cases v with
    | nil => simp at h
    | cons d v => simpa using h

/-- The same of words. -/
theorem facing_word {m : String} (hw : isToken w = true) (h : (Mark.word m).standsAt w = false) :
    (facing w).Missing (Lexis.keyword m.toList) := by
  intro u hu
  obtain ⟨rest, rfl, hrest⟩ := hu
  cases hname : isName w with
  | true =>
    have hends : ∀ c ∈ rest.head?, endsWord c = true := by
      intro c hc
      rw [Option.mem_def] at hc
      simpa [isParted, hc, hname] using hrest
    have hne : w ≠ m.toList := by
      intro hne
      simp [Mark.standsAt, hne] at h
    simp [Lexis.keyword, Lexis.name, nameLength_of_endsWord hname hends, hne]
  | false =>
    simp only [isToken, hname, Bool.false_or, Bool.and_eq_true] at hw
    cases w with
    | nil => simp at hw
    | cons c w =>
      obtain ⟨hc, hback, -⟩ := isSign_apart (by simpa using hw.1.1)
      simp [Lexis.keyword, Lexis.name, Lexis.nameLength, hc, hback]

/-- **A mark that does not stand at a token is not read there.** -/
theorem facing_missing (hw : isToken w = true) (hm : m.isRegular = true) (h : m.standsAt w = false) :
    (facing w).Missing m.scan := by
  cases m with
  | sign m stop => exact facing_sign hw hm h
  | word m => exact facing_word hw h

/-- What a token rules out is ruled out in all rules. -/
theorem facing_right (w : List Char) : (facing w).Right Lexis.lexicon rules where
  refused r h := by
    simp only [facing, Bool.and_eq_true, decide_eq_true_eq] at h
    obtain ⟨hw, hr⟩ := h
    have hfirst {c : Char} (hc : isSign c = false) (hn : Lexis.isNameStart c = false) :
        (facing w).Missing (Lexis.mark [c] []) := by
      intro u hu
      obtain ⟨rest, rfl, -⟩ := hu
      cases w with
      | nil => simp [isToken, isName] at hw
      | cons a w =>
        have hne : c ≠ a := by
          rintro rfl
          simp [isToken, isName, hc, hn] at hw
        simp [Lexis.mark, Text.startsWith, hne]
    rcases hr with rfl | rfl
    · exact .inl (hfirst (c := '\x60') (by decide) (by decide))
    · exact .inl (hfirst (c := '(') (by decide) (by decide))
  skipped r h := by simp [facing] at h

/-- Whether anything may follow a mark. -/
def Mark.isFree : Mark → Bool
  | sign _ stop => stop.toList.isEmpty
  | word _ => false

/-- **A mark is read where it stands**, if what follows does not make it longer. -/
theorem Mark.gives (hm : m.isRegular = true) (htoken : isToken m.text = true)
    (htight : isTight m.text = false ∨ m.isFree = true) (g : Gap)
    (hrest : isParted m.text rest = true) :
    Answers m.grammar (g.text ++ (m.text ++ rest))
      (some (g.trees ++ [.token .symbol none m.text], rest)) := by
  refine g.gives_token .symbol (solid_of_isToken htoken hrest) ?_
  cases m with
  | sign w stop =>
    simp only [Mark.isRegular, Mark.isFree, Mark.text, Bool.and_eq_true] at hm htight hrest
    have hname : isName w.toList = false := by
      cases hl : w.toList with
      | nil => rfl
      | cons a w => simp_all [isName]
    have hstop : rest.head?.any stop.toList.contains = false := by
      rcases htight with htight | hfree
      · cases rest with
        | nil => rfl
        | cons c rest =>
          simp only [isParted, List.head?_cons, Option.all_some, hname, Bool.false_eq_true,
            if_false, htight, Bool.false_or, Bool.not_eq_true'] at hrest
          rw [List.head?_cons, Option.any_some, Bool.eq_false_iff, List.contains_eq_mem]
          intro hc
          have hsign := List.all_eq_true.1 hm.2 c (of_decide_eq_true hc)
          rw [hrest] at hsign
          cases hsign
      · rw [List.isEmpty_iff.1 hfree]
        cases rest <;> rfl
    rw [Mark.scan, Mark.text, mark_append, hstop]
    rfl
  | word w =>
    have hends : ∀ c ∈ rest.head?, endsWord c = true := by
      intro c hc
      rw [Option.mem_def] at hc
      have hname : isName w.toList = true := hm
      simpa [isParted, hc, Mark.text, hname] using hrest
    have hscan : Lexis.keyword w.toList (w.toList ++ rest) = some w.toList.length := by
      exact name_of_endsWord hm hends (by simp)
    exact hscan

/-- Of several marks the first one that stands there is read. -/
theorem gives_marks {ms : List Mark} (hfind : ms.find? (·.standsAt m.text) = some m)
    (hplain : ∀ a ∈ ms, a.isRegular = true) (htoken : isToken m.text = true)
    (htight : isTight m.text = false ∨ m.isFree = true) (g : Gap)
    (hrest : isParted m.text rest = true) :
    Answers (alts (ms.map Mark.grammar)) (g.text ++ (m.text ++ rest))
      (some (g.trees ++ [.token .symbol none m.text], rest)) := by
  have hahead : (facing m.text).ahead (Lexis.behindGap (g.text ++ (m.text ++ rest))) :=
    ⟨rest, g.behindGap (solid_of_isToken htoken hrest), hrest⟩
  obtain ⟨-, front, back, rfl, hfront⟩ := List.find?_eq_some_iff_append.1 hfind
  have hown := Mark.gives (hplain m (by simp)) htoken htight g hrest
  refine (facing_right m.text).gives_alts hahead front.length (by simp) ?_ hown
  intro a ha
  have htake : ((front ++ m :: back).map Mark.grammar).take front.length =
      front.map Mark.grammar := by
    simp
  rw [htake, List.mem_map] at ha
  obtain ⟨b, hb, rfl⟩ := ha
  exact facing_missing htoken (hplain b (by simp [hb])) (by simpa using hfront b hb)

/-! ## Levels -/

/-- The levels of expressions, from the loosest to the tightest. -/
def level : Nat → Rule
  | 0 => .ternary
  | 1 => .coalesce
  | 2 => .disjunction
  | 3 => .conjunction
  | 4 => .bitOr
  | 5 => .bitXor
  | 6 => .bitAnd
  | 7 => .equality
  | 8 => .relation
  | 9 => .shift
  | 10 => .sum
  | 11 => .product
  | 12 => .power
  | 13 => .unary
  | 14 => .operand
  | _ => .chain

/-- The operators of a level, in the order in which they are looked for. -/
def operators : Nat → List Mark
  | 1 => [.sign "??" "="]
  | 2 => [.sign "||" "="]
  | 3 => [.sign "&&" "="]
  | 4 => [.sign "|" "|="]
  | 5 => [.sign "^" "="]
  | 6 => [.sign "&" "&="]
  | 7 => [.sign "===" "", .sign "!==" "", .sign "==" "", .sign "!=" ""]
  | 8 => [.sign "<=" "", .sign "<" "<=", .sign ">=" "", .sign ">" ">=", .word "instanceof",
      .word "in"]
  | 9 => [.sign "<<" "=", .sign ">>>" "=", .sign ">>" ">="]
  | 10 => [.sign "+" "+=", .sign "-" "-="]
  | 11 => [.sign "*" "*=", .sign "/" "=", .sign "%" "="]
  | 12 => [.sign "**" "="]
  | _ => []

/-- The operators that combine with an assignment. -/
def compounds : List Mark :=
  ["+=", "-=", "**=", "*=", "/=", "%=", "^=", "&&=", "||=", "??=", "&=", "|=", ">>>=", ">>=",
    "<<="].map (.sign · "")

/-- The plain assignment. -/
def equals : Mark := .sign "=" "=>"

/-- The marks with which a level goes on. -/
def marksOf : Nat → List Mark
  | 0 => [.sign "?" ""]
  | 13 => [.sign "++" "", .sign "--" ""]
  | 14 => equals :: compounds
  | 15 => [.sign "." "", .sign "?." "", .sign "[" ""]
  | k => operators k

/-- How an operand goes on as a condition. -/
def ternaryWay : Continuation × G :=
  goesOn .ternary .condition (seqs [seq (absent (alt (Rules.mark "??") optionalDot)) (Rules.mark "?"),
    field .consequence (rule .element), Rules.mark ":", field .alternative (rule .element)])

/-- How an operand goes on as what is counted up or down. -/
def updateWay : Continuation × G :=
  goesOn .update .argument (seq unfinished
    (field .operator (alt (Rules.mark "++") (Rules.mark "--"))))

/-- How an operand goes on as what is assigned to. -/
def assignWay : Continuation × G :=
  (⟨.assignment, Reshape.asTarget⟩, seq equals.grammar (field .right (rule .element)))

def compoundWay : Continuation × G :=
  (⟨.augmentedAssignment, Reshape.asPlace⟩,
    seq (field .operator (alts (compounds.map Mark.grammar))) (field .right (rule .element)))

/-- How a level goes on. -/
def ways : Nat → List (Continuation × G)
  | 0 => [ternaryWay]
  | 12 => [binaryWay (alts ((operators 12).map Mark.grammar)) (rule .power)]
  | 13 => [updateWay]
  | 14 => [assignWay, compoundWay]
  | 15 => accessWays ++ callWays
  | k => if k < 12 then
      [binaryWay (alts ((operators k).map Mark.grammar)) (rule (level (k + 1)))] else []

/-- Whether a level goes on as often as it can. -/
def again (k : Nat) : Bool := 1 ≤ k && k ≤ 11

theorem ways_binary : ∀ k, 1 ≤ k → k ≤ 11 →
    ways k = [binaryWay (alts ((operators k).map Mark.grammar)) (rule (level (k + 1)))]
  | 0, h, _ => by omega
  | 1, _, _ | 2, _, _ | 3, _, _ | 4, _, _ | 5, _, _ | 6, _, _ | 7, _, _ | 8, _, _ | 9, _, _
  | 10, _, _ | 11, _, _ => rfl
  | k + 12, _, h => by omega

theorem rules_level : ∀ k, k ≤ 12 → rules (level k) = grow (rule (level (k + 1))) (again k) (ways k)
  | 0, _ | 1, _ | 2, _ | 3, _ | 4, _ | 5, _ | 6, _ | 7, _ | 8, _ | 9, _ | 10, _ | 11, _ | 12, _ => rfl
  | k + 13, h => by omega

theorem refuses_alts {v : Sight Rule} : ∀ {gs : List G},
    (∀ g ∈ gs, v.Refuses Lexis.lexicon g) → v.Refuses Lexis.lexicon (alts gs)
  | [], _ => fun _ _ => rfl
  | [g], h => h g (by simp)
  | g :: a :: gs, h => by
    rw [List.forall_mem_cons] at h
    exact ⟨h.1, refuses_alts h.2⟩

theorem refuses_marks {ms : List Mark} (h : ∀ m ∈ ms, v.Missing m.scan) :
    v.Refuses Lexis.lexicon (alts (ms.map Mark.grammar)) := by
  refine refuses_alts fun g hg => ?_
  obtain ⟨m, hm, rfl⟩ := List.mem_map.1 hg
  exact h m hm

/-- A level goes on only at one of its marks. -/
theorem refuses_ways (htemplate : v.refused .template = true)
    (harguments : v.refused .arguments = true) :
    ∀ k, (∀ m ∈ marksOf k, v.Missing m.scan) → ∀ way ∈ ways k, v.Refuses Lexis.lexicon way.2
  | 0, h => by
    have hmark : v.Missing (Lexis.mark "?".toList []) := h (.sign "?" "") (by decide)
    simp only [ways, List.forall_mem_singleton]
    exact .inl (.inr ⟨trivial, hmark⟩)
  | 13, h => by
    have hup : v.Missing (Lexis.mark "++".toList []) := h (.sign "++" "") (by decide)
    have hdown : v.Missing (Lexis.mark "--".toList []) := h (.sign "--" "") (by decide)
    simp only [ways, List.forall_mem_singleton]
    exact .inr ⟨trivial, hup, hdown⟩
  | 14, h => by
    simp only [marksOf, List.forall_mem_cons] at h
    simp only [ways, List.forall_mem_cons, List.not_mem_nil, false_imp_iff, implies_true, and_true]
    exact ⟨.inl h.1, .inl (refuses_marks h.2)⟩
  | 15, h => by
    have hdot : v.Missing (Lexis.mark ".".toList []) := h (.sign "." "") (by decide)
    have hoptional : v.Missing (Lexis.mark "?.".toList []) := h (.sign "?." "") (by decide)
    have hbracket : v.Missing (Lexis.mark "[".toList []) := h (.sign "[" "") (by decide)
    have hopt : v.Refuses Lexis.lexicon optionalDot := .inr ⟨trivial, hoptional⟩
    have hskip : v.Skips Lexis.lexicon (opt optionalDot) := ⟨.inl hopt, .inr trivial⟩
    simp only [ways, accessWays, callWays, List.cons_append, List.nil_append, List.forall_mem_cons,
      List.not_mem_nil, false_imp_iff, implies_true, and_true]
    exact ⟨.inl hdot, .inl hopt, .inr ⟨hskip, .inl hbracket⟩, htemplate, .inr ⟨hskip, harguments⟩⟩
  | 12, h => by
    simp only [ways, List.forall_mem_singleton]
    exact .inl (refuses_marks h)
  | 1, h | 2, h | 3, h | 4, h | 5, h | 6, h | 7, h | 8, h | 9, h | 10, h | 11, h => by
    rw [ways_binary _ (by decide) (by decide), List.forall_mem_singleton]
    exact .inl (refuses_marks h)
  | k + 16, h => by
    intro way hway
    cases hway

/-! ## Where an operand ends -/

/-- A text that does not go on with the last token of an operand. -/
structure Apart (rest : List Char) : Prop where
  word : ∀ c ∈ rest.head?, endsWord c = true
  arrow : Text.startsWith "=>".toList (Lexis.behindGap rest) = false

/-- A text in front of which no level from `k` on goes on. -/
structure Halts (k : Nat) (rest : List Char) : Prop extends Apart rest where
  dot : rest.head? ≠ some '.'
  stays (j : Nat) : k ≤ j → ∀ d, ∀ way ∈ ways j, run Lexis.lexicon rules d way.2 rest = none

theorem Halts.mono {j : Nat} (h : Halts k rest) (hle : k ≤ j) : Halts j rest :=
  { h with stays := fun i hi => h.stays i (Nat.le_trans hle hi) }

theorem Halts.extend {j : Nat} (h : Halts k rest) (hle : k ≤ j) (again : Bool) (body : List Tree) :
    Answers (.extend body again (ways j)) rest (some (body, rest)) :=
  gives_stay (h.stays j hle)

theorem endsWord_gap (g : Gap) (h : g.text = [] → ∀ c ∈ rest.head?, endsWord c = true) :
    ∀ c ∈ (g.text ++ rest).head?, endsWord c = true := by
  intro c hc
  cases hg : g.text with
  | nil =>
    rw [hg] at hc
    exact h hg c hc
  | cons a u =>
    rw [hg] at hc
    refine endsWord_of_isBlank (g.head c ?_)
    rw [hg]
    exact hc

theorem dot_gap (g : Gap) (h : rest.head? ≠ some '.') : (g.text ++ rest).head? ≠ some '.' := by
  intro hc
  cases hg : g.text with
  | nil => exact h (by rwa [hg] at hc)
  | cons a u =>
    rw [hg] at hc
    have hdot := g.head '.' (by rw [hg]; exact hc)
    exact absurd hdot (by decide)

/-- A text that holds none of the marks of the levels from `k` on ends them. -/
theorem Grammar.Sight.Right.halts (hv : v.Right Lexis.lexicon rules)
    (htemplate : v.refused .template = true) (harguments : v.refused .arguments = true)
    (hmarks : ∀ j, k ≤ j → ∀ m ∈ marksOf j, v.Missing m.scan)
    (harrow : v.Missing (Lexis.mark "=>".toList [])) (g : Gap) (hsolid : Solid rest)
    (hahead : v.ahead rest) (hdot : rest.head? ≠ some '.')
    (hword : g.text = [] → ∀ c ∈ rest.head?, endsWord c = true) : Halts k (g.text ++ rest) := by
  have hbehind : Lexis.behindGap (g.text ++ rest) = rest := g.behindGap hsolid
  have hthere : v.ahead ((g.text ++ rest).drop (Lexis.lexicon.gapLength (g.text ++ rest))) := by
    change v.ahead (Lexis.behindGap (g.text ++ rest))
    rwa [hbehind]
  refine ⟨⟨endsWord_gap g hword, ?_⟩, dot_gap g hdot, fun j hj d way hway => ?_⟩
  · rw [hbehind]
    have h := harrow rest hahead
    cases hstart : Text.startsWith "=>".toList rest with
    | false => rfl
    | true =>
      obtain ⟨u, rfl⟩ := Text.startsWith_iff.1 hstart
      rw [mark_append] at h
      cases u <;> simp at h
  · exact hv.run_eq_none d hthere (refuses_ways htemplate harguments j (hmarks j hj) way hway)

/-- A closing mark ends all levels. -/
theorem halts_of_closing (g : Gap) (h : closing.ahead rest) : Halts 0 (g.text ++ rest) := by
  have hmarks : ∀ j, j < 16 → ∀ m ∈ marksOf j, (match m with
      | .sign w _ => startsOutside closers w.toList
      | .word _ => noName closers) = true := by
    decide
  have hhead : ∀ c ∈ closers, endsWord c = true ∧ c ≠ '.' ∧ Lexis.isBlank c = false ∧ c ≠ '/' := by
    decide
  refine closing_right.halts rfl rfl ?_ (closing_within.mark (by decide) []) g ?_ h ?_ ?_
  · intro j _ m hm
    by_cases hj : j < 16
    · have hplain := hmarks j hj m hm
      cases m with
      | sign w stop => exact closing_within.mark hplain stop.toList
      | word w => exact closing_within.keyword hplain w.toList
    · obtain ⟨i, rfl⟩ := Nat.exists_eq_add_of_le (Nat.le_of_not_lt hj)
      rw [Nat.add_comm] at hm
      cases hm
  · cases rest with
    | nil => rfl
    | cons c u =>
      have hc := hhead c (h c rfl)
      simp [Solid, Lexis.gapFrom, hc.2.2.1, hc.2.2.2]
  · intro hdot
    exact absurd rfl (hhead '.' (h '.' hdot)).2.1
  · intro _ c hc
    exact (hhead c (h c hc)).1

/-- Whether no mark of a level from `k` on stands at a token, nor an arrow. -/
def outranks (k : Nat) (w : List Char) : Bool :=
  isToken w && w.head? != some '.' && !(Mark.sign "=>" "").standsAt w &&
    (List.range 16).all fun j => j < k || (marksOf j).all fun m => m.isRegular && !m.standsAt w

/-- An operator ends all levels above its own. -/
theorem halts_of_outranks (hw : outranks k w = true) (g : Gap)
    (hg : isName w = true → g.text ≠ []) (hrest : isParted w rest = true) :
    Halts k (g.text ++ (w ++ rest)) := by
  simp only [outranks, Bool.and_eq_true, Bool.not_eq_true', bne_iff_ne, List.all_eq_true,
    List.mem_range, Bool.or_eq_true, decide_eq_true_eq] at hw
  obtain ⟨⟨⟨htoken, hdot⟩, harrow⟩, hmarks⟩ := hw
  obtain ⟨c, w, rfl⟩ : ∃ c w', w = c :: w' := by
    cases w with
    | nil => simp [isToken, isName] at htoken
    | cons c w => exact ⟨c, w, rfl⟩
  refine (facing_right (c :: w)).halts ?_ ?_ ?_ (facing_missing (m := .sign "=>" "") htoken
    (by decide) harrow) g (solid_of_isToken htoken hrest) ⟨rest, rfl, hrest⟩ hdot ?_
  · simp [facing, htoken]
  · simp [facing, htoken]
  · intro j hj m hm
    by_cases hlt : j < 16
    · have h := (hmarks j hlt).resolve_left (by omega) m hm
      exact facing_missing htoken h.1 h.2
    · obtain ⟨i, rfl⟩ := Nat.exists_eq_add_of_le (Nat.le_of_not_lt hlt)
      rw [Nat.add_comm] at hm
      cases hm
  · intro hempty a ha
    obtain rfl : c = a := by simpa using ha
    cases hname : isName (c :: w) with
    | true => exact absurd hempty (hg hname)
    | false =>
      simp only [isToken, hname, Bool.false_or, Bool.and_eq_true] at htoken
      exact (isSign_apart (by simpa using htoken.1.1)).2.2.2

/-- What is known of an operator: it is a token, no mark of a tighter level stands at it, and it is
found among the operators of its level. -/
structure IsOperator (k : Nat) (m : Mark) : Prop where
  plain : ∀ a ∈ operators k, a.isRegular = true
  token : isToken m.text = true
  tight : isTight m.text = false
  outranks : outranks (k + 1) m.text = true
  find : (operators k).find? (·.standsAt m.text) = some m

theorem operators_apart : ∀ k, k < 13 → ∀ m ∈ operators k,
    (∀ a ∈ operators k, a.isRegular = true) ∧ isToken m.text = true ∧ isTight m.text = false ∧
      outranks (k + 1) m.text = true ∧ (operators k).find? (·.standsAt m.text) = some m := by
  decide

theorem isOperator_of_mem (h : m ∈ operators k) : k ≤ 12 ∧ IsOperator k m := by
  have hk : k < 13 := by
    refine Decidable.byContradiction fun hk => ?_
    obtain ⟨j, rfl⟩ := Nat.exists_eq_add_of_le (Nat.le_of_not_lt hk)
    rw [Nat.add_comm] at h
    cases h
  obtain ⟨hplain, htoken, htight, houtranks, hfind⟩ := operators_apart k hk m h
  exact ⟨by omega, hplain, htoken, htight, houtranks, hfind⟩

end ReactWeave.Script
