import ReactWeave.Proofs.Depth

/-!
# ReactWeave.Proofs.Lookahead

**What the first token of a text decides.** Most alternatives of a choice fail
at once, because the text in front of them starts with something else. A `Sight`
is a set of texts, given by what stands behind the gap at their start, together
with the rules that fail or read nothing there; that these are right follows
from the first tokens of the rules (`Sight.Right.reads`).

* `starting`, `named`, `dots`: texts that start with a given character, with a
  name and with three dots.
-/

namespace ReactWeave.Script

namespace Grammar

/-! ## Refusing and skipping at first sight -/

/-- Texts that are known by what stands behind the gap at their start, and what is claimed of the
rules of a grammar in front of such a text. -/
structure Sight (R : Type) where
  /-- What stands behind the gap. -/
  ahead : List Char → Prop
  /-- Which rules fail. -/
  refused : R → Bool
  /-- Which rules read nothing, if they do not fail. -/
  skipped : R → Bool

namespace Sight

variable {R : Type}

/-- Whether a token is not there. -/
def Missing (v : Sight R) (scan : Scan) : Prop := ∀ u, v.ahead u → scan u = none

mutual

/-- Whether a grammar fails, as far as its first tokens show. -/
def Refuses (lex : Lexicon) (v : Sight R) : Grammar R → Prop
  | token _ scan => v.Missing scan
  | check test => ∀ s, v.ahead (s.drop (lex.gapLength s)) → test s = false
  | rule r => v.refused r = true
  | seq a b => Refuses lex v a ∨ Skips lex v a ∧ Refuses lex v b
  | alt a b => Refuses lex v a ∧ Refuses lex v b
  | node _ a | field _ a | reshape _ a | grow a _ _ => Refuses lex v a
  | empty | glued _ _ | gap | many _ | absent _ | extend _ _ _ => False

/-- Whether a grammar reads nothing, if it does not fail. -/
def Skips (lex : Lexicon) (v : Sight R) : Grammar R → Prop
  | empty | check _ | absent _ => True
  | rule r => v.skipped r = true
  | seq a b => Skips lex v a ∧ Skips lex v b
  | alt a b => (Refuses lex v a ∨ Skips lex v a) ∧ (Refuses lex v b ∨ Skips lex v b)
  | many a => Refuses lex v a
  | token _ _ | glued _ _ | gap | node _ _ | field _ _ | reshape _ _ | grow _ _ _
  | extend _ _ _ => False

end

/-- What is claimed of the rules is right. -/
structure Right (lex : Lexicon) (rules : R → Grammar R) (v : Sight R) : Prop where
  refused (r) : v.refused r = true → v.Refuses lex (rules r)
  skipped (r) : v.skipped r = true → v.Skips lex (rules r)

variable {lex : Lexicon} {rules : R → Grammar R} {v : Sight R}

/-- **What is refused at a text is not read there**, and what is skipped takes nothing. -/
theorem Right.reads (hv : v.Right lex rules) {g : Grammar R} {s rest : List Char} {ts : List Tree}
    (h : Reads lex rules g s ts rest) (hs : v.ahead (s.drop (lex.gapLength s))) :
    ¬v.Refuses lex g ∧ (v.Skips lex g → ts = [] ∧ rest = s) := by
  induction h with
  | empty | absent => simp [Refuses]
  | glued | gap | stay | goOn => simp [Refuses, Skips]
  | token h =>
    refine ⟨fun hg => ?_, by simp [Skips]⟩
    simp [readToken, hg _ hs] at h
  | check h =>
    refine ⟨fun hg => ?_, by simp⟩
    simp [hg _ hs] at h
  | rule _ ih =>
    exact ⟨fun hg => (ih hs).1 (hv.refused _ hg), fun hg => (ih hs).2 (hv.skipped _ hg)⟩
  | seq _ _ iha ihb =>
    constructor
    · intro hg
      rcases hg with hg | ⟨ha, hb⟩
      · exact (iha hs).1 hg
      · obtain ⟨-, rfl⟩ := (iha hs).2 ha
        exact (ihb hs).1 hb
    · intro hg
      obtain ⟨rfl, rfl⟩ := (iha hs).2 hg.1
      exact (ihb hs).2 hg.2
  | altLeft _ ih =>
    exact ⟨fun hg => (ih hs).1 hg.1, fun hg => (ih hs).2 (hg.1.resolve_left (ih hs).1)⟩
  | altRight _ ih =>
    exact ⟨fun hg => (ih hs).1 hg.2, fun hg => (ih hs).2 (hg.2.resolve_left (ih hs).1)⟩
  | manyNil => simp [Refuses]
  | manyCons _ _ ih => exact ⟨by simp [Refuses], fun hg => absurd hg (ih hs).1⟩
  | node _ ih | field _ _ ih | reshape _ _ ih | grow _ _ ih =>
    exact ⟨fun hg => (ih hs).1 hg, by simp [Skips]⟩

theorem Right.run_eq_none (hv : v.Right lex rules) {g : Grammar R} {s : List Char} (d : Nat)
    (hs : v.ahead (s.drop (lex.gapLength s))) (hg : v.Refuses lex g) : run lex rules d g s = none := by
  cases h : run lex rules d g s with
  | none => rfl
  | some r => exact absurd hg (hv.reads (reads_of_run h) hs).1

/-- A grammar that is refused at a text gives nothing there. -/
theorem Right.gives (hv : v.Right lex rules) {g : Grammar R} {s : List Char}
    (hs : v.ahead (s.drop (lex.gapLength s))) (hg : v.Refuses lex g) :
    Gives lex rules g s none :=
  ⟨0, fun d _ => hv.run_eq_none d hs hg⟩

theorem Right.gives_alts (hv : v.Right lex rules) {gs : List (Grammar R)} {g : Grammar R}
    {s rest : List Char} {ts : List Tree} (hs : v.ahead (s.drop (lex.gapLength s))) (i : Nat)
    (hi : gs[i]? = some g) (hbefore : ∀ a ∈ gs.take i, v.Refuses lex a)
    (h : Gives lex rules g s (some (ts, rest))) :
    Gives lex rules (alts gs) s (some (ts, rest)) :=
  Grammar.gives_alts i hi (fun a ha => hv.gives hs (hbefore a ha)) h

theorem Right.gives_grow (hv : v.Right lex rules) {base : Grammar R} {again : Bool}
    {ways : List (Continuation × Grammar R)} {s rest : List Char} {ts : List Tree}
    (hways : ∀ way ∈ ways, v.Refuses lex way.2) (hrest : v.ahead (rest.drop (lex.gapLength rest)))
    (h : Gives lex rules base s (some (ts, rest))) :
    Gives lex rules (grow base again ways) s (some (ts, rest)) := by
  have hstay : Gives lex rules (extend (splitTrivia ts).2 again ways) rest
      (some ((splitTrivia ts).2, rest)) :=
    gives_stay fun d way hway => hv.run_eq_none d hrest (hways way hway)
  simpa only [splitTrivia_append] using h.grow hstay

end Sight

/-! ## Tokens that are not there -/

section Tokens

variable {R : Type} {v : Sight R} {cs : List Char}

/-- Whether what stands behind the gap, if it is not the end, starts with one of `cs`. -/
def Sight.Within (v : Sight R) (cs : List Char) : Prop := ∀ c u, v.ahead (c :: u) → c ∈ cs

/-- Whether a word starts with another character than `cs`. -/
def startsOutside (cs : List Char) : List Char → Bool
  | [] => false
  | a :: _ => !cs.contains a

/-- A mark that starts with another character is not there. -/
theorem Sight.Within.mark (hv : v.Within cs) {w : List Char} (hw : startsOutside cs w = true)
    (stop : List Char) : v.Missing (Lexis.mark w stop) := by
  intro u hu
  cases w with
  | nil => simp [startsOutside] at hw
  | cons a w =>
    have hnot : Text.startsWith (a :: w) u = false := by
      cases u with
      | nil => rfl
      | cons c u =>
        have hc := hv c u hu
        simp only [startsOutside, Bool.not_eq_true', List.contains_eq_mem,
          decide_eq_false_iff_not] at hw
        have hne : a ≠ c := fun h => hw (h ▸ hc)
        simp [Text.startsWith, hne]
    simp [Lexis.mark, hnot]

/-- Whether no name starts with one of `cs`. -/
def noName (cs : List Char) : Bool := cs.all fun c => !Lexis.isNameStart c && c != '\\'

theorem Sight.Within.nameLength (hv : v.Within cs) (hcs : noName cs = true) {u : List Char}
    (hu : v.ahead u) : Lexis.nameLength u = 0 := by
  cases u with
  | nil => rfl
  | cons c u =>
    have hc := List.all_eq_true.1 hcs c (hv c u hu)
    simp only [Bool.and_eq_true, Bool.not_eq_true', bne_iff_ne] at hc
    simp [Lexis.nameLength, hc.1, hc.2]

theorem Sight.Within.name (hv : v.Within cs) (hcs : noName cs = true) (test : List Char → Bool) :
    v.Missing (Lexis.name test) := by
  intro u hu
  simp [Lexis.name, hv.nameLength hcs hu]

theorem Sight.Within.keyword (hv : v.Within cs) (hcs : noName cs = true) (w : List Char) :
    v.Missing (Lexis.keyword w) :=
  hv.name hcs _

theorem Sight.Within.dashedName (hv : v.Within cs) (hcs : noName cs = true) :
    v.Missing Lexis.dashedName := by
  intro u hu
  simp [Lexis.dashedName, hv.nameLength hcs hu]

theorem Sight.Within.privateName (hv : v.Within cs) (hcs : '#' ∉ cs) :
    v.Missing Lexis.privateName := by
  intro u hu
  unfold Lexis.privateName
  split
  · exact absurd (hv _ _ hu) hcs
  · rfl

/-- Without a digit or a point there is no number. -/
theorem Sight.Within.number (hv : v.Within cs) (hdot : '.' ∉ cs)
    (hcs : (cs.all fun c => !c.isDigit) = true) : v.Missing Lexis.number := by
  intro u hu
  cases u with
  | nil => rfl
  | cons c u =>
    have hc := hv c u hu
    have hd : c.isDigit = false := by simpa using List.all_eq_true.1 hcs c hc
    have hzero : c ≠ '0' := by
      rintro rfl
      simp at hd
    have hpoint : c ≠ '.' := by
      rintro rfl
      exact hdot hc
    simp [Lexis.number, Lexis.decimalNumber, Lexis.digits, hd, hzero, hpoint]

end Tokens

end Grammar

open Grammar Rules

/-! ## In front of a closing bracket -/

/-- Marks behind which something else starts. -/
def closers : List Char := [')', '}', ']', ',', ':', ';']

/-- Rules that start with an operand or an operator in front of one. -/
def startsOperand : Rule → Bool
  | .element | .ternary | .coalesce | .disjunction | .conjunction | .bitOr | .bitXor | .bitAnd
  | .equality | .relation | .shift | .sum | .product | .power | .unary | .operand | .chain
  | .primary | .creation | .parens | .array | .object | .template | .string | .jsx | .regex
  | .decorator => true
  | _ => false

/-- One of these marks, or the end of the text. -/
def closing : Sight Rule where
  ahead u := ∀ c ∈ u.head?, c ∈ closers
  refused
    | .spread | .arguments => true
    | r => startsOperand r
  skipped r := r = .decorators

theorem closing_within : closing.Within closers := by
  intro c u h
  simpa [closing] using h

/-- At a closing mark every rule for a part is refused. -/
theorem closing_right : closing.Right Lexis.lexicon rules where
  refused r h := by
    have hmark := fun {w : List Char} => closing_within.mark (w := w)
    have hword := closing_within.keyword (by decide)
    have hname := closing_within.name (by decide)
    have hprivate := closing_within.privateName (by decide)
    have hnumber := closing_within.number (by decide) (by decide)
    cases r
    all_goals simp only [closing, startsOperand, Bool.false_eq_true] at h
    all_goals
      simp (disch := decide) [rules, Sight.Refuses, Sight.Skips, seqs, alts, opt, leftLevel,
        Rules.mark, markBut, word, Rules.identifier, valueWord, Rules.privateName, functions,
        function, hmark, hword, hname, hprivate, hnumber]
    all_goals decide
  skipped r h := by
    obtain rfl := of_decide_eq_true h
    simp [rules, Sight.Skips, Sight.Refuses, closing, startsOperand]

/-- What goes on with no construct in front of a closing bracket. -/
def Ends (ways : List (Continuation × G)) : Prop :=
  ∀ way ∈ ways, closing.Refuses Lexis.lexicon way.2

theorem ends_of_level {r next : Rule} {again : Bool} {ways : List (Continuation × G)}
    (h : rules r = grow (rule next) again ways) : Ends ways := by
  have hmark := fun {w : List Char} => closing_within.mark (w := w)
  have hword := closing_within.keyword (by decide)
  cases r
  all_goals
    simp only [rules, leftLevel, seqs, alts, Rules.sequence, fromObject, grow.injEq, rule.injEq,
      reduceCtorEq, false_and] at h
  all_goals
    obtain ⟨-, -, rfl⟩ := h
    simp (disch := decide) [Ends, binaryWay, goesOn, Sight.Refuses, Sight.Skips, alts,
      compoundAssignment, Rules.mark, markBut, word, hmark, hword]

theorem ends_chain : Ends (accessWays ++ callWays) := by
  have hmark := fun {w : List Char} => closing_within.mark (w := w)
  simp (disch := decide) [Ends, accessWays, callWays, goesOn, Sight.Refuses, Sight.Skips, opt,
    optionalDot, index, seqs, Rules.mark, hmark]
  exact ⟨rfl, rfl⟩

section Closing

variable {s rest : List Char} {ts : List Tree}

theorem gives_element_of_unary (hrest : closing.ahead (Lexis.behindGap rest))
    (h : Answers (.rule .unary) s (some (ts, rest))) :
    Answers (.rule .element) s (some (ts, rest)) := by
  have climb {r next : Rule} {again : Bool} {ways : List (Continuation × G)}
      (hr : rules r = grow (rule next) again ways)
      (h : Answers (.rule next) s (some (ts, rest))) :
      Answers (.rule r) s (some (ts, rest)) :=
    .rule (hr ▸ closing_right.gives_grow (ends_of_level hr) hrest h)
  exact .rule (climb (r := .ternary) rfl (climb (r := .coalesce) rfl (climb (r := .disjunction) rfl
    (climb (r := .conjunction) rfl (climb (r := .bitOr) rfl (climb (r := .bitXor) rfl
    (climb (r := .bitAnd) rfl (climb (r := .equality) rfl (climb (r := .relation) rfl
    (climb (r := .shift) rfl (climb (r := .sum) rfl (climb (r := .product) rfl
    (climb (r := .power) rfl h)))))))))))))

end Closing

/-! ## In front of an operand -/

/-- Names without escapes that are no keyword anywhere in an expression. -/
def isPlainName (w : List Char) : Bool :=
  w.head?.any Lexis.isNameStart && w.all Lexis.isNamePart && Lexis.isLabel w &&
    !(["async".toList, "await".toList].contains w)

/-- Whether a text starts with such a name, and does not go on with it. -/
def StartsWithName (u : List Char) : Prop :=
  ∃ w r, isPlainName w = true ∧ u = w ++ r ∧ Lexis.nameLength u = w.length

/-- What an operand may start with: a bracket that opens, or a name. -/
def opening : Sight Rule where
  ahead u := (∃ c ∈ ['<', '(', '{'], u.head? = some c) ∨ StartsWithName u
  refused r := r = .creation ∨ r = .decorator
  skipped r := r = .decorators

theorem isPlainName_head {w : List Char} (h : isPlainName w = true) :
    ∃ c w', w = c :: w' ∧ Lexis.isNameStart c = true := by
  cases w with
  | nil => simp [isPlainName] at h
  | cons c w' =>
    simp only [isPlainName, List.head?_cons, Option.any_some, Bool.and_eq_true] at h
    exact ⟨c, w', rfl, h.1.1.1⟩

/-- Whether a mark starts neither with an opening bracket nor like a name. -/
def noOpening (w : List Char) : Bool :=
  w.head?.any fun a => !(['<', '(', '{'].contains a) && !Lexis.isNameStart a

theorem StartsWithName.startsWith {u : List Char} (hu : StartsWithName u) {a : Char}
    (ha : Lexis.isNameStart a = false) (w : List Char) : Text.startsWith (a :: w) u = false := by
  obtain ⟨n, r, hn, rfl, -⟩ := hu
  obtain ⟨c, n, rfl, hc⟩ := isPlainName_head hn
  have hne : a ≠ c := by
    rintro rfl
    rw [ha] at hc
    cases hc
  simp [Text.startsWith, hne]

/-- A name that is no keyword is not read as one. -/
theorem StartsWithName.keyword {u : List Char} (hu : StartsWithName u) {k : List Char}
    (hk : isPlainName k = false) : Lexis.keyword k u = none := by
  obtain ⟨n, r, hn, rfl, hlen⟩ := hu
  have hne : n ≠ k := by
    rintro rfl
    rw [hn] at hk
    cases hk
  simp [Lexis.keyword, Lexis.name, hlen, hne]

/-- A mark that opens no operand is not there. -/
theorem opening_mark {w : List Char} (hw : noOpening w = true) (stop : List Char) :
    opening.Missing (Lexis.mark w stop) := by
  intro u hu
  cases w with
  | nil => simp [noOpening] at hw
  | cons a w =>
    simp only [noOpening, List.head?_cons, Option.any_some, Bool.and_eq_true,
      Bool.not_eq_true'] at hw
    have hnot : Text.startsWith (a :: w) u = false := by
      rcases hu with ⟨c, hc, hu⟩ | hu
      · obtain ⟨r, rfl⟩ := List.head?_eq_some_iff.1 hu
        have hne : a ≠ c := by
          rintro rfl
          simp [List.contains_eq_mem, hc] at hw
        simp [Text.startsWith, hne]
      · exact hu.startsWith hw.2 w
    simp [Lexis.mark, hnot]

theorem opening_keyword {k : List Char} (hk : isPlainName k = false) :
    opening.Missing (Lexis.keyword k) := by
  intro u hu
  rcases hu with ⟨c, hc, hu⟩ | hu
  · have hzero : Lexis.nameLength u = 0 := by
      obtain ⟨r, rfl⟩ := List.head?_eq_some_iff.1 hu
      simp only [List.mem_cons, List.not_mem_nil, or_false] at hc
      rcases hc with rfl | rfl | rfl <;> rfl
    simp [Lexis.keyword, Lexis.name, hzero]
  · exact hu.keyword hk

/-- At the start of an operand no rule for operators and statements is left. -/
theorem opening_right : opening.Right Lexis.lexicon rules where
  refused r h := by
    have hmark := fun {w : List Char} => opening_mark (w := w)
    have hword := fun {k : List Char} => opening_keyword (k := k)
    obtain rfl | rfl := of_decide_eq_true h
    all_goals simp (disch := decide) [rules, Sight.Refuses, seqs, Rules.mark, word, hmark, hword]
  skipped r h := by
    obtain rfl := of_decide_eq_true h
    simp [rules, Sight.Skips, Sight.Refuses, opening]

section Operand

variable {s rest : List Char} {ts : List Tree}

/-- **An operand between an opening and a closing is an element**: it passes all levels. -/
theorem gives_element_of_primary (hs : opening.ahead (Lexis.behindGap s))
    (hrest : closing.ahead (Lexis.behindGap rest))
    (h : Answers (.rule .primary) s (some (ts, rest))) :
    Answers (.rule .element) s (some (ts, rest)) := by
  have hmark := fun {w : List Char} => opening_mark (w := w)
  have hword := fun {k : List Char} => opening_keyword (k := k)
  have hclose := fun {w : List Char} => closing_within.mark (w := w)
  have hno {g : G} (hg : opening.Refuses Lexis.lexicon g) : Answers g s none :=
    opening_right.gives hs hg
  have hchain : Answers (.rule .chain) s (some (ts, rest)) := by
    refine .rule (closing_right.gives_grow ends_chain hrest ?_)
    refine .alt_second (hno ?_) (.alt_second (hno ?_) (.alt_second (hno ?_) (.alt_second (hno ?_) h)))
    case refine_2 => exact rfl
    all_goals
      simp (disch := decide) [Sight.Refuses, seqs, word, valueWord, hword]
  have hoperand : Answers (.rule .operand) s (some (ts, rest)) :=
    .rule (closing_right.gives_grow (ends_of_level (r := .operand) rfl) hrest hchain)
  refine gives_element_of_unary hrest (.rule ?_)
  refine .alt_second (hno ?_) (.alt_second (hno ?_) (.alt_second (hno ?_) (.alt_second (hno ?_)
    (.alt (closing_right.gives_grow ?_ hrest hoperand)))))
  case refine_5 =>
    simp (disch := decide) [goesOn, Sight.Refuses, Sight.Skips, unfinished, Rules.mark, hclose]
  all_goals
    simp (disch := decide) [Sight.Refuses, alts, Rules.mark, word, hmark, hword]

/-- The alternatives in front of plain operands are refused. -/
theorem gives_primary {a b c d : G} {gs : List G}
    (hrule : rules .primary = .alt a (.alt b (.alt c (.alt d (alts gs)))))
    (hs : opening.ahead (Lexis.behindGap s))
    (h : Answers (alts gs) s (some (ts, rest))) :
    Answers (.rule .primary) s (some (ts, rest)) := by
  have hword := fun {k : List Char} => opening_keyword (k := k)
  have hno {g : G} (hg : opening.Refuses Lexis.lexicon g) : Answers g s none :=
    opening_right.gives hs hg
  refine .rule ?_
  rw [hrule]
  rw [rules, alts, alts, alts, alts, alt.injEq, alt.injEq, alt.injEq, alt.injEq] at hrule
  obtain ⟨rfl, rfl, rfl, rfl, -⟩ := hrule
  refine .alt_second (hno ?_) (.alt_second (hno ?_) (.alt_second (hno ?_) (.alt_second (hno ?_) h)))
  all_goals
    simp (disch := decide) [Sight.Refuses, Sight.Skips, seqs, opt, functions, function, word, hword]
  all_goals decide

end Operand

/-! ## In front of a character -/

/-- Texts that start with the character `c`. -/
def starting (c : Char) : Sight Rule where
  ahead u := u.head? = some c
  refused
    | .block | .object | .jsxExpression => c ≠ '{'
    | .parens => c ≠ '('
    | .array => c ≠ '['
    | .template => c ≠ '\x60'
    | .string => c ≠ '\x22' ∧ c ≠ '\x27'
    | .jsx => c ≠ '<'
    | .spread => c ≠ '.'
    | .decorator => c ≠ '@'
    | .regex => c ≠ '/'
    | _ => false
  skipped r := r = .decorators ∧ c ≠ '@'

theorem starting_within (c : Char) : (starting c).Within [c] := by
  intro a u h
  simpa [starting] using h

/-- At a given character the rules that need another one are refused. -/
theorem starting_right (c : Char) : (starting c).Right Lexis.lexicon rules where
  refused r h := by
    have hmark := fun {w : List Char} => (starting_within c).mark (w := w)
    cases r
    all_goals simp only [starting, decide_eq_true_eq, Bool.false_eq_true] at h
    all_goals simp [rules, Sight.Refuses, seqs, Rules.mark, markBut, startsOutside, hmark, h, Ne.symm]
  skipped r h := by
    simp only [starting, decide_eq_true_eq] at h
    obtain ⟨rfl, hc⟩ := h
    simp [rules, Sight.Skips, Sight.Refuses, starting, hc]

theorem starting_mayOpenObject {c : Char} (hc : c ≠ '{') :
    (starting c).Refuses Lexis.lexicon mayOpenObject := by
  intro s hs
  obtain ⟨r, hr⟩ := List.head?_eq_some_iff.1 hs
  have hbehind : Lexis.behindGap s = c :: r := hr
  simp only [hbehind]
  split
  · rename_i h
    exact absurd (List.cons.inj h).1 hc
  · rfl

/-! ## In front of a name -/

/-- Texts that start with a plain name. -/
def named : Sight Rule where
  ahead := StartsWithName
  refused
    | .parens | .array | .object | .template | .string => true
    | _ => false
  skipped _ := false

theorem named_mark {w : List Char} (hw : (w.head?.any fun a => !Lexis.isNameStart a) = true)
    (stop : List Char) : named.Missing (Lexis.mark w stop) := by
  intro u hu
  cases w with
  | nil => simp at hw
  | cons a w =>
    have ha : Lexis.isNameStart a = false := by simpa using hw
    simp [Lexis.mark, hu.startsWith ha w]

theorem named_number : named.Missing Lexis.number := by
  rintro u ⟨w, r, hw, rfl, -⟩
  obtain ⟨c, w, rfl, hc⟩ := isPlainName_head hw
  have hdigit : c.isDigit = false := by
    simp only [Lexis.isNameStart, Bool.and_eq_true, Bool.not_eq_true'] at hc
    exact hc.2
  have hzero : c ≠ '0' := by
    rintro rfl
    simp at hdigit
  have hpoint : c ≠ '.' := by
    rintro rfl
    exact absurd hc (by decide)
  simp [Lexis.number, Lexis.decimalNumber, Lexis.digits, hdigit, hzero, hpoint]

theorem named_right : named.Right Lexis.lexicon rules where
  refused r h := by
    have hmark := fun {w : List Char} => named_mark (w := w)
    cases r
    all_goals simp only [named, Bool.false_eq_true] at h
    all_goals simp (disch := decide) [rules, Sight.Refuses, seqs, Rules.mark, hmark]
  skipped r h := by simp [named] at h

/-! ## In front of three dots -/

/-- Texts that start with three dots. -/
def dots : Sight Rule where
  ahead u := ∃ r, u = '.' :: '.' :: '.' :: r
  refused := startsOperand
  skipped r := r = .decorators

theorem dots_within : dots.Within ['.'] := by
  rintro c u ⟨r, hr⟩
  simp [(List.cons.inj hr).1]

theorem dots_number : dots.Missing Lexis.number := by
  rintro u ⟨r, rfl⟩
  rfl

theorem dots_right : dots.Right Lexis.lexicon rules where
  refused r h := by
    have hmark := fun {w : List Char} => dots_within.mark (w := w)
    have hword := dots_within.keyword (by decide)
    have hname := dots_within.name (by decide)
    have hprivate := dots_within.privateName (by decide)
    cases r
    all_goals simp only [dots, startsOperand, Bool.false_eq_true] at h
    all_goals
      simp (disch := decide) [rules, Sight.Refuses, Sight.Skips, seqs, alts, opt, leftLevel,
        Rules.mark, markBut, word, Rules.identifier, valueWord, Rules.privateName, functions,
        function, hmark, hword, hname, hprivate, dots_number]
    all_goals decide
  skipped r h := by
    obtain rfl := of_decide_eq_true h
    simp [rules, Sight.Skips, Sight.Refuses, dots, startsOperand]

section Bracket

variable {s rest : List Char} {ts us : List Tree}

/-- Parentheses that no arrow follows are an operand. -/
theorem gives_primary_parens (hs : (Lexis.behindGap s).head? = some '(')
    (harrow : Answers (Rules.mark "=>") rest none)
    (h : Answers (.rule .parens) s (some (ts, rest)))
    (hform : Reshape.asParenthesized (splitTrivia ts).2 = some us) :
    Answers (.rule .primary) s (some ((splitTrivia ts).1 ++ us, rest)) := by
  have hname := (starting_within '(').name (by decide)
  have hstop : Answers (.extend (splitTrivia ts).2 false
      [(⟨.arrowFunction, Reshape.asParameters⟩, seq (Rules.mark "=>") (rule .arrowBody))]) rest
        (some ((splitTrivia ts).2, rest)) :=
    gives_stop (by simpa using harrow.seq_none)
  have hgrow := h.grow hstop
  rw [splitTrivia_append] at hgrow
  refine gives_primary rfl (.inl ⟨_, by decide, hs⟩)
    ((starting_right '(').gives_alts hs 1 rfl ?_ (hgrow.reshape hform))
  simp (disch := decide) [Sight.Refuses, seqs, hname]

theorem gives_primary_object (hs : (Lexis.behindGap s).head? = some '{')
    (h : Answers (.rule .object) s (some (ts, rest))) :
    Answers (.rule .primary) s (some (ts, rest)) := by
  have hname := (starting_within '{').name (by decide)
  refine gives_primary rfl (.inl ⟨_, by decide, hs⟩)
    ((starting_right '{').gives_alts hs 3 rfl ?_ h)
  simp (disch := decide) [Sight.Refuses, seqs, hname]
  decide

theorem gives_primary_jsx (hs : (Lexis.behindGap s).head? = some '<')
    (h : Answers (.rule .jsx) s (some (ts, rest))) :
    Answers (.rule .primary) s (some (ts, rest)) := by
  have hname := (starting_within '<').name (by decide)
  have hword := (starting_within '<').keyword (by decide)
  have hnumber := (starting_within '<').number (by decide) (by decide)
  refine gives_primary rfl (.inl ⟨_, by decide, hs⟩)
    ((starting_right '<').gives_alts hs 14 rfl ?_ h)
  simp (disch := decide) [Sight.Refuses, seqs, valueWord, Rules.identifier, hname, hword, hnumber]
  decide

end Bracket

end ReactWeave.Script
