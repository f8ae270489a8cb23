import Mathlib.Data.List.Forall2
import ReactWeave.Proofs.Reading
import ReactWeave.Script.Replace

/-!
# ReactWeave.Proofs.Lossless

**Reading loses nothing.** The texts of the leaves of a tree, from left to
right, are the text that was read, blanks and comments included.

Tokens and gaps are cut out of the text, so the only steps that could lose
something are the changes of form (`ReactWeave.Script.Reshape`). Each of them is
shown to keep the text (`KeepsText`); the rest is the induction of
`Grammar.Reads.keeps`.

* `every_rules` collects what the rules of the language mention, so that a
  demand on all rules comes down to one fact for each sort of thing.
* `readProgram_text` and `Fragment.text_of_parse?` are the results.
-/

namespace ReactWeave.Script

open ReactWeave.Script.Tree (textOf)

/-! ## Gaps -/

theorem drop_length_takeWhile (p : Char → Bool) (s : List Char) :
    s.drop (s.takeWhile p).length = s.dropWhile p := by
  have h := congrArg (List.drop (s.takeWhile p).length)
    (List.takeWhile_append_dropWhile (p := p) (l := s))
  rw [List.drop_left] at h
  exact h.symm

/-- The pieces of a gap are the gap. -/
theorem Lexis.textOf_piecesOf (fuel : Nat) (s : List Char) : textOf (piecesOf fuel s) = s := by
  induction fuel generalizing s with
  | zero => cases s <;> simp [piecesOf]
  | succ fuel ih =>
    cases s with
    | nil => simp [piecesOf]
    | cons c s =>
      simp only [piecesOf]
      cases commentLength (c :: s) with
      | some n => simp [ih]
      | none =>
        dsimp only
        split
        · simp
        · rw [drop_length_takeWhile, Tree.textOf_cons, ih, Tree.text_gap,
            List.takeWhile_append_dropWhile]

/-! ## Changes of form -/

/-- Whether a change of form keeps the text. -/
def KeepsText (form : List Tree → Option (List Tree)) : Prop :=
  ∀ ts us, form ts = some us → textOf us = textOf ts

namespace Reshape

open ReactWeave.Script.Tree

/-- What a relation has to admit so that it relates literals to the patterns that they would be: a
tree stays, or is a lone name in an object, or a default value, or its parts become patterns. -/
structure Patterning (R : Tree → Tree → Prop) : Prop where
  refl (t) : R t t
  shorthand (r t) : R (token .shorthandPropertyIdentifier r t)
    (token .shorthandPropertyIdentifierPattern r t)
  default (r ps) : R (node .assignment r ps) (node .assignmentPattern r ps)
  parts {k k' : Kind} (r) {ps qs : List Tree} :
    k' ∈ [.objectPattern, .arrayPattern, .restPattern, .pairPattern] → List.Forall₂ R ps qs →
      R (node k r ps) (node k' r qs)

variable {R : Tree → Tree → Prop}

mutual

/-- What an expression has in common with itself as a pattern, if each step keeps it. -/
theorem Patterning.pattern (hR : Patterning R) : ∀ {t p : Tree}, asPattern t = some p → R t p
  | gap t, p, h => by
    simp only [asPattern, Option.some.injEq] at h
    exact h ▸ hR.refl _
  | token k r t, p, h => by
    simp only [asPattern] at h
    split at h
    case h_5 => exact Option.some.inj h ▸ hR.shorthand r t
    case h_6 => cases h
    all_goals exact Option.some.inj h ▸ hR.refl _
  | node k r ps, p, h => by
    simp only [asPattern] at h
    split at h
    case h_6 | h_7 | h_8 =>
      obtain ⟨qs, hq, rfl⟩ := Option.map_eq_some_iff.1 h
      exact hR.parts r (by simp) (hR.patterns hq)
    case h_9 =>
      obtain ⟨qs, hq, rfl⟩ := Option.map_eq_some_iff.1 h
      exact hR.parts r (by simp) (hR.value hq)
    case h_10 =>
      split at h
      · cases h
      · exact Option.some.inj h ▸ hR.default r ps
    case h_11 => cases h
    all_goals exact Option.some.inj h ▸ hR.refl _

theorem Patterning.patterns (hR : Patterning R) : ∀ {ts us : List Tree},
    asPatterns ts = some us → List.Forall₂ R ts us
  | [], us, h => by
    simp only [asPatterns, Option.some.injEq] at h
    exact h ▸ .nil
  | t :: ts, us, h => by
    simp only [asPatterns] at h
    split at h
    · cases h
    · rename_i p hp
      obtain ⟨qs, hq, rfl⟩ := Option.map_eq_some_iff.1 h
      exact .cons (hR.pattern hp) (hR.patterns hq)

theorem Patterning.value (hR : Patterning R) : ∀ {ts us : List Tree},
    valueAsPattern ts = some us → List.Forall₂ R ts us
  | [], us, h => by
    simp only [valueAsPattern, Option.some.injEq] at h
    exact h ▸ .nil
  | t :: ts, us, h => by
    simp only [valueAsPattern] at h
    split at h
    · split at h
      · cases h
      · rename_i p hp
        obtain ⟨qs, hq, rfl⟩ := Option.map_eq_some_iff.1 h
        exact .cons (hR.pattern hp) (hR.value hq)
    · obtain ⟨qs, hq, rfl⟩ := Option.map_eq_some_iff.1 h
      exact .cons (hR.refl t) (hR.value hq)

end

theorem textOf_of_forall₂ {ts us : List Tree}
    (h : List.Forall₂ (fun t u => u.text = t.text) ts us) : textOf us = textOf ts := by
  induction h with
  | nil => rfl
  | cons ht _ ih => simp [ht, ih]

theorem patterning_text : Patterning fun t p => p.text = t.text where
  refl _ := rfl
  shorthand _ _ := by simp
  default _ _ := by simp
  parts _ _ _ _ h := by simpa using textOf_of_forall₂ h

/-! What each change of form makes of its trees. -/

theorem asPart_eq_some {r : Role} {ts us : List Tree} (h : asPart r ts = some us) :
    ∃ t, t.isTrivia = false ∧ ts = [t] ∧ us = [t.withRole r] := by
  unfold asPart at h
  split at h
  · split at h
    · cases h
    · rename_i hnot
      exact ⟨_, by simpa using hnot, rfl, (Option.some.inj h).symm⟩
  · cases h

theorem isTrivia_eq_false {t : Tree} {k : Kind} (h : t.kind? = some k) (hk : k ≠ .comment) :
    t.isTrivia = false := by
  cases t with
  | gap s => cases h
  | token k' r s =>
    cases h
    cases k
    case comment => exact absurd rfl hk
    all_goals rfl
  | node k' r ps => rfl

/-- The target of an assignment is a part as it is or as a pattern. -/
theorem asTarget_eq_some {ts us : List Tree} (h : asTarget ts = some us) :
    ∃ t p, t.isTrivia = false ∧ ts = [t] ∧ us = [p.withRole .left] ∧
      (p = t ∨ asPattern t = some p) := by
  unfold asTarget at h
  split at h
  · rename_i t
    split at h
    case h_8 hk | h_9 hk =>
        obtain ⟨p, hp, rfl⟩ := Option.map_eq_some_iff.1 h
        exact ⟨t, p, isTrivia_eq_false hk (by decide), rfl, rfl, .inr hp⟩
    case h_10 => cases h
    all_goals
      rename_i hk
      exact ⟨t, t, isTrivia_eq_false hk (by decide), rfl, (Option.some.inj h).symm, .inl rfl⟩
  · cases h

theorem asPlace_eq_some {ts us : List Tree} (h : asPlace ts = some us) :
    ∃ t, t.isTrivia = false ∧ ts = [t] ∧ us = [t.withRole .left] := by
  unfold asPlace at h
  split at h
  · split at h
    case h_5 => cases h
    all_goals
      rename_i hk
      exact ⟨_, isTrivia_eq_false hk (by decide), rfl, (Option.some.inj h).symm⟩
  · cases h

theorem asBindingTarget_eq_some {ts us : List Tree} (h : asBindingTarget ts = some us) :
    us = ts := by
  unfold asBindingTarget at h
  split at h
  · split at h
    case h_5 => cases h
    all_goals exact (Option.some.inj h).symm
  · cases h

theorem complete_eq_some {ts us : List Tree} (h : complete ts = some us) : us = ts := by
  unfold complete at h
  split at h
  · cases h
  · exact (Option.some.inj h).symm

theorem startsWithMembers_eq_some {ts us : List Tree} (h : startsWithMembers ts = some us) :
    us = ts := by
  unfold startsWithMembers at h
  split at h
  · exact (Option.some.inj h).symm
  · cases h

/-- Parameters are what stands in parentheses, as it is or as patterns. -/
theorem asParameters_eq_some {ts us : List Tree} (h : asParameters ts = some us) :
    ∃ r ps qs, ts = [node .parens r ps] ∧ us = [node .formalParameters (some .parameters) qs] ∧
      (qs = ps ∨ asPatterns ps = some qs) := by
  unfold asParameters at h
  split at h
  · rename_i r ps
    split at h
    · exact ⟨r, ps, ps, rfl, (Option.some.inj h).symm, .inl rfl⟩
    · split at h
      · obtain ⟨qs, hq, rfl⟩ := Option.map_eq_some_iff.1 h
        exact ⟨r, ps, qs, rfl, rfl, .inr hq⟩
      · cases h
    · cases h
  · cases h

theorem asSequence_eq (ts : List Tree) :
    asSequence ts = ts ∨ asSequence ts = [node .sequence none ts] := by
  unfold asSequence
  split
  · exact .inl rfl
  · exact .inr rfl

theorem splitTail_append (ts : List Tree) : (splitTail ts).1 ++ (splitTail ts).2 = ts := by
  simp only [splitTail, ← List.reverse_append, List.takeWhile_append_dropWhile,
    List.reverse_reverse]

/-- Parentheses keep their parts, in a sequence or not. -/
theorem parenthesize_eq_some {ps us : List Tree} (h : parenthesize ps = some us) :
    ∃ a m b, ps = a ++ m ++ b ∧ us = [node .parenthesized none (a ++ asSequence m ++ b)] := by
  unfold parenthesize at h
  split at h
  · rename_i opening rest closing hlast
    simp only at h
    split at h
    · rename_i hall
      simp only [Bool.and_eq_true] at hall
      -- A lone bracket is no list, so the closing bracket is not the opening one.
      have hne : rest ≠ [] := by
        rintro rfl
        simp [significant, alternates] at hall
      have hrest : rest.dropLast ++ [closing] = rest := by
        rw [List.getLast?_cons_of_ne_nil hne, List.getLast?_eq_some_getLast hne] at hlast
        rw [← Option.some.inj hlast, List.dropLast_concat_getLast hne]
      refine ⟨opening :: (Grammar.splitTrivia rest.dropLast).1,
        (splitTail (Grammar.splitTrivia rest.dropLast).2).1,
        (splitTail (Grammar.splitTrivia rest.dropLast).2).2 ++ [closing], ?_, ?_⟩
      · rw [List.append_assoc, ← List.append_assoc (splitTail _).1, splitTail_append,
          List.cons_append, ← List.append_assoc, Grammar.splitTrivia_append, hrest]
      · rw [← Option.some.inj h]
        simp
    · cases h
  · cases h

theorem asParenthesized_eq_some {ts us : List Tree} (h : asParenthesized ts = some us) :
    us = ts ∨ ∃ r a m b, ts = [node .parens r (a ++ m ++ b)] ∧
      us = [node .parenthesized none (a ++ asSequence m ++ b)] := by
  unfold asParenthesized at h
  split at h
  · rename_i r ps
    obtain ⟨a, m, b, rfl, rfl⟩ := parenthesize_eq_some h
    exact .inr ⟨r, a, m, b, rfl, rfl⟩
  · exact .inl (Option.some.inj h).symm

end Reshape

/-! ## What the rules mention -/

/-! Literals are read in one place each. -/

namespace Rules

open Grammar

/-- A string in quotes. -/
def quotedBody (q : Char) : G :=
  seq (token .symbol (Lexis.mark [q] []))
    (seq (many (alt (glued .stringFragment (Lexis.stringFragment q))
      (glued .escapeSequence Lexis.escapeSequence)))
      (glued .symbol (Lexis.mark [q] [])))

/-- An expression in a template. -/
def substitutionBody : G :=
  seq (glued .symbol (Lexis.mark "$\x7b".toList [])) (seq (rule .expressions) (mark "\x7d"))

/-- A template. -/
def templateBody : G :=
  seq (mark "\x60")
    (seq (many (alt (glued .stringFragment Lexis.templateFragment)
      (alt (glued .escapeSequence Lexis.escapeSequence)
        (node .templateSubstitution substitutionBody))))
      (glued .symbol (Lexis.mark "\x60".toList [])))

/-- A regular expression. -/
def regexBody : G :=
  seq (mark "/") (seq (field .pattern (glued .regexPattern Lexis.regexPattern))
    (seq (glued .symbol (Lexis.mark "/".toList []))
      (opt (field .flags (glued .regexFlags
        (Lexis.runOf fun c => 97 ≤ c.toNat && c.toNat ≤ 122))))))

end Rules

open Grammar Rules in
/-- Demands that hold of everything the rules of the language mention. Variables are read as names
only. Literals, members and assignments are made in few places, and these are listed one by one. -/
structure MentionedByRules (d : Demands Rule) : Prop where
  token {k} (scan) : k ≠ .identifier → k ≠ .shorthandPropertyIdentifier → k ≠ .string →
    d.token k scan
  name {k} (test) : k ≠ .string → d.token k (Lexis.name test)
  dashedName {k} : k ≠ .string → d.token k Lexis.dashedName
  attributeString : d.token .string Lexis.attributeString
  node {k} (g) : k ≠ .member → k ≠ .assignment → k ≠ .string → k ≠ .templateString →
    k ≠ .templateSubstitution → k ≠ .regex → d.node k g
  string (q) : q ∈ ['\x22', '\x27'] → d.node .string (quotedBody q)
  template : d.node .templateString templateBody
  substitution : d.node .templateSubstitution substitutionBody
  regex : d.node .regex regexBody
  sequence : d.form fun ts => some (Reshape.asSequence ts)
  complete : d.form Reshape.complete
  parenthesized : d.form Reshape.asParenthesized
  members : d.form Reshape.startsWithMembers
  target : d.form Reshape.asTarget
  parameters : d.form Reshape.asParameters
  bindingTarget : d.form Reshape.asBindingTarget
  part {k} (r g) : k ≠ .member → k ≠ .assignment → k ≠ .string → k ≠ .templateString →
    k ≠ .templateSubstitution → k ≠ .regex → d.way ⟨k, Reshape.asPart r⟩ g
  place (g) : d.way ⟨.augmentedAssignment, Reshape.asPlace⟩ g
  arrow (g) : d.way ⟨.arrowFunction, Reshape.asParameters⟩ g
  member : d.way ⟨.member, Reshape.asPart .object⟩ (seq (mark ".") property)
  optionalMember : d.way ⟨.member, Reshape.asPart .object⟩ (seq optionalDot property)
  tagMember : d.way ⟨.member, Reshape.asPart .object⟩ (seq (mark ".") (field .property memberName))
  assignment : d.way ⟨.assignment, Reshape.asTarget⟩
    (seq (markBut "=" "=>") (field .right (rule .element)))

section Every

open Grammar Rules

variable {d : Demands Rule}

/-! The small grammars that the rules are put together from. -/

theorem MentionedByRules.every_mark (h : MentionedByRules d) (w : String) : Every d (mark w) :=
  h.token _ (by decide) (by decide) (by decide)

theorem MentionedByRules.every_markBut (h : MentionedByRules d) (w stop : String) :
    Every d (markBut w stop) :=
  h.token _ (by decide) (by decide) (by decide)

theorem MentionedByRules.every_word (h : MentionedByRules d) (w : String) : Every d (word w) :=
  h.token _ (by decide) (by decide) (by decide)

theorem MentionedByRules.every_memberName (h : MentionedByRules d) : Every d memberName :=
  h.name _ (by decide)

theorem MentionedByRules.every_property (h : MentionedByRules d) : Every d property := by
  simp [property, privateName, Every, h.token, h.every_memberName]

theorem MentionedByRules.every_optionalDot (h : MentionedByRules d) : Every d optionalDot := by
  simp [optionalDot, Every, h.token]

theorem MentionedByRules.every_compoundAssignment (h : MentionedByRules d) :
    Every d compoundAssignment := by
  simp [compoundAssignment, alts, Every, h.every_mark]

/-- What holds of all that the rules mention holds of the rules. -/
theorem MentionedByRules.every_rules (h : MentionedByRules d) (r : Rule) : Every d (rules r) := by
  cases r
  case string =>
    have hquoted (q : Char) (hq : q ∈ ['\x22', '\x27']) :
        Every d (.node .string (quotedBody q)) := by
      rw [Every]
      exact ⟨h.string q hq, by simp [quotedBody, Every, h.token]⟩
    have heither : Every d (.alt (.node .string (quotedBody '\x22'))
        (.node .string (quotedBody '\x27'))) := by
      rw [Every]
      exact ⟨hquoted _ (by simp), hquoted _ (by simp)⟩
    exact heither
  case template =>
    have hbody : Every d (.node .templateString templateBody) := by
      rw [Every]
      refine ⟨h.template, ?_⟩
      simp [templateBody, substitutionBody, Every, h.token, h.every_mark]
      exact h.substitution
    exact hbody
  case regex =>
    have hbody : Every d (.node .regex regexBody) := by
      rw [Every]
      exact ⟨h.regex, by simp [regexBody, opt, Every, h.token, h.every_mark]⟩
    exact hbody
  all_goals
    simp [rules, Every, EveryWay, EveryOne, seqs, alts, opt, ahead, h.token, h.name, h.dashedName,
      h.attributeString, h.every_mark, h.every_markBut, h.every_word, h.every_property,
      h.every_optionalDot, h.every_compoundAssignment, h.every_memberName, Rules.identifier,
      privateName, valueWord, shorthand, Rules.dashedName, unfinished, commaList, commaList1,
      Rules.sequence, binaryWay, leftLevel, index, goesOn, accessWays, callWays, Rules.star,
      function, functions, modifier, declaredName, shorthandWithDefault, withDefault,
      mayOpenObject, noBrace, fromObject, condition, simple, declaration, declarations, declares,
      notDeclared, exportName, fromModule, nameList, guarded, closeAngle, namespaced, h.node,
      h.sequence, h.complete, h.parenthesized, h.members, h.target, h.parameters, h.bindingTarget,
      h.part, h.place, h.arrow, h.member, h.optionalMember, h.tagMember, h.assignment,
      Reshape.asLoopTarget]

end Every

/-! ## Nothing is lost -/

namespace Reshape

theorem keepsText_asPart (r : Role) : KeepsText (asPart r) := by
  intro ts us h
  obtain ⟨t, -, rfl, rfl⟩ := asPart_eq_some h
  simp

theorem keepsText_asPlace : KeepsText asPlace := by
  intro ts us h
  obtain ⟨t, -, rfl, rfl⟩ := asPlace_eq_some h
  simp

theorem keepsText_asTarget : KeepsText asTarget := by
  intro ts us h
  obtain ⟨t, p, -, rfl, rfl, hp⟩ := asTarget_eq_some h
  rcases hp with rfl | hp
  · simp
  · simp [patterning_text.pattern hp]

theorem keepsText_asParameters : KeepsText asParameters := by
  intro ts us h
  obtain ⟨r, ps, qs, rfl, rfl, hq⟩ := asParameters_eq_some h
  rcases hq with rfl | hq
  · simp
  · simp [textOf_of_forall₂ (patterning_text.patterns hq)]

theorem textOf_asSequence (ts : List Tree) : textOf (asSequence ts) = textOf ts := by
  rcases asSequence_eq ts with h | h <;> simp [h]

theorem keepsText_asParenthesized : KeepsText asParenthesized := by
  intro ts us h
  rcases asParenthesized_eq_some h with rfl | ⟨r, a, m, b, rfl, rfl⟩
  · rfl
  · simp [textOf_asSequence]

end Reshape

namespace Grammar

/-- A role is given to the one part there is, behind a gap. -/
theorem giveRole_eq_some {r : Role} {ts us : List Tree} (h : giveRole r ts = some us) :
    ∃ lead t, ts = lead ++ [t] ∧ us = lead ++ [t.withRole r] ∧
      (∀ p ∈ lead, p.isTrivia = true) ∧ t.isTrivia = false := by
  unfold giveRole at h
  split at h
  · rename_i lead t heq
    have hlead : lead = ts.takeWhile Tree.isTrivia := (congrArg Prod.fst heq).symm
    have hpart : ts.dropWhile Tree.isTrivia = [t] := congrArg Prod.snd heq
    refine ⟨lead, t, ?_, (Option.some.inj h).symm, ?_, ?_⟩
    · rw [← splitTrivia_append ts, heq]
    · rw [hlead]
      exact fun p hp => (List.all_eq_true.1 List.all_takeWhile) p hp
    · have := List.head?_dropWhile_not Tree.isTrivia ts
      simpa [hpart] using this
  · cases h

end Grammar

open Grammar

/-- No change of form loses text. -/
def keepingText : Demands Rule where
  token _ _ := True
  node _ _ := True
  form := KeepsText
  way c _ := KeepsText c.fit

/-- Every change of form that the rules mention keeps the text. -/
theorem mentionedByRules_keepingText : MentionedByRules keepingText where
  token _ _ _ _ := trivial
  name _ _ := trivial
  dashedName _ := trivial
  attributeString := trivial
  node _ _ _ _ _ _ _ := trivial
  string _ _ := trivial
  template := trivial
  substitution := trivial
  regex := trivial
  sequence ts us h := by rw [← Option.some.inj h, Reshape.textOf_asSequence]
  complete _ _ h := by rw [Reshape.complete_eq_some h]
  parenthesized := Reshape.keepsText_asParenthesized
  members _ _ h := by rw [Reshape.startsWithMembers_eq_some h]
  target := Reshape.keepsText_asTarget
  parameters := Reshape.keepsText_asParameters
  bindingTarget _ _ h := by rw [Reshape.asBindingTarget_eq_some h]
  part r _ _ _ _ _ _ _ := Reshape.keepsText_asPart r
  place _ := Reshape.keepsText_asPlace
  arrow _ := Reshape.keepsText_asParameters
  member := Reshape.keepsText_asPart _
  optionalMember := Reshape.keepsText_asPart _
  tagMember := Reshape.keepsText_asPart _
  assignment := Reshape.keepsText_asTarget

/-- **Reading loses nothing**: the trees and the text that is left are the text. -/
theorem invariant_text :
    Invariant Lexis.lexicon rules keepingText fun s ts rest => textOf ts ++ rest = s where
  nil _ := by simp
  append h h' := by rw [Tree.textOf_append, List.append_assoc, h', h]
  gap s := by simp [Lexis.lexicon, Lexis.textOf_piecesOf]
  token _ _ := by simp
  node {kind a s ts rest} _ _ h := by
    rw [← h]
    conv => rhs; rw [← splitTrivia_append ts]
    simp
  field h hr := by
    obtain ⟨lead, t, rfl, rfl, -, -⟩ := giveRole_eq_some hr
    simpa using h
  form {form s ts us rest} hd h hf := by
    rw [← h, Tree.textOf_append, hd _ _ hf, ← Tree.textOf_append, splitTrivia_append]
  way {c g s lead body mid start more rest} hd h hfit _ hmore := by
    have hstart : textOf start = textOf body := hd _ _ hfit
    rw [← h, ← hmore]
    simp [hstart]

/-- **Reading a program loses nothing**: the blanks in front of it and its tree spell the text. -/
theorem readProgram_text {s lead : List Char} {root : Tree}
    (h : readProgram s = some (lead, root)) : lead ++ root.text = s := by
  unfold readProgram at h
  split at h
  · rename_i ts rest hrun
    have hreads := reads_of_run hrun
    have htext : textOf ts ++ rest = s :=
      hreads.keeps invariant_text mentionedByRules_keepingText.every_rules (by simp [Every])
    -- A program ends where the text does.
    have hrest : rest = [] := by
      cases hreads with
      | rule h =>
        simp only [rules, seqs] at h
        cases h with
        | seq _ h => cases h with
          | seq _ h => cases h with
            | seq _ h => cases h with
              | check h => simpa using h
    rw [hrest, List.append_nil] at htext
    split at h
    all_goals
      cases h
      simpa using htext
  · cases h

namespace Fragment

/-- A fragment was read in one of the wrappers. -/
theorem parseIn_eq_some {code : List Char} {f : Fragment} : ∀ {ws : List Wrapper},
    parseIn code ws = some f → f.wrapper ∈ ws ∧
      readProgram (wrap f.wrapper code) = some (f.lead, f.root)
  | [], h => by simp [parseIn] at h
  | w :: ws, h => by
    rw [parseIn] at h
    split at h
    · rename_i lead root hread
      cases h
      exact ⟨List.mem_cons_self, hread⟩
    · obtain ⟨hmem, hread⟩ := parseIn_eq_some h
      exact ⟨List.mem_cons_of_mem _ hmem, hread⟩

/-- **Reading a fragment loses nothing**: what was read spells the fragment in its wrapper. -/
theorem text_of_parse? {code : List Char} {f : Fragment} (h : parse? code = some f) :
    f.lead ++ f.root.text = f.wrapper.opening.toList ++ code ++ f.wrapper.closing.toList :=
  readProgram_text (parseIn_eq_some h).2

end Fragment

end ReactWeave.Script
