import ReactWeave.Proofs.Lookahead
import ReactWeave.Proofs.Shapes

/-!
# ReactWeave.Proofs.Expressions

**Expressions in front of a bracket.** A fragment is meant to stand in brackets;
whether it can depends on where the reader stops in it.

* `Enclosed`: a fragment that is one expression wherever a bracket closes behind
  it. Such a fragment can be put in parentheses (`Enclosed.parentheses`).
-/

namespace ReactWeave.Script

open Grammar Rules

/-! ## An expression is one part -/

/-- Trees that may stand between the commas of a list in parentheses. -/
structure Operand (t : Tree) : Prop where
  part : t.isTrivia = false
  spread : t.isKind .spread = false
  comma : t.isSymbol [','] = false

theorem operand_node {k : Kind} (hk : k ≠ .spread) (r : Option Role) (ps : List Tree) :
    Operand (.node k r ps) :=
  ⟨rfl, by simpa [Tree.isKind, Tree.kind?] using hk, rfl⟩

theorem operand_token {k : Kind} (hk : k ∉ [.spread, .comment, .symbol]) (r : Option Role)
    (t : List Char) : Operand (.token k r t) := by
  simp only [List.mem_cons, List.not_mem_nil, or_false, not_or] at hk
  refine ⟨?_, by simpa [Tree.isKind, Tree.kind?] using hk.1, ?_⟩
  · cases k <;> simp_all [Tree.isTrivia]
  · cases k <;> simp_all [Tree.isSymbol]

theorem isTrivia_withRole (r : Role) (t : Tree) : (t.withRole r).isTrivia = t.isTrivia := by
  cases t with
  | gap s => rfl
  | token k r' s => cases k <;> rfl
  | node k r' ps => rfl

theorem isSymbol_withRole (w : List Char) (r : Role) (t : Tree) :
    (t.withRole r).isSymbol w = t.isSymbol w := by
  cases t with
  | gap s => rfl
  | token k r' s => cases k <;> rfl
  | node k r' ps => rfl

theorem kind?_withRole (r : Role) (t : Tree) : (t.withRole r).kind? = t.kind? := by
  cases t <;> rfl

theorem Operand.withRole {t : Tree} (h : Operand t) (r : Role) : Operand (t.withRole r) := by
  refine ⟨?_, ?_, ?_⟩
  · rw [isTrivia_withRole, h.part]
  · rw [Tree.isKind, kind?_withRole]
    exact h.spread
  · rw [isSymbol_withRole, h.comma]

/-- Gaps and comments, and one such tree. -/
def IsOperand (ts : List Tree) : Prop :=
  ∃ lead t, ts = lead ++ [t] ∧ (∀ p ∈ lead, p.isTrivia = true) ∧ Operand t

/-- Rules that read one expression. -/
def readsOperand : Rule → Bool
  | .element | .ternary | .coalesce | .disjunction | .conjunction | .bitOr | .bitXor | .bitAnd
  | .equality | .relation | .shift | .sum | .product | .power | .unary | .operand | .chain
  | .primary | .creation | .parens | .array | .object | .template | .string | .jsx | .regex => true
  | _ => false

/-- Whether a grammar reads nothing. -/
def Silent : G → Prop
  | .empty | .check _ | .absent _ => True
  | .seq a b => Silent a ∧ Silent b
  | _ => False

/-- Whether a grammar reads one expression, as far as its outer form shows. -/
def Yields : G → Prop
  | .token k _ | .glued k _ => k ∉ [.spread, .comment, .symbol]
  | .rule r => readsOperand r = true
  | .node k _ => k ≠ .spread
  | .alt a b => Yields a ∧ Yields b
  | .seq a b => Yields a ∧ Silent b ∨ Silent a ∧ Yields b
  | .field _ a => Yields a
  | .reshape form a => form = Reshape.asParenthesized ∧ Yields a
  | .grow a _ ways => Yields a ∧ ∀ way ∈ ways, way.1.kind ≠ .spread
  | _ => False

theorem Grammar.Reads.silent {g : G} {s rest : List Char} {ts : List Tree}
    (h : Reads Lexis.lexicon rules g s ts rest) (hg : Silent g) : ts = [] := by
  induction h with
  | empty | check | absent => rfl
  | seq _ _ iha ihb =>
    rw [iha hg.1, ihb hg.2, List.append_nil]
  | _ => simp [Silent] at hg

theorem operand_of_asParenthesized {t : Tree} {us : List Tree} (ht : Operand t)
    (h : Reshape.asParenthesized [t] = some us) : ∃ u, us = [u] ∧ Operand u := by
  rcases Reshape.asParenthesized_eq_some h with rfl | ⟨r, a, m, b, -, rfl⟩
  · exact ⟨t, rfl, ht⟩
  · exact ⟨_, rfl, operand_node (by decide) _ _⟩

theorem yields_rules (r : Rule) (h : readsOperand r = true) : Yields (rules r) := by
  cases r
  all_goals simp only [readsOperand, Bool.false_eq_true] at h
  all_goals simp [rules, Yields, Silent, alts, leftLevel, binaryWay, goesOn, accessWays, callWays,
    functions, function, valueWord, Rules.identifier, Rules.privateName, Grammar.ahead, readsOperand]

/-- **An expression is one part**, and no part of a list. -/
theorem Grammar.Reads.isOperand {g : G} {s rest : List Char} {ts : List Tree}
    (h : Reads Lexis.lexicon rules g s ts rest) (hg : Yields g) : IsOperand ts := by
  -- What was read already stays one part while it goes on.
  have main : (Yields g → IsOperand ts) ∧ ∀ body again ways, g = .extend body again ways →
      (∀ way ∈ ways, way.1.kind ≠ .spread) → (∃ t, body = [t] ∧ Operand t) →
        ∃ t, ts = [t] ∧ Operand t := by
    clear hg
    induction h with
    | @token kind scan s ts rest h =>
      refine ⟨fun hg => ?_, by simp⟩
      obtain ⟨lead, u, n, rfl, -, hlead⟩ := reads_token (.token h)
      exact ⟨lead, _, rfl, fun p hp => (hlead p hp).isTrivia.1, operand_token hg _ _⟩
    | glued h =>
      refine ⟨fun hg => ?_, by simp⟩
      unfold readGlued at h
      split at h
      · cases h
        exact ⟨[], _, rfl, by simp, operand_token hg _ _⟩
      · cases h
    | rule h ih => exact ⟨fun hg => ih.1 (yields_rules _ (by simpa only [Yields] using hg)), by simp⟩
    | seq ha hb iha ihb =>
      refine ⟨fun hg => ?_, by simp⟩
      rcases hg with ⟨hy, hs⟩ | ⟨hs, hy⟩
      · rw [hb.silent hs, List.append_nil]
        exact iha.1 hy
      · rw [ha.silent hs, List.nil_append]
        exact ihb.1 hy
    | altLeft h ih =>
      refine ⟨fun hg => ?_, by simp⟩
      exact ih.1 hg.1
    | altRight h ih =>
      refine ⟨fun hg => ?_, by simp⟩
      exact ih.1 hg.2
    | @node kind a s ts rest h ih =>
      refine ⟨fun hg => ?_, by simp⟩
      refine ⟨_, _, rfl, ?_, operand_node hg _ _⟩
      exact fun p hp => (List.all_eq_true.1 List.all_takeWhile) p hp
    | field h hr ih =>
      refine ⟨fun hg => ?_, by simp⟩
      obtain ⟨lead, t, rfl, hlead, ht⟩ := ih.1 hg
      exact ⟨lead, _, giveRole_concat hr, hlead, ht.withRole _⟩
    | reshape h hf ih =>
      refine ⟨fun hg => ?_, by simp⟩
      obtain ⟨rfl, hg⟩ := hg
      obtain ⟨lead, t, rfl, hlead, ht⟩ := ih.1 hg
      rw [splitTrivia_part hlead ht.part] at hf ⊢
      obtain ⟨u, rfl, hu⟩ := operand_of_asParenthesized ht hf
      exact ⟨lead, u, rfl, hlead, hu⟩
    | grow hb he ihb ihe =>
      refine ⟨fun hg => ?_, by simp⟩
      obtain ⟨lead, t, rfl, hlead, ht⟩ := ihb.1 hg.1
      rw [splitTrivia_part hlead ht.part] at ihe ⊢
      obtain ⟨u, rfl, hu⟩ := ihe.2 _ _ _ rfl hg.2 ⟨t, rfl, ht⟩
      exact ⟨lead, u, rfl, hlead, hu⟩
    | stay =>
      refine ⟨by simp [Yields], ?_⟩
      rintro body again ways heq - hbody
      cases heq
      exact hbody
    | goOn hw hfit hg he ihg ihe =>
      refine ⟨by simp [Yields], ?_⟩
      rintro body again ways heq hways hbody
      cases heq
      exact ihe.2 _ _ _ rfl hways ⟨_, rfl, operand_node (hways _ hw) _ _⟩
    | _ => simp [Yields]
  exact main.1 hg

/-! ## Reading up to a place -/

section Takes

open Reshape (anyHoldsDefault holdsDefault complete)

theorem anyHoldsDefault_append (ts us : List Tree) :
    anyHoldsDefault (ts ++ us) = (anyHoldsDefault ts || anyHoldsDefault us) := by
  induction ts with
  | nil => simp [anyHoldsDefault]
  | cons t ts ih => simp [anyHoldsDefault, ih, Bool.or_assoc]

theorem holdsDefault_of_isTrivia {t : Tree} (h : t.isTrivia = true) : holdsDefault t = false := by
  cases t with
  | gap s => simp [holdsDefault]
  | token k r s => simp [holdsDefault]
  | node k r ps => cases h

theorem anyHoldsDefault_of_isTrivia {ts : List Tree} (h : ∀ t ∈ ts, t.isTrivia = true) :
    anyHoldsDefault ts = false := by
  induction ts with
  | nil => simp [anyHoldsDefault]
  | cons t ts ih =>
    rw [List.forall_mem_cons] at h
    simp [anyHoldsDefault, holdsDefault_of_isTrivia h.1, ih h.2]

/-- A default is only held by an object or passed on from a part. -/
theorem holdsDefault_node {k : Kind} (hk : k ≠ .object) (r : Option Role) (ps : List Tree) :
    holdsDefault (.node k r ps) = anyHoldsDefault ps := by
  unfold holdsDefault
  split
  · rename_i h
    cases h
    exact absurd rfl hk
  · rename_i h
    cases h
    rfl
  · rename_i h
    exact absurd rfl (h _ _ _)

theorem holdsDefault_withRole (r : Role) (t : Tree) :
    holdsDefault (t.withRole r) = holdsDefault t := by
  cases t with
  | gap s => rfl
  | token k r' s => simp [Tree.withRole, holdsDefault]
  | node k r' ps =>
    by_cases hk : k = .object
    · subst hk
      simp [Tree.withRole, holdsDefault]
    · simp [Tree.withRole, holdsDefault_node hk]

/-- `g` reads `s` up to `rest`, and no default value stands in what it reads. -/
def Takes (g : G) (s rest : List Char) : Prop :=
  ∃ ts, Answers g s (some (ts, rest)) ∧ anyHoldsDefault ts = false

/-- The same, and what is read is one part behind a gap. -/
def TakesPart (g : G) (s rest : List Char) : Prop :=
  ∃ lead t, Answers g s (some (lead ++ [t], rest)) ∧
    (∀ p ∈ lead, p.isTrivia = true) ∧ t.isTrivia = false ∧ holdsDefault t = false

variable {a b g : G} {s rest rest' : List Char}

theorem TakesPart.takes (h : TakesPart g s rest) : Takes g s rest := by
  obtain ⟨lead, t, hg, hlead, -, ht⟩ := h
  refine ⟨_, hg, ?_⟩
  simp [anyHoldsDefault_append, anyHoldsDefault, anyHoldsDefault_of_isTrivia hlead, ht]

theorem TakesPart.rule {r : Rule} (h : TakesPart (rules r) s rest) : TakesPart (.rule r) s rest := by
  obtain ⟨lead, t, hg, ht⟩ := h
  exact ⟨lead, t, hg.rule, ht⟩

theorem Takes.seq (ha : Takes a s rest) (hb : Takes b rest rest') : Takes (.seq a b) s rest' := by
  obtain ⟨ts, hga, hts⟩ := ha
  obtain ⟨us, hgb, hus⟩ := hb
  exact ⟨ts ++ us, hga.seq hgb, by simp [anyHoldsDefault_append, hts, hus]⟩

theorem Takes.seq_second (ha : Takes a s rest) (hb : Answers b rest none) :
    Answers (.seq a b) s none := by
  obtain ⟨ts, hg, -⟩ := ha
  exact hg.seq_second hb

theorem Takes.alt (ha : Takes a s rest) : Takes (.alt a b) s rest := by
  obtain ⟨ts, hg, hts⟩ := ha
  exact ⟨ts, hg.alt, hts⟩

theorem Takes.opt (ha : Takes a s rest) : Takes (opt a) s rest := ha.alt

theorem TakesPart.alt (ha : TakesPart a s rest) : TakesPart (.alt a b) s rest := by
  obtain ⟨lead, t, hg, ht⟩ := ha
  exact ⟨lead, t, hg.alt, ht⟩

theorem Takes.alt_second (ha : Answers a s none) (hb : Takes b s rest) :
    Takes (.alt a b) s rest := by
  obtain ⟨ts, hg, hts⟩ := hb
  exact ⟨ts, ha.alt_second hg, hts⟩

theorem TakesPart.alt_second (ha : Answers a s none) (hb : TakesPart b s rest) :
    TakesPart (.alt a b) s rest := by
  obtain ⟨lead, t, hg, ht⟩ := hb
  exact ⟨lead, t, ha.alt_second hg, ht⟩

theorem takes_many_nil (ha : Answers a s none) : Takes (.many a) s s :=
  ⟨[], ha.many_nil, rfl⟩

theorem Takes.many_cons (ha : Takes a s rest) (hm : Takes (.many a) rest rest') :
    Takes (.many a) s rest' := by
  obtain ⟨ts, hga, hts⟩ := ha
  obtain ⟨us, hgm, hus⟩ := hm
  exact ⟨ts ++ us, hga.many_cons hgm, by simp [anyHoldsDefault_append, hts, hus]⟩

theorem isTrivia_of_mem_splitTrivia {ts : List Tree} :
    ∀ p ∈ (splitTrivia ts).1, p.isTrivia = true :=
  List.all_eq_true.1 List.all_takeWhile

theorem Takes.node {k : Kind} (hk : k ≠ .object) (h : Takes a s rest) :
    TakesPart (.node k a) s rest := by
  obtain ⟨ts, hg, hts⟩ := h
  refine ⟨_, _, hg.node k, isTrivia_of_mem_splitTrivia, rfl, ?_⟩
  rw [holdsDefault_node hk]
  rw [← splitTrivia_append ts, anyHoldsDefault_append, Bool.or_eq_false_iff] at hts
  exact hts.2

theorem TakesPart.field {r : Role} (h : TakesPart a s rest) : TakesPart (.field r a) s rest := by
  obtain ⟨lead, t, hg, hlead, ht, hd⟩ := h
  refine ⟨lead, t.withRole r, hg.field ?_, hlead, ?_, ?_⟩
  · simp [giveRole, splitTrivia_part hlead ht]
  · rw [isTrivia_withRole, ht]
  · rw [holdsDefault_withRole, hd]

theorem gives_token_some (k : Kind) {scan : Scan} {n : Nat}
    (hn : scan (Lexis.behindGap s) = some n) :
    ∃ lead, Answers (.token k scan) s
        (some (lead ++ [.token k none ((Lexis.behindGap s).take n)], (Lexis.behindGap s).drop n)) ∧
      ∀ p ∈ lead, p.isTrivia = true := by
  have hgives : Answers (.token k scan) s (readToken Lexis.lexicon k scan s) :=
    gives_token k scan s
  have hscan : scan (s.drop (Lexis.lexicon.gapLength s)) = some n := hn
  simp only [readToken, hscan] at hgives
  exact ⟨_, hgives, fun p hp => (Lexis.plainTrivia_pieces s p hp).isTrivia.1⟩

theorem gives_token_none (k : Kind) {scan : Scan} (h : scan (Lexis.behindGap s) = none) :
    Answers (.token k scan) s none := by
  have hgives : Answers (.token k scan) s (readToken Lexis.lexicon k scan s) :=
    gives_token k scan s
  have hscan : scan (s.drop (Lexis.lexicon.gapLength s)) = none := h
  simpa only [readToken, hscan] using hgives

theorem mark_eq_none {c : Char} {u : List Char} (h : u.head? ≠ some c) (w stop : List Char) :
    Lexis.mark (c :: w) stop u = none := by
  have hstart : Text.startsWith (c :: w) u = false := by
    cases u with
    | nil => rfl
    | cons a u =>
      have hc : c ≠ a := fun hc => h (by rw [hc]; rfl)
      simp [Text.startsWith, hc]
  simp [Lexis.mark, hstart]

theorem takesPart_token {k : Kind} (hk : k ≠ .comment) {scan : Scan} {n : Nat}
    (hn : scan (Lexis.behindGap s) = some n) :
    TakesPart (.token k scan) s ((Lexis.behindGap s).drop n) := by
  obtain ⟨lead, hgives, hlead⟩ := gives_token_some k hn
  refine ⟨lead, _, hgives, hlead, ?_, by simp [holdsDefault]⟩
  cases k
  case comment => exact absurd rfl hk
  all_goals rfl

/-- A mark is read behind a gap, unless a character follows that makes it another mark. -/
theorem gives_markBut {w stop : String} (hs : Lexis.behindGap s = w.toList ++ rest)
    (hstop : ∀ c ∈ rest.head?, c ∉ stop.toList) :
    ∃ lead, Answers (markBut w stop) s
        (some (lead ++ [.token .symbol none w.toList], rest)) ∧
      ∀ p ∈ lead, p.isTrivia = true := by
  have hn : Lexis.mark w.toList stop.toList (Lexis.behindGap s) = some w.toList.length := by
    have hw : Text.startsWith w.toList (w.toList ++ rest) = true :=
      Text.startsWith_iff.2 ⟨rest, rfl⟩
    rw [hs]
    simp only [Lexis.mark, hw, if_true, List.drop_left]
    cases rest with
    | nil => rfl
    | cons c rest =>
      have hc : c ∉ stop.toList := hstop c rfl
      simp [hc]
  obtain ⟨lead, hgives, hlead⟩ := gives_token_some .symbol hn
  rw [hs, List.take_left, List.drop_left] at hgives
  exact ⟨lead, hgives, hlead⟩

theorem gives_mark {w : String} (hs : Lexis.behindGap s = w.toList ++ rest) :
    ∃ lead, Answers (Rules.mark w) s
        (some (lead ++ [.token .symbol none w.toList], rest)) ∧
      ∀ p ∈ lead, p.isTrivia = true :=
  @gives_markBut s rest w "" hs (by simp)

theorem takesPart_mark {w : String} (hs : Lexis.behindGap s = w.toList ++ rest) :
    TakesPart (Rules.mark w) s rest := by
  obtain ⟨lead, hgives, hlead⟩ := gives_mark hs
  exact ⟨lead, _, hgives, hlead, rfl, by simp [holdsDefault]⟩

end Takes

/-! ## Fragments in front of a bracket -/

section Enclosed

open Reshape (anyHoldsDefault holdsDefault complete)

/-- A fragment that is one expression wherever a bracket closes behind it: behind blanks, and
whatever follows the bracket, the expression is read and nothing but a gap is left in front of the
bracket. -/
def Enclosed (code : List Char) : Prop :=
  ∀ blanks close rest, (∀ c ∈ blanks, Lexis.isBlank c = true) → close = '}' ∨ close = ')' →
    ∃ ts left, Answers (.rule .expression) (blanks ++ code ++ close :: rest)
      (some (ts, left)) ∧ Lexis.behindGap left = close :: rest

variable {s left rest code : List Char} {ts : List Tree}

/-- What is read as an expression is read as an element, an operand without defaults. -/
theorem element_of_expression
    (h : Answers (.rule .expression) s (some (ts, left))) :
    ∃ lead t, Answers (.rule .element) s (some (lead ++ [t], left)) ∧
      (∀ p ∈ lead, p.isTrivia = true) ∧ Operand t ∧ holdsDefault t = false := by
  obtain ⟨r, hr⟩ : ∃ r, Answers (.rule .element) s r :=
    ranking_right.exists_gives (by decide) (by simp [Eating]) s
  cases r with
  | none =>
    have hnone : Answers (.rule .expression) s none := .rule hr.reshape_none
    cases h.unique hnone
  | some r =>
    obtain ⟨us, left'⟩ := r
    obtain ⟨lead, t, rfl, hlead, ht⟩ : IsOperand us := by
      obtain ⟨n, hn⟩ := hr
      exact (reads_of_run (hn n (Nat.le_refl n))).isOperand (by simp [Yields, readsOperand])
    have hsplit := splitTrivia_part hlead ht.part []
    by_cases hd : holdsDefault t = true
    · have hrefused : Answers (.rule .expression) s none :=
        .rule (hr.reshape_refused (by simp [hsplit, complete, anyHoldsDefault, hd]))
      cases h.unique hrefused
    · have hcomplete : complete (splitTrivia (lead ++ [t])).2 = some [t] := by
        simp [hsplit, complete, anyHoldsDefault, hd]
      have hfull : Answers (.rule .expression) s _ :=
        .rule (hr.reshape hcomplete)
      cases h.unique hfull
      exact ⟨lead, t, hr, hlead, ht, by simpa using hd⟩

/-- A text that starts with an element does not start with three dots. -/
theorem gives_dots_none {us : List Tree}
    (h : Answers (.rule .element) s (some (us, left))) :
    Answers (Rules.mark "...") s none := by
  refine gives_token_none .symbol ?_
  cases hscan : Lexis.mark "...".toList [] (Lexis.behindGap s) with
  | none => rfl
  | some n =>
    have hstart : Text.startsWith "...".toList (Lexis.behindGap s) = true := by
      simp only [Lexis.mark] at hscan
      split at hscan
      · assumption
      · cases hscan
    have hahead : dots.ahead (Lexis.behindGap s) := Text.startsWith_iff.1 hstart
    cases h.unique (dots_right.gives hahead rfl)

theorem closing_of_close {close : Char} (hclose : close = '}' ∨ close = ')')
    (h : Lexis.behindGap left = close :: rest) : closing.ahead (Lexis.behindGap left) := by
  rw [h]
  rcases hclose with rfl | rfl <;> simp [closing, closers]

theorem gives_comma_none (h : (Lexis.behindGap left).head? ≠ some ',') (item : G) :
    Answers (.seq (Rules.mark ",") item) left none :=
  (gives_token_none .symbol (mark_eq_none h [] [])).seq_none

/-- An enclosed code is read as an element in front of its closing bracket. -/
theorem Enclosed.element (hcode : Enclosed code) (blanks rest : List Char) {close : Char}
    (hblanks : ∀ c ∈ blanks, Lexis.isBlank c = true) (hclose : close = '}' ∨ close = ')') :
    ∃ left, TakesPart (.rule .element) (blanks ++ code ++ close :: rest) left ∧
      Lexis.behindGap left = close :: rest := by
  obtain ⟨ts, left, hgives, hleft⟩ := hcode blanks close rest hblanks hclose
  obtain ⟨lead, t, helement, hlead, ht, hd⟩ := element_of_expression hgives
  exact ⟨left, ⟨lead, t, helement, hlead, ht.part, hd⟩, hleft⟩

end Enclosed

/-! ## Parentheses -/

section Parentheses

open Reshape (anyHoldsDefault holdsDefault complete significant parenthesize alternates splitTail)

variable {s left rest code : List Char}

/-- One operand between parentheses is a parenthesized expression, gaps or not. -/
theorem parenthesize_one {o t : Tree} {lead tail : List Tree}
    (hlead : ∀ p ∈ lead, p.isTrivia = true) (htail : ∀ p ∈ tail, p.isTrivia = true)
    (ht : Operand t) :
    parenthesize (o :: (lead ++ t :: (tail ++ [.token .symbol none [')']]))) =
      some [.node .parenthesized none
        (o :: (lead ++ t :: (tail ++ [.token .symbol none [')']])))] := by
  have hpart : (Tree.token .symbol none [')']).isTrivia = false := rfl
  have hclose : (Tree.token .symbol none [')']).isSymbol [')'] = true := rfl
  have hsignificant : significant (lead ++ t :: (tail ++ [.token .symbol none [')']])) =
      [t, .token .symbol none [')']] := by
    have hnone {ts : List Tree} (h : ∀ p ∈ ts, p.isTrivia = true) : significant ts = [] := by
      simpa [significant] using h
    have happend (ts us : List Tree) : significant (ts ++ us) = significant ts ++ significant us :=
      List.filter_append ..
    rw [happend, ← List.singleton_append, happend, happend, hnone hlead, hnone htail]
    simp [significant, ht.part, hpart]
  have hitems : (lead ++ t :: (tail ++ [.token .symbol none [')']])).dropLast =
      lead ++ t :: tail := by
    rw [← List.cons_append, ← List.append_assoc, List.dropLast_concat]
  have hsplit := splitTrivia_part hlead ht.part tail
  have htail' : ∀ p ∈ tail.reverse, p.isTrivia = true := by simpa using htail
  have hback : splitTail (t :: tail) = ([t], tail) := by
    simp [splitTail, List.takeWhile_append_of_pos htail', List.dropWhile_append_of_pos htail',
      ht.part]
  have hlast : (o :: (lead ++ t :: (tail ++ [.token .symbol none [')']]))).getLast? =
      some (.token .symbol none [')']) := by
    rw [← List.cons_append, ← List.cons_append, ← List.append_assoc, List.getLast?_concat]
  simp only [parenthesize, hlast, hitems, hsplit, hback, hsignificant]
  simp [alternates, ht.comma, ht.spread, hclose, Reshape.asSequence, significant, ht.part]

/-- Brackets around what is read as one part. -/
theorem gives_bracketed {o c : String} (k : Kind) {item : G} {inner : List Char} {t : Tree}
    {lead : List Tree} (hs : Lexis.behindGap s = o.toList ++ inner)
    (hitem : Answers item inner (some (lead ++ [t], left)))
    (hleft : Lexis.behindGap left = c.toList ++ rest) (hclose : c = ")" ∨ c = "\x7d") :
    ∃ front tail, (∀ p ∈ front, p.isTrivia = true) ∧ (∀ p ∈ tail, p.isTrivia = true) ∧
      Answers (.node k (seqs [Rules.mark o, commaList item, Rules.mark c])) s
        (some (front ++ [.node k none (.token .symbol none o.toList ::
          (lead ++ t :: (tail ++ [.token .symbol none c.toList])))], rest)) := by
  have hcomma : (Lexis.behindGap left).head? ≠ some ',' := by
    rw [hleft]
    rcases hclose with rfl | rfl <;> simp
  obtain ⟨front, hfirst, hfront⟩ := gives_mark hs
  obtain ⟨tail, hlast, htail⟩ := gives_mark hleft
  have hitems : Answers (commaList item) inner
      (some (lead ++ [t] ++ [], left)) :=
    .seq hitem.alt (gives_comma_none hcomma (opt item)).many_nil
  have hnode := (hfirst.seq (hitems.seq hlast)).node k
  have hsplit : splitTrivia (front ++ [.token .symbol none o.toList] ++
      (lead ++ [t] ++ [] ++ (tail ++ [.token .symbol none c.toList]))) =
        (front, .token .symbol none o.toList ::
          (lead ++ t :: (tail ++ [.token .symbol none c.toList]))) := by
    simpa using splitTrivia_part hfront (t := .token .symbol none o.toList) rfl
      (lead ++ t :: (tail ++ [.token .symbol none c.toList]))
  rw [hsplit] at hnode
  exact ⟨front, tail, hfront, htail, hnode⟩

/-- **An enclosed code in parentheses is an element.** -/
theorem Enclosed.parentheses (hcode : Enclosed code)
    (hs : Lexis.behindGap s = '(' :: (code ++ ')' :: rest))
    (hrest : closing.ahead (Lexis.behindGap rest)) : TakesPart (.rule .element) s rest := by
  obtain ⟨ts, left, hgives, hleft⟩ := hcode [] ')' rest (by simp) (.inr rfl)
  obtain ⟨lead, t, helement, hlead, ht, hd⟩ := element_of_expression hgives
  have hitem : Answers (.alt (.rule .spread) (.rule .element))
      (code ++ ')' :: rest) (some (lead ++ [t], left)) :=
    .alt_second (.rule (.node_none _ (gives_dots_none helement).seq_none)) helement
  obtain ⟨front, tail, hfront, htail, hparens⟩ :=
    gives_bracketed (o := "(") (c := ")") .parens hs hitem hleft (.inl rfl)
  have hsplit := splitTrivia_part hfront (t := .node .parens none (.token .symbol none "(".toList ::
    (lead ++ t :: (tail ++ [.token .symbol none ")".toList])))) rfl []
  have harrow : Answers (Rules.mark "=>") rest none :=
    closing_right.gives hrest (closing_within.mark (by decide) [])
  have hprimary := gives_primary_parens (by rw [hs]; rfl) harrow (.rule hparens) (by
    rw [hsplit]
    exact parenthesize_one hlead htail ht)
  rw [hsplit] at hprimary
  refine ⟨front, _, gives_element_of_primary (.inl ⟨'(', by decide, by rw [hs]; rfl⟩) hrest
    hprimary, hfront, rfl, ?_⟩
  simp [anyHoldsDefault, anyHoldsDefault_append, anyHoldsDefault_of_isTrivia hlead,
    anyHoldsDefault_of_isTrivia htail, hd, holdsDefault]

end Parentheses

/-! ## Whole expressions -/

section Whole

open Reshape (anyHoldsDefault)

variable {s rest : List Char}

/-- An operand that nothing goes on with is an element. -/
theorem TakesPart.element (h : TakesPart (.rule .primary) s rest)
    (hs : opening.ahead (Lexis.behindGap s)) (hrest : closing.ahead (Lexis.behindGap rest)) :
    TakesPart (.rule .element) s rest := by
  obtain ⟨lead, t, hg, ht⟩ := h
  exact ⟨lead, t, gives_element_of_primary hs hrest hg, ht⟩

theorem TakesPart.complete {g : G} (h : TakesPart g s rest) :
    TakesPart (.reshape Reshape.complete g) s rest := by
  obtain ⟨lead, t, hg, hlead, ht, hd⟩ := h
  have hsplit := splitTrivia_part hlead ht []
  have hform : Reshape.complete (splitTrivia (lead ++ [t])).2 = some [t] := by
    simp [hsplit, Reshape.complete, anyHoldsDefault, hd]
  have hfull := hg.reshape hform
  rw [hsplit] at hfull
  exact ⟨lead, t, hfull, hlead, ht, hd⟩

theorem TakesPart.expression (h : TakesPart (.rule .element) s rest) :
    TakesPart (.rule .expression) s rest :=
  .rule (r := .expression) h.complete

end Whole

/-! ## Names -/

section Names

variable {s rest u : List Char} {w : List Char} {c : Char}

/-- Names without escapes and dashes. -/
def isName (w : List Char) : Bool := w.head?.any Lexis.isNameStart && w.all Lexis.isNamePart

theorem isName_head (h : isName w = true) : ∃ c w', w = c :: w' ∧ Lexis.isNameStart c = true := by
  cases w with
  | nil => simp [isName] at h
  | cons c w' =>
    simp only [isName, List.head?_cons, Option.any_some, Bool.and_eq_true] at h
    exact ⟨c, w', rfl, h.1⟩

/-- No gap stands in front of a name. -/
theorem behindGap_of_isNameStart (hc : Lexis.isNameStart c = true) (u : List Char) :
    Lexis.behindGap (c :: u) = c :: u := by
  have hblank : Lexis.isBlank c = false := by
    simp only [Lexis.isNameStart, Lexis.isNamePart, Lexis.isLetter, Bool.and_eq_true,
      Bool.or_eq_true, decide_eq_true_eq, beq_iff_eq, Bool.not_eq_true'] at hc
    rcases hc.1 with (((hc | hc) | hc) | hc) | hc
    · simp [Lexis.isBlank]
      omega
    · simp [hc] at *
    · subst hc
      rfl
    · subst hc
      rfl
    · exact hc.2
  have hslash : c ≠ '/' := by
    rintro rfl
    exact absurd hc (by decide)
  simp [Lexis.behindGap, Lexis.gapFrom, hblank, hslash]

/-- Characters that end a word. -/
def endsWord (c : Char) : Bool := !Lexis.isNamePart c && c != '\\'

/-- A name is read up to what cannot be part of one. -/
theorem nameLength_of_endsWord (hw : isName w = true)
    (hrest : ∀ c ∈ rest.head?, endsWord c = true) :
    Lexis.nameLength (w ++ rest) = w.length := by
  have hfrom : ∀ {w : List Char}, w.all Lexis.isNamePart = true →
      Lexis.nameFrom 0 (w ++ rest) = w.length := by
    intro w hw
    induction w with
    | nil =>
      cases rest with
      | nil => rfl
      | cons c u =>
        have hc := hrest c rfl
        simp only [endsWord, Bool.and_eq_true, Bool.not_eq_true', bne_iff_ne] at hc
        simp [Lexis.nameFrom, hc.1, hc.2]
    | cons a w ih =>
      simp only [List.all_cons, Bool.and_eq_true] at hw
      simp [Lexis.nameFrom, hw.1, ih hw.2]
  obtain ⟨a, w, rfl, ha⟩ := isName_head hw
  simp only [isName, Bool.and_eq_true] at hw
  rw [List.cons_append, Lexis.nameLength, ha, Bool.true_or, if_pos rfl, ← List.cons_append,
    hfrom hw.2]

/-- Characters that end the name of an element or attribute. -/
def endsName (c : Char) : Bool := endsWord c && c != '-'

theorem isName_of_isPlainName (h : isPlainName w = true) : isName w = true := by
  simp only [isPlainName, Bool.and_eq_true] at h
  simp [isName, h.1.1.1, h.1.1.2]

end Names

end ReactWeave.Script
