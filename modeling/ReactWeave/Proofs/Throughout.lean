import ReactWeave.Proofs.Tokens

/-!
# ReactWeave.Proofs.Throughout

**What holds of a tree and all its parts**, for trees that were read.

The rules of the language make most constructs out of anything, and changes of form
only rename kinds and roles. What is worth saying about the parts of a construct
therefore concerns few kinds: names, members, assignments and literals. `Readable` lists
what has to be shown for these, and `throughout_of_readProgram` concludes that it
holds throughout every program.
-/

namespace ReactWeave.Script

open ReactWeave.Script.Tree

/-- Whether something holds of a tree and all its parts. -/
inductive Throughout (P : Tree → Prop) : Tree → Prop where
  | mk {t : Tree} (root : P t) (parts : ∀ p ∈ t.parts, Throughout P p) : Throughout P t

variable {P : Tree → Prop}

/-- What holds throughout a node holds of it and throughout its parts. -/
theorem throughout_node {k : Kind} {r : Option Role} {ps : List Tree} :
    Throughout P (node k r ps) ↔ P (node k r ps) ∧ ∀ p ∈ ps, Throughout P p := by
  constructor
  · intro h
    cases h with
    | mk root parts => exact ⟨root, parts⟩
  · rintro ⟨root, parts⟩
    exact ⟨root, parts⟩

theorem Throughout.token {k : Kind} {r : Option Role} {t : List Char} (h : P (token k r t)) :
    Throughout P (token k r t) :=
  ⟨h, by simp [parts]⟩

theorem Throughout.of_plainTrivia {t : Tree} (h : P t) (ht : PlainTrivia t) : Throughout P t := by
  cases t with
  | gap s => exact ⟨h, by simp [parts]⟩
  | token k r s => exact .token h
  | node k r ps => exact ht.elim

/-- The kinds of construct whose parts are worth describing. -/
def shapedKinds : List Kind :=
  [.member, .assignment, .string, .templateString, .templateSubstitution, .regex]

open Grammar Rules in
/-- What has to be shown of single constructs. The other kinds may have any parts, and it
matters neither which role a part has nor, for a leaf, where it was read. -/
structure Readable (P : Tree → Prop) : Prop where
  trivia {t : Tree} (h : PlainTrivia t) : P t
  role {t : Tree} (h : P t) (ht : t.isTrivia = false) (r : Role) : P (t.withRole r)
  token {k : Kind} (hi : k ≠ .identifier) (hs : k ≠ .shorthandPropertyIdentifier)
    (hk : k ≠ .string) (t : List Char) : P (token k none t)
  name {k : Kind} {test : List Char → Bool} {s : List Char} {n : Nat} (hk : k ≠ .string)
    (h : Lexis.name test s = some n) : P (Tree.token k none (s.take n))
  dashedName {k : Kind} {s : List Char} {n : Nat} (hk : k ≠ .string)
    (h : Lexis.dashedName s = some n) : P (Tree.token k none (s.take n))
  shorthand (r : Option Role) (t : List Char) :
    P (Tree.token .shorthandPropertyIdentifierPattern r t)
  attributeString {s : List Char} {n : Nat} (h : Lexis.attributeString s = some n) :
    P (Tree.token .string none (s.take n))
  node {k : Kind} (hk : k ∉ shapedKinds) (r : Option Role) (ps : List Tree) : P (node k r ps)
  string {q : Char} {s rest : List Char} {ts : List Tree} (hq : q ∈ ['\x22', '\x27'])
    (h : Reads Lexis.lexicon rules (quotedBody q) s ts rest) :
    P (Tree.node .string none (splitTrivia ts).2)
  template {s rest : List Char} {ts : List Tree}
    (h : Reads Lexis.lexicon rules templateBody s ts rest) :
    P (Tree.node .templateString none (splitTrivia ts).2)
  substitution {s rest : List Char} {ts : List Tree}
    (h : Reads Lexis.lexicon rules substitutionBody s ts rest) :
    P (Tree.node .templateSubstitution none (splitTrivia ts).2)
  regex {s rest : List Char} {ts : List Tree}
    (h : Reads Lexis.lexicon rules regexBody s ts rest) :
    P (Tree.node .regex none (splitTrivia ts).2)
  member {g : G} {s rest : List Char} {body start more : List Tree}
    (hg : g ∈ [seq (mark ".") property, seq optionalDot property,
      seq (mark ".") (field .property memberName)])
    (hfit : Reshape.asPart .object body = some start)
    (h : Reads Lexis.lexicon rules g s more rest) : P (Tree.node .member none (start ++ more))
  assignment {s rest : List Char} {body start more : List Tree}
    (hfit : Reshape.asTarget body = some start)
    (h : Reads Lexis.lexicon rules (seq (markBut "=" "=>") (field .right (rule .element))) s more
      rest) (hmore : ∀ t ∈ more, Throughout P t) : P (Tree.node .assignment none (start ++ more))

theorem Throughout.withRole (hP : Readable P) {t : Tree} (h : Throughout P t)
    (ht : t.isTrivia = false) (r : Role) : Throughout P (t.withRole r) := by
  cases h with
  | mk root parts =>
    refine ⟨hP.role root ht r, ?_⟩
    cases t with
    | gap s => exact parts
    | token k r' s => exact parts
    | node k r' ps => exact parts

/-! ## Changes of form -/

/-- Whether a change of form keeps what holds throughout. -/
def KeepsThroughout (P : Tree → Prop) (form : List Tree → Option (List Tree)) : Prop :=
  ∀ ts us, form ts = some us → (∀ t ∈ ts, Throughout P t) → ∀ u ∈ us, Throughout P u

namespace Reshape

theorem throughout_of_forall₂ {ts us : List Tree}
    (h : List.Forall₂ (fun t u => Throughout P t → Throughout P u) ts us)
    (hts : ∀ t ∈ ts, Throughout P t) : ∀ u ∈ us, Throughout P u := by
  induction h with
  | nil => simp
  | cons hu _ ih =>
    obtain ⟨ht, hts⟩ := List.forall_mem_cons.1 hts
    exact List.forall_mem_cons.2 ⟨hu ht, ih hts⟩

theorem patterning_throughout (hP : Readable P) :
    Patterning fun t p => Throughout P t → Throughout P p where
  refl _ h := h
  shorthand r t _ := .token (hP.shorthand r t)
  default r ps h := throughout_node.2 ⟨hP.node (by decide) r ps, (throughout_node.1 h).2⟩
  parts {_ k'} r _ qs hk' hqs h := by
    refine throughout_node.2 ⟨?_, throughout_of_forall₂ hqs (throughout_node.1 h).2⟩
    simp only [List.mem_cons, List.not_mem_nil, or_false] at hk'
    rcases hk' with rfl | rfl | rfl | rfl
    all_goals exact hP.node (by decide) r qs

theorem patterning_isTrivia : Patterning fun t p => t.isTrivia = false → p.isTrivia = false where
  refl _ h := h
  shorthand _ _ _ := rfl
  default _ _ _ := rfl
  parts _ _ _ _ _ _ := rfl

variable (hP : Readable P)

include hP

theorem keepsThroughout_asPart (r : Role) : KeepsThroughout P (asPart r) := by
  intro ts us h hts
  obtain ⟨t, ht, rfl, rfl⟩ := asPart_eq_some h
  simpa using (hts t (by simp)).withRole hP ht r

theorem keepsThroughout_asPlace : KeepsThroughout P asPlace := by
  intro ts us h hts
  obtain ⟨t, ht, rfl, rfl⟩ := asPlace_eq_some h
  simpa using (hts t (by simp)).withRole hP ht _

theorem keepsThroughout_asTarget : KeepsThroughout P asTarget := by
  intro ts us h hts
  obtain ⟨t, p, ht, rfl, rfl, hp⟩ := asTarget_eq_some h
  have hwell : Throughout P t := hts t (by simp)
  rcases hp with rfl | hp
  · simpa using hwell.withRole hP ht _
  · simpa using ((patterning_throughout hP).pattern hp hwell).withRole hP
      (patterning_isTrivia.pattern hp ht) _

theorem keepsThroughout_asParameters : KeepsThroughout P asParameters := by
  intro ts us h hts
  obtain ⟨r, ps, qs, rfl, rfl, hq⟩ := asParameters_eq_some h
  obtain ⟨-, hps⟩ := throughout_node.1 (hts _ (List.mem_singleton_self _))
  rw [List.forall_mem_singleton]
  refine throughout_node.2 ⟨hP.node (by decide) _ _, ?_⟩
  rcases hq with rfl | hq
  · exact hps
  · exact throughout_of_forall₂ ((patterning_throughout hP).patterns hq) hps

theorem throughout_asSequence {ts : List Tree} (h : ∀ t ∈ ts, Throughout P t) :
    ∀ u ∈ asSequence ts, Throughout P u := by
  rcases asSequence_eq ts with heq | heq
  · rwa [heq]
  · rw [heq, List.forall_mem_singleton]
    exact throughout_node.2 ⟨hP.node (by decide) _ _, h⟩

theorem keepsThroughout_asParenthesized : KeepsThroughout P asParenthesized := by
  intro ts us h hts
  rcases asParenthesized_eq_some h with rfl | ⟨r, a, m, b, rfl, rfl⟩
  · exact hts
  · obtain ⟨-, hps⟩ := throughout_node.1 (hts _ (List.mem_singleton_self _))
    simp only [List.forall_mem_append] at hps
    rw [List.forall_mem_singleton]
    refine throughout_node.2 ⟨hP.node (by decide) _ _, ?_⟩
    simp only [List.forall_mem_append]
    exact ⟨⟨hps.1.1, throughout_asSequence hP hps.1.2⟩, hps.2⟩

end Reshape

/-! ## Reading -/

open Grammar

/-- Tokens, constructs, changes of form and continuations that keep what holds throughout. -/
def keeping (P : Tree → Prop) : Demands Rule where
  token k scan := ∀ s n, scan s = some n → P (token k none (s.take n))
  node k g := ∀ s ts rest, Reads Lexis.lexicon rules g s ts rest →
    P (node k none (splitTrivia ts).2)
  form := KeepsThroughout P
  way c g := KeepsThroughout P c.fit ∧ ∀ body start s more rest, c.fit body = some start →
    Reads Lexis.lexicon rules g s more rest → (∀ t ∈ more, Throughout P t) →
    P (node c.kind none (start ++ more))

/-- What the rules mention keeps every readable property. -/
theorem mentionedByRules_keeping (hP : Readable P) : MentionedByRules (keeping P) where
  token _ hi hs hk _ _ _ := hP.token hi hs hk _
  name _ hk _ _ h := hP.name hk h
  dashedName hk _ _ h := hP.dashedName hk h
  attributeString _ _ h := hP.attributeString h
  node _ hm ha hs ht hsub hr _ _ _ _ := hP.node (by simp [shapedKinds, *]) _ _
  string _ hq _ _ _ h := hP.string hq h
  template _ _ _ h := hP.template h
  substitution _ _ _ h := hP.substitution h
  regex _ _ _ h := hP.regex h
  sequence ts us h hts := by
    rw [← Option.some.inj h]
    exact Reshape.throughout_asSequence hP hts
  complete ts us h hts := by rwa [Reshape.complete_eq_some h]
  parenthesized := Reshape.keepsThroughout_asParenthesized hP
  members ts us h hts := by rwa [Reshape.startsWithMembers_eq_some h]
  target := Reshape.keepsThroughout_asTarget hP
  parameters := Reshape.keepsThroughout_asParameters hP
  bindingTarget ts us h hts := by rwa [Reshape.asBindingTarget_eq_some h]
  part r _ hm ha hs ht hsub hr := ⟨Reshape.keepsThroughout_asPart hP r,
    fun _ _ _ _ _ _ _ _ => hP.node (by simp [shapedKinds, *]) _ _⟩
  place _ := ⟨Reshape.keepsThroughout_asPlace hP, fun _ _ _ _ _ _ _ _ =>
    hP.node (by decide) _ _⟩
  arrow _ := ⟨Reshape.keepsThroughout_asParameters hP, fun _ _ _ _ _ _ _ _ =>
    hP.node (by decide) _ _⟩
  member := ⟨Reshape.keepsThroughout_asPart hP _, fun _ _ _ _ _ hfit h _ =>
    hP.member (by simp) hfit h⟩
  optionalMember := ⟨Reshape.keepsThroughout_asPart hP _, fun _ _ _ _ _ hfit h _ =>
    hP.member (by simp) hfit h⟩
  tagMember := ⟨Reshape.keepsThroughout_asPart hP _, fun _ _ _ _ _ hfit h _ =>
    hP.member (by simp) hfit h⟩
  assignment := ⟨Reshape.keepsThroughout_asTarget hP, fun _ _ _ _ _ hfit h hmore =>
    hP.assignment hfit h hmore⟩

theorem invariant_throughout (hP : Readable P) :
    Invariant Lexis.lexicon rules (keeping P) fun _ ts _ => ∀ t ∈ ts, Throughout P t where
  nil _ := by simp
  append h h' := List.forall_mem_append.2 ⟨h, h'⟩
  gap s := fun t ht =>
    have hplain := Lexis.plainTrivia_pieces s t ht
    .of_plainTrivia (hP.trivia hplain) hplain
  token hd hn := List.forall_mem_singleton.2 (.token (hd _ _ hn))
  node {kind a s ts rest} hd hreads h := by
    have hpart := hd s ts rest hreads
    rw [← splitTrivia_append ts, List.forall_mem_append] at h
    exact List.forall_mem_append.2 ⟨h.1, List.forall_mem_singleton.2
      (throughout_node.2 ⟨hpart, h.2⟩)⟩
  field h hr := by
    obtain ⟨lead, t, rfl, rfl, -, ht⟩ := giveRole_eq_some hr
    simp only [List.forall_mem_append, List.forall_mem_singleton] at h ⊢
    exact ⟨h.1, h.2.withRole hP ht _⟩
  form {form s ts us rest} hd h hf := by
    rw [← splitTrivia_append ts, List.forall_mem_append] at h
    exact List.forall_mem_append.2 ⟨h.1, hd _ _ hf h.2⟩
  way {c g s lead body mid start more rest} hd h hfit hreads hmore := by
    rw [List.forall_mem_append] at h
    refine List.forall_mem_append.2 ⟨h.1, List.forall_mem_singleton.2 (throughout_node.2 ⟨?_, ?_⟩)⟩
    · exact hd.2 _ _ _ _ _ hfit hreads hmore
    · exact List.forall_mem_append.2 ⟨hd.1 _ _ hfit h.2, hmore⟩

/-- **What holds of single constructs holds throughout a program.** -/
theorem throughout_of_readProgram (hP : Readable P) {s lead : List Char} {root : Tree}
    (h : readProgram s = some (lead, root)) : Throughout P root := by
  have hprogram (ps : List Tree) : P (node .program none ps) :=
    hP.node (by decide) _ _
  unfold readProgram at h
  split at h
  · rename_i ts rest hrun
    have hts : ∀ t ∈ ts, Throughout P t :=
      (reads_of_run hrun).keeps (invariant_throughout hP) (mentionedByRules_keeping hP).every_rules
        (by simp [Every])
    split at h
    · cases h
      exact throughout_node.2 ⟨hprogram _, (List.forall_mem_cons.1 hts).2⟩
    · cases h
      exact throughout_node.2 ⟨hprogram _, hts⟩
  · cases h

end ReactWeave.Script
