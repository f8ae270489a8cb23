import ReactWeave.Proofs.Expressions

/-!
# ReactWeave.Proofs.Tags

**Tags that are read to their end.** An element is written as a name and its
attributes; each attribute holds a fragment of script in a container of its own.
If the fragments are enclosed (`Enclosed`), the reader takes the containers, the
attributes and the tag just as they were written.

* `takesPart_selfClosing`, `takesPart_jsxElement`: elements with any number of
  attributes.
-/

namespace ReactWeave.Script

open Grammar Rules

/-! ## Containers -/

section Containers

open Reshape (anyHoldsDefault holdsDefault complete)

variable {s rest code : List Char}

theorem TakesPart.expressions (h : TakesPart (.rule .element) s rest)
    (hrest : (Lexis.behindGap rest).head? ≠ some ',') : TakesPart (.rule .expressions) s rest := by
  obtain ⟨lead, t, hg, hlead, ht, hd⟩ := h
  have hsplit := splitTrivia_part hlead ht []
  have hlist : Answers (commaList1 (.rule .element)) s
      (some (lead ++ [t] ++ [], rest)) :=
    hg.seq (gives_comma_none hrest (.rule .element)).many_nil
  rw [List.append_nil] at hlist
  have hform : (fun ts => some (Reshape.asSequence ts)) (splitTrivia (lead ++ [t])).2 =
      some [t] := by
    simp [hsplit, Reshape.asSequence, Reshape.significant, ht]
  have hone : TakesPart (Rules.sequence (.rule .element)) s rest := by
    have hseq : Answers (Rules.sequence (.rule .element)) s _ :=
      hlist.reshape hform
    rw [hsplit] at hseq
    exact ⟨lead, t, hseq, hlead, ht, hd⟩
  exact .rule (r := .expressions) hone.complete

theorem closing_brace (rest : List Char) : closing.ahead (Lexis.behindGap ('}' :: rest)) :=
  closing_of_close (.inl rfl) rfl

theorem takesPart_jsxExpression {u left : List Char}
    (hs : Lexis.behindGap s = '{' :: u)
    (h : Takes (.alt (.node .spread (.seq (Rules.mark "...") (.rule .expression)))
      (.rule .expressions)) u left)
    (hleft : Lexis.behindGap left = '}' :: rest) : TakesPart (.rule .jsxExpression) s rest := by
  have hbody := (takesPart_mark (w := "\x7b") hs).takes.seq
    (h.opt.seq (takesPart_mark (w := "\x7d") hleft).takes)
  exact .rule (r := .jsxExpression) (hbody.node (by decide))

/-- An element between braces is an expression in markup. -/
theorem TakesPart.braces {u left : List Char} (h : TakesPart (.rule .element) u left)
    (hs : Lexis.behindGap s = '{' :: u) (hleft : Lexis.behindGap left = '}' :: rest) :
    TakesPart (.rule .jsxExpression) s rest := by
  have hexpressions := h.expressions (by simp [hleft])
  obtain ⟨lead, t, hg, -⟩ := h
  exact takesPart_jsxExpression hs
    (.alt_second ((gives_dots_none hg).seq_none.node_none _) hexpressions.takes) hleft

theorem Enclosed.braces (hcode : Enclosed code)
    (hs : Lexis.behindGap s = '{' :: (code ++ '}' :: rest)) :
    TakesPart (.rule .jsxExpression) s rest := by
  obtain ⟨left, helement, hleft⟩ : ∃ left, TakesPart (.rule .element) (code ++ '}' :: rest) left ∧
      Lexis.behindGap left = '}' :: rest :=
    hcode.element [] rest (by simp) (.inl rfl)
  exact helement.braces hs hleft

/-- A spread of parentheses is an expression in markup. -/
theorem Enclosed.spread (hcode : Enclosed code)
    (hs : Lexis.behindGap s = '{' :: '.' :: '.' :: '.' :: '(' :: (code ++ ')' :: '}' :: rest)) :
    TakesPart (.rule .jsxExpression) s rest := by
  have hdots : TakesPart (Rules.mark "...") ('.' :: '.' :: '.' :: '(' :: (code ++ ')' :: '}' :: rest))
      ('(' :: (code ++ ')' :: '}' :: rest)) :=
    takesPart_mark rfl
  have hinner : TakesPart (.rule .element) ('(' :: (code ++ ')' :: '}' :: rest)) ('}' :: rest) :=
    hcode.parentheses rfl (closing_brace rest)
  have hspread := (hdots.takes.seq hinner.expression.takes).node (k := .spread) (by decide)
  exact takesPart_jsxExpression hs hspread.takes.alt rfl

theorem takesPart_arrowBody (hs : (Lexis.behindGap s).head? = some '(')
    (h : TakesPart (.rule .element) s rest) : TakesPart (.rule .arrowBody) s rest := by
  have hno {g : G} (hg : (starting '(').Refuses Lexis.lexicon g) :
      Answers g s none :=
    (starting_right '(').gives hs hg
  have hbrace : Answers (Rules.mark "\x7b") s none :=
    hno ((starting_within '(').mark (by decide) [])
  have hobject : Answers (fromObject (.rule .expression)) s none :=
    hno (.inl (starting_mayOpenObject (by decide)))
  obtain ⟨lead, t, hg, ht⟩ := h
  have hbody : TakesPart (.seq noBrace (.rule .element)) s rest := ⟨lead, t, hbrace.absent.seq hg, ht⟩
  exact .rule (r := .arrowBody) (TakesPart.field (.alt_second hobject (.alt_second (hno rfl) hbody)))

/-- A handler of events is an expression in markup. -/
theorem Enclosed.handler (hcode : Enclosed code)
    (hs : Lexis.behindGap s = '{' :: ("event => (".toList ++ (code ++ ')' :: '}' :: rest))) :
    TakesPart (.rule .jsxExpression) s rest := by
  let inner := code ++ ')' :: '}' :: rest
  have hparameter : TakesPart (.field .parameter (.token .identifier (Lexis.name Lexis.isLabel)))
      ("event => (".toList ++ inner) (" => (".toList ++ inner) :=
    (takesPart_token (by decide) (n := 5) rfl).field
  have harrow : TakesPart (Rules.mark "=>") (" => (".toList ++ inner) (" (".toList ++ inner) :=
    takesPart_mark rfl
  have hbody : TakesPart (.rule .arrowBody) (" (".toList ++ inner) ('}' :: rest) :=
    takesPart_arrowBody rfl (hcode.parentheses rfl (closing_brace rest))
  obtain ⟨lead, t, hg, ht⟩ : TakesPart _ ("event => (".toList ++ inner) ('}' :: rest) :=
    (hparameter.takes.seq (harrow.takes.seq hbody.takes)).node (k := .arrowFunction) (by decide)
  have hahead : opening.ahead (Lexis.behindGap ("event => (".toList ++ inner)) :=
    .inr ⟨"event".toList, " => (".toList ++ inner, by decide, rfl, rfl⟩
  have hprimary : TakesPart (.rule .primary) ("event => (".toList ++ inner) ('}' :: rest) :=
    ⟨lead, t, gives_primary rfl hahead (gives_alts 0 rfl (by simp) hg), ht⟩
  exact (hprimary.element hahead (closing_brace rest)).braces hs rfl

theorem takesPart_htmlKey (u : List Char) :
    TakesPart (.rule .string) ("\"__html\":".toList ++ u) (':' :: u) := by
  refine ⟨[], .node .string none [.token .symbol none ['"'],
    .token .stringFragment none "__html".toList, .token .symbol none ['"']], ?_, by simp, rfl, ?_⟩
  · refine ⟨12, fun d hd => ?_⟩
    obtain ⟨d, rfl⟩ := Nat.exists_eq_add_of_le hd
    rw [Nat.add_comm]
    rfl
  · simp [holdsDefault, anyHoldsDefault]

theorem Enclosed.member (hcode : Enclosed code) (rest : List Char) :
    ∃ left lead ps, Answers (.rule .member)
        ("\"__html\": ".toList ++ (code ++ '}' :: rest)) (some (lead ++ [.node .pair none ps], left)) ∧
      (∀ p ∈ lead, p.isTrivia = true) ∧ anyHoldsDefault ps = false ∧
      Lexis.behindGap left = '}' :: rest := by
  let inner := code ++ '}' :: rest
  obtain ⟨left, helement, hleft⟩ : ∃ left, TakesPart (.rule .element) (" ".toList ++ inner) left ∧
      Lexis.behindGap left = '}' :: rest := by
    have h := hcode.element [' '] rest (by decide) (.inl rfl)
    simpa [inner] using h
  have hahead : (Lexis.behindGap ("\"__html\": ".toList ++ inner)).head? = some '"' := rfl
  have hkey : TakesPart (.rule .propertyName) ("\"__html\": ".toList ++ inner)
      (": ".toList ++ inner) := by
    obtain ⟨lead, t, hg, ht⟩ := takesPart_htmlKey (" ".toList ++ inner)
    refine ⟨lead, t, .rule ((starting_right '"').gives_alts hahead 2 rfl ?_ hg), ht⟩
    have hname := (starting_within '"').name (by decide)
    have hprivate := (starting_within '"').privateName (by decide)
    simp [Sight.Refuses, memberName, Rules.privateName, hname, hprivate]
  have hcolon : TakesPart (Rules.mark ":") (": ".toList ++ inner) (" ".toList ++ inner) :=
    takesPart_mark rfl
  obtain ⟨ts, hg, hts⟩ := (hkey.field (r := .key)).takes.seq
    (hcolon.takes.seq (helement.field (r := .value)).takes)
  refine ⟨left, _, _, .rule ((starting_right '"').gives_alts hahead 1 rfl ?_ (hg.node .pair)),
    isTrivia_of_mem_splitTrivia, ?_, hleft⟩
  · simp [Sight.Refuses]
    rfl
  · rw [← splitTrivia_append ts, anyHoldsDefault_append, Bool.or_eq_false_iff] at hts
    exact hts.2

theorem isKind_of_isTrivia {t : Tree} (h : t.isTrivia = true) {k : Kind} (hk : k ≠ .comment) :
    t.isKind k = false := by
  cases t with
  | gap s => rfl
  | token k' r s =>
    cases k'
    case comment => simpa [Tree.isKind, Tree.kind?] using hk.symm
    all_goals cases h
  | node k' r ps => cases h

/-- An object for inner markup is an expression in markup. -/
theorem Enclosed.html (hcode : Enclosed code)
    (hs : Lexis.behindGap s = '{' :: ("\x7b\"__html\": ".toList ++ (code ++ '}' :: '}' :: rest))) :
    TakesPart (.rule .jsxExpression) s rest := by
  let inner := "\"__html\": ".toList ++ (code ++ '}' :: '}' :: rest)
  obtain ⟨left, lead, ps, hmember, hlead, hps, hleft⟩ := hcode.member ('}' :: rest)
  obtain ⟨front, tail, hfront, htail, hobject⟩ := gives_bracketed (s := '{' :: inner)
    (o := "\x7b") (c := "\x7d") .object rfl hmember hleft (.inr rfl)
  have hdefault : holdsDefault (.node .object none (.token .symbol none "\x7b".toList ::
      (lead ++ .node .pair none ps :: (tail ++ [.token .symbol none "\x7d".toList])))) = false := by
    have hquiet {ts : List Tree} (h : ∀ p ∈ ts, p.isTrivia = true) :
        ts.any (Tree.isKind .objectAssignmentPattern) = false := by
      rw [List.any_eq_false]
      intro t ht
      simp [isKind_of_isTrivia (h t ht) (k := .objectAssignmentPattern) (by decide)]
    simp [holdsDefault, anyHoldsDefault, anyHoldsDefault_append, List.any_append,
      anyHoldsDefault_of_isTrivia hlead, anyHoldsDefault_of_isTrivia htail, hps, hquiet hlead,
      hquiet htail]
    exact ⟨rfl, rfl, rfl⟩
  have hprimary : TakesPart (.rule .primary) ('{' :: inner) ('}' :: rest) :=
    ⟨front, _, gives_primary_object rfl (.rule hobject), hfront, rfl, hdefault⟩
  have hahead : opening.ahead (Lexis.behindGap ('{' :: inner)) := .inl ⟨'{', by decide, rfl⟩
  exact (hprimary.element hahead (closing_brace rest)).braces hs rfl

end Containers

/-! ## Names of elements and attributes -/

section TagNames

variable {s u w : List Char} {c : Char}

theorem takesPart_dashedName {k : Kind} (hk : k ≠ .comment) (hw : isName w = true)
    (hc : endsName c = true) (hs : Lexis.behindGap s = w ++ c :: u) :
    TakesPart (Rules.dashedName k) s (c :: u) := by
  have hlen : w.length ≠ 0 := by
    obtain ⟨a, w, rfl, -⟩ := isName_head hw
    simp
  simp only [endsName, Bool.and_eq_true, bne_iff_ne] at hc
  have hname : Lexis.nameLength (w ++ c :: u) = w.length :=
    nameLength_of_endsWord hw (by simpa using hc.1)
  have hn : Lexis.dashedName (Lexis.behindGap s) = some w.length := by
    rw [hs]
    simp [Lexis.dashedName, hname, hlen, hc.2]
  have h := takesPart_token hk hn
  rwa [hs, List.drop_left] at h

theorem gives_namespaced_none (hw : isName w = true) (hc : endsName c = true)
    (hs : Lexis.behindGap s = w ++ c :: u) {a : Char}
    (hnext : (Lexis.behindGap (c :: u)).head? = some a) (ha : a ≠ ':') :
    Answers namespaced s none := by
  obtain ⟨lead, t, hname, -⟩ := takesPart_dashedName (k := .identifier) (by decide) hw hc hs
  have hcolon : Answers (Rules.mark ":") (c :: u) none :=
    (starting_right a).gives hnext ((starting_within a).mark (by simp [startsOutside, ha.symm]) [])
  exact (hname.seq_second hcolon.seq_none).node_none _

end TagNames

/-! ## Attributes -/

section Attributes

variable {s rest code : List Char} {key : List Char}

/-- The text of an attribute: it starts with a name or a brace, and is read to its end. -/
structure IsAttribute (text : List Char) : Prop where
  head : ∃ c u, text = c :: u ∧ (Lexis.isNameStart c = true ∨ c = '{')
  takes (s rest : List Char) :
    Lexis.behindGap s = text ++ rest → TakesPart (.rule .jsxAttribute) s rest

theorem isAttribute_spread (hcode : Enclosed code) :
    IsAttribute ("\x7b...(".toList ++ (code ++ ")\x7d".toList)) where
  head := ⟨'{', _, rfl, .inr rfl⟩
  takes s rest hs := by
    refine .rule (.alt (hcode.spread ?_))
    rw [hs]
    simp

/-- A name, an equals sign and braces are an attribute. -/
theorem isAttribute_named (hkey : isName key = true) {content : List Char}
    (hcontent : ∀ s rest, Lexis.behindGap s = '{' :: (content ++ '}' :: rest) →
      TakesPart (.rule .jsxExpression) s rest) :
    IsAttribute (key ++ '=' :: '{' :: (content ++ ['}'])) where
  head := by
    obtain ⟨c, w, rfl, hc⟩ := isName_head hkey
    exact ⟨c, _, rfl, .inl hc⟩
  takes s rest hs := by
    have hs : Lexis.behindGap s = key ++ '=' :: ('{' :: (content ++ '}' :: rest)) := by
      rw [hs]
      simp
    obtain ⟨c, w, hw, hc⟩ := isName_head hkey
    have hbrace : c ≠ '{' := by
      rintro rfl
      exact absurd hc (by decide)
    have hhead : (Lexis.behindGap s).head? = some c := by
      rw [hs, hw]
      rfl
    have hexpression : Answers (.rule .jsxExpression) s none := by
      refine (starting_right c).gives hhead ?_
      simp [Sight.Refuses, starting, hbrace]
    have hname : TakesPart (.alt namespaced (Rules.dashedName .propertyIdentifier)) s
        ('=' :: '{' :: (content ++ '}' :: rest)) :=
      .alt_second (gives_namespaced_none hkey (by decide) hs rfl (by decide))
        (takesPart_dashedName (by decide) hkey (by decide) hs)
    have hquote : Answers (.token .string Lexis.attributeString)
        ('{' :: (content ++ '}' :: rest)) none :=
      gives_token _ _ _
    have hequals : TakesPart (Rules.mark "=") ('=' :: '{' :: (content ++ '}' :: rest))
        ('{' :: (content ++ '}' :: rest)) :=
      takesPart_mark rfl
    have hvalue : Takes (alts [.token .string Lexis.attributeString, .rule .jsxExpression,
        .rule .jsx]) ('{' :: (content ++ '}' :: rest)) rest :=
      .alt_second hquote (hcontent _ _ rfl).takes.alt
    have hattribute := hname.takes.seq (hequals.takes.seq hvalue).opt
    exact .rule (r := .jsxAttribute) (.alt_second hexpression (hattribute.node (by decide)))

/-- The attributes of an element, each behind a blank. -/
def attributesText (texts : List (List Char)) : List Char := texts.flatMap (' ' :: ·)

theorem IsAttribute.behindGap {text : List Char} (h : IsAttribute text) (rest : List Char) :
    Lexis.behindGap (' ' :: (text ++ rest)) = text ++ rest := by
  obtain ⟨c, u, rfl, hc⟩ := h.head
  have hstay : Lexis.behindGap (c :: (u ++ rest)) = c :: (u ++ rest) := by
    rcases hc with hc | rfl
    · exact behindGap_of_isNameStart hc _
    · rfl
  have hblank : Lexis.behindGap (' ' :: c :: (u ++ rest)) = Lexis.behindGap (c :: (u ++ rest)) := rfl
  rw [List.cons_append, hblank, hstay]

theorem gives_attribute_none {c : Char} (hc : c = '>' ∨ c = '/')
    (hs : (Lexis.behindGap s).head? = some c) :
    Answers (.field .attribute (.rule .jsxAttribute)) s none := by
  have hname : (starting c).Missing Lexis.dashedName :=
    (starting_within c).dashedName (by rcases hc with rfl | rfl <;> decide)
  have hrule : (starting c).Refuses Lexis.lexicon (rules .jsxAttribute) := by
    refine ⟨?_, .inl ⟨.inl hname, hname⟩⟩
    rcases hc with rfl | rfl <;> rfl
  exact ((starting_right c).gives hs hrule).rule.field_none

/-- Attributes are read one by one up to the end of the tag. -/
theorem takes_attributes {texts : List (List Char)} (h : ∀ text ∈ texts, IsAttribute text)
    {tail : List Char} {c : Char} (hc : c = '>' ∨ c = '/')
    (htail : (Lexis.behindGap tail).head? = some c) :
    Takes (.many (.field .attribute (.rule .jsxAttribute))) (attributesText texts ++ tail) tail := by
  induction texts with
  | nil => exact takes_many_nil (gives_attribute_none hc htail)
  | cons text texts ih =>
    rw [List.forall_mem_cons] at h
    have hfirst := h.1.takes _ _ (h.1.behindGap (attributesText texts ++ tail))
    have hsplit : attributesText (text :: texts) ++ tail =
        ' ' :: (text ++ (attributesText texts ++ tail)) := by
      simp [attributesText]
    rw [hsplit]
    exact .many_cons hfirst.field.takes (ih h.2)

end Attributes

/-! ## Elements -/

section Elements

variable {s rest u tag tail : List Char} {texts : List (List Char)} {c a : Char}

/-- A tag name is read up to what cannot be part of one. -/
theorem takesPart_jsxName (htag : isName tag = true) (hc : endsName c = true)
    (hs : Lexis.behindGap s = tag ++ c :: u)
    (hnext : (Lexis.behindGap (c :: u)).head? = some a) (hcolon : a ≠ ':') (hdot : a ≠ '.') :
    TakesPart (.rule .jsxName) s (c :: u) := by
  obtain ⟨lead, t, hname, ht⟩ := takesPart_dashedName (k := .identifier) (by decide) htag hc hs
  have hmissing : (starting a).Missing (Lexis.mark ".".toList []) :=
    (starting_within a).mark (by simp [startsOutside, hdot.symm]) []
  have hways : ∀ way ∈ [goesOn .member .object (.seq (Rules.mark ".") (.field .property memberName))],
      (starting a).Refuses Lexis.lexicon way.2 := by
    simp only [List.forall_mem_singleton]
    exact .inl hmissing
  have hgrow : Answers (.grow (Rules.dashedName .identifier) true _) s
      (some (lead ++ [t], c :: u)) :=
    (starting_right a).gives_grow hways hnext hname
  exact .rule (r := .jsxName)
    (.alt_second (gives_namespaced_none htag hc hs hnext hcolon) ⟨lead, t, hgrow, ht⟩)

/-- What may follow the attributes of an element: the end of its tag. -/
structure EndsTag (tail : List Char) : Prop where
  head : ∃ c u, tail = c :: u ∧ endsName c = true
  next : ∃ c, (c = '>' ∨ c = '/') ∧ (Lexis.behindGap tail).head? = some c

theorem EndsTag.follows (htail : EndsTag tail) (h : ∀ text ∈ texts, IsAttribute text) :
    ∃ c u a, attributesText texts ++ tail = c :: u ∧ endsName c = true ∧
      (Lexis.behindGap (c :: u)).head? = some a ∧ a ≠ ':' ∧ a ≠ '.' := by
  cases texts with
  | nil =>
    obtain ⟨c, u, rfl, hc⟩ := htail.head
    obtain ⟨a, ha, hnext⟩ := htail.next
    refine ⟨c, u, a, rfl, hc, hnext, ?_⟩
    rcases ha with rfl | rfl <;> decide
  | cons text texts =>
    rw [List.forall_mem_cons] at h
    obtain ⟨a, w, hw, ha⟩ := h.1.head
    refine ⟨' ', text ++ (attributesText texts ++ tail), a, by simp [attributesText], by decide,
      ?_, ?_⟩
    · rw [h.1.behindGap, hw]
      rfl
    · rcases ha with ha | rfl
      · constructor <;> rintro rfl <;> exact absurd ha (by decide)
      · decide

/-- A tag is read up to its end. -/
theorem takes_tagStart (htag : isName tag = true) (h : ∀ text ∈ texts, IsAttribute text)
    (htail : EndsTag tail) :
    Takes (markBut "<" "/!") ('<' :: (tag ++ (attributesText texts ++ tail)))
        (tag ++ (attributesText texts ++ tail)) ∧
      TakesPart (.field .name (.rule .jsxName)) (tag ++ (attributesText texts ++ tail))
        (attributesText texts ++ tail) ∧
      Takes (.many (.field .attribute (.rule .jsxAttribute))) (attributesText texts ++ tail)
        tail := by
  obtain ⟨b, w, rfl, hb⟩ := isName_head htag
  obtain ⟨c, u, a, heq, hc, hnext, hcolon, hdot⟩ := htail.follows h
  obtain ⟨e, he, hend⟩ := htail.next
  refine ⟨?_, ?_, takes_attributes h he hend⟩
  · have hstop : ∀ e ∈ (b :: (w ++ (attributesText texts ++ tail))).head?, e ∉ "/!".toList := by
      intro e he hmem
      obtain rfl : b = e := by simpa using he
      have hbad : b = '/' ∨ b = '!' := by simpa using hmem
      rcases hbad with rfl | rfl <;> exact absurd hb (by decide)
    obtain ⟨lead, hg, hlead⟩ := gives_markBut (w := "<")
      (s := '<' :: b :: (w ++ (attributesText texts ++ tail))) rfl hstop
    exact TakesPart.takes ⟨lead, _, hg, hlead, rfl, by simp [Reshape.holdsDefault]⟩
  · rw [heq]
    exact (takesPart_jsxName htag hc (behindGap_of_isNameStart hb _) hnext hcolon hdot).field

theorem takesPart_selfClosing (htag : isName tag = true) (h : ∀ text ∈ texts, IsAttribute text)
    (rest : List Char) :
    TakesPart (.rule .jsx) ('<' :: (tag ++ (attributesText texts ++ (" />".toList ++ rest))))
      rest := by
  have htail : EndsTag (" />".toList ++ rest) :=
    ⟨⟨' ', _, rfl, by decide⟩, ⟨'/', .inr rfl, rfl⟩⟩
  obtain ⟨hopen, hname, hattributes⟩ := takes_tagStart htag h htail
  have hclose : TakesPart (Rules.mark "/>") (" />".toList ++ rest) rest := takesPart_mark rfl
  have hbody := hopen.seq (hname.takes.seq (hattributes.seq hclose.takes))
  exact .rule (r := .jsx) (hbody.node (by decide)).alt

theorem gives_jsxChild_none (u : List Char) :
    Answers (.rule .jsxChild) ('<' :: '/' :: u) none := by
  refine ⟨20, fun d hd => ?_⟩
  obtain ⟨d, rfl⟩ := Nat.exists_eq_add_of_le hd
  rw [Nat.add_comm]
  rfl

/-- An element without children is read, with its closing tag. -/
theorem takesPart_jsxElement (htag : isName tag = true) (h : ∀ text ∈ texts, IsAttribute text)
    (rest : List Char) :
    TakesPart (.rule .jsx) ('<' :: (tag ++ (attributesText texts ++
      ("></".toList ++ (tag ++ '>' :: rest))))) rest := by
  have htail : EndsTag ("></".toList ++ (tag ++ '>' :: rest)) :=
    ⟨⟨'>', _, rfl, by decide⟩, ⟨'>', .inl rfl, rfl⟩⟩
  obtain ⟨hopen, hname, hattributes⟩ := takes_tagStart htag h htail
  have hslash : Answers (Rules.mark "/>") ("></".toList ++ (tag ++ '>' :: rest))
      none :=
    gives_token _ _ _
  have hnot := (hopen.seq_second (hname.takes.seq_second (hattributes.seq_second hslash))).node_none
    .jsxSelfClosingElement
  have hangle : TakesPart closeAngle ("></".toList ++ (tag ++ '>' :: rest))
      ("</".toList ++ (tag ++ '>' :: rest)) :=
    takesPart_mark rfl
  have hopening := (hopen.seq ((hname.takes.seq hattributes).opt.seq hangle.takes)).node
    (k := .jsxOpeningElement) (by decide)
  have hchildren : Takes (.many (.rule .jsxChild)) ("</".toList ++ (tag ++ '>' :: rest))
      ("</".toList ++ (tag ++ '>' :: rest)) :=
    takes_many_nil (gives_jsxChild_none _)
  have hmark : TakesPart (Rules.mark "</") ("</".toList ++ (tag ++ '>' :: rest))
      (tag ++ '>' :: rest) :=
    takesPart_mark rfl
  have hagain : TakesPart (.field .name (.rule .jsxName)) (tag ++ '>' :: rest) ('>' :: rest) := by
    obtain ⟨b, w, rfl, hb⟩ := isName_head htag
    exact (takesPart_jsxName htag (by decide) (behindGap_of_isNameStart hb _) rfl (by decide)
      (by decide)).field
  have hend : TakesPart closeAngle ('>' :: rest) rest := takesPart_mark rfl
  have hclosing := (hmark.takes.seq (hagain.takes.opt.seq hend.takes)).node
    (k := .jsxClosingElement) (by decide)
  have hbody := (hopening.field (r := .openTag)).takes.seq
    (hchildren.seq (hclosing.field (r := .closeTag)).takes)
  exact .rule (r := .jsx) (.alt_second hnot (hbody.node (by decide)))

end Elements

end ReactWeave.Script
