import ReactWeave.Proofs.Indentation
import ReactWeave.Proofs.MemberKeys

/-!
# ReactWeave.Proofs.TemplateLiterals

**Styles between the marks of a template literal.**

A style sheet and the style of a component stand in template literals, just as they
are. A literal has a syntax of its own: a mark closes it, a backslash starts an
escape, a dollar and a brace start a substitution, and line breaks are normalised.

* `survives_iff`: a text is the value of the literal it stands in exactly if it is
  free of all of these.
* `compile_styles_survive_iff`: so are the styles in a source, which are indented
  before they stand there.
-/

namespace ReactWeave.Script

/-! ## Reading template literals -/

/-- The code units of a character. -/
def codeUnits (n : Nat) : List Nat :=
  if n < 0x10000 then [n] else [0xD800 + (n - 0x10000) / 0x400, 0xDC00 + (n - 0x10000) % 0x400]

/-- The code units of a text. -/
def valueOf (s : List Char) : List Nat := s.flatMap fun c => codeUnits c.toNat

/-- What stands behind a backslash: the code units it stands for, and how many characters it
takes. -/
def templateEscape? : List Char → Option (List Nat × Nat)
  | 'u' :: '{' :: s =>
    let digits := s.takeWhile fun c => (Json.hexDigit? c).isSome
    let n := digits.foldl (fun n c => 16 * n + (Json.hexDigit? c).getD 0) 0
    if digits ≠ [] ∧ n ≤ 0x10FFFF ∧ (s.drop digits.length).head? = some '}' then
      some (codeUnits n, digits.length + 3)
    else none
  | s => (Json5.escape? s).map fun (units, n) => (units.flatMap codeUnits, n)

/-- The value of a template literal without substitutions, read behind the mark that opens it, and
what follows; the first `used` characters belong to an escape or a line break. -/
def template? : Nat → List Char → Option (List Nat × List Char)
  | _, [] => none
  | used + 1, _ :: s => template? used s
  | 0, c :: s =>
    if c = '\x60' then some ([], s)
    else if c = '$' ∧ s.head? = some '{' then none
    else if c = '\\' then
      (templateEscape? s).bind fun x => (template? x.2 s).map fun y => (x.1 ++ y.1, y.2)
    else if c = '\r' then
      (template? (if s.head? = some '\n' then 1 else 0) s).map fun y => (10 :: y.1, y.2)
    else (template? 0 s).map fun y => (codeUnits c.toNat ++ y.1, y.2)

/-- Whether a text has nothing that means something else in a template literal. -/
def isUnescaped : List Char → Bool
  | [] => true
  | c :: s =>
    !(['\x60', '\\', '\r'].contains c) && !(c == '$' && s.head? == some '{') && isUnescaped s

/-! ## Plain texts -/

/-- The weight of a code unit: what stands for something else weighs more. -/
def unitWeight (n : Nat) : Nat := if n = 92 ∨ n = 13 then 2 else 1

/-- The weight of code units. -/
def valueWeight (units : List Nat) : Nat := (units.map unitWeight).sum

section Weights

variable {s t r : List Char} {units v : List Nat} {n used : Nat}

@[simp] theorem valueWeight_append (a b : List Nat) :
    valueWeight (a ++ b) = valueWeight a + valueWeight b := by
  simp [valueWeight]

@[simp] theorem valueOf_cons (c : Char) (s : List Char) :
    valueOf (c :: s) = codeUnits c.toNat ++ valueOf s := rfl

@[simp] theorem valueOf_append (s t : List Char) : valueOf (s ++ t) = valueOf s ++ valueOf t := by
  simp [valueOf]

theorem valueWeight_codeUnits (n : Nat) :
    1 ≤ valueWeight (codeUnits n) ∧ valueWeight (codeUnits n) ≤ 2 := by
  rw [codeUnits]
  split
  · simp only [valueWeight, unitWeight, List.map_cons, List.map_nil, List.sum_cons, List.sum_nil]
    split <;> omega
  · have hhigh : unitWeight (0xD800 + (n - 0x10000) / 0x400) = 1 := if_neg (by omega)
    have hlow : unitWeight (0xDC00 + (n - 0x10000) % 0x400) = 1 := if_neg (by omega)
    simp [valueWeight, hhigh, hlow]

/-- An escape has at least one character and weighs at most two. -/
theorem templateEscape?_bounds (h : templateEscape? s = some (units, n)) :
    1 ≤ n ∧ valueWeight units ≤ 2 := by
  unfold templateEscape? at h
  split at h
  · dsimp only at h
    split at h
    · cases h
      exact ⟨by omega, (valueWeight_codeUnits _).2⟩
    · cases h
  · obtain ⟨⟨units', n'⟩, hescape, heq⟩ := Option.map_eq_some_iff.1 h
    cases heq
    obtain ⟨hlength, hn⟩ := Json5.escape?_bounds hescape
    refine ⟨hn, ?_⟩
    cases units' with
    | nil => exact Nat.zero_le _
    | cons unit units' =>
      obtain rfl : units' = [] := by simpa using hlength
      simpa using (valueWeight_codeUnits unit).2

theorem valueWeight_take_pos {x : List Char} (hn : 1 ≤ n) (hx : n ≤ x.length) :
    1 ≤ valueWeight (valueOf (x.take n)) := by
  obtain ⟨n, rfl⟩ : ∃ m, n = m + 1 := ⟨n - 1, by omega⟩
  cases x with
  | nil => simp at hx
  | cons d x =>
    have hd := (valueWeight_codeUnits d.toNat).1
    simp only [List.take_succ_cons, valueOf_cons, valueWeight_append]
    omega

/-- **Reading never makes a text heavier, and keeps the weight of plain texts only.** -/
theorem exists_of_template? (h : template? used s = some (v, r)) :
    ∃ x, s = x ++ '\x60' :: r ∧ used ≤ x.length ∧
      valueWeight v ≤ valueWeight (valueOf (x.drop used)) ∧
      (valueWeight v = valueWeight (valueOf (x.drop used)) → isUnescaped (x.drop used) = true) := by
  induction s generalizing used v with
  | nil => cases used <;> cases h
  | cons c s ih =>
    cases used with
    | succ used =>
      obtain ⟨x, rfl, hused, hle, hplain⟩ := ih h
      exact ⟨c :: x, rfl, by simpa using hused, hle, hplain⟩
    | zero =>
      -- What is read of more than one character weighs less than these.
      have hlossy (units : List Nat) {n : Nat} {v' : List Nat}
          (hrest : template? n s = some (v', r))
          (hunits : ∀ x : List Char, n ≤ x.length → valueWeight units <
            valueWeight (codeUnits c.toNat) + valueWeight (valueOf (x.take n))) :
          ∃ x, c :: s = x ++ '\x60' :: r ∧ 0 ≤ x.length ∧
            valueWeight (units ++ v') ≤ valueWeight (valueOf x) ∧
            (valueWeight (units ++ v') = valueWeight (valueOf x) → isUnescaped x = true) := by
        obtain ⟨x, rfl, hn, hle, -⟩ := ih hrest
        have hsplit : valueWeight (valueOf x) =
            valueWeight (valueOf (x.take n)) + valueWeight (valueOf (x.drop n)) := by
          rw [← valueWeight_append, ← valueOf_append, List.take_append_drop]
        have hlt := hunits x hn
        refine ⟨c :: x, rfl, Nat.zero_le _, ?_, fun heq => ?_⟩
        · simp only [valueOf_cons, valueWeight_append]
          omega
        · simp only [valueOf_cons, valueWeight_append] at heq
          omega
      rw [template?] at h
      by_cases hmark : c = '\x60'
      · rw [if_pos hmark] at h
        cases h
        exact ⟨[], by rw [hmark]; rfl, Nat.le_refl _, Nat.le_refl _, fun _ => rfl⟩
      rw [if_neg hmark] at h
      by_cases hdollar : c = '$' ∧ s.head? = some '{'
      · rw [if_pos hdollar] at h
        cases h
      rw [if_neg hdollar] at h
      by_cases hescape : c = '\\'
      · rw [if_pos hescape] at h
        obtain ⟨⟨units, n⟩, hunits, h⟩ := Option.bind_eq_some_iff.1 h
        obtain ⟨⟨v', r'⟩, hrest, heq⟩ := Option.map_eq_some_iff.1 h
        cases heq
        obtain ⟨hn, hle⟩ := templateEscape?_bounds hunits
        refine hlossy units hrest fun x hx => ?_
        show valueWeight units < _ + valueWeight (valueOf (x.take n))
        have hpos := valueWeight_take_pos hn hx
        have hc : valueWeight (codeUnits c.toNat) = 2 := by rw [hescape]; rfl
        omega
      rw [if_neg hescape] at h
      by_cases hreturn : c = '\r'
      · rw [if_pos hreturn] at h
        obtain ⟨⟨v', r'⟩, hrest, heq⟩ := Option.map_eq_some_iff.1 h
        cases heq
        refine hlossy [10] hrest fun x _ => ?_
        have hc : valueWeight (codeUnits c.toNat) = 2 := by rw [hreturn]; rfl
        have hten : valueWeight [10] = 1 := rfl
        omega
      rw [if_neg hreturn] at h
      obtain ⟨⟨v', r'⟩, hrest, heq⟩ := Option.map_eq_some_iff.1 h
      cases heq
      obtain ⟨x, rfl, -, hle, hplain⟩ := ih hrest
      refine ⟨c :: x, rfl, Nat.zero_le _, ?_, fun heq => ?_⟩
      · simpa using hle
      · have hx : isUnescaped x = true := hplain (by simpa using heq)
        have hhead : (c == '$' && x.head? == some '{') = false := by
          rw [Bool.eq_false_iff]
          intro hboth
          refine hdollar ?_
          cases x <;> simp_all
        simp [isUnescaped, hmark, hescape, hreturn, hhead, hx]

theorem template?_of_isUnescaped (h : isUnescaped t = true) (r : List Char) :
    template? 0 (t ++ '\x60' :: r) = some (valueOf t, r) := by
  induction t with
  | nil => rfl
  | cons c t ih =>
    simp only [isUnescaped, Bool.and_eq_true, Bool.not_eq_true'] at h
    obtain ⟨⟨hc, hdollar⟩, ht⟩ := h
    simp only [List.contains_cons, Bool.or_eq_false_iff, beq_eq_false_iff_ne] at hc
    have hhead : ¬(c = '$' ∧ (t ++ '\x60' :: r).head? = some '{') := by
      cases t <;> simp_all
    rw [List.cons_append, template?, if_neg hc.1, if_neg hhead, if_neg hc.2.1, if_neg hc.2.2.1,
      ih ht]
    rfl

/-- Whether a text between the marks of a literal is its value, whatever follows. -/
def Survives (t : List Char) : Prop :=
  ∀ r, template? 0 (t ++ '\x60' :: r) = some (valueOf t, r)

theorem survives_iff : Survives t ↔ isUnescaped t = true := by
  refine ⟨fun h => ?_, template?_of_isUnescaped⟩
  obtain ⟨x, heq, -, -, hplain⟩ := exists_of_template? (h [])
  obtain rfl : t = x := List.append_cancel_right heq
  exact hplain rfl

end Weights

/-! ## Indented literals -/

section Indented

open Text (hang indentFrom indentFrom_append hang_eq_self isLineEnd isBlank)

theorem isUnescaped_margin {margin : List Char} (hmargin : ∀ c ∈ margin, c = ' ') (s : List Char) :
    isUnescaped (margin ++ s) = isUnescaped s := by
  induction margin with
  | nil => rfl
  | cons c margin ih =>
    obtain ⟨rfl, hrest⟩ := List.forall_mem_cons.1 hmargin
    exact ih hrest

theorem isUnescaped_break (s : List Char) : isUnescaped (s ++ ['\n']) = isUnescaped s := by
  induction s with
  | nil => rfl
  | cons c s ih =>
    have hhead : ((s ++ ['\n']).head? == some '{') = (s.head? == some '{') := by cases s <;> rfl
    rw [List.cons_append, isUnescaped, isUnescaped, hhead, ih]

/-- Indenting changes nothing about what needs an escape. -/
theorem exists_indentFrom_plain (margin : List Char) (hmargin : ∀ c ∈ margin, c = ' ')
    {close : List Char} (hclose : close = [] ∨ close = ['\x60']) (fresh : Bool) (s : List Char) :
    ∃ t, indentFrom margin fresh (s ++ close) = t ++ close ∧ isUnescaped t = isUnescaped s ∧
      (fresh = false → t.head? = s.head?) := by
  induction s generalizing fresh with
  | nil =>
    rcases hclose with rfl | rfl
    · exact ⟨[], rfl, rfl, fun _ => rfl⟩
    · refine ⟨if fresh then margin else [], by cases fresh <;> rfl, ?_, by rintro rfl; rfl⟩
      cases fresh with
      | false => rfl
      | true => simpa using isUnescaped_margin hmargin []
  | cons c s ih =>
    obtain ⟨t, ht, hplain, hhead⟩ := ih (Text.endsLine c (s ++ close))
    have hdollar : (c == '$' && t.head? == some '{') = (c == '$' && s.head? == some '{') := by
      by_cases hc : c = '$'
      · rw [hhead (by rw [hc]; rfl)]
      · rw [beq_false_of_ne hc]
        rfl
    have hcons : isUnescaped (c :: t) = isUnescaped (c :: s) := by
      rw [isUnescaped, isUnescaped, hdollar, hplain]
    refine ⟨(if fresh && Text.startsSolid (c :: (s ++ close)) then margin else []) ++ c :: t,
      ?_, ?_, ?_⟩
    · rw [List.cons_append, indentFrom, ht]
      simp
    · split
      · rw [isUnescaped_margin hmargin, hcons]
      · exact hcons
    · rintro rfl
      rfl

/-- A literal under a margin is still between its marks. -/
theorem exists_hang_literal (margin : List Char) (hmargin : ∀ c ∈ margin, c = ' ')
    {before behind : List Char} (hlast : ∃ c ∈ before.getLast?, isBlank c = false)
    (hbefore : ∀ c ∈ before, isLineEnd c = false) (hbehind : ∀ c ∈ behind, isLineEnd c = false)
    (s : List Char) :
    ∃ t, hang margin (s ++ ['\x60']) = t ++ ['\x60'] ∧ isUnescaped t = isUnescaped s ∧
      hang margin (before ++ (s ++ '\x60' :: behind)) = before ++ (t ++ '\x60' :: behind) := by
  obtain ⟨t, ht, hplain, -⟩ := exists_indentFrom_plain margin hmargin (.inr rfl) false s
  refine ⟨t, ht, hplain, ?_⟩
  have htext : s ++ '\x60' :: behind = s ++ ['\x60'] ++ behind := by simp
  have hfront : indentFrom margin false before = before := hang_eq_self margin hbefore
  have hmark : ∃ c ∈ (s ++ ['\x60']).getLast?, isBlank c = false := ⟨'\x60', by simp, by decide⟩
  rw [hang, indentFrom_append false hlast, hfront, htext, hang, indentFrom_append false hmark, ht,
    hang_eq_self margin hbehind]
  simp

end Indented

end ReactWeave.Script

namespace ReactWeave

open Script Text

/-! ## Styles in a source -/

variable {host : Host} {o : Options} {c : Component} {source : String}

/-- The text of a style sheet between the marks, in a source. -/
structure SheetIn (source : String) (sheet : String) (t : List Char) : Prop where
  /-- It is the sheet, with margins in front of its lines. -/
  indented : hang "  ".toList (hang "    ".toList (sheet.toList ++ ['\x60'])) = t ++ ['\x60']
  stands : "<style jsx>\x7b\x60".toList ++ (t ++ "\x60\x7d</style>".toList) <:+: source.toList

/-- The text of a styled component between the marks, in a source. -/
structure StyledIn (source : String) (s : Style.Styled) (t : List Char) : Prop where
  indented : t = '\n' :: (indentChars "  ".toList ("\n".intercalate (Style.body s.map)).toList ++
    ['\n'])
  stands : ("const " ++ s.name ++ " = " ++ s.target ++ "\x60").toList ++ (t ++ "\x60;".toList) <:+:
    source.toList

/-- The style sheet stands in the source, under its margin. -/
theorem exists_sheetIn {parts : Parts} {sheet : String}
    (hstyle : parts.style = "<style jsx>\x7b\x60" ++ sheet ++ "\x60\x7d</style>") :
    ∃ t, SheetIn parts.assemble sheet t ∧ isUnescaped t = isUnescaped sheet.toList := by
  have hlast : ∃ c ∈ "<style jsx>\x7b\x60".toList.getLast?, isBlank c = false :=
    ⟨'\x60', by decide, by decide⟩
  have hbefore : ∀ c ∈ "<style jsx>\x7b\x60".toList, isLineEnd c = false := by decide
  have hbehind : ∀ c ∈ "\x7d</style>".toList, isLineEnd c = false := by decide
  obtain ⟨t₁, ht₁, hplain₁, hhang₁⟩ := exists_hang_literal "    ".toList (by decide)
    hlast hbefore hbehind sheet.toList
  obtain ⟨t, ht, hplain, hhang⟩ := exists_hang_literal "  ".toList (by decide)
    hlast hbefore hbehind t₁
  have htext : parts.style.toList =
      "<style jsx>\x7b\x60".toList ++ (sheet.toList ++ "\x60\x7d</style>".toList) := by
    simp [hstyle]
  have hfirm : Firm parts.style.toList := by
    rw [htext]
    exact firm_between ⟨'<', by decide, by decide⟩ ⟨'>', by decide, by decide⟩ _
  have hwithin : _ <:+: parts.assemble.toList :=
    Parts.hang_infix_markup hfirm List.mem_cons_self List.infix_rfl
  rw [htext, show "\x60\x7d</style>".toList = '\x60' :: "\x7d</style>".toList from rfl, hhang₁,
    hhang] at hwithin
  exact ⟨t, ⟨by rw [ht₁, ht], hwithin⟩, hplain.trans hplain₁⟩

/-- So does the style of every styled component. -/
theorem exists_styledIn {parts : Parts} {made : List Style.Styled}
    (hstyled : parts.styled = Style.styledDeclarations made) {s : Style.Styled} (hs : s ∈ made) :
    ∃ t, StyledIn parts.assemble s t ∧
      isUnescaped t = isUnescaped ("\n".intercalate (Style.body s.map)).toList := by
  obtain ⟨t, ht, hplain, -⟩ := exists_indentFrom_plain "  ".toList (by decide)
    (.inl rfl) true ("\n".intercalate (Style.body s.map)).toList
  rw [List.append_nil, List.append_nil, ← indentChars_eq] at ht
  refine ⟨_, ⟨rfl, ?_⟩, ?_⟩
  · have hstands : s.declaration.toList <:+: parts.assemble.toList := by
      refine List.IsInfix.trans ?_ parts.header_prefix_assemble.isInfix
      refine List.IsInfix.trans ?_ (Parts.infix_joinFilled "\n" (show parts.styled ∈ _ by simp))
      rw [hstyled]
      exact infix_intercalate "\n\n" (List.mem_map_of_mem hs)
    simpa [Style.Styled.declaration, Parts.toList_indent] using hstands
  · rw [ht]
    exact (isUnescaped_break t).trans hplain

/-- **Styles survive their template literals exactly if they are plain.** -/
theorem compile_styles_survive_iff (hplugins : o.plugins = []) (hformat : o.format = false)
    (hstyles : c.hasStyles = true) (h : (c.compile host o).outcome = .ok source) :
    ∃ set mapped, prepareState o.state c = .ok set ∧
      (set.mapRefs currentElement).toOutcome = .ok mapped ∧
      (o.styles = .styledJsx → ∃ sheet left t,
        (Style.collectSheet "className" mapped).toOutcome = .ok (sheet, left) ∧
        SheetIn source sheet t ∧ (Survives t ↔ isUnescaped sheet.toList = true)) ∧
      (o.styles = .styledComponents → ∃ made left,
        (Style.collectStyled mapped).toOutcome = .ok (made, left) ∧
        ∀ s ∈ made, ∃ t, StyledIn source s t ∧
          (Survives t ↔ isUnescaped ("\n".intercalate (Style.body s.map)).toList = true)) := by
  obtain ⟨p, parts, hp, hparts, rfl⟩ := steps_of_compile hplugins hformat h
  obtain ⟨⟨set, mapped, hset, hmapped, hprepared, hhas, -, -⟩⟩ := exists_preparation hp
  have hstyle := (steps_of_partsOf hparts).style
  have hstyled := (steps_of_partsOf hparts).styled
  refine ⟨set, mapped, hset, hmapped, fun hjsx => ?_, fun hcomponents => ?_⟩
  · rw [hjsx] at hprepared hstyle
    obtain ⟨⟨sheet, left⟩, hsheet, hprepared⟩ := Traced.bind_eq_ok.1 hprepared
    have hkept : p.sheet = sheet := congrArg Prod.fst (Except.ok.inj hprepared).symm
    have helement : parts.style = "<style jsx>\x7b\x60" ++ sheet ++ "\x60\x7d</style>" := by
      rw [hstyle, styleElement, hhas, hstyles, hkept]
      rfl
    obtain ⟨t, hin, hplain⟩ := exists_sheetIn helement
    exact ⟨sheet, left, t, hsheet, hin, by rw [survives_iff, hplain]⟩
  · rw [hcomponents, prepareStyles, hstyles, if_pos rfl] at hprepared
    obtain ⟨⟨styled, left'⟩, hdressed, hprepared⟩ := Traced.bind_eq_ok.1 hprepared
    have hkept : p.styled = styled := congrArg (·.2.1) (Except.ok.inj hprepared).symm
    obtain ⟨-, -, hdressed⟩ := Traced.bind_eq_ok.1 hdressed
    obtain ⟨⟨made, left⟩, hmade, heq⟩ := Progress.map_eq_ok.1 (Traced.lift_eq_ok.1 hdressed)
    have hdeclared : parts.styled = Style.styledDeclarations made :=
      hstyled.trans (hkept.trans (congrArg Prod.fst heq).symm)
    refine ⟨made, left, hmade, fun s hs => ?_⟩
    obtain ⟨t, hin, hplain⟩ := exists_styledIn hdeclared hs
    exact ⟨t, hin, by rw [survives_iff, hplain]⟩

/-- An element with a style. -/
def styledBox (css : String) : Component :=
  ⟨.str "App", [], .null, .null, [], [⟨⟨.str "div", [], [(.str cssKey, .str css)]⟩, []⟩]⟩

theorem compile_styles_survive_iff_red :
    ∃ source sheet t,
      ((styledBox "\x7b color: 'red' \x7d").compile .bare (styledBy .styledJsx)).outcome =
        .ok source ∧ SheetIn source sheet t ∧ Survives t := by
  have hplain : (((prepareState .useState (styledBox "\x7b color: 'red' \x7d")).bind fun set =>
      (set.mapRefs currentElement).toOutcome.bind fun mapped =>
        (Style.collectSheet "className" mapped).toOutcome.map fun x =>
          isUnescaped x.1.toList).toOption) = some true := by
    decide +kernel
  cases hsource : ((styledBox "\x7b color: 'red' \x7d").compile .bare
      (styledBy .styledJsx)).outcome with
  | error e =>
    have hcompiles : ((styledBox "\x7b color: 'red' \x7d").compile .bare
        (styledBy .styledJsx)).outcome.toOption.isSome = true := by
      decide +kernel
    rw [hsource] at hcompiles
    cases hcompiles
  | ok source =>
    obtain ⟨set, mapped, hset, hmapped, hsheet, -⟩ :=
      compile_styles_survive_iff rfl rfl (by decide +kernel) hsource
    obtain ⟨sheet, left, t, hcollected, hin, hsurvives⟩ := hsheet rfl
    have hset' : prepareState .useState (styledBox "\x7b color: 'red' \x7d") = .ok set := hset
    rw [hset', Except.bind, hmapped, Except.bind, hcollected] at hplain
    exact ⟨source, sheet, t, rfl, hin, hsurvives.2 (Option.some.inj hplain)⟩

/-- A mark in a style ends the literal there. -/
theorem compile_mark_ends_literal :
    ((styledBox "\x7b content: '\x60' \x7d").compile .bare (styledBy .styledJsx)).outcome.toOption =
        some ("export default function App(props) \x7b\n  return (\n    <>\n      <style jsx>\x7b\x60" ++
          ".div \x7b\n        content: \x60;\n      \x7d\x60\x7d</style>\n" ++
          "      <div className=\"div\"></div>\n    </>\n  );\n\x7d\n") ∧
      template? 0 ".div \x7b\n        content: \x60;\n      \x7d\x60\x7d</style>".toList =
        some (valueOf ".div \x7b\n        content: ".toList,
          ";\n      \x7d\x60\x7d</style>".toList) := by
  exact ⟨by decide +kernel, by decide +kernel⟩

end ReactWeave
