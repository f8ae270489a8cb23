import ReactWeave.Proofs.Commuting
import ReactWeave.Proofs.Numbering
import ReactWeave.Proofs.Precedence

/-!
# ReactWeave.Proofs.TagSpelling

**What the declaration of a styled component is made of**: a name and a target,
both spelled from the tag of the node.

A tag that starts in upper case is a component, which goes into the name and the
target as it is. Any other tag is an element: the name is its words joined, each
with a capital, and the target is a member of `styled` that is called like the
tag. Dots and dashes in a tag end up in the name, in the target or in both.

* `declares_iff`: from which tags a name and an operand are made.
-/

namespace ReactWeave

open Script

/-! ## Words -/

variable {s w : List Char} {c : Char}

namespace Naming

theorem flatten_wordsFrom (current s : List Char) :
    (wordsFrom current s).flatten = current.reverse ++ s.filter fun c => !isSeparator c := by
  induction s generalizing current with
  | nil => cases current <;> simp [wordsFrom]
  | cons c s ih =>
    rw [wordsFrom]
    by_cases hc : isSeparator c = true
    · cases current <;> simp [hc, ih]
    · simp [hc, ih]

theorem ne_nil_of_mem_wordsFrom {current : List Char} (h : w ∈ wordsFrom current s) : w ≠ [] := by
  induction s generalizing current with
  | nil =>
    cases current with
    | nil => simp [wordsFrom] at h
    | cons d current => simp_all [wordsFrom]
  | cons c s ih =>
    rw [wordsFrom] at h
    split at h
    · split at h
      · exact ih h
      · rcases List.mem_cons.1 h with rfl | h
        · simp_all
        · exact ih h
    · exact ih h

/-- A name with a capital has the characters of the name, and those of its first one in upper
case. -/
theorem mem_capitalizeChars {d : Char} (h : d ∈ capitalizeChars w) :
    d ∈ w ∨ ∃ c ∈ w, d ∈ Text.upperChar c := by
  cases w with
  | nil => simp [capitalizeChars, Text.upper] at h
  | cons c w =>
    simp only [capitalizeChars, Text.upper, List.take_succ_cons, List.take_zero,
      List.flatMap_cons, List.flatMap_nil, List.append_nil, List.drop_succ_cons, List.drop_zero,
      List.mem_append] at h
    rcases h with h | h
    · exact .inr ⟨c, List.mem_cons_self, h⟩
    · exact .inl (List.mem_cons_of_mem _ h)

theorem mem_capitalizeChars_of_mem (hc : Text.upperChar c = [c]) (h : c ∈ w) :
    c ∈ capitalizeChars w := by
  cases w with
  | nil => cases h
  | cons d w =>
    simp only [capitalizeChars, Text.upper, List.take_succ_cons, List.take_zero,
      List.flatMap_cons, List.flatMap_nil, List.append_nil, List.drop_succ_cons, List.drop_zero,
      List.mem_append]
    rcases List.mem_cons.1 h with rfl | h
    · exact .inl (by simp [hc])
    · exact .inr h

/-- A name in camel case starts with the first character that is no separator. -/
theorem head?_camelCaseChars (s : List Char) :
    (camelCaseChars s).head? = s.find? fun c => !isSeparator c := by
  have hflatten := flatten_wordsFrom [] s
  rw [← List.head?_filter]
  unfold camelCaseChars
  split
  · rename_i hnone
    rw [hnone] at hflatten
    rw [← List.nil_append (s.filter _), ← List.reverse_nil, ← hflatten]
    rfl
  · rename_i w ws hwords
    have hne : w ≠ [] := ne_nil_of_mem_wordsFrom (hwords ▸ List.mem_cons_self)
    obtain ⟨c, w, rfl⟩ := List.exists_cons_of_ne_nil hne
    rw [hwords] at hflatten
    simp only [List.flatten_cons, List.reverse_nil, List.nil_append] at hflatten
    rw [← hflatten]
    rfl

/-- Camel case has the characters of the name and their capitals. -/
theorem mem_camelCaseChars {d : Char} (h : d ∈ camelCaseChars s) :
    d ∈ s ∨ ∃ c ∈ s, d ∈ Text.upperChar c := by
  have hword : ∀ w ∈ wordsFrom [] s, ∀ c ∈ w, c ∈ s := by
    intro w hw c hc
    have hmem : c ∈ (wordsFrom [] s).flatten := List.mem_flatten.2 ⟨w, hw, hc⟩
    rw [flatten_wordsFrom, List.reverse_nil, List.nil_append] at hmem
    exact (List.mem_filter.1 hmem).1
  unfold camelCaseChars at h
  split at h
  · cases h
  · rename_i w ws hwords
    rw [hwords, List.forall_mem_cons] at hword
    rcases List.mem_append.1 h with h | h
    · exact .inl (hword.1 d h)
    · obtain ⟨u, hu, hd⟩ := List.mem_flatMap.1 h
      rcases mem_capitalizeChars hd with hd | ⟨c, hc, hd⟩
      · exact .inl (hword.2 u hu d hd)
      · exact .inr ⟨c, hword.2 u hu c hc, hd⟩

theorem mem_camelCaseChars_of_mem (hsep : isSeparator c = false) (hc : Text.upperChar c = [c])
    (h : c ∈ s) : c ∈ camelCaseChars s := by
  have hmem : c ∈ (wordsFrom [] s).flatten := by
    rw [flatten_wordsFrom]
    simp [h, hsep]
  obtain ⟨w, hw, hcw⟩ := List.mem_flatten.1 hmem
  unfold camelCaseChars
  split
  · rename_i hnone
    rw [hnone] at hw
    cases hw
  · rename_i w₁ ws hwords
    rw [hwords] at hw
    rcases List.mem_cons.1 hw with rfl | hw
    · exact List.mem_append_left _ hcw
    · exact List.mem_append_right _
        (List.mem_flatMap.2 ⟨w, hw, mem_capitalizeChars_of_mem hc hcw⟩)

end Naming

/-! ## Identifiers -/

theorem Text.upperChar_ne_nil (c : Char) : upperChar c ≠ [] := by
  rcases upperChar_cases c with ⟨h, -⟩ | ⟨h, -⟩
  · simp [h]
  · exact h

/-- A word with a start that no keyword has is a plain name. -/
theorem Script.isPlainName_cons (hc : Text.startsPlainName c = true)
    (hw : ∀ d ∈ w, Lexis.isNamePart d = true) : isPlainName (c :: w) = true := by
  simp only [Text.startsPlainName, Bool.and_eq_true, Bool.not_eq_true', Bool.and_eq_false_iff,
    decide_eq_false_iff_not] at hc
  have hpart : Lexis.isNamePart c = true := by
    have hstart := hc.1
    rw [Lexis.isNameStart, Bool.and_eq_true] at hstart
    exact hstart.1
  -- All keywords start with a letter from a to z.
  have hkey : ∀ k : List Char, (k.head?.any fun a => 97 ≤ a.toNat && a.toNat ≤ 122) = true →
      c :: w ≠ k := by
    rintro k hk rfl
    simp only [List.head?_cons, Option.any_some, Bool.and_eq_true, decide_eq_true_eq] at hk
    omega
  have hkeys : ∀ ks : List (List Char),
      (ks.all fun k => k.head?.any fun a => 97 ≤ a.toNat && a.toNat ≤ 122) = true →
        ks.contains (c :: w) = false := by
    intro ks hks
    rw [← Bool.not_eq_true, List.contains_iff_mem]
    exact fun hmem => hkey _ (List.all_eq_true.1 hks _ hmem) rfl
  have hreserved : Lexis.reserved.contains (c :: w) = false := hkeys _ (by decide)
  have hother : ["async".toList, "await".toList].contains (c :: w) = false := hkeys _ (by decide)
  have hyield : (c :: w != "yield".toList) = true := bne_iff_ne.2 (hkey _ (by decide))
  have hundefined : (c :: w != "undefined".toList) = true := bne_iff_ne.2 (hkey _ (by decide))
  simp only [isPlainName, Lexis.isLabel, Lexis.isIdentifier, Lexis.isReserved, hreserved, hother,
    hyield, hundefined, List.head?_cons, Option.any_some, hc.1, List.all_cons, hpart,
    List.all_eq_true.2 hw]
  rfl

/-! ## Operands -/

/-- Whether a text is an operand: a name, or what members, calls and the like make of one. A
template that follows it is attached to all of it. -/
def IsOperand (s : List Char) : Prop := ∃ e : Expr, e.Fits ∧ e.isChain = true ∧ e.text = s

/-- A text that starts with a dash. -/
def dash : Grammar.Sight Rule where
  ahead u := u.head? = some '-'
  refused r := r = .template ∨ r = .arguments
  skipped _ := false

theorem dash_within : dash.Within ['-'] := by
  intro c u h
  simpa [dash] using h

theorem dash_right : dash.Right Lexis.lexicon rules where
  refused r h := by
    rcases of_decide_eq_true h with rfl | rfl
    · exact .inl (dash_within.mark (by decide) [])
    · exact .inl (dash_within.mark (by decide) [])
  skipped r h := by cases h

/-- A dash ends a target. -/
theorem halts_of_dash (u : List Char) : Halts 15 ('-' :: u) := by
  refine dash_right.halts rfl rfl ?_ (dash_within.mark (by decide) []) Gap.empty rfl rfl
    (by simp) ?_
  · intro j hj m hm
    by_cases hlt : j < 16
    · obtain rfl : j = 15 := by omega
      simp only [marksOf, List.mem_cons, List.not_mem_nil, or_false] at hm
      rcases hm with rfl | rfl | rfl <;> exact dash_within.mark (by decide) []
    · obtain ⟨i, rfl⟩ := Nat.exists_eq_add_of_le (Nat.le_of_not_lt hlt)
      rw [Nat.add_comm] at hm
      cases hm
  · intro _ c hc
    obtain rfl : '-' = c := by simpa using hc
    decide

/-- The name of the function that makes styled components. -/
def styledName : List Char := "styled".toList

theorem fits_styledName : (Expr.name styledName).Fits := by
  change isPlainName styledName = true
  decide

theorem isOperand_member (hw : isName w = true) : IsOperand (styledName ++ '.' :: w) :=
  ⟨.member (.name styledName) w, ⟨fits_styledName, rfl, hw⟩, rfl, rfl⟩

theorem isOperand_call (hw : isPlainName w = true) :
    IsOperand (styledName ++ '(' :: (w ++ [')'])) := by
  refine ⟨.call (.name styledName) [.name w], ⟨fits_styledName, rfl, hw, trivial⟩, rfl, ?_⟩
  simp [Expr.text, Expr.textOf, Expr.moreText]

/-- **A dash ends a member**, so what follows it is another operand. -/
theorem not_isOperand_of_dash (hw : isName w = true) (r : List Char) :
    ¬ IsOperand (styledName ++ '.' :: (w ++ '-' :: r)) := by
  rintro ⟨e, hfits, hchain, htext⟩
  -- The operand would be read to its end, and the member in front is read up to the dash.
  have hcloser : Halts 0 [')'] := Expr.halts_of_closer (by decide) []
  have hwhole := (Expr.readBack hfits).chained hchain .empty [')'] [e.tree] [')'] hcloser.toApart
    (fun _ => by decide) (hcloser.extend (Nat.zero_le _) _ _)
  have hdash := halts_of_dash (r ++ [')'])
  have hmember : Expr.Chained (.member (.name styledName) w) :=
    Expr.chained_member (Expr.chained_name fits_styledName) rfl hw
  have hpart := hmember .empty ('-' :: (r ++ [')'])) _ _ hdash.toApart (fun _ => by simp)
    (hdash.extend (Nat.le_refl _) _ _)
  have hsame : Gap.empty.text ++ ((Expr.member (.name styledName) w).text ++ '-' :: (r ++ [')'])) =
      Gap.empty.text ++ (e.text ++ [')']) := by
    rw [htext]
    simp [Expr.text]
  rw [hsame] at hpart
  have hrest := congrArg Prod.snd (Option.some.inj (hwhole.unique hpart))
  cases hrest

namespace Style

/-! ## Tags -/

/-- Whether a text can be a tag: it starts like a name, and goes on with characters of names, dashes
and dots. -/
def isTagName (tag : String) : Bool :=
  tag.toList.head?.any Lexis.isNameStart &&
    tag.toList.all fun c => Lexis.isNamePart c || c == '-' || c == '.'

/-- Whether a tag is that of a component. -/
def isComponentTag (tag : String) : Bool := tag.toList.head?.any Text.isUpper

/-- The name of the first component made for a tag. -/
def baseOf (tag : String) : String :=
  if isComponentTag tag then "Styled" ++ tag else Naming.capitalize (Naming.camelCase tag)

/-- What is styled for a tag. -/
def targetOf (tag : String) : String :=
  if isComponentTag tag then "styled(" ++ tag ++ ")" else "styled." ++ tag

theorem styledBase_str (tag : String) :
    styledBase (.str tag) = .ok (baseOf tag, targetOf tag) := by
  unfold styledBase baseOf targetOf isComponentTag
  cases htag : tag.toList with
  | nil =>
    obtain rfl : tag = "" := String.toList_eq_nil_iff.1 htag
    rfl
  | cons c s => cases hupper : Text.isUpper c <;> simp [htag, hupper]

/-- Whether a tag has neither dots nor dashes, and is that of a component or starts a name when the
underscores in front are left out. -/
def isPlainTag (tag : String) : Bool :=
  isName tag.toList && (isComponentTag tag ||
    (tag.toList.find? fun c => !Naming.isSeparator c).any Lexis.isNameStart)

theorem toList_nth (base : String) (n : Nat) : ∃ digits : List Char,
    (∀ d ∈ digits, d.isDigit = true) ∧ (nth "" base n).toList = base.toList ++ digits := by
  by_cases hn : n = 1
  · subst hn
    exact ⟨[], by simp, by simp [nth_one]⟩
  · refine ⟨Nat.toDigits 10 n, fun d hd => ?_, toList_nth_of_ne base hn⟩
    exact Nat.isDigit_of_mem_toDigits (by decide) (by decide) hd

theorem isNamePart_of_isDigit (h : c.isDigit = true) : Lexis.isNamePart c = true := by
  simp [Lexis.isNamePart, h]

section Tag

variable {tag : String} {n : Nat}

theorem isPlainName_of_isUpper (hname : isName tag.toList = true)
    (hupper : isComponentTag tag = true) : isPlainName tag.toList = true := by
  obtain ⟨c, w, hw, hc⟩ := isName_head hname
  rw [isComponentTag, hw, List.head?_cons, Option.any_some] at hupper
  have hstart : Text.startsPlainName c = true := by
    have hrange : ¬(97 ≤ c.toNat ∧ c.toNat ≤ 122) := by
      rintro ⟨hlow, hhigh⟩
      simp only [Text.isUpper] at hupper
      split at hupper
      · simp only [Bool.and_eq_true, decide_eq_true_eq] at hupper
        omega
      · omega
    simp only [Text.startsPlainName, hc, Bool.true_and, Bool.not_eq_true', Bool.and_eq_false_iff,
      decide_eq_false_iff_not]
    omega
  rw [hw]
  refine isPlainName_cons hstart fun d hd => ?_
  simp only [isName, Bool.and_eq_true, List.all_eq_true] at hname
  exact hname.2 d (by rw [hw]; exact List.mem_cons_of_mem _ hd)

/-- The component of a component has a plain name. -/
theorem isPlainName_component (hname : isName tag.toList = true)
    (hupper : isComponentTag tag = true) (n : Nat) :
    isPlainName (nth "" (baseOf tag) n).toList = true := by
  obtain ⟨digits, hdigits, hnth⟩ := toList_nth (baseOf tag) n
  have hbase : (baseOf tag).toList = 'S' :: ("tyled".toList ++ tag.toList) := by
    rw [baseOf, if_pos hupper, String.toList_append]
    rfl
  rw [hnth, hbase, List.cons_append]
  refine isPlainName_cons (by decide) fun d hd => ?_
  have hword : ("tyled".toList.all Lexis.isNamePart) = true := by decide
  simp only [isName, Bool.and_eq_true, List.all_eq_true] at hname
  rcases List.mem_append.1 hd with hd | hd
  · rcases List.mem_append.1 hd with hd | hd
    · exact List.all_eq_true.1 hword d hd
    · exact hname.2 d hd
  · exact isNamePart_of_isDigit (hdigits d hd)

theorem toList_baseOf (hlower : isComponentTag tag = false) :
    (baseOf tag).toList = Naming.capitalizeChars (Naming.camelCaseChars tag.toList) := by
  rw [baseOf, if_neg (by simp [hlower])]
  simp [Naming.capitalize, Naming.camelCase]

/-- The component of an element has one if its tag starts a name. -/
theorem isPlainName_element (hname : isName tag.toList = true)
    (hlower : isComponentTag tag = false)
    (hfirst : tag.toList.find? (fun c => !Naming.isSeparator c) = some c)
    (hc : Lexis.isNameStart c = true) (n : Nat) :
    isPlainName (nth "" (baseOf tag) n).toList = true := by
  obtain ⟨digits, hdigits, hnth⟩ := toList_nth (baseOf tag) n
  rw [← Naming.head?_camelCaseChars] at hfirst
  obtain ⟨words, hwords⟩ := List.head?_eq_some_iff.1 hfirst
  obtain ⟨d, ds, hd⟩ := List.exists_cons_of_ne_nil (Text.upperChar_ne_nil c)
  have hbase : (baseOf tag).toList = d :: (ds ++ words) := by
    rw [toList_baseOf hlower, hwords]
    simp [Naming.capitalizeChars, Text.upper, hd]
  have hparts : ∀ a ∈ (baseOf tag).toList, Lexis.isNamePart a = true := by
    simp only [isName, Bool.and_eq_true, List.all_eq_true] at hname
    have hcamel : ∀ a ∈ Naming.camelCaseChars tag.toList, Lexis.isNamePart a = true := by
      intro a ha
      rcases Naming.mem_camelCaseChars ha with ha | ⟨b, hb, ha⟩
      · exact hname.2 a ha
      · exact Text.isNamePart_upperChar (hname.2 b hb) a ha
    intro a ha
    rw [toList_baseOf hlower] at ha
    rcases Naming.mem_capitalizeChars ha with ha | ⟨b, hb, ha⟩
    · exact hcamel a ha
    · exact Text.isNamePart_upperChar (hcamel b hb) a ha
  -- Upper case may be several characters, the first of which starts the name.
  have hstart : Text.startsPlainName d = true := by
    rcases Text.cases_of_mem_upperChar (c := c) (d := d) (by simp [hd]) with ⟨rfl, hlow⟩ | hstart
    · simp only [Text.startsPlainName, hc, Bool.true_and, Bool.not_eq_true', Bool.and_eq_false_iff,
        decide_eq_false_iff_not]
      omega
    · exact hstart
  rw [hnth, hbase, List.cons_append]
  refine isPlainName_cons hstart fun a ha => ?_
  rcases List.mem_append.1 ha with ha | ha
  · exact hparts a (by rw [hbase]; exact List.mem_cons_of_mem _ ha)
  · exact isNamePart_of_isDigit (hdigits a ha)

theorem not_isPlainName_of_mem (hc : Lexis.isNamePart c = false) (h : c ∈ w) :
    ¬ isPlainName w = true := by
  intro hw
  have hname := isName_of_isPlainName hw
  simp only [isName, Bool.and_eq_true, List.all_eq_true] at hname
  rw [hname.2 c h] at hc
  cases hc

theorem not_isPlainName_of_head (h : ∀ c ∈ w.head?, c.isDigit = true) : ¬ isPlainName w = true := by
  intro hw
  obtain ⟨c, w, rfl, hc⟩ := isPlainName_head hw
  rw [Lexis.isNameStart, h c rfl, Bool.not_true, Bool.and_false] at hc
  cases hc

/-- A character that is no part of names gets from a tag into the name, unless it stands between
words. -/
theorem not_isPlainName_baseOf (hc : Lexis.isNamePart c = false) (hmem : c ∈ tag.toList)
    (hsep : isComponentTag tag = false → Naming.isSeparator c = false ∧ Text.upperChar c = [c])
    (n : Nat) : ¬ isPlainName (nth "" (baseOf tag) n).toList = true := by
  obtain ⟨digits, -, hnth⟩ := toList_nth (baseOf tag) n
  rw [hnth]
  refine not_isPlainName_of_mem hc (List.mem_append_left _ ?_)
  cases hupper : isComponentTag tag with
  | true =>
    rw [baseOf, if_pos hupper, String.toList_append]
    exact List.mem_append_right _ hmem
  | false =>
    obtain ⟨hsep, hself⟩ := hsep hupper
    rw [toList_baseOf hupper]
    exact Naming.mem_capitalizeChars_of_mem hself
      (Naming.mem_camelCaseChars_of_mem hsep hself hmem)

/-- A tag that starts with a digit behind its separators makes no name. -/
theorem not_isPlainName_element (hlower : isComponentTag tag = false)
    (hfirst : ∀ c ∈ tag.toList.find? (fun c => !Naming.isSeparator c), c.isDigit = true) (n : Nat) :
    ¬ isPlainName (nth "" (baseOf tag) n).toList = true := by
  obtain ⟨digits, hdigits, hnth⟩ := toList_nth (baseOf tag) n
  rw [← Naming.head?_camelCaseChars] at hfirst
  rw [hnth, toList_baseOf hlower]
  refine not_isPlainName_of_head fun d hd => ?_
  cases hcamel : Naming.camelCaseChars tag.toList with
  | nil =>
    rw [hcamel] at hd
    exact hdigits d (List.mem_of_mem_head? hd)
  | cons c words =>
    rw [hcamel] at hfirst hd
    have hc : c.isDigit = true := hfirst c rfl
    have hself : Text.upperChar c = [c] := by
      obtain ⟨hlow, hhigh⟩ : 48 ≤ c.toNat ∧ c.toNat ≤ 57 := Char.isDigit_iff_toNat.1 hc
      have hsmall : c.toNat < 128 := by omega
      have hno : ¬97 ≤ c.toNat := by omega
      simp [Text.upperChar, hsmall, hno]
    obtain rfl : c = d := by simpa [Naming.capitalizeChars, Text.upper, hself] using hd
    exact hc

/-- A tag that is no name and has no dot has a dash behind a name. -/
theorem exists_dash (htag : isTagName tag = true) (hdot : '.' ∉ tag.toList)
    (hname : isName tag.toList = false) :
    ∃ w r, isName w = true ∧ tag.toList = w ++ '-' :: r := by
  simp only [isTagName, Bool.and_eq_true, List.all_eq_true, Bool.or_eq_true, beq_iff_eq] at htag
  obtain ⟨hhead, hchars⟩ := htag
  have hsplit := List.takeWhile_append_dropWhile (p := Lexis.isNamePart) (l := tag.toList)
  cases hrest : tag.toList.dropWhile Lexis.isNamePart with
  | nil =>
    rw [isName, hhead, Bool.true_and, List.all_eq_false] at hname
    obtain ⟨c, hc, hnot⟩ := hname
    rw [hrest, List.append_nil] at hsplit
    rw [← hsplit] at hc
    exact absurd (List.all_eq_true.1 List.all_takeWhile c hc) hnot
  | cons c r =>
    have hc : Lexis.isNamePart c = false := by
      have hne : tag.toList.dropWhile Lexis.isNamePart ≠ [] := by simp [hrest]
      have hhead := List.head_dropWhile_not Lexis.isNamePart hne
      simpa [hrest] using hhead
    have hmem : c ∈ tag.toList := by
      rw [← hsplit, hrest]
      simp
    rw [hrest] at hsplit
    -- What ends the first word is no part of names, and no dot.
    obtain rfl : c = '-' := by
      rcases hchars c hmem with (hpart | heq) | heq
      · rw [hpart] at hc
        cases hc
      · exact heq
      · exact absurd (heq ▸ hmem) hdot
    refine ⟨_, r, ?_, hsplit.symm⟩
    rw [isName, List.all_takeWhile, Bool.and_true, List.head?_takeWhile]
    cases hfirst : tag.toList.head? with
    | none => simp [hfirst] at hhead
    | some a =>
      rw [hfirst, Option.any_some] at hhead
      have hpart := hhead
      rw [Lexis.isNameStart, Bool.and_eq_true] at hpart
      simp [hpart.1, hhead]

/-- **From which tags a name and an operand are made**: those without dots and dashes in which a
name starts behind the underscores, should the tag not be that of a component. -/
theorem declares_iff (htag : isTagName tag = true) (n : Nat) :
    (isPlainName (nth "" (baseOf tag) n).toList = true ∧ IsOperand (targetOf tag).toList) ↔
      isPlainTag tag = true := by
  have hcases : isPlainTag tag = true ↔ isName tag.toList = true ∧ (isComponentTag tag = true ∨
      ∃ c, tag.toList.find? (fun c => !Naming.isSeparator c) = some c ∧
        Lexis.isNameStart c = true) := by
    simp [isPlainTag, Option.any_eq_true]
  rw [hcases]
  constructor
  · rintro ⟨hplain, htarget⟩
    -- A dot gets into every name, and a dash into the name of a component or the target.
    have hdot : '.' ∉ tag.toList := fun hmem =>
      not_isPlainName_baseOf (by decide) hmem (fun _ => by decide) n hplain
    have hname : isName tag.toList = true := by
      by_contra hno
      obtain ⟨w, r, hw, heq⟩ := exists_dash htag hdot (by simpa using hno)
      cases hupper : isComponentTag tag with
      | true =>
        refine not_isPlainName_baseOf (c := '-') (by decide) ?_ (by simp [hupper]) n hplain
        simp [heq]
      | false =>
        rw [targetOf, if_neg (by simp [hupper]), String.toList_append, heq] at htarget
        exact not_isOperand_of_dash hw r htarget
    refine ⟨hname, ?_⟩
    by_contra hno
    rw [not_or] at hno
    refine not_isPlainName_element (by simpa using hno.1) (fun c hc => ?_) n hplain
    have hpart : Lexis.isNamePart c = true := by
      simp only [isName, Bool.and_eq_true, List.all_eq_true] at hname
      exact hname.2 c (List.mem_of_find?_eq_some hc)
    by_contra hdigit
    refine hno.2 ⟨c, hc, ?_⟩
    rw [Lexis.isNameStart, hpart, Bool.eq_false_iff.2 hdigit]
    rfl
  · rintro ⟨hname, hstart⟩
    cases hupper : isComponentTag tag with
    | true =>
      refine ⟨isPlainName_component hname hupper n, ?_⟩
      have htarget : (targetOf tag).toList = styledName ++ '(' :: (tag.toList ++ [')']) := by
        rw [targetOf, if_pos hupper, String.toList_append, String.toList_append,
          List.append_assoc]
        rfl
      rw [htarget]
      exact isOperand_call (isPlainName_of_isUpper hname hupper)
    | false =>
      obtain ⟨c, hfirst, hc⟩ := hstart.resolve_left (by simp [hupper])
      refine ⟨isPlainName_element hname hupper hfirst hc n, ?_⟩
      rw [targetOf, if_neg (by simp [hupper]), String.toList_append]
      exact isOperand_member hname

end Tag

end Style

end ReactWeave
