import ReactWeave.Proofs.Json5Text
import ReactWeave.Proofs.Loading
import ReactWeave.Proofs.StateReads
import ReactWeave.State.Declaration

/-!
# ReactWeave.Proofs.Literals

**Initial values of the fields.**

A field that is data is written as JSON5 text, with a hook of its own as well as
in an object made by a library. The hook's text also has the accesses to `state`
removed, strings or not. Main statements:

* `strip_write`: the text of a value is left alone exactly if none of its strings
  and keys has an access inside, as `holdsAccess` tells on the string itself;
* `literal_initials`: what a hook starts from is the text in the object just then,
  and that text reads back as the value exactly if no string has a null character
  in front of a digit.
-/

namespace ReactWeave.State

open Json5 (escapeChar writeString writeKey)

/-! ## Text without accesses -/

/-- No access starts in a text, with `before` in front of it and `after` behind it. -/
def Untouched : Option Char → List Char → List Char → Prop
  | _, [], _ => True
  | before, c :: t, after =>
    accessAt? stateWord before (c :: (t ++ after)) = none ∧ Untouched (some c) t after

variable {before : Option Char} {t after gap s : List Char} {c : Char} {j : Json} {clean : Bool}
  {state : Fields}

/-- A text in two parts is left alone exactly if each part is, next to the other. -/
theorem untouched_append {u : List Char} :
    Untouched before (t ++ u) after ↔
      Untouched before t (u ++ after) ∧ Untouched (t.getLast?.or before) u after := by
  induction t generalizing before with
  | nil => simp [Untouched]
  | cons c t ih =>
    rw [List.cons_append, Untouched, Untouched, ih, getLast?_cons_or, List.append_assoc, and_assoc]

theorem untouched_cons (hc : c ≠ 's') :
    Untouched before (c :: t) after ↔ Untouched (some c) t after := by
  rw [Untouched, accessAt?_eq_none hc]
  exact and_iff_right rfl

theorem untouched_of_ne (h : ∀ c ∈ t, c ≠ 's') : Untouched before t after := by
  induction t generalizing before with
  | nil => trivial
  | cons c t ih =>
    exact (untouched_cons (h c (by simp))).2 (ih fun d hd => h d (List.mem_cons_of_mem _ hd))

theorem untouched_gap (hgap : Json.Blanks gap) (h : ∀ before, Untouched before t after ↔ P) :
    Untouched before (gap ++ t) after ↔ P := by
  have hne : ∀ c ∈ gap, c ≠ 's' := by
    rintro c hc rfl
    exact absurd (hgap _ hc) (by decide)
  rw [untouched_append, h]
  exact and_iff_right (untouched_of_ne hne)

theorem stripFrom_sublist (word : List Char) (before : Option Char) (skip : Nat)
    (s : List Char) : (stripFrom word before skip s).Sublist s := by
  induction s generalizing before skip with
  | nil => simp [stripFrom]
  | cons c s ih =>
    cases skip with
    | succ skip =>
      exact (ih _ _).cons c
    | zero =>
      rw [stripFrom]
      split
      · exact (ih _ _).cons c
      · exact (ih _ _).cons_cons c

/-- The scan leaves a text as it is exactly if there is no access in it. -/
theorem stripFrom_eq_self_iff (before : Option Char) (s : List Char) :
    stripFrom stateWord before 0 s = s ↔ Untouched before s [] := by
  induction s generalizing before with
  | nil => simp [stripFrom, Untouched]
  | cons c s ih =>
    rw [stripFrom, Untouched, List.append_nil, ← ih, accessAt?]
    split
    · rename_i n hat
      constructor
      · -- What is removed makes the text shorter.
        intro h
        have hlen := congrArg List.length h
        have hle := (stripFrom_sublist stateWord (some c) (n - 1) s).length_le
        rw [List.length_cons] at hlen
        omega
      · rintro ⟨hnone, -⟩
        rw [hnone] at hat
        cases hat
    · rename_i hat
      simp [hat]

theorem strip_eq_self_iff (s : String) : strip "state" s = s ↔ Untouched none s.toList [] := by
  rw [← stripFrom_eq_self_iff, ← String.toList_inj, strip, String.toList_ofList]
  rfl

/-- An access is the word at the start of a name, with a dot behind it and blanks between. -/
theorem accessAt?_eq_none_iff :
    accessAt? stateWord before s = none ↔
      ¬(startsName before = true ∧ Text.startsWith stateWord s = true ∧
        (Text.trimStart (s.drop stateWord.length)).head? = some '.') := by
  unfold accessAt? accessLength? behindDot?
  by_cases hbefore : startsName before = true
  · by_cases hstart : Text.startsWith stateWord s = true
    · rw [if_pos hbefore, if_pos hstart]
      cases htrim : Text.trimStart (s.drop stateWord.length) with
      | nil => simp
      | cons c r =>
        by_cases hc : c = '.'
        · simp [hc, hbefore, hstart]
        · simp [hc]
    · simp [hstart]
  · simp [hbefore]

/-! ## Accesses inside a string -/

/-- Whether an access may start behind a character of a string. What is written as an escape goes on
a name, but for the backslash and the quote. -/
def opensName : Option Char → Bool
  | none => true
  | some c => 32 ≤ c.toNat && c.toNat < 128 && startsName (some c)

/-- Whether a string starts with an access: the only white space that is not escaped is a space. -/
def startsAccess (s : List Char) : Bool :=
  Text.startsWith stateWord s &&
    ((s.drop stateWord.length).dropWhile (· == ' ')).head? == some '.'

/-- Whether an access starts somewhere in a string that has `before` in front of it. -/
def holdsAccessFrom (before : Option Char) : List Char → Bool
  | [] => false
  | c :: s => (opensName before && startsAccess (c :: s)) || holdsAccessFrom (some c) s

/-- Whether an access to the state stands in a string. -/
def holdsAccess (s : String) : Bool := holdsAccessFrom none s.toList

theorem startsAccess_of_notMem (h : '.' ∉ s) : startsAccess s = false := by
  rw [startsAccess, Bool.and_eq_false_iff, beq_eq_false_iff_ne]
  refine .inr fun hdot => h ?_
  exact (List.drop_sublist _ _).subset ((List.dropWhile_sublist _).subset (List.mem_of_head? hdot))

theorem holdsAccessFrom_of_notMem (h : '.' ∉ s) : holdsAccessFrom before s = false := by
  induction s generalizing before with
  | nil => rfl
  | cons c s ih =>
    rw [holdsAccessFrom, startsAccess_of_notMem h, ih fun hs => h (List.mem_cons_of_mem _ hs)]
    simp

theorem startsName_digitChar (n : Nat) :
    (n % 16).digitChar ≠ 's' ∧ startsName (some (n % 16).digitChar) = false := by
  have h : ∀ k < 16, Nat.digitChar k ≠ 's' ∧ startsName (some k.digitChar) = false := by decide
  exact h _ (Nat.mod_lt _ (by decide))

theorem unitEscape_ends {n : Nat} (h : n < 0x10000) :
    (Json5.unitEscape n).head? = some '\\' ∧ (∀ d ∈ Json5.unitEscape n, d ≠ 's') ∧
      startsName (Json5.unitEscape n).getLast? = false := by
  rw [Json5.unitEscape, Json.hexDigits_four h]
  refine ⟨rfl, ?_, (startsName_digitChar n).2⟩
  simp [(startsName_digitChar (n / 256)).1, (startsName_digitChar (n / 16)).1,
    (startsName_digitChar n).1]

/-- An escape holds no `s`, and no name starts right behind it. -/
theorem charEscape_ends (c : Char) :
    (Json5.charEscape c).head? = some '\\' ∧ (∀ d ∈ Json5.charEscape c, d ≠ 's') ∧
      startsName (Json5.charEscape c).getLast? = false := by
  have hvalid : c.toNat < 0xD800 ∨ 0xDFFF < c.toNat ∧ c.toNat < 0x110000 := c.valid
  unfold Json5.charEscape
  simp only
  split
  · exact unitEscape_ends (by omega)
  · have h₁ := unitEscape_ends (n := 0xD800 + (c.toNat - 0x10000) / 0x400) (by omega)
    have h₂ := unitEscape_ends (n := 0xDC00 + (c.toNat - 0x10000) % 0x400) (by omega)
    refine ⟨by rw [List.head?_append, h₁.1]; rfl, List.forall_mem_append.2 ⟨h₁.2.1, h₂.2.1⟩, ?_⟩
    cases hlast : (Json5.unitEscape (0xDC00 + (c.toNat - 0x10000) % 0x400)).getLast? with
    | none => simp [hlast, startsName] at h₂
    | some d => simpa [hlast] using h₂.2.2

/-- A character that is written as an escape. -/
def isEscaped (c : Char) : Bool := c == '\\' || c == '\x22' || c.toNat < 32 || 128 ≤ c.toNat

/-- A character of a string stands as it is, or is written as an escape; an access may start behind
the escape just as `opensName` tells. -/
theorem escapeChar_ends (c : Char) :
    startsName (escapeChar c).getLast? = opensName (some c) ∧
      if isEscaped c then (escapeChar c).head? = some '\\' ∧ ∀ d ∈ escapeChar c, d ≠ 's'
      else escapeChar c = [c] := by
  rcases Nat.lt_or_ge c.toNat 128 with hlow | hhigh
  · -- The ASCII characters are few enough to go through them.
    have h : ∀ n < 128, startsName (escapeChar (Char.ofNat n)).getLast? =
        opensName (some (Char.ofNat n)) ∧
          if isEscaped (Char.ofNat n) then (escapeChar (Char.ofNat n)).head? = some '\\' ∧
            ∀ d ∈ escapeChar (Char.ofNat n), d ≠ 's'
          else escapeChar (Char.ofNat n) = [Char.ofNat n] := by
      decide +kernel
    have := h c.toNat hlow
    rwa [Char.ofNat_toNat] at this
  · have hescape : escapeChar c = Json5.charEscape c := by
      rcases Json5.escapeChar_cases c with ⟨_, -, rfl | rfl | h, -⟩ | ⟨h, -⟩ | ⟨-, -, -, -, h⟩
      · exact absurd hhigh (by decide)
      · exact absurd hhigh (by decide)
      · omega
      · exact h
      · omega
    have hends := charEscape_ends c
    rw [hescape, hends.2.2, opensName, if_pos (by simp [isEscaped, hhigh])]
    exact ⟨by simp [Nat.not_lt.2 hhigh], hends.1, hends.2.1⟩

theorem escapeChar_of_plain (h : isEscaped c = false) : escapeChar c = [c] := by
  have hends := (escapeChar_ends c).2
  rwa [if_neg (by simp [h])] at hends

theorem exists_cons_escapeChar (h : isEscaped c = true) :
    (∃ t, escapeChar c = '\\' :: t) ∧ ∀ d ∈ escapeChar c, d ≠ 's' := by
  have hends := (escapeChar_ends c).2
  rw [if_pos h] at hends
  exact ⟨List.head?_eq_some_iff.1 hends.1, hends.2⟩

/-- The text behind the opening quote of a string. -/
def quotedRest (s after : List Char) : List Char := s.flatMap escapeChar ++ '\x22' :: after

theorem quotedRest_cons (c : Char) (s after : List Char) :
    quotedRest (c :: s) after = escapeChar c ++ quotedRest s after := by
  simp [quotedRest]

/-- Behind a quote a word stands in the text exactly if it stands in the string. -/
theorem startsWith_quotedRest {word : List Char} (hword : ∀ c ∈ word, isEscaped c = false)
    (s after : List Char) :
    Text.startsWith word (quotedRest s after) = Text.startsWith word s := by
  induction word generalizing s with
  | nil => simp [Text.startsWith]
  | cons a word ih =>
    have ha := hword a (by simp)
    have hback : a ≠ '\\' := by rintro rfl; exact absurd ha (by decide)
    have hquote : a ≠ '\x22' := by rintro rfl; exact absurd ha (by decide)
    cases s with
    | nil => simp [quotedRest, Text.startsWith, hquote]
    | cons c s =>
      rw [quotedRest_cons]
      cases hc : isEscaped c with
      | false =>
        rw [escapeChar_of_plain hc, List.singleton_append, Text.startsWith, Text.startsWith,
          ih fun d hd => hword d (List.mem_cons_of_mem _ hd)]
      | true =>
        obtain ⟨⟨t, ht⟩, -⟩ := exists_cons_escapeChar hc
        have hne : a ≠ c := by
          rintro rfl
          rw [ha] at hc
          cases hc
        rw [ht, List.cons_append, Text.startsWith, Text.startsWith, beq_eq_false_iff_ne.2 hback,
          beq_eq_false_iff_ne.2 hne]
        rfl

theorem drop_quotedRest {word : List Char} (hword : ∀ c ∈ word, isEscaped c = false)
    (hs : Text.startsWith word s = true) (after : List Char) :
    (quotedRest s after).drop word.length = quotedRest (s.drop word.length) after := by
  obtain ⟨s, rfl⟩ := Text.startsWith_iff.1 hs
  have hmap : word.flatMap escapeChar = word := by
    rw [List.flatMap_congr fun c hc => escapeChar_of_plain (hword c hc)]
    simp
  rw [quotedRest, List.flatMap_append, hmap, List.append_assoc, List.drop_left, List.drop_left]
  rfl

/-- Behind blanks a dot stands in the text exactly if it stands behind spaces in the string. -/
theorem head?_trimStart_quotedRest (s after : List Char) :
    (Text.trimStart (quotedRest s after)).head? = some '.' ↔
      (s.dropWhile (· == ' ')).head? = some '.' := by
  induction s with
  | nil => simp [quotedRest, Text.trimStart, show Text.isBlank '\x22' = false by decide]
  | cons c s ih =>
    rw [quotedRest_cons]
    by_cases hspace : c = ' '
    · rw [hspace, escapeChar_of_plain (by decide), List.dropWhile_cons_of_pos (by simp), ← ih]
      rfl
    · rw [List.dropWhile_cons_of_neg (by simp [hspace])]
      cases hc : isEscaped c with
      | false =>
        have hblank : Text.isBlank c = false := by
          have hne : c.toNat ≠ 32 := fun h => hspace (Char.toNat_inj.1 h)
          simp only [isEscaped, Bool.or_eq_false_iff, decide_eq_false_iff_not] at hc
          simp [Text.isBlank]
          omega
        rw [escapeChar_of_plain hc, List.singleton_append, trimStart_cons hblank]
        simp
      | true =>
        obtain ⟨⟨t, ht⟩, -⟩ := exists_cons_escapeChar hc
        have hne : c ≠ '.' := by
          rintro rfl
          exact absurd hc (by decide)
        rw [ht, List.cons_append, trimStart_cons (by decide)]
        simp [hne]

theorem accessAt?_quotedRest (after : List Char) :
    accessAt? stateWord before (quotedRest s after) = none ↔
      (startsName before && startsAccess s) = false := by
  have hword : ∀ c ∈ stateWord, isEscaped c = false := by decide
  rw [accessAt?_eq_none_iff, startsWith_quotedRest hword, Bool.eq_false_iff, not_iff_not,
    Bool.and_eq_true, startsAccess, Bool.and_eq_true, beq_iff_eq]
  refine and_congr_right fun _ => and_congr_right fun hs => ?_
  rw [drop_quotedRest hword hs, head?_trimStart_quotedRest]

/-- **A string is left alone in its quotes** exactly if it has no access, as its own text tells. -/
theorem untouched_quoted {before' : Option Char} (hbefore : startsName before = opensName before') :
    Untouched before (s.flatMap escapeChar) ('\x22' :: after) ↔
      holdsAccessFrom before' s = false := by
  induction s generalizing before before' with
  | nil => simp [Untouched, holdsAccessFrom]
  | cons c s ih =>
    obtain ⟨hlast, -⟩ := escapeChar_ends c
    have hrest : Untouched ((escapeChar c).getLast?.or before) (s.flatMap escapeChar)
        ('\x22' :: after) ↔ holdsAccessFrom (some c) s = false := by
      refine ih ?_
      cases hc : (escapeChar c).getLast? with
      | some d => simpa [hc] using hlast
      | none =>
        rcases hescaped : isEscaped c with _ | _
        · simp [escapeChar_of_plain hescaped] at hc
        · obtain ⟨⟨t, ht⟩, -⟩ := exists_cons_escapeChar hescaped
          simp [ht] at hc
    rw [List.flatMap_cons, untouched_append, hrest, holdsAccessFrom, Bool.or_eq_false_iff]
    refine and_congr_left fun _ => ?_
    cases hc : isEscaped c with
    | false =>
      rw [escapeChar_of_plain hc, ← hbefore, ← accessAt?_quotedRest after,
        quotedRest_cons, escapeChar_of_plain hc]
      exact and_iff_left trivial
    | true =>
      obtain ⟨-, hne⟩ := exists_cons_escapeChar hc
      have hs : c ≠ 's' := by
        rintro rfl
        exact absurd hc (by decide)
      simp [untouched_of_ne hne, startsAccess, Text.startsWith, Ne.symm hs]

/-! ## Accesses inside a value -/

open Json (Blanks Spelled leafText isLeaf isProper allProper allProperIn allStrings allStringsOf
  allStringsIn Numeral signText)

/-- Whether a string is left alone. -/
def isClean (s : String) : Bool := !holdsAccess s

theorem untouched_writeString (before : Option Char) (s : String) (after : List Char) :
    Untouched before (writeString s).toList after ↔ isClean s = true := by
  rw [writeString, String.toList_ofList, List.cons_append, untouched_cons (by decide),
    untouched_append, List.singleton_append, isClean, holdsAccess, Bool.not_eq_true',
    untouched_quoted (show startsName (some '\x22') = opensName none by decide)]
  exact and_iff_left ((untouched_cons (by decide)).2 trivial)

theorem isBlank_of_isLiteralNamePart (h : Text.isLiteralNamePart c = true) :
    Text.isBlank c = false := by
  rw [Bool.eq_false_iff]
  intro hblank
  simp only [Text.isBlank, Bool.or_eq_true, Bool.and_eq_true, beq_iff_eq,
    decide_eq_true_eq] at hblank
  have hwide : c.toNat ≤ 32 ∨ c.toNat ∈ wideBlanks := by
    simp only [wideBlanks, List.mem_cons, List.not_mem_nil, or_false]
    omega
  rw [Text.isLiteralNamePart_of_blank hwide] at h
  cases h

theorem ne_dot_of_isLiteralNamePart (h : Text.isLiteralNamePart c = true) : c ≠ '.' := by
  rintro rfl
  exact absurd h (by decide +kernel)

/-- A bare key is left alone, since a colon follows it. -/
theorem untouched_name {name : List Char} (h : name.all Text.isLiteralNamePart = true)
    (before : Option Char) (after : List Char) : Untouched before name (':' :: after) := by
  induction name generalizing before with
  | nil => trivial
  | cons c name ih =>
    have hname := List.all_eq_true.1 h
    refine ⟨?_, ih (List.all_eq_true.2 fun d hd => hname d (List.mem_cons_of_mem _ hd)) _⟩
    rw [accessAt?_eq_none_iff]
    rintro ⟨-, hstart, hdot⟩
    obtain ⟨rest, hrest⟩ := Text.startsWith_iff.1 hstart
    rw [hrest, List.drop_left] at hdot
    -- What follows the word is the rest of the name, or the colon.
    obtain ⟨d, r, rfl, hblank, hne⟩ :
        ∃ d r, rest = d :: r ∧ Text.isBlank d = false ∧ d ≠ '.' := by
      rw [← List.cons_append] at hrest
      rcases List.append_eq_append_iff.1 hrest with ⟨u, hword, hafter⟩ | ⟨u, hu, hafter⟩
      · cases u with
        | nil => exact ⟨':', after, hafter.symm, by decide, by decide⟩
        | cons d u =>
          rw [List.cons_append, List.cons.injEq] at hafter
          have hcolon : ':' ∈ stateWord := by
            rw [hword, hafter.1]
            simp
          exact absurd hcolon (by decide)
      · cases u with
        | nil => exact ⟨':', after, hafter, by decide, by decide⟩
        | cons d u =>
          have hd := hname d (by rw [hu]; simp)
          exact ⟨d, _, hafter, isBlank_of_isLiteralNamePart hd, ne_dot_of_isLiteralNamePart hd⟩
    rw [trimStart_cons hblank, List.head?_cons, Option.some.injEq] at hdot
    exact hne hdot

theorem untouched_writeKey (before : Option Char) (k : String) (after : List Char) :
    Untouched before (writeKey k).toList (':' :: after) ↔ isClean k = true := by
  unfold writeKey
  split
  · rename_i h
    rw [Bool.and_eq_true] at h
    have hall := Json5.all_of_isIdentifier h.1
    have hdot : '.' ∉ k.toList := fun hk =>
      ne_dot_of_isLiteralNamePart (List.all_eq_true.1 hall _ hk) rfl
    rw [isClean, holdsAccess, holdsAccessFrom_of_notMem hdot]
    exact iff_of_true (untouched_name hall before after) rfl
  · exact untouched_writeString before k (':' :: after)

theorem ne_of_mem_numeral (negative : Bool) (n : Numeral) :
    ∀ c ∈ signText negative ++ n.text, c ≠ 's' := by
  simp only [Numeral.text, List.forall_mem_append]
  refine ⟨?_, ⟨fun c hc => Json.ne_of_isDigit (n.isDigit_whole c hc) rfl, ?_⟩, ?_⟩
  · cases negative <;> simp [signText]
  · unfold Numeral.fractionText
    split
    · simp
    · rw [List.forall_mem_cons]
      exact ⟨by decide, fun c hc => Json.ne_of_isDigit (n.isDigit_fraction c hc) rfl⟩
  · unfold Numeral.exponentText
    split
    · simp
    · rename_i sign ds h
      simp only [List.forall_mem_cons]
      refine ⟨by decide, by cases sign <;> decide, fun c hc => ?_⟩
      exact Json.ne_of_isDigit ((n.exponent_digits _ h).2 c hc) rfl

/-- A leaf is left alone exactly if it is a clean string or no string. -/
theorem untouched_leaf (h : isLeaf j = true) (hproper : isProper j = true) (before : Option Char)
    (after : List Char) :
    Untouched before (leafText writeString j) after ↔ allStrings isClean j = true := by
  match j with
  | .str s => exact untouched_writeString before s after
  | .bool false =>
    -- The only `s` outside strings is behind the `l` of `false`.
    exact iff_of_true ⟨accessAt?_eq_none (by decide), accessAt?_eq_none (by decide),
      accessAt?_eq_none (by decide), rfl, accessAt?_eq_none (by decide), trivial⟩ rfl
  | .null | .bool true | .arr [] | .obj [] | .real .nan | .real (.infinite true)
  | .real (.infinite false) => exact iff_of_true (untouched_of_ne (by decide)) rfl
  | .int _ | .real (.finite _ _ _) =>
    obtain ⟨negative, n, htext, -⟩ := Json.exists_numeral rfl hproper
    refine iff_of_true (untouched_of_ne ?_) rfl
    rw [htext]
    exact ne_of_mem_numeral negative n

/-- No access starts in the text of a value just if it and its parts have clean strings. -/
def UntouchedIff (clean : Bool) (t : List Char) : Prop :=
  ∀ before after, Untouched before t after ↔ clean = true

theorem UntouchedIff.bracket (hc : c ≠ 's') (hgap : Blanks gap) (h : UntouchedIff clean t) :
    UntouchedIff clean (c :: (gap ++ t)) := by
  intro before after
  rw [untouched_cons hc]
  exact untouched_gap hgap fun before => h before after

theorem UntouchedIff.append {more : Bool} {u : List Char} (ht : UntouchedIff clean t)
    (hu : UntouchedIff more u) : UntouchedIff (clean && more) (t ++ u) := by
  intro before after
  rw [untouched_append, ht, hu, Bool.and_eq_true]

theorem untouchedIff_close (hc : c ≠ 's') (hgap : Blanks gap) : UntouchedIff true (gap ++ [c]) := by
  intro before after
  refine untouched_gap hgap fun before => ?_
  exact iff_of_true ((untouched_cons hc).2 trivial) rfl

theorem UntouchedIff.field (k : String) (h : UntouchedIff clean t) :
    UntouchedIff (isClean k && clean) ((writeKey k).toList ++ ':' :: ' ' :: t) := by
  intro before after
  rw [untouched_append, List.cons_append, untouched_writeKey, untouched_cons (by decide),
    untouched_cons (by decide), h, Bool.and_eq_true]

/-- A text that spells a value is left alone exactly if all strings of the value are clean. -/
theorem untouched_of_spelled (h : Spelled writeString writeKey j t) :
    isProper j = true → UntouchedIff (allStrings isClean j) t :=
  @Spelled.rec writeString writeKey
    (fun j t _ => isProper j = true → UntouchedIff (allStrings isClean j) t)
    (fun js t _ => allProper js = true → UntouchedIff (allStringsOf isClean js) t)
    (fun fields t _ => allProperIn fields = true → UntouchedIff (allStringsIn isClean fields) t)
    (fun hleaf hproper => untouched_leaf hleaf hproper)
    (fun hgap _ h hproper => (h hproper).bracket (by decide) hgap)
    (fun hgap _ h hproper => by
      rw [isProper, Bool.and_eq_true] at hproper
      exact (h hproper.2).bracket (by decide) hgap)
    (fun _ hgap h hproper => by
      rw [allProper, Bool.and_eq_true] at hproper
      exact (h hproper.1).append (untouchedIff_close (by decide) hgap))
    (fun _ hgap _ h hs hproper => by
      rw [allProper, Bool.and_eq_true] at hproper
      exact (h hproper.1).append ((hs hproper.2).bracket (by decide) hgap))
    (fun _ hgap h hproper => by
      rw [allProperIn, Bool.and_eq_true] at hproper
      rw [allStringsIn, Bool.and_assoc]
      exact ((h hproper.1).append (untouchedIff_close (by decide) hgap)).field _)
    (fun _ hgap _ h hs hproper => by
      rw [allProperIn, Bool.and_eq_true] at hproper
      rw [allStringsIn, Bool.and_assoc]
      exact ((h hproper.1).append ((hs hproper.2).bracket (by decide) hgap)).field _) j t h

/-- **The JSON5 text of a value is left alone** exactly if its strings and keys are. -/
theorem strip_write (hproper : isProper j = true) :
    strip "state" (Json5.write j) = Json5.write j ↔ allStrings isClean j = true := by
  rw [strip_eq_self_iff]
  exact untouched_of_spelled (Json5.spelled_write j) hproper none []

/-! ## Both declarations -/

/-- A hook for a field, and the expression that it starts from. -/
def hookLine (key initial : String) : String :=
  "const [" ++ key ++ ", set" ++ Naming.capitalize key ++ "] = useState(() => (" ++ initial ++ "));"

/-- The declaration of a field whose key is a text. -/
def fieldLine (key : String) (value : Json) : String :=
  match Value.ofJson value with
  | .code .method code => strip "state" (functionOf (Text.trimmed code))
  | .code .function code => hookLine key (strip "state" code)
  | .data data => hookLine key (strip "state" (Json5.write data))

theorem fieldDeclaration_eq (key : String) (value : Json) :
    fieldDeclaration (.str key) value = .ok (fieldLine key value) := by
  have hpair (initial : String) :
      pairDeclaration (.str key) initial = .ok (hookLine key (strip "state" initial)) := by
    generalize hstrip : strip "state" initial = stripped
    simp only [pairDeclaration, hstrip]
    rfl
  unfold fieldDeclaration fieldLine
  cases Value.ofJson value with
  | data data => exact hpair _
  | code tag code =>
    cases tag with
    | function => exact hpair code
    | method => rfl

theorem mapM_fieldDeclaration (h : state.hasTextKeys = true) :
    state.mapM (fun (key, value) => fieldDeclaration key value) =
      .ok (state.map fun (key, value) => fieldLine key.asText value) := by
  induction state with
  | nil => rfl
  | cons f state ih =>
    obtain ⟨key, value⟩ := f
    rw [Fields.hasTextKeys, List.all_cons, Bool.and_eq_true] at h
    obtain ⟨k, hk⟩ := Option.isSome_iff_exists.1 h.1
    obtain rfl : key = .str k := by
      cases key <;> simp_all [Json.str?]
    rw [List.mapM_cons]
    simp only [fieldDeclaration_eq, ih h.2]
    rfl

/-- The declaration of an object with the given members. -/
def declaredObject (strategy : StateStrategy) (members : List String) : String :=
  "const state = " ++ (objectCall strategy).1 ++
    ("\x7b " ++ ", ".intercalate members ++ " \x7d") ++ (objectCall strategy).2 ++ ";"

theorem objectText_of_ne (h : ¬state.isEmpty = true) :
    objectText state =
      "\x7b " ++ ", ".intercalate (state.map fun f => member f.1 f.2) ++ " \x7d" := by
  unfold objectText
  rw [if_neg h]

theorem declaration_of_ne {strategy : StateStrategy} (hstrategy : strategy ≠ .useState)
    (hne : state ≠ []) :
    declaration strategy state =
      .ok (declaredObject strategy (state.map fun f => member f.1 f.2)) := by
  have hempty : ¬state.isEmpty = true := by simpa using hne
  have hobject : objectDeclaration strategy state =
      declaredObject strategy (state.map fun f => member f.1 f.2) := by
    delta objectDeclaration declaredObject
    rw [objectText_of_ne hempty]
  rw [← hobject]
  unfold declaration
  rw [if_neg hempty]
  cases strategy with
  | useState => exact absurd rfl hstrategy
  | _ => rfl

/-- **What fields start from.** Each strategy lists the fields in order, as lines or as the members
of an object. For a field that is data, the member holds the JSON5 text of the data. The hook starts
from that very text exactly if no string or key of the data has an access inside, and the text reads
back as the data exactly if none of them has a null character in front of a digit. -/
theorem literal_initials {c : Component} (hproper : c.state.isProper = true) :
    ∃ lines members : List String,
      lines.length = c.state.length ∧ members.length = c.state.length ∧
      declaration .useState c.state = .ok ("\n".intercalate lines) ∧
      (∀ strategy, strategy ≠ .useState → c.state ≠ [] →
        declaration strategy c.state = .ok (declaredObject strategy members)) ∧
      ∀ (i : Nat) key data, c.state[i]? = some (Json.str key, data) → Value.ofJson data = .data data →
        ∃ initial text, lines[i]? = some (hookLine key initial) ∧
          members[i]? = some (key ++ ": " ++ text) ∧ text = Json5.write data ∧
          (initial = text ↔ data.allStrings isClean = true) ∧
          (Json5.read text = .ok data ↔ data.allStrings Json5.readable = true) := by
  rw [Fields.isProper, Bool.and_eq_true, Bool.and_eq_true] at hproper
  obtain ⟨⟨hkeys, -⟩, hvalues⟩ := hproper
  refine ⟨c.state.map fun (key, value) => fieldLine key.asText value,
    c.state.map fun f => member f.1 f.2, by simp, by simp, ?_, ?_, ?_⟩
  · unfold declaration
    split
    · rename_i hempty
      rw [List.isEmpty_iff.1 hempty]
      rfl
    · rw [fieldDeclarations, mapM_fieldDeclaration hkeys]
      rfl
  · intro strategy hstrategy hne
    exact declaration_of_ne hstrategy hne
  · intro i key data hfield hliteral
    have hdata : data.isProper = true :=
      List.all_eq_true.1 hvalues _ (List.mem_of_getElem? hfield)
    refine ⟨strip "state" (Json5.write data), Json5.write data, ?_, ?_, rfl, strip_write hdata,
      Json5.read_write hdata⟩
    · rw [List.getElem?_map, hfield]
      simp only [Option.map_some, fieldLine, hliteral]
      rfl
    · rw [List.getElem?_map, hfield]
      simp only [Option.map_some, member, hliteral]
      rfl

/-- A component whose state is nested data with quotes, escapes and a word that is no access. -/
def noteBoard : Component where
  name := .str "NoteBoard"
  state := [(.str "notes", .arr [.obj [("my key", .str "the \"state\" of\nstate. things"),
    ("state", .arr [.null, .bool false, .int (-3)])]]), (.str "open", .bool true)]
  init := .null
  onMount := .null
  imports := []
  children := []

/-- Both declarations of the notes start from the same text, and it reads back. -/
theorem literal_initials_noteBoard :
    noteBoard.state.isProper = true ∧ ∃ (lines members : List String) (data : Json) (text : String),
      declaration .useState noteBoard.state = .ok ("\n".intercalate lines) ∧
      declaration .mobx noteBoard.state = .ok (declaredObject .mobx members) ∧
      noteBoard.state[0]? = some (Json.str "notes", data) ∧
      lines[0]? = some (hookLine "notes" text) ∧ members[0]? = some ("notes: " ++ text) ∧
      Json5.read text = .ok data := by
  have hproper : noteBoard.state.isProper = true := by
    simp [noteBoard, Fields.isProper, Fields.hasTextKeys, Json.str?, Fields.keyText, isProper,
      allProper, allProperIn]
  obtain ⟨lines, members, -, -, hlines, hmembers, hfields⟩ := literal_initials hproper
  obtain ⟨initial, text, hline, hmember, -, hsame, hread⟩ := hfields 0 "notes" _ rfl rfl
  refine ⟨hproper, lines, members, _, text, hlines, hmembers .mobx (by decide) (by simp [noteBoard]),
    rfl, ?_, hmember, hread.2 (by decide +kernel)⟩
  rw [hline, hsame.2 (by decide +kernel)]

/-- A component whose state is a string with an access inside. -/
def greeting : Component where
  name := .str "Greeting"
  state := [(.str "msg", .str "state.x")]
  init := .null
  onMount := .null
  imports := []
  children := []

/-- A string with an access inside is cut in its own hook only. -/
theorem greeting_cut :
    greeting.state.isProper = true ∧
      declaration .useState greeting.state = .ok (hookLine "msg" "\x22x\x22") ∧
      ∀ strategy, strategy ≠ .useState → declaration strategy greeting.state =
        .ok (declaredObject strategy ["msg: \x22state.x\x22"]) := by
  refine ⟨by decide +kernel, by rfl, ?_⟩
  intro strategy hstrategy
  cases strategy with
  | useState => exact absurd rfl hstrategy
  | _ => rfl

end ReactWeave.State
