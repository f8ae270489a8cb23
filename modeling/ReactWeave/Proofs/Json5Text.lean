import ReactWeave.Json5.Printer
import ReactWeave.Json5.Reader
import ReactWeave.Proofs.JsonText

/-!
# ReactWeave.Proofs.Json5Text

**JSON5 text reads back**, with one exception: a null character is written as
`\0`, which does not mean it when a digit follows. `read_write` says that a value
is read from its own text exactly if none of its strings and keys has a null
character in front of a digit.
-/

namespace ReactWeave

/-! ## Blanks and names -/

/-- White space outside ASCII, by any of the rules for it. -/
def wideBlanks : List Nat :=
  [0x85, 0xA0, 0x1680, 0x2000, 0x2001, 0x2002, 0x2003, 0x2004, 0x2005, 0x2006, 0x2007, 0x2008,
    0x2009, 0x200A, 0x2028, 0x2029, 0x202F, 0x205F, 0x3000, 0xFEFF]

variable {c : Char} {n : Nat} {acc : List Nat} {s t gap body : List Char} {k : String} {α : Type}
  {j v : Json}

namespace Text

theorem lookupClass_wideBlanks :
    (wideBlanks.all fun n => lookupClass n classTable == .unprintable) = true := by
  simp only [classTable, classRuns, List.flatMap_cons, List.flatMap_nil]
  -- evaluating `String.toList` is slow, its value on a literal is known
  repeat rw [String.toList_ofList]
  decide +kernel

theorem classOf_of_blank (h : c.toNat ≤ 32 ∨ c.toNat ∈ wideBlanks) : classOf c = .unprintable := by
  unfold classOf
  rcases h with h | h
  · simp only
    rw [if_pos (by omega), if_neg (by simp; omega), if_neg (by simp; omega),
      if_neg (by simp; omega), if_pos (by simp; omega)]
  · have hwide : ¬c.toNat < 128 := by
      have : ∀ n ∈ wideBlanks, ¬n < 128 := by decide
      exact this _ h
    rw [if_neg hwide]
    simpa using List.all_eq_true.1 lookupClass_wideBlanks _ h

theorem isLiteralNamePart_of_blank (h : c.toNat ≤ 32 ∨ c.toNat ∈ wideBlanks) :
    isLiteralNamePart c = false := by
  have hne (d : Char) (hd : d.toNat ≠ 32 ∧ 32 < d.toNat ∧ d.toNat < 128) : c ≠ d := by
    rintro rfl
    have : ∀ n ∈ wideBlanks, ¬n < 128 := by decide
    rcases h with h | h
    · omega
    · exact this _ h hd.2.2
  simp [isLiteralNamePart, isLiteralNameStart, classOf_of_blank h, hne '$' (by decide),
    hne '_' (by decide)]

theorem isLiteralNamePart_of_start (h : isLiteralNameStart c = true) :
    isLiteralNamePart c = true := by
  simp [isLiteralNamePart, h]

end Text

namespace Json

mutual

/-- Whether a test holds of every string of a value, keys included. -/
def allStrings (p : String → Bool) : Json → Bool
  | str s => p s
  | arr items => allStringsOf p items
  | obj fields => allStringsIn p fields
  | _ => true

/-- The same for the items of an array. -/
def allStringsOf (p : String → Bool) : List Json → Bool
  | [] => true
  | j :: js => allStrings p j && allStringsOf p js

/-- The same for the fields of an object. -/
def allStringsIn (p : String → Bool) : List (String × Json) → Bool
  | [] => true
  | (k, v) :: rest => p k && allStrings p v && allStringsIn p rest

end

end Json

namespace Json5

open Json (Spelled Blanks Answers Reader Writer hexFour?_hexDigits length_hexDigits_four)

theorem isSpace_of_isLiteralNamePart (h : Text.isLiteralNamePart c = true) : isSpace c = false := by
  rw [Bool.eq_false_iff]
  intro hspace
  simp only [isSpace, Bool.or_eq_true, Bool.and_eq_true, beq_iff_eq, decide_eq_true_eq] at hspace
  have hblank : c.toNat ≤ 32 ∨ c.toNat ∈ wideBlanks := by
    simp only [wideBlanks, List.mem_cons, List.not_mem_nil, or_false]
    omega
  rw [Text.isLiteralNamePart_of_blank hblank] at h
  cases h

/-! ## Reading strings -/

/-- The code units of a character. -/
def unitsOf (c : Char) : List Nat :=
  if c.toNat < 0x10000 then [c.toNat]
  else [0xD800 + (c.toNat - 0x10000) / 0x400, 0xDC00 + (c.toNat - 0x10000) % 0x400]

theorem joinUnits_cons (h : Json.isSurrogate n = false) (units : List Nat) :
    joinUnits (n :: units) = Char.ofNat n :: joinUnits units ∧
      unpaired? (n :: units) = unpaired? units := by
  cases units with
  | nil => exact ⟨rfl, by simp [unpaired?, h]⟩
  | cons b units =>
    have hpair : isPair n b = false := by
      simp only [Json.isSurrogate, Bool.and_eq_false_iff, decide_eq_false_iff_not] at h
      simp [isPair]
      omega
    simp [joinUnits, unpaired?, hpair, h]

theorem joinUnits_pair {a b : Nat} (ha : 0xD800 ≤ a ∧ a < 0xDC00) (hb : 0xDC00 ≤ b ∧ b < 0xE000)
    (units : List Nat) :
    joinUnits (a :: b :: units) = Json.joinSurrogates a b :: joinUnits units ∧
      unpaired? (a :: b :: units) = unpaired? units := by
  have hpair : isPair a b = true := by simp [isPair, ha, hb]
  simp [joinUnits, unpaired?, hpair]

theorem joinSurrogates_split (hn : 0x10000 ≤ n) :
    Json.joinSurrogates (0xD800 + (n - 0x10000) / 0x400) (0xDC00 + (n - 0x10000) % 0x400) =
      Char.ofNat n := by
  refine congrArg Char.ofNat ?_
  omega

theorem isSurrogate_toNat (c : Char) : Json.isSurrogate c.toNat = false := by
  have hvalid : c.toNat < 0xD800 ∨ 0xDFFF < c.toNat ∧ c.toNat < 0x110000 := c.valid
  simp [Json.isSurrogate]
  omega

/-- The code units of a text are put together to the text, and none of them is unpaired. -/
theorem joinUnits_flatMap (cs : List Char) :
    joinUnits (cs.flatMap unitsOf) = cs ∧ unpaired? (cs.flatMap unitsOf) = none := by
  induction cs with
  | nil => exact ⟨rfl, rfl⟩
  | cons c cs ih =>
    have hvalid : c.toNat < 0xD800 ∨ 0xDFFF < c.toNat ∧ c.toNat < 0x110000 := c.valid
    rw [List.flatMap_cons, unitsOf]
    split
    · obtain ⟨hjoin, hnone⟩ := joinUnits_cons (isSurrogate_toNat c) (cs.flatMap unitsOf)
      rw [List.singleton_append, hjoin, hnone, ih.1, ih.2, Char.ofNat_toNat]
      exact ⟨rfl, rfl⟩
    · rw [List.cons_append, List.singleton_append]
      obtain ⟨hjoin, hnone⟩ := joinUnits_pair (a := 0xD800 + (c.toNat - 0x10000) / 0x400)
        (b := 0xDC00 + (c.toNat - 0x10000) % 0x400) (by omega) (by omega) (cs.flatMap unitsOf)
      rw [hjoin, hnone, ih.1, ih.2, joinSurrogates_split (by omega), Char.ofNat_toNat]
      exact ⟨rfl, rfl⟩

theorem stringFrom_skip (quote : Char) (acc : List Nat) (used s : List Char) :
    stringFrom quote acc used.length (used ++ s) = stringFrom quote acc 0 s := by
  induction used with
  | nil => rfl
  | cons c used ih => rw [List.length_cons, List.cons_append, stringFrom, ih]

theorem stringFrom_escape {units : List Nat} (used : List Char)
    (h : escape? (used ++ s) = some (units, used.length)) :
    stringFrom '\x22' acc 0 ('\\' :: (used ++ s)) =
      stringFrom '\x22' (units.reverse ++ acc) 0 s := by
  rw [stringFrom]
  rw [h]
  exact stringFrom_skip _ _ used s

theorem stringFrom_unitEscape (hn : n < 0x10000) :
    stringFrom '\x22' acc 0 (unitEscape n ++ s) = stringFrom '\x22' (n :: acc) 0 s := by
  have h : escape? ('u' :: Text.hexDigits 4 n ++ s) =
      some ([n], ('u' :: Text.hexDigits 4 n).length) := by
    rw [List.length_cons, length_hexDigits_four hn]
    simp [escape?, hexFour?_hexDigits hn]
  exact stringFrom_escape ('u' :: Text.hexDigits 4 n) h

/-- A character is escaped by a letter or by its code units, or stands as it is; only a null
character depends on what follows. -/
theorem escapeChar_cases (c : Char) :
    (∃ letter, escapeChar c = ['\\', letter] ∧ (c = '\\' ∨ c = '\x22' ∨ c.toNat < 32) ∧
      ∀ s : List Char, (c.toNat = 0 → s.head?.any Char.isDigit = false) →
        escape? (letter :: s) = some ([c.toNat], 1)) ∨
      (escapeChar c = charEscape c ∧ (c.toNat < 32 ∨ 128 ≤ c.toNat)) ∨
      (escapeChar c = [c] ∧ c ≠ '\x22' ∧ c ≠ '\\' ∧ 32 ≤ c.toNat ∧ c.toNat < 128) := by
  unfold escapeChar
  by_cases hback : c = '\\'
  · exact .inl ⟨'\\', by simp [hback], by simp [hback], fun s _ => by rw [hback]; rfl⟩
  by_cases hquote : c = '\x22'
  · exact .inl ⟨'\x22', by simp [hquote], by simp [hquote], fun s _ => by rw [hquote]; rfl⟩
  by_cases hn : c = '\n'
  · exact .inl ⟨'n', by simp [hn], by simp [hn], fun s _ => by rw [hn]; rfl⟩
  by_cases hr : c = '\r'
  · exact .inl ⟨'r', by simp [hr], by simp [hr], fun s _ => by rw [hr]; rfl⟩
  by_cases ht : c = '\t'
  · exact .inl ⟨'t', by simp [ht], by simp [ht], fun s _ => by rw [ht]; rfl⟩
  by_cases hb : c.toNat = 8
  · exact .inl ⟨'b', by simp [hback, hquote, hn, hr, ht, hb], by omega, fun s _ => by rw [hb]; rfl⟩
  by_cases hf : c.toNat = 12
  · exact .inl ⟨'f', by simp [hback, hquote, hn, hr, ht, hf], by omega, fun s _ => by rw [hf]; rfl⟩
  by_cases hv : c.toNat = 11
  · exact .inl ⟨'v', by simp [hback, hquote, hn, hr, ht, hv], by omega, fun s _ => by rw [hv]; rfl⟩
  by_cases hz : c.toNat = 0
  · refine .inl ⟨'0', by simp [hback, hquote, hn, hr, ht, hz], by omega, fun s hs => ?_⟩
    rw [escape?, hs hz, hz]
    rfl
  by_cases hplain : 32 ≤ c.toNat ∧ c.toNat < 128
  · exact .inr (.inr ⟨by simp [hback, hquote, hn, hr, ht, hb, hf, hv, hz, hplain], hquote, hback,
      hplain⟩)
  · refine .inr (.inl ⟨?_, by omega⟩)
    have : (decide (32 ≤ c.toNat) && decide (c.toNat < 128)) = false := by simp; omega
    simp [hback, hquote, hn, hr, ht, hb, hf, hv, hz, this]

/-- A character of a string is read from its escape, unless it is a null character in front of a
digit. -/
theorem stringFrom_escapeChar (hnull : c.toNat = 0 → s.head?.any Char.isDigit = false) :
    stringFrom '\x22' acc 0 (escapeChar c ++ s) =
      stringFrom '\x22' ((unitsOf c).reverse ++ acc) 0 s := by
  have hvalid : c.toNat < 0xD800 ∨ 0xDFFF < c.toNat ∧ c.toNat < 0x110000 := c.valid
  rcases escapeChar_cases c with ⟨letter, h, hlow, hread⟩ | ⟨h, -⟩ | ⟨h, hquote, hback, hlow, hhigh⟩
  · have : c.toNat < 128 := by
      rcases hlow with rfl | rfl | hlow
      · decide
      · decide
      · omega
    rw [h, unitsOf, if_pos (by omega)]
    exact stringFrom_escape [letter] (hread s hnull)
  · rw [h, charEscape, unitsOf]
    split
    · exact stringFrom_unitEscape (by omega)
    · rw [List.append_assoc, stringFrom_unitEscape (by omega), stringFrom_unitEscape (by omega)]
      rfl
  · have hn : c ≠ '\n' := by rintro rfl; exact absurd hlow (by decide)
    have hr : c ≠ '\r' := by rintro rfl; exact absurd hlow (by decide)
    rw [h, List.singleton_append, stringFrom.eq_def, unitsOf, if_pos (by omega)]
    simp [hquote, hback, hn, hr]

theorem stringFrom_null (hc : c.toNat = 0) (hs : s.head?.any Char.isDigit = true) :
    ∃ e, stringFrom '\x22' acc 0 (escapeChar c ++ s) = .error e := by
  have h : escapeChar c = ['\\', '0'] := by
    rw [← Char.ofNat_toNat c, hc]
    rfl
  refine ⟨.fault ('0' :: s), ?_⟩
  rw [h, List.cons_append, List.singleton_append, stringFrom]
  rw [escape?, hs]
  rfl

/-- Whether a null character stands in front of a digit. -/
def nullBeforeDigit : List Char → Bool
  | [] => false
  | c :: cs => (c.toNat == 0 && cs.head?.any Char.isDigit) || nullBeforeDigit cs

theorem isDigit_eq_false (h : c.toNat < 48 ∨ 57 < c.toNat) : c.isDigit = false := by
  rw [Bool.eq_false_iff]
  intro hc
  obtain ⟨h₁, h₂⟩ : 48 ≤ c.toNat ∧ c.toNat ≤ 57 := Char.isDigit_iff_toNat.1 hc
  omega

/-- A digit is never escaped, so what follows a character starts with one exactly if it did before.
-/
theorem isDigit_head?_flatMap (cs rest : List Char) :
    (cs.flatMap escapeChar ++ '\x22' :: rest).head?.any Char.isDigit =
      cs.head?.any Char.isDigit := by
  cases cs with
  | nil => rfl
  | cons c cs =>
    rw [List.flatMap_cons, List.append_assoc, List.head?_cons, Option.any_some]
    rcases escapeChar_cases c with ⟨letter, h, hlow, -⟩ | ⟨h, hc⟩ | ⟨h, -⟩
    · rw [h]
      rcases hlow with rfl | rfl | hlow
      · rfl
      · rfl
      · simp [isDigit_eq_false (Or.inl (show c.toNat < 48 by omega))]
    · have hhead : ∃ t, charEscape c = '\\' :: t := by
        by_cases hwide : c.toNat < 0x10000
        · exact ⟨_, if_pos hwide⟩
        · exact ⟨_, if_neg hwide⟩
      obtain ⟨t, ht⟩ := hhead
      rw [h, ht]
      simp [isDigit_eq_false (show c.toNat < 48 ∨ 57 < c.toNat by omega)]
    · rw [h]
      rfl

/-- A string is read from its escapes, if no null character stands in front of a digit. -/
theorem stringFrom_flatMap (rest cs : List Char) (acc : List Nat)
    (h : nullBeforeDigit cs = false) :
    stringFrom '\x22' acc 0 (cs.flatMap escapeChar ++ '\x22' :: rest) =
      match unpaired? (acc.reverse ++ cs.flatMap unitsOf) with
      | some unit => .error (.unpaired unit)
      | none => .ok (String.ofList (joinUnits (acc.reverse ++ cs.flatMap unitsOf)), rest) := by
  induction cs generalizing acc with
  | nil =>
    cases h : unpaired? acc.reverse <;> simp [stringFrom, h]
  | cons c cs ih =>
    rw [nullBeforeDigit, Bool.or_eq_false_iff] at h
    rw [List.flatMap_cons, List.append_assoc, stringFrom_escapeChar, ih _ h.2]
    · simp
    · intro hc
      rw [isDigit_head?_flatMap]
      simpa [hc] using h.1

/-- If one does, the string is refused. -/
theorem stringFrom_flatMap_null (rest cs : List Char) (acc : List Nat)
    (h : nullBeforeDigit cs = true) :
    ∃ e, stringFrom '\x22' acc 0 (cs.flatMap escapeChar ++ '\x22' :: rest) = .error e := by
  induction cs generalizing acc with
  | nil => cases h
  | cons c cs ih =>
    rw [List.flatMap_cons, List.append_assoc]
    by_cases hc : c.toNat = 0 ∧ cs.head?.any Char.isDigit = true
    · exact stringFrom_null hc.1 (by rw [isDigit_head?_flatMap]; exact hc.2)
    · rw [nullBeforeDigit, Bool.or_eq_true, Bool.and_eq_true, beq_iff_eq] at h
      rw [stringFrom_escapeChar]
      · exact ih _ (h.resolve_left hc)
      · intro h0
        rw [isDigit_head?_flatMap, Bool.eq_false_iff]
        exact fun hd => hc ⟨h0, hd⟩

/-- The faults of a reader that stops if what was written is not readable. -/
def faultsUnless (readable : Bool) : Option (Stop → Prop) :=
  if readable then none else some fun _ => True

theorem faultsUnless_and (a b : Bool) :
    faultsUnless (a && b) = (faultsUnless a).or (faultsUnless b) := by
  cases a <;> rfl

/-- Whether a string is read from its own text. -/
def readable (s : String) : Bool := !nullBeforeDigit s.toList

/-- **A string reads back** if no null character in it stands in front of a digit. -/
theorem stringFrom_writeString (s : String) (rest : List Char) :
    ∃ body, (writeString s).toList = '\x22' :: body ∧
      Answers (faultsUnless (readable s)) s rest (stringFrom '\x22' [] 0 (body ++ rest)) := by
  refine ⟨s.toList.flatMap escapeChar ++ ['\x22'], by simp [writeString], ?_⟩
  rw [List.append_assoc, List.singleton_append, readable]
  cases h : nullBeforeDigit s.toList with
  | false =>
    obtain ⟨hjoin, hnone⟩ := joinUnits_flatMap s.toList
    rw [stringFrom_flatMap _ _ _ h, List.reverse_nil, List.nil_append, hnone, hjoin]
    simp only [String.ofList_toList]
    rfl
  | true =>
    obtain ⟨e, he⟩ := stringFrom_flatMap_null rest _ [] h
    exact ⟨e, trivial, he⟩

/-! ## Reading keys -/

/-- Characters of keys without quotes. -/
def isBarePart (c : Char) : Bool :=
  Text.isLiteralNamePart c || c.toNat == 0x200C || c.toNat == 0x200D

/-- Whether a key without quotes is read as itself. -/
def isBareKey : List Char → Bool
  | [] => false
  | c :: cs => Text.isLiteralNameStart c && cs.all isBarePart

theorem isBarePart_of_start (h : Text.isLiteralNameStart c = true) : isBarePart c = true := by
  simp [isBarePart, Text.isLiteralNamePart_of_start h]

theorem exists_cons_of_isBareKey {k : List Char} (h : isBareKey k = true) :
    ∃ c t, k = c :: t ∧ Text.isLiteralNameStart c = true ∧ k.all isBarePart = true := by
  cases k with
  | nil => cases h
  | cons c t =>
    rw [isBareKey, Bool.and_eq_true] at h
    exact ⟨c, t, rfl, h.1, by rw [List.all_cons, isBarePart_of_start h.1, h.2]; rfl⟩

theorem isBareKey_of_isIdentifier {k : List Char} (h : isIdentifier k = true) :
    isBareKey k = true := by
  cases k with
  | nil => cases h
  | cons c t =>
    rw [isIdentifier, Bool.and_eq_true, List.all_eq_true] at h
    rw [isBareKey, h.1, Bool.true_and, List.all_eq_true]
    intro d hd
    simp [isBarePart, h.2 d hd]

theorem nameFrom_append {name : List Char} (h : name.all isBarePart = true)
    (acc rest : List Char) :
    nameFrom acc 0 (name ++ ':' :: rest) = (acc.reverse ++ name, ':' :: rest) := by
  induction name generalizing acc with
  | nil =>
    have hcolon : Text.isLiteralNamePart ':' = false := by decide +kernel
    rw [List.nil_append, nameFrom]
    simp [hcolon]
  | cons c name ih =>
    rw [List.all_cons, Bool.and_eq_true] at h
    have hc : (Text.isLiteralNamePart c || c.toNat == 0x200C || c.toNat == 0x200D) = true := h.1
    rw [List.cons_append, nameFrom, if_pos hc, ih h.2]
    simp

/-- The reader of a key. -/
def readKey (s : List Char) : Step String :=
  match s with
  | '\x22' :: r => stringFrom '\x22' [] 0 r
  | '\x27' :: r => stringFrom '\x27' [] 0 r
  | _ => readName s

theorem nullBeforeDigit_bare {cs : List Char} (h : cs.all isBarePart = true) :
    nullBeforeDigit cs = false := by
  induction cs with
  | nil => rfl
  | cons c cs ih =>
    rw [List.all_cons, Bool.and_eq_true] at h
    have hc : c.toNat ≠ 0 := by
      intro h0
      have hpart := h.1
      rw [isBarePart, Text.isLiteralNamePart_of_blank (.inl (by omega)), h0] at hpart
      cases hpart
    simp [nullBeforeDigit, hc, ih h.2]

theorem readable_bare (h : isBareKey k.toList = true) : readable k = true := by
  obtain ⟨-, -, -, -, hall⟩ := exists_cons_of_isBareKey h
  rw [readable, nullBeforeDigit_bare hall]
  rfl

theorem all_of_isIdentifier {cs : List Char} (h : isIdentifier cs = true) :
    cs.all Text.isLiteralNamePart = true := by
  cases cs with
  | nil => rfl
  | cons c cs =>
    rw [isIdentifier, Bool.and_eq_true] at h
    rw [List.all_cons, Text.isLiteralNamePart_of_start h.1, h.2]
    rfl

theorem ne_of_isLiteralNameStart {d : Char} (h : Text.isLiteralNameStart c = true)
    (hd : Text.isLiteralNameStart d = false) : c ≠ d := by
  rintro rfl
  rw [h] at hd
  cases hd

/-! ## Reading numbers -/

open Json (Numeral EndsNumber Closes signText takeWhile_isDigit ne_of_isDigit)
open Number (Binary64)
open Number.Binary64 (ofDecimal isNormal writeFinite)

theorem startsName_of_closes (h : Closes s) : startsName s = false := by
  rcases h.cases with rfl | ⟨c, t, rfl, hc⟩
  · rfl
  · rcases hc with rfl | rfl | rfl | rfl | rfl | rfl | rfl <;> rfl

theorem wholeDigits_numeral (n : Numeral) (hs : ∀ c ∈ s.head?, c.isDigit = false) :
    wholeDigits (n.whole ++ s) = some n.whole := by
  obtain ⟨c, t, ht⟩ := List.exists_cons_of_ne_nil n.whole_ne_nil
  by_cases hc : c = '0'
  · have hwhole : n.whole = ['0'] := n.leading (by simp [ht, hc])
    rw [hwhole, List.singleton_append, wholeDigits, if_neg]
    cases s with
    | nil => simp
    | cons d s => simp [hs d rfl]
  · have : wholeDigits (n.whole ++ s) = some ((n.whole ++ s).takeWhile Char.isDigit) := by
      rw [ht, List.cons_append, wholeDigits]
      simpa using hc
    rw [this, takeWhile_isDigit n.isDigit_whole hs]

theorem readExponent_numeral (n : Numeral) (hs : EndsNumber s) :
    readExponent (n.exponentText ++ s) =
      some (if n.exponent.isNone then none else some n.exponentValue, s) := by
  rcases n.exponentText_eq with ⟨htext, hx⟩ | ⟨negative, ds, hx, htext⟩
  · rw [htext, hx, List.nil_append]
    cases s with
    | nil => rfl
    | cons c s =>
      have := hs c rfl
      simp [readExponent, this.2.2.1, this.2.2.2]
  · obtain ⟨hne, hdigits⟩ := n.exponent_digits (negative, ds) (by simp [hx])
    have htake := takeWhile_isDigit hdigits fun c hc => (hs c hc).1
    rw [htext, Numeral.exponentValue, hx]
    cases negative <;> simp [readExponent, htake, hne]

/-- The digits behind a point, if there is one, and what follows. -/
def fractionOf : List Char → Option (List Char) × List Char
  | '.' :: r => (some (r.takeWhile Char.isDigit), r.drop (r.takeWhile Char.isDigit).length)
  | r => (none, r)

theorem fractionOf_numeral (n : Numeral) (hs : EndsNumber s) :
    fractionOf (n.fractionText ++ (n.exponentText ++ s)) =
      ((if n.fraction.isEmpty then none else some n.fraction), n.exponentText ++ s) := by
  have hhead := n.head?_exponentText hs
  unfold Numeral.fractionText
  split
  · rw [List.nil_append]
    unfold fractionOf
    split
    · rename_i r hr
      exact absurd rfl (hhead '.' (by rw [hr]; rfl)).2
    · rfl
  · have htake := takeWhile_isDigit n.isDigit_fraction fun c hc => (hhead c hc).1
    rw [List.cons_append, fractionOf, htake, List.drop_left]

theorem readDecimal_eq (negative : Bool) {ds : List Char} (h : wholeDigits s = some ds) :
    readDecimal negative s =
      if ds.isEmpty && ((fractionOf (s.drop ds.length)).1.getD []).isEmpty then stopAt s
      else
        match readExponent (fractionOf (s.drop ds.length)).2 with
        | none => stopAt ((fractionOf (s.drop ds.length)).2.drop 1)
        | some (exponent, rest) =>
          if startsName rest then stopAt rest
          else if (fractionOf (s.drop ds.length)).1.isNone && exponent.isNone then
            .ok (.int (if negative then -(Json.digitsValue ds : Int) else Json.digitsValue ds), rest)
          else
            .ok (.real (ofDecimal negative
              (Json.digitsValue (ds ++ (fractionOf (s.drop ds.length)).1.getD []))
              (exponent.getD 0 - ((fractionOf (s.drop ds.length)).1.getD []).length)), rest) := by
  unfold readDecimal
  rw [h]
  rfl

/-- **A numeral is read whole.** -/
theorem readDecimal_numeral (negative : Bool) (n : Numeral) (hs : Closes s) :
    readDecimal negative (n.text ++ s) = .ok (n.json negative, s) := by
  have hends := hs.endsNumber
  have hempty : n.whole.isEmpty = false := by simp [n.whole_ne_nil]
  rw [n.text_append, readDecimal_eq negative (wholeDigits_numeral n (n.head?_fractionText hends)),
    List.drop_left, fractionOf_numeral n hends, readExponent_numeral n hends]
  simp only [hempty, Bool.false_and, Bool.false_eq_true, if_false, startsName_of_closes hs]
  cases hf : n.fraction <;> cases hx : n.exponent <;>
    simp [Numeral.json, Numeral.isWhole, Numeral.value, Numeral.scale, Numeral.exponentValue, hf, hx]

/-- A numeral is no hexadecimal number and no word. -/
theorem readNumber_numeral (negative : Bool) (n : Numeral) (hs : Closes s) :
    readNumber negative (n.text ++ s) = readDecimal negative (n.text ++ s) := by
  obtain ⟨c, t, h, hdigit⟩ := n.exists_cons s
  have hne (d : Char) (hd : d.isDigit = false) : (d == c) = false :=
    beq_eq_false_iff_ne.2 (ne_of_isDigit hdigit hd).symm
  -- behind a zero comes a point, an exponent, or what closes the value
  have hhex : c = '0' → ∀ d ∈ t.head?, d ≠ 'x' ∧ d ≠ 'X' := by
    rintro rfl d hd
    have hwhole : n.whole = ['0'] := by
      refine n.leading ?_
      rw [n.text_append] at h
      rw [← List.head?_append_of_ne_nil _ n.whole_ne_nil, h]
      rfl
    rw [n.text_append, hwhole, List.singleton_append, List.cons.injEq] at h
    rw [← h.2] at hd
    unfold Numeral.fractionText at hd
    split at hd
    · rcases n.exponentText_eq with ⟨htext, -⟩ | ⟨neg, ds, -, htext⟩
      · rw [htext, List.nil_append, List.nil_append] at hd
        rcases hs d hd with rfl | rfl | rfl | hspace
        · decide
        · decide
        · decide
        · constructor <;> rintro rfl <;> exact absurd hspace (by decide)
      · rw [htext] at hd
        obtain rfl : 'e' = d := by simpa using hd
        decide
    · obtain rfl : '.' = d := by simpa using hd
      decide
  rw [h, readNumber]
  · simp [Text.startsWith, hne 'I' rfl, hne 'N' rfl]
  · rintro r hr
    rw [List.cons.injEq] at hr
    exact (hhex hr.1 'x' (by rw [hr.2]; rfl)).1 rfl
  · rintro r hr
    rw [List.cons.injEq] at hr
    exact (hhex hr.1 'X' (by rw [hr.2]; rfl)).2 rfl

theorem readValue_number (depth : Nat) (negative : Bool) (n : Numeral) (hs : Closes s) :
    readValue (depth + 1) (signText negative ++ (n.text ++ s)) = .ok (n.json negative, s) := by
  rw [← readDecimal_numeral negative n hs, ← readNumber_numeral negative n hs]
  cases negative with
  | true => rfl
  | false =>
    obtain ⟨c, t, h, hdigit⟩ := n.exists_cons s
    have hne (d : Char) (hd : d.isDigit = false) : c ≠ d := ne_of_isDigit hdigit hd
    have hne' (d : Char) (hd : d.isDigit = false) : (d == c) = false := by
      simpa using (hne d hd).symm
    rw [signText, if_neg (by simp), List.nil_append, h, readValue]
    · simp [valueWords, Text.startsWith, hne' 'n' rfl, hne' 't' rfl, hne' 'f' rfl]
    all_goals simp [hne '{' rfl, hne '[' rfl, hne '\x22' rfl, hne '\x27' rfl, hne '-' rfl, hne '+' rfl]

/-! ## Reading values -/

open Json (leafText isLeaf isProper allStrings allStringsOf allStringsIn startsValue_leafText isSolid
  isSolid_range exists_numeral closes_nil put)

theorem skip_cons (hc : isSpace c = false) (hslash : c ≠ '/') : skip (c :: s) = c :: s := by
  rw [skip, skipFrom]
  · simp [hc]
  all_goals simp [hslash]

theorem skip_blanks (hgap : Blanks gap) : skip (gap ++ s) = skip s := by
  induction gap with
  | nil => rfl
  | cons c gap ih =>
    have hc := hgap c (by simp)
    have hspace : isSpace c = true ∧ c ≠ '/' := by
      simp only [Json.isSpace, Bool.or_eq_true, beq_iff_eq] at hc
      rcases hc with ((rfl | rfl) | rfl) | rfl <;> decide
    rw [List.cons_append, skip, skipFrom, if_pos hspace.1]
    · exact ih fun d hd => hgap d (List.mem_cons_of_mem _ hd)
    all_goals simp [hspace.2]

theorem skip_of_isSolid (h : isSolid c = true) : skip (c :: s) = c :: s := by
  obtain ⟨hlow, hhigh, hslash⟩ := isSolid_range h
  refine skip_cons ?_ hslash
  rw [Bool.eq_false_iff]
  intro hspace
  simp only [isSpace, Bool.or_eq_true, Bool.and_eq_true, beq_iff_eq, decide_eq_true_eq] at hspace
  omega

/-- What the reader does behind the value of a field. -/
def endField (depth : Nat) (done : List (String × Json)) (s : List Char) :
    Step (List (String × Json)) :=
  match skip s with
  | '}' :: rest => .ok (done, rest)
  | ',' :: rest =>
    match skip rest with
    | '}' :: rest => .ok (done, rest)
    | rest => readFields depth done rest
  | rest => stopAt rest

theorem readFields_succ (depth : Nat) (done : List (String × Json)) (s : List Char) :
    readFields (depth + 1) done s =
      match readKey s with
      | .error e => .error e
      | .ok (key, rest) =>
        match skip rest with
        | ':' :: rest =>
          match readValue depth (skip rest) with
          | .error e => .error e
          | .ok (value, rest) => endField depth (put key value done) rest
        | rest => stopAt rest := rfl

/-- The reader of JSON5 text. -/
def reader : Reader Stop where
  skip := skip
  key := readKey
  value := readValue
  items := readItems
  fields := readFields
  skip_blanks := skip_blanks
  skip_cons := skip_of_isSolid
  value_arr h := by
    rw [readValue]
    split
    · exact absurd ‹_› (h _)
    · rfl
  value_obj h := by
    rw [readValue]
    split
    · exact absurd ‹_› (h _)
    · rfl
  items_error h := by rw [readItems, h]
  items_last h hclose := by simp only [readItems, h, hclose]
  items_cons h hcomma hmore := by simp only [readItems, h, hcomma]
  key_error h := by rw [readFields_succ, h]
  fields_error hkey hcolon h := by simp only [readFields_succ, hkey, hcolon, h]
  fields_last hkey hcolon h hclose := by
    simp only [readFields_succ, hkey, hcolon, h, endField, hclose]
  fields_cons hkey hcolon h hcomma hmore := by
    simp only [readFields_succ, hkey, hcolon, h, endField, hcomma]

theorem escapedHalf?_of_not_mem (h : '\\' ∉ s) : escapedHalf? s = none := by
  induction s with
  | nil => rfl
  | cons c s ih =>
    rw [List.mem_cons, not_or] at h
    have hc : (c == '\\') = false := beq_eq_false_iff_ne.2 (Ne.symm h.1)
    rw [escapedHalf?, hc, if_neg Bool.false_ne_true]
    exact ih h.2

/-- **A bare key reads back.** -/
theorem spellsKey_bare (h : isBareKey k.toList = true) :
    reader.SpellsKey (faultsUnless (readable k)) k k.toList := by
  obtain ⟨c, t, hk, hc, hall⟩ := exists_cons_of_isBareKey h
  have hne {d : Char} (hd : Text.isLiteralNameStart d = false) : c ≠ d :=
    ne_of_isLiteralNameStart hc hd
  refine ⟨fun s => ?_, fun rest => ?_⟩
  · have hitems := hne (show Text.isLiteralNameStart ']' = false by decide +kernel)
    have hfields := hne (show Text.isLiteralNameStart '}' = false by decide +kernel)
    rw [hk, List.cons_append]
    refine ⟨skip_cons (isSpace_of_isLiteralNamePart (Text.isLiteralNamePart_of_start hc))
      (hne (by decide +kernel)), ?_⟩
    simp [hitems, hfields]
  · have hname := nameFrom_append hall [] rest
    have hplain : '\\' ∉ k.toList := by
      intro hback
      have hpart : isBarePart '\\' = false := by decide +kernel
      exact absurd (List.all_eq_true.1 hall _ hback) (by simp [hpart])
    have htake : (k.toList ++ ':' :: rest).take
        ((k.toList ++ ':' :: rest).length - (':' :: rest).length) = k.toList := by
      rw [List.length_append, Nat.add_sub_cancel, List.take_left]
    have hhalf := escapedHalf?_of_not_mem hplain
    rw [← htake] at hhalf
    have hdouble := hne (show Text.isLiteralNameStart '\x22' = false by decide +kernel)
    have hsingle := hne (show Text.isLiteralNameStart '\x27' = false by decide +kernel)
    change Answers _ _ _ (readKey _)
    rw [readable_bare h, hk, List.cons_append, readKey]
    · rw [hk, List.cons_append] at hname hhalf
      rw [readName, if_pos (by simp [hc]), hname]
      simp only [hhalf]
      simp [Answers, faultsUnless, ← hk]
    · simpa using hdouble
    · simpa using hsingle

/-- **A key reads back** like a string. -/
theorem spellsKey_writeKey (k : String) :
    reader.SpellsKey (faultsUnless (readable k)) k (writeKey k).toList := by
  unfold writeKey
  split
  · rename_i h
    rw [Bool.and_eq_true] at h
    exact spellsKey_bare (isBareKey_of_isIdentifier h.1)
  · refine ⟨?_, fun rest => ?_⟩
    · obtain ⟨body, hbody, -⟩ := stringFrom_writeString k []
      rw [hbody]
      exact Reader.starts_cons rfl body
    · obtain ⟨body, hbody, hread⟩ := stringFrom_writeString k (':' :: rest)
      rw [hbody]
      exact hread

/-- **A value that holds no others reads back** if it is no string that does not. -/
theorem readsBack_leaf (h : isLeaf j = true) :
    reader.ReadsBack (faultsUnless (allStrings readable j)) j (leafText writeString j) := by
  intro hproper
  refine ⟨startsValue_leafText (fun s => (stringFrom_writeString s []).imp fun _ h => h.1) h hproper,
    fun s n hs hn => ?_⟩
  obtain ⟨n, rfl⟩ : ∃ d, n = d + 1 := ⟨n - 1, by omega⟩
  change Answers _ _ _ (readValue (n + 1) _)
  match j with
  | .null | .bool true | .bool false | .arr [] | .obj [] | .real .nan | .real (.infinite true)
  | .real (.infinite false) => rfl
  | .str t =>
    obtain ⟨body, hbody, hread⟩ := stringFrom_writeString t s
    rw [leafText, hbody, List.cons_append, readValue]
    exact hread.map Json.str
  | .int _ | .real (.finite _ _ _) =>
    obtain ⟨negative, m, htext, hvalue, -⟩ := exists_numeral rfl hproper
    rw [htext, List.append_assoc, readValue_number _ _ _ hs, hvalue]
    rfl

/-- **A text that spells a value is read as that value**, or refused for one of its strings. -/
theorem readsBack_of_spelled (h : Spelled writeString writeKey j t) :
    reader.ReadsBack (faultsUnless (allStrings readable j)) j t :=
  @Spelled.rec writeString writeKey
    (fun j t _ => reader.ReadsBack (faultsUnless (allStrings readable j)) j t)
    (fun js t _ => reader.ItemsReadBack (faultsUnless (allStringsOf readable js)) js t)
    (fun fields t _ => reader.FieldsReadBack (faultsUnless (allStringsIn readable fields)) fields t)
    readsBack_leaf (fun hgap _ h => Reader.readsBack_arr hgap h)
    (fun hgap _ h => Reader.readsBack_obj hgap h)
    (fun _ hgap h => by
      rw [allStringsOf, allStringsOf, Bool.and_true]
      exact Reader.itemsReadBack_last h hgap)
    (fun _ hgap _ h hs => by
      rw [allStringsOf, faultsUnless_and]
      exact Reader.itemsReadBack_cons h hgap hs)
    (fun _ hgap h => by
      rw [allStringsIn, allStringsIn, Bool.and_true, faultsUnless_and]
      exact Reader.fieldsReadBack_last (spellsKey_writeKey _) h hgap)
    (fun _ hgap _ h hs => by
      rw [allStringsIn, faultsUnless_and, faultsUnless_and]
      exact Reader.fieldsReadBack_cons (spellsKey_writeKey _) h hgap hs) j t h

theorem write_of_isLeaf (h : isLeaf j = true) : (write j).toList = leafText writeString j := by
  match j with
  | .null | .bool _ | .int _ | .real _ | .str _ | .arr [] | .obj [] => rfl

theorem write_arr (items : List Json) :
    write (.arr items) = "[" ++ "" ++ ("," ++ " ").intercalate (writeItems items) ++ "" ++ "]" := by
  simp [write]

theorem write_obj (fields : List (String × Json)) : write (.obj fields) =
    "\x7b" ++ "" ++ ("," ++ " ").intercalate (writeFields fields) ++ "" ++ "\x7d" := by
  simp [write]

/-- JSON5 text on one line. -/
def writer : Writer writeString writeKey where
  write _ := write
  items _ := writeItems
  fields _ := writeFields
  opening _ := ""
  between _ := " "
  closing _ := ""
  blanks := Json.blanks_line
  leaf := write_of_isLeaf
  arr _ j js := write_arr (j :: js)
  obj _ f fields := write_obj (f :: fields)

theorem spelled_write (j : Json) : Spelled writeString writeKey j (write j).toList :=
  writer.spelled 0 j

/-- A proper value is read back exactly if its strings can be. -/
theorem read_iff {text : String}
    (h : reader.ReadsBack (faultsUnless (allStrings readable j)) j text.toList)
    (hproper : isProper j = true) : read text = .ok j ↔ allStrings readable j = true := by
  obtain ⟨⟨c, u, ht, hc⟩, hread⟩ := h hproper
  have hdeep : text.toList.length < Json.depthFor text.toList.length := by
    unfold Json.depthFor
    omega
  have hread := hread [] _ closes_nil hdeep
  rw [List.append_nil] at hread
  have hskip : skip text.toList = text.toList := by
    rw [ht, skip_of_isSolid (by simp [isSolid, hc])]
  unfold read readText
  simp only [hskip, show text.toList.isEmpty = false by rw [ht]; rfl]
  cases hreadable : allStrings readable j with
  | true =>
    rw [hreadable] at hread
    have hread : readValue _ _ = _ := hread
    simp [hread, skip, skipFrom]
  | false =>
    rw [hreadable] at hread
    obtain ⟨e, -, he⟩ := hread
    have he : readValue _ _ = _ := he
    cases e with
    | unpaired => simp [he]
    | fault rest => cases rest <;> simp [he]

/-- **JSON5 text reads back** exactly if no string has a null character before a digit. -/
theorem read_write (hproper : isProper j = true) :
    read (write j) = .ok j ↔ allStrings readable j = true :=
  read_iff (readsBack_of_spelled (spelled_write j)) hproper

end Json5

end ReactWeave
