import ReactWeave.Json.Printer
import ReactWeave.Proofs.Numerals

/-!
# ReactWeave.Proofs.JsonText

**JSON text reads back.** `Spelled` says what a JSON text of a value is, whatever
blanks stand between its tokens; strings and keys may be spelled in more than
one way. The printers write such texts (`spelled_writeIn`), and the reader gives
the value of any of them (`Spelled.readsBack`), except that an integer of too many
digits stops it.
-/

namespace ReactWeave.Json

open Number (Binary64)
open Number.Binary64

/-! ## Values that have a text -/

mutual

/-- Whether doubles are in normal form and no object has a key twice, as in every value that was
read. -/
def isProper : Json → Bool
  | real x => x.isNormal
  | arr items => allProper items
  | obj fields => (fields.map Prod.fst).Nodup && allProperIn fields
  | _ => true

/-- The same of all items of an array. -/
def allProper : List Json → Bool
  | [] => true
  | j :: js => isProper j && allProper js

/-- The same of the values of all fields. -/
def allProperIn : List (String × Json) → Bool
  | [] => true
  | (_, v) :: rest => isProper v && allProperIn rest

end

/-- Whether a value holds no others. -/
def isLeaf : Json → Bool
  | arr (_ :: _) => false
  | obj (_ :: _) => false
  | _ => true

/-! ## Texts of a value -/

/-- Blanks between tokens. -/
def Blanks (s : List Char) : Prop := ∀ c ∈ s, isSpace c = true

section Spelled

variable (spell key : String → String)

/-- The text of a value that holds no others, with strings spelled by `spell`. -/
def leafText : Json → List Char
  | str s => (spell s).toList
  | j => (writeScalar j).toList

mutual

/-- `Spelled spell key j s`: the text `s` spells the value `j`. Blanks may stand behind opening
brackets, commas and colons, and in front of closing brackets. -/
inductive Spelled : Json → List Char → Prop
  | leaf {j : Json} (h : isLeaf j = true) : Spelled j (leafText spell j)
  | arr {items : List Json} {gap body : List Char} (hgap : Blanks gap)
      (hitems : SpelledItems items body) : Spelled (.arr items) ('[' :: (gap ++ body))
  | obj {fields : List (String × Json)} {gap body : List Char} (hgap : Blanks gap)
      (hfields : SpelledFields fields body) : Spelled (.obj fields) ('{' :: (gap ++ body))

/-- The items of an array, and its closing bracket. -/
inductive SpelledItems : List Json → List Char → Prop
  | last {j : Json} {s gap : List Char} (hj : Spelled j s) (hgap : Blanks gap) :
      SpelledItems [j] (s ++ (gap ++ [']']))
  | cons {j : Json} {js : List Json} {s gap body : List Char} (hj : Spelled j s)
      (hgap : Blanks gap) (hjs : SpelledItems js body) :
      SpelledItems (j :: js) (s ++ ',' :: (gap ++ body))

/-- The fields of an object, and its closing bracket. -/
inductive SpelledFields : List (String × Json) → List Char → Prop
  | last {k : String} {v : Json} {s gap : List Char} (hv : Spelled v s) (hgap : Blanks gap) :
      SpelledFields [(k, v)] ((key k).toList ++ ':' :: ' ' :: (s ++ (gap ++ ['}'])))
  | cons {k : String} {v : Json} {rest : List (String × Json)} {s gap body : List Char}
      (hv : Spelled v s) (hgap : Blanks gap) (hrest : SpelledFields rest body) :
      SpelledFields ((k, v) :: rest) ((key k).toList ++ ':' :: ' ' :: (s ++ ',' :: (gap ++ body)))

end

end Spelled

/-! ## What the printers write -/

variable {js : List Json} {texts : List String} {fields : List (String × Json)}
  {spell : String → String} {j v : Json} {n : Nat} {s gap body t : List Char} {c : Char} {α : Type}
  {k : String}

theorem blanks_nil : Blanks [] := by simp [Blanks]

theorem blanks_space : Blanks [' '] := by simp [Blanks, isSpace]

/-- A writer of values at levels of nesting, by its blanks behind opening brackets, behind commas
and in front of closing brackets. -/
structure Writer (spell key : String → String) where
  write : Nat → Json → String
  items : Nat → List Json → List String
  fields : Nat → List (String × Json) → List String
  opening : Nat → String
  between : Nat → String
  closing : Nat → String
  blanks (n : Nat) : Blanks (opening n).toList ∧ Blanks (between n).toList ∧ Blanks (closing n).toList
  leaf {n : Nat} {j : Json} (h : isLeaf j = true) : (write n j).toList = leafText spell j
  arr (n : Nat) (j : Json) (js : List Json) : write n (.arr (j :: js)) = "[" ++ opening n ++
    ("," ++ between n).intercalate (items (n + 1) (j :: js)) ++ closing n ++ "]"
  obj (n : Nat) (f : String × Json) (fs : List (String × Json)) : write n (.obj (f :: fs)) =
    "\x7b" ++ opening n ++ ("," ++ between n).intercalate (fields (n + 1) (f :: fs)) ++ closing n ++
      "\x7d"
  items_nil (n : Nat) : items n [] = [] := by intros; rfl
  items_cons (n : Nat) (j : Json) (js : List Json) :
    items n (j :: js) = write n j :: items n js := by intros; rfl
  fields_nil (n : Nat) : fields n [] = [] := by intros; rfl
  fields_cons (n : Nat) (k : String) (v : Json) (fs : List (String × Json)) :
    fields n ((k, v) :: fs) = (key k ++ ": " ++ write n v) :: fields n fs := by intros; rfl

namespace Writer

variable {key : String → String} (W : Writer spell key)

mutual

/-- **A value is written as a text that spells it.** -/
theorem spelled (n : Nat) (j : Json) : Spelled spell key j (W.write n j).toList := by
  match j with
  | .arr [] | .obj [] | .null | .bool _ | .int _ | .real _ | .str _ =>
    rw [W.leaf rfl]
    exact .leaf rfl
  | .arr (j :: js) =>
    have := Spelled.arr (W.blanks n).1 (spelledItems n (j :: js) (by simp))
    simpa [W.arr] using this
  | .obj (f :: fields) =>
    have := Spelled.obj (W.blanks n).1 (spelledFields n (f :: fields) (by simp))
    simpa [W.obj] using this

theorem spelledItems (n : Nat) (js : List Json) (hne : js ≠ []) :
    SpelledItems spell key js (("," ++ W.between n).intercalate (W.items (n + 1) js) ++
      W.closing n ++ "]").toList := by
  match js with
  | [j] =>
    have := SpelledItems.last (spelled (n + 1) j) (W.blanks n).2.2
    simpa [W.items_cons, W.items_nil] using this
  | j :: j' :: js =>
    have := SpelledItems.cons (spelled (n + 1) j) (W.blanks n).2.1
      (spelledItems n (j' :: js) (by simp))
    simpa [W.items_cons, String.intercalate_cons_cons] using this

theorem spelledFields (n : Nat) (fields : List (String × Json)) (hne : fields ≠ []) :
    SpelledFields spell key fields (("," ++ W.between n).intercalate (W.fields (n + 1) fields) ++
      W.closing n ++ "\x7d").toList := by
  match fields with
  | [(k, v)] =>
    have : SpelledFields spell key [(k, v)] _ := .last (spelled (n + 1) v) (W.blanks n).2.2
    simpa [W.fields_cons, W.fields_nil] using this
  | (k, v) :: (k', v') :: fields =>
    have := SpelledFields.cons (k := k) (spelled (n + 1) v) (W.blanks n).2.1
      (spelledFields n ((k', v') :: fields) (by simp))
    simpa [W.fields_cons, String.intercalate_cons_cons] using this

end

end Writer

theorem blanks_line (_ : Nat) : Blanks "".toList ∧ Blanks " ".toList ∧ Blanks "".toList :=
  ⟨blanks_nil, blanks_space, blanks_nil⟩

theorem hexDigit?_digitChar {d : Nat} (h : d < 16) : hexDigit? d.digitChar = some d := by
  have : ∀ d < 16, hexDigit? (Nat.digitChar d) = some d := by decide
  exact this d h

/-- The four hexadecimal digits of a code unit. -/
theorem hexDigits_four (h : n < 0x10000) :
    Text.hexDigits 4 n = [(n / 4096).digitChar, (n / 256 % 16).digitChar,
      (n / 16 % 16).digitChar, (n % 16).digitChar] := by
  have hzero : Nat.digitChar 0 = '0' := rfl
  have h16 (k : Nat) (hk : 16 ≤ k) :
      Nat.toDigits 16 k = Nat.toDigits 16 (k / 16) ++ [(k % 16).digitChar] :=
    Nat.toDigits_of_base_le (by decide) hk
  have h1 (k : Nat) (hk : k < 16) : Nat.toDigits 16 k = [k.digitChar] := Nat.toDigits_of_lt_base hk
  unfold Text.hexDigits
  rcases Nat.lt_or_ge n 16 with h₁ | h₁
  · rw [h1 n h₁, show n / 4096 = 0 by omega, show n / 256 % 16 = 0 by omega,
      show n / 16 % 16 = 0 by omega, show n % 16 = n by omega, hzero]
    rfl
  rcases Nat.lt_or_ge n 256 with h₂ | h₂
  · rw [h16 n h₁, h1 (n / 16) (by omega), show n / 4096 = 0 by omega,
      show n / 256 % 16 = 0 by omega, show n / 16 % 16 = n / 16 by omega, hzero]
    rfl
  rcases Nat.lt_or_ge n 4096 with h₃ | h₃
  · rw [h16 n h₁, h16 (n / 16) (by omega), h1 (n / 16 / 16) (by omega),
      show n / 4096 = 0 by omega, show n / 256 % 16 = n / 16 / 16 by omega, hzero]
    rfl
  · rw [h16 n h₁, h16 (n / 16) (by omega), h16 (n / 16 / 16) (by omega),
      h1 (n / 16 / 16 / 16) (by omega), show n / 4096 = n / 16 / 16 / 16 by omega,
      show n / 256 % 16 = n / 16 / 16 % 16 by omega]
    rfl

theorem length_hexDigits_four (h : n < 0x10000) : (Text.hexDigits 4 n).length = 4 := by
  rw [hexDigits_four h]; rfl

theorem hexFour?_hexDigits (h : n < 0x10000) (s : List Char) :
    hexFour? (Text.hexDigits 4 n ++ s) = some n := by
  rw [hexDigits_four h]
  simp only [List.cons_append, hexFour?, hexDigit?_digitChar (show n / 4096 < 16 by omega),
    hexDigit?_digitChar (show n / 256 % 16 < 16 by omega),
    hexDigit?_digitChar (show n / 16 % 16 < 16 by omega),
    hexDigit?_digitChar (show n % 16 < 16 by omega), Option.bind_eq_bind, Option.bind_some,
    Option.pure_def, Option.some.injEq]
  omega

theorem readString_skip (opening acc used s : List Char) :
    readString opening acc used.length (used ++ s) = readString opening acc 0 s := by
  induction used with
  | nil => rfl
  | cons c used ih =>
    rw [List.length_cons, List.cons_append, readString, ih]

theorem readString_letter {opening acc : List Char} {letter d : Char} (hu : letter ≠ 'u')
    (hd : escaped? letter = some d) (s : List Char) :
    readString opening acc 0 ('\\' :: letter :: s) = readString opening (d :: acc) 0 s := by
  rw [readString]
  · rw [hd]
    exact readString_skip opening (d :: acc) [letter] s
  · exact hu

/-- An escape of a code unit that is no half of a pair is read as its character. -/
theorem readString_unit {opening acc : List Char} (hs : s ≠ []) (hn : n < 0xD800) :
    readString opening acc 0 ('\\' :: 'u' :: (Text.hexDigits 4 n ++ s)) =
      readString opening (Char.ofNat n :: acc) 0 s := by
  have hlength : ¬(Text.hexDigits 4 n ++ s).length ≤ 4 := by
    have := List.length_pos_of_ne_nil hs
    rw [List.length_append, length_hexDigits_four (by omega)]
    omega
  have hwhole : isSurrogate n = false := by
    simp [isSurrogate]
    omega
  rw [readString]
  simp only [Char.reduceBEq, Bool.false_eq_true, if_false, beq_self_eq_true, if_true]
  rw [if_neg hlength, hexFour?_hexDigits (by omega)]
  simp only
  rw [if_neg (by simp; omega), hwhole, if_neg Bool.false_ne_true]
  have hskip := readString_skip opening (Char.ofNat n :: acc) ('u' :: Text.hexDigits 4 n) s
  rwa [List.length_cons, length_hexDigits_four (by omega)] at hskip

/-- A character is escaped by a letter, by its number, or not at all. -/
theorem escapeChar_cases (c : Char) :
    (∃ letter, letter ≠ 'u' ∧ escaped? letter = some c ∧ escapeChar c = ['\\', letter]) ∨
      (c.toNat < 32 ∧ escapeChar c = '\\' :: 'u' :: Text.hexDigits 4 c.toNat) ∨
      (c ≠ '\x22' ∧ c ≠ '\\' ∧ 32 ≤ c.toNat ∧ escapeChar c = [c]) := by
  have hofNat : c = Char.ofNat c.toNat := (Char.ofNat_toNat c).symm
  unfold escapeChar
  by_cases hquote : c = '\x22'
  · exact .inl ⟨'\x22', by decide, by rw [hquote]; rfl, by simp [hquote]⟩
  by_cases hback : c = '\\'
  · exact .inl ⟨'\\', by decide, by rw [hback]; rfl, by simp [hback]⟩
  by_cases hn : c = '\n'
  · exact .inl ⟨'n', by decide, by rw [hn]; rfl, by simp [hn]⟩
  by_cases hr : c = '\r'
  · exact .inl ⟨'r', by decide, by rw [hr]; rfl, by simp [hr]⟩
  by_cases ht : c = '\t'
  · exact .inl ⟨'t', by decide, by rw [ht]; rfl, by simp [ht]⟩
  by_cases hb : c.toNat = 8
  · exact .inl ⟨'b', by decide, by rw [hofNat, hb]; rfl, by simp [hquote, hback, hn, hr, ht, hb]⟩
  by_cases hf : c.toNat = 12
  · exact .inl ⟨'f', by decide, by rw [hofNat, hf]; rfl, by simp [hquote, hback, hn, hr, ht, hf]⟩
  by_cases hlow : c.toNat < 32
  · exact .inr (.inl ⟨hlow, by simp [hquote, hback, hn, hr, ht, hb, hf, hlow]⟩)
  · exact .inr (.inr ⟨hquote, hback, by omega, by simp [hquote, hback, hn, hr, ht, hb, hf, hlow]⟩)

theorem readString_escapeChar (opening acc : List Char) (c : Char) (hs : s ≠ []) :
    readString opening acc 0 (escapeChar c ++ s) = readString opening (c :: acc) 0 s := by
  rcases escapeChar_cases c with ⟨letter, hu, hd, h⟩ | ⟨hlow, h⟩ | ⟨hquote, hback, hlow, h⟩
  · rw [h]
    exact readString_letter hu hd s
  · rw [h, List.cons_append, List.cons_append, readString_unit hs (by omega), Char.ofNat_toNat]
  · rw [h, List.singleton_append, readString.eq_def]
    simp [hquote, hback, Nat.not_lt.2 hlow]

theorem readString_flatMap (opening rest cs : List Char) (acc : List Char) :
    readString opening acc 0 (cs.flatMap escapeChar ++ '\x22' :: rest) =
      .ok (String.ofList (acc.reverse ++ cs), rest) := by
  induction cs generalizing acc with
  | nil => simp [readString]
  | cons c cs ih =>
    rw [List.flatMap_cons, List.append_assoc, readString_escapeChar _ _ _ (by simp), ih]
    simp

/-- **A string reads back.** -/
theorem readString_writeString (s : String) (rest : List Char) :
    ∃ body, (writeString s).toList = '\x22' :: body ∧
      ∀ opening, readString opening [] 0 (body ++ rest) = .ok (s, rest) := by
  refine ⟨s.toList.flatMap escapeChar ++ ['\x22'], by simp [writeString], fun opening => ?_⟩
  have := readString_flatMap opening rest s.toList []
  simpa using this

/-! ## Reading numbers -/

/-- What may stand behind a value. -/
def Closes (s : List Char) : Prop := ∀ c ∈ s.head?, c = ',' ∨ c = ']' ∨ c = '}' ∨ isSpace c = true

theorem closes_nil : Closes [] := by simp [Closes]

theorem closes_cons (h : c = ',' ∨ c = ']' ∨ c = '}' ∨ isSpace c = true) : Closes (c :: s) := by
  intro d hd
  obtain rfl : c = d := by simpa using hd
  exact h

/-- What may stand behind a value: nothing, a comma, a bracket that closes, or a blank. -/
theorem Closes.cases {s : List Char} (h : Closes s) :
    s = [] ∨ ∃ c t, s = c :: t ∧
      (c = ',' ∨ c = ']' ∨ c = '}' ∨ c = ' ' ∨ c = '\t' ∨ c = '\n' ∨ c = '\r') := by
  cases s with
  | nil => exact .inl rfl
  | cons c t =>
    have := h c rfl
    simp only [isSpace, Bool.or_eq_true, beq_iff_eq, or_assoc] at this
    exact .inr ⟨c, t, rfl, this⟩

/-- No digit, point or exponent follows. -/
def EndsNumber (s : List Char) : Prop :=
  ∀ c ∈ s.head?, c.isDigit = false ∧ c ≠ '.' ∧ c ≠ 'e' ∧ c ≠ 'E'

theorem Closes.endsNumber (h : Closes s) : EndsNumber s := by
  rcases h.cases with rfl | ⟨c, t, rfl, hc⟩
  · simp [EndsNumber]
  · intro d hd
    obtain rfl : c = d := by simpa using hd
    rcases hc with rfl | rfl | rfl | rfl | rfl | rfl | rfl <;> decide

theorem ne_of_isDigit {d : Char} (h : c.isDigit = true) (hd : d.isDigit = false) : c ≠ d := by
  rintro rfl
  simp [hd] at h

/-- The digits of a text are those in front of the first other character. -/
theorem takeWhile_isDigit {ds : List Char} (hds : ∀ c ∈ ds, c.isDigit = true)
    (hs : ∀ c ∈ s.head?, c.isDigit = false) : (ds ++ s).takeWhile Char.isDigit = ds := by
  rw [List.takeWhile_append_of_pos hds]
  cases s with
  | nil => simp
  | cons c s => simp [hs c rfl]

namespace Numeral

variable (n : Numeral)

theorem exponentText_eq :
    n.exponentText = [] ∧ n.exponent = none ∨
      ∃ negative ds, n.exponent = some (negative, ds) ∧
        n.exponentText = 'e' :: (if negative then '-' else '+') :: ds := by
  unfold exponentText
  rcases hx : n.exponent with _ | ⟨negative, ds⟩
  · exact .inl ⟨rfl, rfl⟩
  · exact .inr ⟨negative, ds, rfl, rfl⟩

theorem head?_exponentText (hs : EndsNumber s) :
    ∀ c ∈ (n.exponentText ++ s).head?, c.isDigit = false ∧ c ≠ '.' := by
  rcases n.exponentText_eq with ⟨h, -⟩ | ⟨negative, ds, -, h⟩
  · rw [h]
    exact fun c hc => ⟨(hs c hc).1, (hs c hc).2.1⟩
  · rw [h]
    simp [Char.isDigit]

theorem head?_fractionText (hs : EndsNumber s) :
    ∀ c ∈ (n.fractionText ++ (n.exponentText ++ s)).head?, c.isDigit = false := by
  unfold fractionText
  split
  · exact fun c hc => (n.head?_exponentText hs c hc).1
  · simp [Char.isDigit]

theorem exists_cons (s : List Char) : ∃ c t, n.text ++ s = c :: t ∧ c.isDigit = true := by
  obtain ⟨c, t, ht⟩ := List.exists_cons_of_ne_nil n.whole_ne_nil
  refine ⟨c, t ++ n.fractionText ++ n.exponentText ++ s, ?_, n.isDigit_whole c (by simp [ht])⟩
  simp [text, ht]

/-- The number that a numeral spells: an integer if it is plain, and else the double nearest to
it. -/
def json (negative : Bool) : Json :=
  if n.isWhole then .int (if negative then -(n.value : Int) else n.value)
  else .real (ofDecimal negative n.value n.scale)

theorem text_append (s : List Char) :
    n.text ++ s = n.whole ++ (n.fractionText ++ (n.exponentText ++ s)) := by
  simp [text]

end Numeral

theorem integerDigits_numeral (n : Numeral) (hs : ∀ c ∈ s.head?, c.isDigit = false) :
    integerDigits (n.whole ++ s) = n.whole := by
  obtain ⟨c, t, ht⟩ := List.exists_cons_of_ne_nil n.whole_ne_nil
  by_cases hc : c = '0'
  · have : n.whole = ['0'] := n.leading (by simp [ht, hc])
    rw [this]
    rfl
  · have : integerDigits (n.whole ++ s) = (n.whole ++ s).takeWhile Char.isDigit := by
      rw [ht, List.cons_append, integerDigits]
      simpa using hc
    rw [this, takeWhile_isDigit n.isDigit_whole hs]

theorem fractionDigits_numeral (n : Numeral) (hs : EndsNumber s) :
    fractionDigits (n.fractionText ++ (n.exponentText ++ s)) = n.fraction := by
  have hhead := n.head?_exponentText hs
  unfold Numeral.fractionText
  split
  · rename_i hempty
    rw [List.isEmpty_iff.1 hempty, List.nil_append]
    cases h : n.exponentText ++ s with
    | nil => rfl
    | cons c t =>
      have := (hhead c (by simp [h])).2
      rw [fractionDigits]
      simpa using this
  · exact takeWhile_isDigit n.isDigit_fraction fun c hc => (hhead c hc).1

theorem exponentDigits_numeral (n : Numeral) (hs : EndsNumber s) :
    exponentDigits (n.exponentText ++ s) =
      n.exponent.map fun x => (x.1, x.2, x.2.length + 2) := by
  rcases n.exponentText_eq with ⟨htext, hx⟩ | ⟨negative, ds, hx, htext⟩
  · rw [htext, hx, List.nil_append]
    cases s with
    | nil => rfl
    | cons c s =>
      have := hs c rfl
      simp [exponentDigits, this.2.2.1, this.2.2.2]
  · obtain ⟨hne, hdigits⟩ := n.exponent_digits (negative, ds) (by simp [hx])
    have htake := takeWhile_isDigit hdigits fun c hc => (hs c hc).1
    cases negative <;> simp_all [exponentDigits]

/-- **A numeral is read whole**, unless it is an integer of too many digits. -/
theorem readNumber_numeral (negative : Bool) (n : Numeral) (hs : EndsNumber s) :
    readNumber (signText negative ++ (n.text ++ s)) =
      if n.isWhole && maxDigits < n.whole.length then .error (.tooManyDigits n.whole.length)
      else .ok (n.json negative, s) := by
  have hwhole := integerDigits_numeral n (n.head?_fractionText hs)
  have hfraction := fractionDigits_numeral n hs
  have hexponent := exponentDigits_numeral n hs
  have hempty : n.whole.isEmpty = false := by simp [n.whole_ne_nil]
  have hbehind : (if n.fraction.isEmpty = true then n.fractionText ++ (n.exponentText ++ s)
      else (n.fractionText ++ (n.exponentText ++ s)).drop (n.fraction.length + 1)) =
        n.exponentText ++ s := by
    unfold Numeral.fractionText
    split <;> simp
  unfold readNumber
  rw [Numeral.text_append]
  split
  rename_i neg body hmatch
  obtain ⟨rfl, rfl⟩ : neg = negative ∧
      body = n.whole ++ (n.fractionText ++ (n.exponentText ++ s)) := by
    cases negative with
    | true => simpa [signText, eq_comm] using hmatch
    | false =>
      obtain ⟨c, t, hc, hdigit⟩ := n.exists_cons s
      rw [Numeral.text_append] at hc
      have hminus : c ≠ '-' := ne_of_isDigit hdigit rfl
      rw [hc] at hmatch ⊢
      simpa [signText, hminus, eq_comm] using hmatch
  simp only [hwhole, hempty, List.drop_left, hfraction, hbehind, hexponent]
  rcases n.exponentText_eq with ⟨htext, hx⟩ | ⟨down, es, hx, htext⟩
  · rw [hx, htext]
    cases hf : n.fraction with
    | nil => simp [Numeral.json, Numeral.isWhole, Numeral.value, hx, hf]
    | cons c cs =>
      simp [Numeral.json, Numeral.isWhole, Numeral.value, Numeral.scale, Numeral.exponentValue, hx,
        hf]
  · rw [hx, htext]
    simp [Numeral.json, Numeral.isWhole, Numeral.value, Numeral.scale, Numeral.exponentValue, hx]

/-! ## Where values start -/

/-- Whether a number is spelled by a numeral. -/
def isNumeral : Json → Bool
  | int _ => true
  | real (.finite _ _ _) => true
  | _ => false

/-- Every number is written as a sign and a numeral that has its value. -/
theorem exists_numeral (h : isNumeral j = true) (hproper : isProper j = true) :
    ∃ (negative : Bool) (n : Numeral), (∀ spell, leafText spell j = signText negative ++ n.text) ∧
      n.json negative = j ∧ overlong? j =
        if n.isWhole && maxDigits < n.whole.length then some n.whole.length else none := by
  match j with
  | .int i =>
    refine ⟨i < 0, .ofNat i.natAbs, fun _ => toList_toString_int i, ?_, ?_⟩
    · rw [Numeral.json, if_pos (show (Numeral.ofNat i.natAbs).isWhole = true from rfl), Json.int.injEq]
      simp only [Numeral.value, Numeral.ofNat, List.append_nil, digitsValue_toDigits,
        decide_eq_true_eq]
      omega
    · rw [show (Numeral.ofNat i.natAbs).isWhole = true from rfl, Bool.true_and]
      simp only [decide_eq_true_eq]
      rfl
  | .real (.finite negative m e) =>
    obtain ⟨n, htext, hplain, hread⟩ := exists_numeral_of_finite
      (show isNormal (.finite negative m e) = true from hproper)
    refine ⟨negative, n, fun _ => ?_, by simp [Numeral.json, hplain, hread], by simp [hplain]; rfl⟩
    rw [show leafText _ (.real (.finite negative m e)) =
      (String.ofList (writeFinite negative m e)).toList from rfl, String.toList_ofList, htext]

/-- The characters that the text of a value starts with. -/
def startsValue (c : Char) : Bool :=
  c.isDigit || ['\x22', '[', '{', '-', 'n', 't', 'f', 'N', 'I'].contains c

theorem ne_of_startsValue {d : Char} (h : startsValue c = true) (hd : startsValue d = false) :
    c ≠ d := by
  rintro rfl
  rw [h] at hd
  cases hd

/-- A text starts like that of a value. -/
def StartsValue (s : List Char) : Prop := ∃ c t, s = c :: t ∧ startsValue c = true

/-- The text of a leaf starts with a character that no blank and no comment starts with. -/
theorem startsValue_leafText (hspell : ∀ s, ∃ t, (spell s).toList = '\x22' :: t)
    (hleaf : isLeaf j = true) (hproper : isProper j = true) : StartsValue (leafText spell j) := by
  match j with
  | .null | .bool true | .bool false | .arr [] | .obj [] | .real .nan | .real (.infinite true)
  | .real (.infinite false) => exact ⟨_, _, rfl, rfl⟩
  | .str s =>
    obtain ⟨t, ht⟩ := hspell s
    exact ⟨_, _, ht, rfl⟩
  | .int _ | .real (.finite _ _ _) =>
    obtain ⟨negative, n, htext, -⟩ := exists_numeral rfl hproper
    obtain ⟨c, t, hc, hdigit⟩ := n.exists_cons []
    rw [htext, ← n.text.append_nil, hc]
    cases negative with
    | true => exact ⟨'-', c :: t, rfl, rfl⟩
    | false => exact ⟨c, t, rfl, by simp [startsValue, hdigit]⟩

/-- Whether a character stands for itself between blanks. -/
def isSolid (c : Char) : Bool := startsValue c || [',', ':', ']', '}'].contains c

theorem isSolid_range (h : isSolid c = true) : 33 < c.toNat ∧ c.toNat < 128 ∧ c ≠ '/' := by
  rw [isSolid, startsValue, Bool.or_assoc, Bool.or_eq_true] at h
  rcases h with h | h
  · obtain ⟨h₁, h₂⟩ : 48 ≤ c.toNat ∧ c.toNat ≤ 57 := Char.isDigit_iff_toNat.1 h
    refine ⟨by omega, by omega, ne_of_isDigit h rfl⟩
  · simp only [List.contains_iff_mem, Bool.or_eq_true] at h
    have : ∀ c ∈ ['\x22', '[', '{', '-', 'n', 't', 'f', 'N', 'I'] ++ [',', ':', ']', '}'],
        33 < c.toNat ∧ c.toNat < 128 ∧ c ≠ '/' := by decide
    exact this c (List.mem_append.2 h)

/-! ## Readers -/

theorem put_of_nodup {rest : List (String × Json)}
    (h : ((fields ++ (k, v) :: rest).map Prod.fst).Nodup) :
    put k v fields = fields ++ [(k, v)] := by
  induction fields with
  | nil => rfl
  | cons f fields ih =>
    obtain ⟨k', v'⟩ := f
    rw [List.cons_append, List.map_cons, List.nodup_cons] at h
    have hne : k' ≠ k := by
      rintro rfl
      exact h.1 (by simp)
    rw [put, if_neg hne, ih h.2]
    rfl

theorem closes_blanks (hgap : Blanks gap) (hs : Closes s) : Closes (gap ++ s) := by
  cases gap with
  | nil => exact hs
  | cons c gap => exact closes_cons (.inr (.inr (.inr (hgap c (by simp)))))

/-- A reader of values with blanks between tokens, by what it does with brackets, commas and
colons. -/
structure Reader (ε : Type) where
  skip : List Char → List Char
  key : List Char → Except ε (String × List Char)
  value : Nat → List Char → Except ε (Json × List Char)
  items : Nat → List Char → Except ε (List Json × List Char)
  fields : Nat → List (String × Json) → List Char → Except ε (List (String × Json) × List Char)
  skip_blanks {gap s : List Char} (h : Blanks gap) : skip (gap ++ s) = skip s
  skip_cons {c : Char} {s : List Char} (h : isSolid c = true) : skip (c :: s) = c :: s
  value_arr {n : Nat} {s : List Char} (h : ∀ r, skip s ≠ ']' :: r) :
    value (n + 1) ('[' :: s) = (items n (skip s)).map fun x => (.arr x.1, x.2)
  value_obj {n : Nat} {s : List Char} (h : ∀ r, skip s ≠ '}' :: r) :
    value (n + 1) ('{' :: s) = (fields n [] (skip s)).map fun x => (.obj x.1, x.2)
  items_error {n : Nat} {s : List Char} {e : ε} (h : value n s = .error e) :
    items (n + 1) s = .error e
  items_last {n : Nat} {s t u : List Char} {j : Json} (h : value n s = .ok (j, t))
    (hclose : skip t = ']' :: u) : items (n + 1) s = .ok ([j], u)
  items_cons {n : Nat} {s t u : List Char} {j : Json} (h : value n s = .ok (j, t))
    (hcomma : skip t = ',' :: u) (hmore : ∀ r, skip u ≠ ']' :: r) :
    items (n + 1) s = (items n (skip u)).map fun x => (j :: x.1, x.2)
  key_error {n : Nat} {s : List Char} {done : List (String × Json)} {e : ε}
    (h : key s = .error e) : fields (n + 1) done s = .error e
  fields_error {n : Nat} {s t : List Char} {done : List (String × Json)} {k : String} {e : ε}
    (hkey : key s = .ok (k, ':' :: t)) (hcolon : skip (':' :: t) = ':' :: t)
    (h : value n (skip t) = .error e) : fields (n + 1) done s = .error e
  fields_last {n : Nat} {s t u w : List Char} {done : List (String × Json)} {k : String} {v : Json}
    (hkey : key s = .ok (k, ':' :: t)) (hcolon : skip (':' :: t) = ':' :: t)
    (h : value n (skip t) = .ok (v, u)) (hclose : skip u = '}' :: w) :
    fields (n + 1) done s = .ok (put k v done, w)
  fields_cons {n : Nat} {s t u w : List Char} {done : List (String × Json)} {k : String} {v : Json}
    (hkey : key s = .ok (k, ':' :: t)) (hcolon : skip (':' :: t) = ':' :: t)
    (h : value n (skip t) = .ok (v, u)) (hcomma : skip u = ',' :: w)
    (hmore : ∀ r, skip w ≠ '}' :: r) : fields (n + 1) done s = fields n (put k v done) (skip w)

section Readers

variable {ε β : Type} {stops more keyStops : Option (ε → Prop)} {a : α} {b : β}
  {r : Except ε (α × List Char)}

/-- What a reader gives for what was written, in front of `s`: it, or a fault if `stops` says which
faults there are. -/
def Answers (stops : Option (ε → Prop)) (a : α) (s : List Char) (r : Except ε (α × List Char)) :
    Prop :=
  match stops with
  | none => r = .ok (a, s)
  | some faults => ∃ e, faults e ∧ r = .error e

theorem Answers.map (h : Answers stops a s r) (f : α → β) :
    Answers stops (f a) s (r.map fun x => (f x.1, x.2)) := by
  cases stops with
  | none =>
    rw [show r = .ok (a, s) from h]
    rfl
  | some faults =>
    obtain ⟨e, he, rfl⟩ := h
    exact ⟨e, he, rfl⟩

/-- Two readings one after the other; the second one counts only if the first one went through. -/
theorem Answers.andThen {result : Except ε (β × List Char)} (h : Answers stops a s r)
    (hok : r = .ok (a, s) → Answers more b t result)
    (herror : ∀ e, r = .error e → result = .error e) : Answers (stops.or more) b t result := by
  cases stops with
  | none => exact hok h
  | some faults =>
    obtain ⟨e, he, hr⟩ := h
    exact ⟨e, he, herror e hr⟩

namespace Reader

variable (R : Reader ε)

/-- A text starts with no blank and no closing bracket. -/
def Starts (t : List Char) : Prop :=
  ∀ s, R.skip (t ++ s) = t ++ s ∧ ∀ r, t ++ s ≠ ']' :: r ∧ t ++ s ≠ '}' :: r

/-- The text `t` is read as a key. -/
structure SpellsKey (stops : Option (ε → Prop)) (k : String) (t : List Char) : Prop where
  starts : R.Starts t
  read (s : List Char) : Answers stops k (':' :: s) (R.key (t ++ ':' :: s))

/-- Behind the text `t` of a value, the reader gives the value. -/
def ReadsBack (stops : Option (ε → Prop)) (j : Json) (t : List Char) : Prop :=
  isProper j = true → StartsValue t ∧
    ∀ s n, Closes s → t.length < n → Answers stops j s (R.value n (t ++ s))

/-- Behind the text `t` of items and a closing bracket, the reader gives the items. -/
def ItemsReadBack (stops : Option (ε → Prop)) (js : List Json) (t : List Char) : Prop :=
  allProper js = true → R.Starts t ∧
    ∀ s n, t.length < n → Answers stops js s (R.items n (t ++ s))

/-- Behind the text `t` of fields and a closing bracket, the reader adds the fields to those it
has. -/
def FieldsReadBack (stops : Option (ε → Prop)) (fields : List (String × Json)) (t : List Char) :
    Prop :=
  allProperIn fields = true → R.Starts t ∧
    ∀ done s n, ((done ++ fields).map Prod.fst).Nodup → t.length < n →
      Answers stops (done ++ fields) s (R.fields n done (t ++ s))

variable {R}

theorem Starts.append (h : R.Starts t) (u : List Char) : R.Starts (t ++ u) := by
  intro s
  rw [List.append_assoc]
  exact h (u ++ s)

theorem starts_cons (h : startsValue c = true) (t : List Char) : R.Starts (c :: t) := by
  intro s
  have hsolid : isSolid c = true := by simp [isSolid, h]
  refine ⟨R.skip_cons hsolid, fun r => ⟨?_, ?_⟩⟩ <;> rw [List.cons_append] <;> intro heq
  · exact ne_of_startsValue h rfl (List.cons.inj heq).1
  · exact ne_of_startsValue h rfl (List.cons.inj heq).1

theorem starts_of_startsValue (h : StartsValue t) : R.Starts t := by
  obtain ⟨c, t, rfl, hc⟩ := h
  exact starts_cons hc t

/-- Blanks in front of a value are skipped, and the value is not. -/
theorem Starts.skip_gap (h : R.Starts t) (hgap : Blanks gap) (s : List Char) :
    R.skip (gap ++ (t ++ s)) = t ++ s := by
  rw [R.skip_blanks hgap, (h s).1]

theorem readsBack_arr {items : List Json} (hgap : Blanks gap)
    (h : R.ItemsReadBack stops items body) : R.ReadsBack stops (.arr items) ('[' :: (gap ++ body)) := by
  intro hproper
  refine ⟨⟨'[', _, rfl, rfl⟩, fun s n hs hn => ?_⟩
  obtain ⟨n, rfl⟩ : ∃ d, n = d + 1 := ⟨n - 1, by omega⟩
  obtain ⟨hstarts, hread⟩ := h hproper
  have hread := (hread s n (by simp at hn ⊢; omega)).map Json.arr
  have hskip := hstarts.skip_gap hgap s
  rw [List.cons_append, List.append_assoc, R.value_arr, hskip]
  · exact hread
  · rw [hskip]
    exact fun r => ((hstarts s).2 r).1

theorem readsBack_obj (hgap : Blanks gap) (h : R.FieldsReadBack stops fields body) :
    R.ReadsBack stops (.obj fields) ('{' :: (gap ++ body)) := by
  intro hproper
  rw [isProper, Bool.and_eq_true, decide_eq_true_eq] at hproper
  refine ⟨⟨'{', _, rfl, rfl⟩, fun s n hs hn => ?_⟩
  obtain ⟨n, rfl⟩ : ∃ d, n = d + 1 := ⟨n - 1, by omega⟩
  obtain ⟨hstarts, hread⟩ := h hproper.2
  have hread := (hread [] s n hproper.1 (by simp at hn ⊢; omega)).map Json.obj
  have hskip := hstarts.skip_gap hgap s
  rw [List.cons_append, List.append_assoc, R.value_obj, hskip]
  · exact hread
  · rw [hskip]
    exact fun r => ((hstarts s).2 r).2

theorem itemsReadBack_last (hj : R.ReadsBack stops j t) (hgap : Blanks gap) :
    R.ItemsReadBack stops [j] (t ++ (gap ++ [']'])) := by
  intro hproper
  rw [allProper, allProper, Bool.and_true] at hproper
  obtain ⟨hstarts, hread⟩ := hj hproper
  refine ⟨(starts_of_startsValue hstarts).append _, fun s n hn => ?_⟩
  obtain ⟨n, rfl⟩ : ∃ d, n = d + 1 := ⟨n - 1, by omega⟩
  have hread := hread (gap ++ (']' :: s)) n (closes_blanks hgap (closes_cons (by simp)))
    (by simp at hn ⊢; omega)
  rw [show t ++ (gap ++ [']']) ++ s = t ++ (gap ++ (']' :: s)) by simp, ← stops.or_none]
  refine hread.andThen (fun h => ?_) fun e => R.items_error
  exact R.items_last h (by rw [R.skip_blanks hgap, R.skip_cons rfl])

/-- Items are read back one by one. -/
theorem itemsReadBack_cons (hj : R.ReadsBack stops j t) (hgap : Blanks gap)
    (hjs : R.ItemsReadBack more js body) :
    R.ItemsReadBack (stops.or more) (j :: js) (t ++ ',' :: (gap ++ body)) := by
  intro hproper
  rw [allProper, Bool.and_eq_true] at hproper
  obtain ⟨hstarts, hread⟩ := hj hproper.1
  obtain ⟨hstarts', hrest⟩ := hjs hproper.2
  refine ⟨(starts_of_startsValue hstarts).append _, fun s n hn => ?_⟩
  obtain ⟨n, rfl⟩ : ∃ d, n = d + 1 := ⟨n - 1, by omega⟩
  have hread := hread (',' :: (gap ++ (body ++ s))) n (closes_cons (by simp))
    (by simp at hn ⊢; omega)
  have hrest := (hrest s n (by simp at hn ⊢; omega)).map (j :: ·)
  have hskip := hstarts'.skip_gap hgap s
  rw [show t ++ ',' :: (gap ++ body) ++ s = t ++ ',' :: (gap ++ (body ++ s)) by simp]
  refine hread.andThen (fun h => ?_) fun e => R.items_error
  rwa [R.items_cons h (R.skip_cons rfl), hskip]
  rw [hskip]
  exact fun r => ((hstarts' s).2 r).1

/-- A key, a colon and a value are read as a field. -/
theorem fields_field {key : List Char} {done result : List (String × Json)}
    (hk : R.SpellsKey keyStops k key) (hv : StartsValue t)
    (hread : Answers stops v s (R.value n (t ++ s)))
    (hend : R.value n (R.skip (' ' :: (t ++ s))) = .ok (v, s) →
      ∀ {w}, R.key w = .ok (k, ':' :: ' ' :: (t ++ s)) →
        Answers more result body (R.fields (n + 1) done w)) :
    Answers ((keyStops.or stops).or more) result body
      (R.fields (n + 1) done (key ++ ':' :: ' ' :: (t ++ s))) := by
  have hskip : R.skip (' ' :: (t ++ s)) = t ++ s := by
    rw [← List.singleton_append, (starts_of_startsValue hv).skip_gap blanks_space s]
  rw [Option.or_assoc]
  refine (hk.read _).andThen (fun hkey => ?_) fun e => R.key_error
  refine hread.andThen (fun h => hend (by rw [hskip, h]) hkey) fun e h => ?_
  exact R.fields_error hkey (R.skip_cons rfl) (by rw [hskip, h])

theorem fieldsReadBack_last {key : List Char} (hk : R.SpellsKey keyStops k key)
    (hv : R.ReadsBack stops v t) (hgap : Blanks gap) :
    R.FieldsReadBack (keyStops.or stops) [(k, v)] (key ++ ':' :: ' ' :: (t ++ (gap ++ ['}']))) := by
  intro hproper
  rw [allProperIn, allProperIn, Bool.and_true] at hproper
  obtain ⟨hstarts, hread⟩ := hv hproper
  refine ⟨hk.starts.append _, fun done s n hkeys hn => ?_⟩
  obtain ⟨n, rfl⟩ : ∃ d, n = d + 1 := ⟨n - 1, by omega⟩
  have hread := hread (gap ++ ('}' :: s)) n (closes_blanks hgap (closes_cons (by simp)))
    (by simp at hn ⊢; omega)
  rw [show key ++ ':' :: ' ' :: (t ++ (gap ++ ['}'])) ++ s =
    key ++ ':' :: ' ' :: (t ++ (gap ++ ('}' :: s))) by simp, ← (keyStops.or stops).or_none,
    ← put_of_nodup hkeys]
  refine fields_field hk hstarts hread fun h w hkey => ?_
  exact R.fields_last hkey (R.skip_cons rfl) h (by rw [R.skip_blanks hgap, R.skip_cons rfl])

/-- Fields are read back one by one. -/
theorem fieldsReadBack_cons {rest : List (String × Json)} {key : List Char}
    (hk : R.SpellsKey keyStops k key) (hv : R.ReadsBack stops v t) (hgap : Blanks gap)
    (hrest : R.FieldsReadBack more rest body) :
    R.FieldsReadBack ((keyStops.or stops).or more) ((k, v) :: rest)
      (key ++ ':' :: ' ' :: (t ++ ',' :: (gap ++ body))) := by
  intro hproper
  rw [allProperIn, Bool.and_eq_true] at hproper
  obtain ⟨hstarts, hread⟩ := hv hproper.1
  obtain ⟨hstarts', hrest⟩ := hrest hproper.2
  refine ⟨hk.starts.append _, fun done s n hkeys hn => ?_⟩
  obtain ⟨n, rfl⟩ : ∃ d, n = d + 1 := ⟨n - 1, by omega⟩
  have hread := hread (',' :: (gap ++ (body ++ s))) n (closes_cons (by simp))
    (by simp at hn ⊢; omega)
  have hrest := hrest (done ++ [(k, v)]) s n (by simpa using hkeys) (by simp at hn ⊢; omega)
  have hskip := hstarts'.skip_gap hgap s
  rw [show key ++ ':' :: ' ' :: (t ++ ',' :: (gap ++ body)) ++ s =
    key ++ ':' :: ' ' :: (t ++ ',' :: (gap ++ (body ++ s))) by simp]
  refine fields_field hk hstarts hread fun h w hkey => ?_
  rw [R.fields_cons hkey (R.skip_cons rfl) h (R.skip_cons rfl), hskip, put_of_nodup hkeys]
  · rwa [List.append_assoc] at hrest
  · rw [hskip]
    exact fun r => ((hstarts' s).2 r).2

end Reader

end Readers

/-! ## Reading values -/

theorem find?_valueWords_signText (negative : Bool) (n : Numeral) (s : List Char) :
    (valueWords.find? fun w => Text.startsWith w.1 (signText negative ++ (n.text ++ s))) = none := by
  obtain ⟨c, t, h, hdigit⟩ := n.exists_cons s
  have hne (d : Char) (hd : d.isDigit = false) : (d == c) = false :=
    beq_eq_false_iff_ne.2 (ne_of_isDigit hdigit hd).symm
  rw [h]
  cases negative <;>
    simp [valueWords, signText, Text.startsWith, hne 'n' rfl, hne 't' rfl, hne 'f' rfl, hne 'N' rfl,
      hne 'I' rfl, hne '-' rfl]

theorem readValue_number (depth : Nat) (negative : Bool) (n : Numeral) (s : List Char) :
    readValue (depth + 1) (signText negative ++ (n.text ++ s)) =
      readNumber (signText negative ++ (n.text ++ s)) := by
  have hfind := find?_valueWords_signText negative n s
  obtain ⟨c, t, h, hdigit⟩ := n.exists_cons s
  have hne (d : Char) (hd : d.isDigit = false) : c ≠ d := ne_of_isDigit hdigit hd
  rw [h] at hfind ⊢
  cases negative with
  | true =>
    rw [signText, if_pos rfl, List.singleton_append] at hfind ⊢
    rw [readValue]
    · rw [hfind]
    all_goals simp
  | false =>
    rw [signText, if_neg (by simp), List.nil_append] at hfind ⊢
    rw [readValue]
    · rw [hfind]
    all_goals simp [hne '\x22' rfl, hne '{' rfl, hne '[' rfl]

/-- The reader of a key. -/
def readKey (s : List Char) : Step String :=
  match s with
  | '\x22' :: r => readString s [] 0 r
  | _ => stopAt .expectingName s

/-- One step of reading fields. -/
theorem readFields_succ (n : Nat) (done : List (String × Json)) (s : List Char) :
    readFields (n + 1) done s =
      match readKey s with
      | .error e => .error e
      | .ok (key, rest) =>
        match skipSpace rest with
        | ':' :: rest =>
          match readValue n (skipSpace rest) with
          | .error e => .error e
          | .ok (value, rest) =>
            match skipSpace rest with
            | '}' :: rest => .ok (put key value done, rest)
            | ',' :: rest => readFields n (put key value done) (skipSpace rest)
            | rest => stopAt .expectingComma rest
        | rest => stopAt .expectingColon rest := by
  rw [readFields.eq_def]
  simp only
  split
  · rfl
  · rename_i h
    rw [readKey]
    · rfl
    · exact h

theorem skipSpace_cons (hc : isSpace c = false) : skipSpace (c :: s) = c :: s := by
  simp [skipSpace, hc]

theorem isSpace_of_isSolid (h : isSolid c = true) : isSpace c = false := by
  have hrange := isSolid_range h
  have hne (d : Char) (hd : d.toNat ≤ 32) : c ≠ d := by
    rintro rfl
    omega
  simp [isSpace, hne ' ', hne '\t', hne '\n', hne '\r']

/-- The reader of JSON text. -/
def reader : Reader Stop where
  skip := skipSpace
  key := readKey
  value := readValue
  items := readItems
  fields := readFields
  skip_blanks h := List.dropWhile_append_of_pos h
  skip_cons h := skipSpace_cons (isSpace_of_isSolid h)
  value_arr h := by
    rw [readValue]
    split
    · exact absurd ‹_› (h _)
    · rfl
  value_obj h := by
    rw [readValue]
    split
    · exact absurd ‹_› (h _)
    · rfl
  items_error h := by rw [readItems, h]
  items_last h hclose := by simp [readItems, h, hclose]
  items_cons h hcomma _ := by simp only [readItems, h, hcomma]
  key_error h := by rw [readFields_succ, h]
  fields_error hkey hcolon h := by simp only [readFields_succ, hkey, hcolon, h]
  fields_last hkey hcolon h hclose := by simp only [readFields_succ, hkey, hcolon, h, hclose]
  fields_cons hkey hcolon h hcomma _ := by simp only [readFields_succ, hkey, hcolon, h, hcomma]

/-- The faults of a reader that an integer of too many digits stops. -/
def tooLong (count : Option Nat) : Option (Stop → Prop) := count.map fun n e => e = .tooManyDigits n

/-- **A value that holds no others reads back.** -/
theorem readsBack_leaf (h : isLeaf j = true) :
    reader.ReadsBack (tooLong (overlong? j)) j (leafText writeString j) := by
  intro hproper
  refine ⟨startsValue_leafText (fun s => (readString_writeString s []).imp fun _ h => h.1) h hproper,
    fun s n hs hn => ?_⟩
  obtain ⟨n, rfl⟩ : ∃ d, n = d + 1 := ⟨n - 1, by omega⟩
  change Answers _ _ _ (readValue (n + 1) _)
  match j with
  | .null | .bool true | .bool false | .arr [] | .obj [] | .real .nan | .real (.infinite true)
  | .real (.infinite false) => rfl
  | .str t =>
    obtain ⟨body, hbody, hread⟩ := readString_writeString t s
    rw [leafText, hbody, List.cons_append, readValue, hread]
    rfl
  | .int _ | .real (.finite _ _ _) =>
    obtain ⟨negative, m, htext, hvalue, hlong⟩ := exists_numeral rfl hproper
    rw [htext, List.append_assoc, readValue_number, readNumber_numeral _ _ hs.endsNumber, hvalue,
      hlong]
    split
    · exact ⟨_, rfl, rfl⟩
    · rfl

end ReactWeave.Json
