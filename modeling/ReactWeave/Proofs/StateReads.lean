import ReactWeave.Proofs.SetterCalls
import ReactWeave.State.Access

/-!
# ReactWeave.Proofs.StateReads

**Which references to fields become plain names.**

Accesses to `state` are removed from the text of a binding without looking at its
syntax. This module says what that does to the references that its syntax tree
has: a reference is reduced to its field exactly if nothing but a dot and white
space stands between the two, the character in front of it is neither a dot nor
part of a name, and no further access starts in the field.

* `reduced_iff` is the criterion for a stretch of text, `reference_of_field` puts
  the references of a syntax tree into the text of the fragment, and
  `processed_reduced_iff` joins them.
-/

namespace ReactWeave.State

open Script Script.Tree

/-! ## Which characters stay -/

/-- The length of an access to `word` that starts here. -/
def accessAt? (word : List Char) (before : Option Char) (s : List Char) : Option Nat :=
  if startsName before then accessLength? word s else none

/-- Which characters of a text stay when the accesses to `word` are removed. -/
def staysFrom (word : List Char) (before : Option Char) : Nat → List Char → List Bool
  | _, [] => []
  | skip + 1, c :: s => false :: staysFrom word (some c) skip s
  | 0, c :: s =>
    match accessAt? word before (c :: s) with
    | some n => false :: staysFrom word (some c) (n - 1) s
    | none => true :: staysFrom word (some c) 0 s

/-- Which characters of a text stay when the accesses to `word` are removed. -/
def stays (word s : List Char) : List Bool := staysFrom word none 0 s

/-- The characters of a text that are marked. -/
def chosen (s : List Char) (marks : List Bool) : List Char :=
  ((s.zip marks).filter Prod.snd).map Prod.fst

/-- Removing accesses is choosing the characters that stay. -/
theorem stripFrom_eq_chosen (word : List Char) (before : Option Char) (skip : Nat)
    (s : List Char) : stripFrom word before skip s = chosen s (staysFrom word before skip s) := by
  induction s generalizing before skip with
  | nil => simp [stripFrom, chosen]
  | cons c s ih =>
    cases skip with
    | succ skip => simpa [stripFrom, staysFrom, chosen] using ih (some c) skip
    | zero =>
      cases hat : accessAt? word before (c :: s) with
      | some n =>
        rw [staysFrom, hat]
        rw [accessAt?] at hat
        rw [stripFrom, hat]
        simpa [chosen] using ih (some c) (n - 1)
      | none =>
        rw [staysFrom, hat]
        rw [accessAt?] at hat
        rw [stripFrom, hat]
        simpa [chosen] using ih (some c) 0

theorem strip_eq_chosen (word s : String) :
    strip word s = String.ofList (chosen s.toList (stays word.toList s.toList)) := by
  rw [strip, stripChars, stripFrom_eq_chosen]
  rfl

theorem getLast?_cons_or (c : Char) (a : List Char) (before : Option Char) :
    (c :: a).getLast?.or before = a.getLast?.or (some c) := by
  rw [List.getLast?_cons]
  cases a.getLast? <;> rfl

theorem staysFrom_skip (word : List Char) (before : Option Char) (a s : List Char) :
    staysFrom word before a.length (a ++ s) =
      List.replicate a.length false ++ staysFrom word (a.getLast?.or before) 0 s := by
  induction a generalizing before with
  | nil => simp
  | cons c a ih =>
    rw [List.length_cons, List.cons_append, staysFrom, ih, List.replicate_succ, List.cons_append,
      getLast?_cons_or]

/-! ## Accesses -/

/-- Texts that are an access to `word`: the word and a dot, with white space around the dot. -/
def IsAccess (word a : List Char) : Prop :=
  ∃ w₁ w₂, a = word ++ (w₁ ++ '.' :: w₂) ∧ (∀ c ∈ w₁, Text.isBlank c = true) ∧
    ∀ c ∈ w₂, Text.isBlank c = true

variable {s word a rest link field code : List Char} {before : Option Char}

theorem IsAccess.ne_nil (h : IsAccess word a) : a ≠ [] := by
  obtain ⟨w₁, w₂, rfl, -⟩ := h
  simp

theorem trimStart_append {w : List Char} (h : ∀ c ∈ w, Text.isBlank c = true) :
    Text.trimStart (w ++ s) = Text.trimStart s :=
  List.dropWhile_append_of_pos h

theorem exists_blank_append_trimStart (s : List Char) :
    ∃ w, s = w ++ Text.trimStart s ∧ ∀ c ∈ w, Text.isBlank c = true :=
  ⟨s.takeWhile Text.isBlank, List.takeWhile_append_dropWhile.symm,
    List.all_eq_true.1 List.all_takeWhile⟩

theorem trimStart_trimStart (s : List Char) :
    Text.trimStart (Text.trimStart s) = Text.trimStart s := by
  obtain ⟨w, hs, hw⟩ := exists_blank_append_trimStart s
  conv => rhs; rw [hs, trimStart_append hw]

/-- A dot behind a word, with blanks between, is found exactly where it stands. -/
theorem behindDot?_eq_some :
    behindDot? word s = some rest ↔
      ∃ w, s = word ++ (w ++ '.' :: rest) ∧ ∀ c ∈ w, Text.isBlank c = true := by
  constructor
  · intro h
    unfold behindDot? at h
    split at h
    · rename_i hstart
      obtain ⟨s, rfl⟩ := Text.startsWith_iff.1 hstart
      rw [List.drop_left] at h
      split at h
      · rename_i htrim
        cases h
        obtain ⟨w, hs, hw⟩ := exists_blank_append_trimStart s
        rw [htrim] at hs
        exact ⟨w, by rw [hs], hw⟩
      · cases h
    · cases h
  · rintro ⟨w, rfl, hw⟩
    have hdot : Text.trimStart ('.' :: rest) = '.' :: rest := rfl
    rw [behindDot?, if_pos (Text.startsWith_iff.2 ⟨_, rfl⟩), List.drop_left, trimStart_append hw,
      hdot]
    rfl

/-- The length of an access counts the blanks behind its dot. -/
theorem accessLength?_eq_some {n : Nat} :
    accessLength? word s = some n ↔
      ∃ a rest, s = a ++ rest ∧ IsAccess word a ∧ Text.trimStart rest = rest ∧ n = a.length := by
  constructor
  · intro h
    obtain ⟨rest, hrest, rfl⟩ := Option.map_eq_some_iff.1 h
    obtain ⟨w₁, rfl, hw₁⟩ := behindDot?_eq_some.1 hrest
    obtain ⟨w₂, hrest, hw₂⟩ := exists_blank_append_trimStart rest
    have hsplit : word ++ (w₁ ++ '.' :: rest) =
        word ++ (w₁ ++ '.' :: w₂) ++ Text.trimStart rest := by
      conv => lhs; rw [hrest]
      simp
    refine ⟨_, _, hsplit, ⟨w₁, w₂, rfl, hw₁, hw₂⟩, trimStart_trimStart rest, ?_⟩
    rw [hsplit, List.length_append, Nat.add_sub_cancel]
  · rintro ⟨a, rest, rfl, ⟨w₁, w₂, rfl, hw₁, hw₂⟩, hrest, rfl⟩
    have hbehind : behindDot? word (word ++ (w₁ ++ '.' :: w₂) ++ rest) = some (w₂ ++ rest) :=
      behindDot?_eq_some.2 ⟨w₁, by simp, hw₁⟩
    rw [accessLength?, hbehind, Option.map_some, trimStart_append hw₂, hrest, List.length_append,
      Nat.add_sub_cancel]

theorem accessAt?_eq_some {n : Nat} (h : accessAt? word before s = some n) :
    startsName before = true ∧
      ∃ a rest, s = a ++ rest ∧ IsAccess word a ∧ Text.trimStart rest = rest ∧ n = a.length := by
  unfold accessAt? at h
  split at h
  · exact ⟨‹_›, accessLength?_eq_some.1 h⟩
  · cases h

/-! ## Accesses to the state -/

/-- The word that is removed. -/
abbrev stateWord : List Char := ['s', 't', 'a', 't', 'e']

theorem IsAccess.eq_cons (h : IsAccess stateWord a) : ∃ a', a = 's' :: a' ∧ ∀ c ∈ a', c ≠ 's' := by
  obtain ⟨w₁, w₂, rfl, hw₁, hw₂⟩ := h
  have hne : ∀ w : List Char, (∀ c ∈ w, Text.isBlank c = true) → ∀ c ∈ w, c ≠ 's' := by
    rintro w hw c hc rfl
    exact absurd (hw 's' hc) (by decide)
  refine ⟨['t', 'a', 't', 'e'] ++ (w₁ ++ '.' :: w₂), rfl, ?_⟩
  simp only [List.forall_mem_append, List.forall_mem_cons]
  exact ⟨by simp, hne w₁ hw₁, by simp, hne w₂ hw₂⟩

/-- No access covers an `s` other than the one it starts with, so a scan that comes to an `s` is
not inside an access. -/
theorem staysFrom_reach {skip : Nat} (hskip : ∀ c ∈ (a ++ 's' :: rest).take skip, c ≠ 's') :
    (staysFrom stateWord before skip (a ++ 's' :: rest)).drop a.length =
      staysFrom stateWord (a.getLast?.or before) 0 ('s' :: rest) := by
  induction a generalizing before skip with
  | nil =>
    cases skip with
    | zero => rfl
    | succ skip => exact absurd rfl (hskip 's' (by simp))
  | cons c a ih =>
    rw [getLast?_cons_or]
    cases skip with
    | succ skip =>
      exact ih fun d hd => hskip d (List.mem_cons_of_mem _ hd)
    | zero =>
      rw [List.cons_append, staysFrom]
      split
      · rename_i n hat
        refine ih ?_
        obtain ⟨-, acc, r, hacc, haccess, -, rfl⟩ := accessAt?_eq_some hat
        obtain ⟨acc', rfl, hne⟩ := haccess.eq_cons
        rw [List.cons_append, List.cons.injEq] at hacc
        rw [hacc.2, List.length_cons, Nat.add_sub_cancel, List.take_left]
        exact hne
      · rw [List.length_cons, List.drop_succ_cons]
        exact ih (by simp)

theorem take_replicate_append (n m : Nat) (b : Bool) (l : List Bool) :
    (List.replicate n b ++ l).take (n + m) = List.replicate n b ++ l.take m := by
  rw [List.take_append, List.length_replicate, Nat.add_sub_cancel_left,
    List.take_of_length_le (by simp)]

theorem head?_staysFrom (hs : s ≠ []) :
    (staysFrom word before 0 s).head? = some (accessAt? word before s).isNone := by
  cases s with
  | nil => exact absurd rfl hs
  | cons c s =>
    rw [staysFrom]
    cases accessAt? word before (c :: s) <;> rfl

/-- A stretch stays exactly if no access starts in it. -/
theorem staysFrom_stretch {t after : List Char} :
    (staysFrom stateWord before 0 (t ++ after)).take t.length = List.replicate t.length true ↔
      ∀ u w, t = u ++ w → w ≠ [] →
        accessAt? stateWord (u.getLast?.or before) (w ++ after) = none := by
  induction t generalizing before with
  | nil => simp
  | cons c t ih =>
    rw [List.cons_append, staysFrom, List.length_cons, List.replicate_succ]
    cases hat : accessAt? stateWord before (c :: (t ++ after)) with
    | some n =>
      simp only [List.take_succ_cons, List.cons.injEq, Bool.false_eq_true, false_and, false_iff]
      intro hall
      have hnone := hall [] (c :: t) rfl (by simp)
      simp [hat] at hnone
    | none =>
      simp only [List.take_succ_cons, List.cons.injEq, true_and, ih]
      constructor
      · intro hall u w hsplit hw
        cases u with
        | nil =>
          cases hsplit
          exact hat
        | cons d u =>
          obtain ⟨rfl, rfl⟩ := hsplit
          rw [getLast?_cons_or]
          exact hall u w rfl hw
      · intro hall u w hsplit hw
        have hnone := hall (c :: u) w (by rw [hsplit, List.cons_append]) hw
        rwa [getLast?_cons_or] at hnone

/-- An access is removed as a whole. -/
theorem staysFrom_access (hbefore : startsName before = true) (ha : IsAccess word a)
    (hrest : Text.trimStart rest = rest) :
    staysFrom word before 0 (a ++ rest) =
      List.replicate a.length false ++ staysFrom word a.getLast? 0 rest := by
  have hat : accessAt? word before (a ++ rest) = some a.length := by
    rw [accessAt?, if_pos hbefore]
    exact accessLength?_eq_some.2 ⟨a, rest, rfl, ha, hrest, rfl⟩
  cases a with
  | nil => exact absurd rfl ha.ne_nil
  | cons c a =>
    rw [List.cons_append] at hat ⊢
    rw [staysFrom, hat, List.length_cons]
    simp only [Nat.add_sub_cancel]
    rw [staysFrom_skip, List.replicate_succ, List.cons_append, ← getLast?_cons_or, Option.or_none]

/-! ## References in a text -/

theorem isBlank_of_isWordChar {c : Char} (h : Lexis.isWordChar c = true) :
    Text.isBlank c = false := by
  rw [Bool.eq_false_iff]
  intro hblank
  have hne : ∀ d : Char, Text.isBlank d = false → c ≠ d := by
    rintro d hd rfl
    simp [hblank] at hd
  have hdollar := hne '$' (by decide)
  have hunderscore := hne '_' (by decide)
  have hbackslash := hne '\\' (by decide)
  have hopen := hne '{' (by decide)
  have hclose := hne '}' (by decide)
  simp only [Text.isBlank, Bool.or_eq_true, Bool.and_eq_true, beq_iff_eq,
    decide_eq_true_eq] at hblank
  have hdigit : c.isDigit = false := by
    rw [Bool.eq_false_iff]
    intro hd
    simp only [Char.isDigit, Bool.and_eq_true, decide_eq_true_eq] at hd
    have hlow : 48 ≤ c.toNat := UInt32.le_iff_toNat_le.1 hd.1
    have hhigh : c.toNat ≤ 57 := UInt32.le_iff_toNat_le.1 hd.2
    omega
  simp [Lexis.isWordChar, Lexis.isNamePart, Lexis.isLetter, Lexis.isBlank, hdollar, hunderscore,
    hbackslash, hopen, hclose, hdigit] at h
  omega

/-- Whether of the text `before ++ head ++ field ++ after`, the stretch `head ++ field` is reduced
to `field` when the accesses to the state are removed. -/
def Reduced (before head field after : List Char) : Prop :=
  ((stays stateWord (before ++ (head ++ (field ++ after)))).drop before.length).take
      (head.length + field.length) =
    List.replicate head.length false ++ List.replicate field.length true

/-- What stands between the object and the name of a member. -/
def IsLink (link : List Char) : Prop :=
  ∃ gap₁ dot gap₂, link = textOf gap₁ ++ (dot.text ++ textOf gap₂) ∧
    (∀ g ∈ gap₁, PlainTrivia g) ∧ IsDot dot ∧ ∀ g ∈ gap₂, PlainTrivia g

theorem blank_or (t : List Char) :
    (∀ c ∈ t, Text.isBlank c = true) ∨
      ∃ w x r, t = w ++ x :: r ∧ (∀ c ∈ w, Text.isBlank c = true) ∧ Text.isBlank x = false := by
  obtain ⟨w, ht, hw⟩ := exists_blank_append_trimStart t
  cases htrim : Text.trimStart t with
  | nil =>
    rw [htrim, List.append_nil] at ht
    rw [ht]
    exact .inl hw
  | cons x r =>
    rw [htrim] at ht
    have hx := List.head?_dropWhile_not Text.isBlank t
    rw [← Text.trimStart, htrim] at hx
    exact .inr ⟨w, x, r, ht, hw, by simpa using hx⟩

/-- Blanks and comments are white space, or something else comes first in them that neither is a
dot nor starts an access. -/
theorem blank_or_of_trivia {gs : List Tree} (h : ∀ g ∈ gs, PlainTrivia g) :
    (∀ c ∈ textOf gs, Text.isBlank c = true) ∨
      ∃ w x r, textOf gs = w ++ x :: r ∧ (∀ c ∈ w, Text.isBlank c = true) ∧
        Text.isBlank x = false ∧ x ≠ '.' ∧ x ≠ 's' := by
  induction gs with
  | nil => simp
  | cons g gs ih =>
    obtain ⟨hg, hgs⟩ := List.forall_mem_cons.1 h
    rw [textOf_cons]
    unfold PlainTrivia at hg
    split at hg
    · rename_i t
      rw [text_gap]
      rcases blank_or t with ht | ⟨w, x, r, rfl, hw, hx⟩
      · rcases ih hgs with hgs | ⟨w, x, r, hgs, hw, hx⟩
        · exact .inl (List.forall_mem_append.2 ⟨ht, hgs⟩)
        · refine .inr ⟨t ++ w, x, r, by rw [hgs, List.append_assoc], ?_, hx⟩
          exact List.forall_mem_append.2 ⟨ht, hw⟩
      · -- A blank of the language that is not white space is neither a dot nor a letter.
        have hblank : Lexis.isBlank x = true := hg x (by simp)
        refine .inr ⟨w, x, r ++ textOf gs, by simp, hw, hx, ?_, ?_⟩
        · rintro rfl
          exact absurd hblank (by decide)
        · rintro rfl
          exact absurd hblank (by decide)
    · obtain ⟨u, rfl⟩ := hg
      exact .inr ⟨[], '/', u ++ textOf gs, by simp, by simp, by decide, by decide, by decide⟩
    · exact hg.elim

theorem accessAt?_eq_none {x : Char} (hx : x ≠ 's') :
    accessAt? stateWord before (x :: s) = none := by
  cases hat : accessAt? stateWord before (x :: s) with
  | none => rfl
  | some n =>
    obtain ⟨-, a, rest, hs, ha, -, -⟩ := accessAt?_eq_some hat
    obtain ⟨a', rfl, -⟩ := ha.eq_cons
    rw [List.cons_append, List.cons.injEq] at hs
    exact absurd hs.1 hx

theorem trimStart_cons {x : Char} (hx : Text.isBlank x = false) (s : List Char) :
    Text.trimStart (x :: s) = x :: s := by
  simp [Text.trimStart, hx]

/-- What stands between an object and a name: a dot and white space, or also something else behind
the dot, or something other than a dot first. -/
theorem IsLink.cases (h : IsLink link) :
    IsAccess [] link ∨
      (∃ a x r, link = a ++ x :: r ∧ IsAccess [] a ∧ Text.isBlank x = false ∧ x ≠ 's') ∨
      ∃ w x r, link = w ++ x :: r ∧ (∀ c ∈ w, Text.isBlank c = true) ∧ Text.isBlank x = false ∧
        x ≠ '.' := by
  obtain ⟨gap₁, dot, gap₂, rfl, hgap₁, hdot, hgap₂⟩ := h
  rcases blank_or_of_trivia hgap₁ with hw₁ | ⟨w, x, r, hgap, hw, hx, hne, -⟩
  · rcases hdot with rfl | rfl
    · rcases blank_or_of_trivia hgap₂ with hw₂ | ⟨w, x, r, hgap, hw, hx, -, hne⟩
      · exact .inl ⟨_, _, rfl, hw₁, hw₂⟩
      · refine .inr (.inl ⟨textOf gap₁ ++ '.' :: w, x, r, ?_, ⟨_, w, rfl, hw₁, hw⟩, hx, hne⟩)
        simp [hgap]
    · exact .inr (.inr ⟨textOf gap₁, '?', '.' :: textOf gap₂, by simp, hw₁, by decide, by decide⟩)
  · refine .inr (.inr ⟨w, x, r ++ (dot.text ++ textOf gap₂), ?_, hw, hx, hne⟩)
    simp [hgap]

/-- Removing the accesses reduces a reference only if it starts with an access that ends where the
field starts. -/
theorem isAccess_of_stays (hlink : IsLink link)
    (h : (staysFrom stateWord before 0 (stateWord ++ link ++ rest)).take
        (stateWord ++ link).length = List.replicate (stateWord ++ link).length false) :
    startsName before = true ∧ IsAccess stateWord (stateWord ++ link) := by
  -- The first character is removed, so an access starts there.
  have hat : accessAt? stateWord before (stateWord ++ link ++ rest) ≠ none := by
    intro hnone
    have hhead := congrArg List.head? h
    rw [List.head?_take, head?_staysFrom (by simp), hnone, List.head?_replicate] at hhead
    simp at hhead
  have hbefore : startsName before = true := by
    unfold accessAt? at hat
    split at hat
    · assumption
    · exact absurd rfl hat
  refine ⟨hbefore, ?_⟩
  rw [accessAt?, if_pos hbefore] at hat
  rcases hlink.cases with ⟨w₁, w₂, rfl, hw₁, hw₂⟩ | ⟨a, x, r, rfl, ha, hx, hne⟩ |
    ⟨w, x, r, rfl, hw, hx, hne⟩
  · exact ⟨w₁, w₂, rfl, hw₁, hw₂⟩
  · -- What comes behind the white space starts no access, so it stays.
    have haccess : IsAccess stateWord (stateWord ++ a) := by
      obtain ⟨w₁, w₂, rfl, hw₁, hw₂⟩ := ha
      exact ⟨w₁, w₂, rfl, hw₁, hw₂⟩
    have hsplit : stateWord ++ (a ++ x :: r) ++ rest = (stateWord ++ a) ++ x :: (r ++ rest) := by
      simp
    have hlen : (stateWord ++ (a ++ x :: r)).length = (stateWord ++ a).length + (r.length + 1) := by
      simp only [List.length_append, List.length_cons]
      omega
    rw [hsplit, staysFrom_access hbefore haccess (trimStart_cons hx _), hlen,
      take_replicate_append, ← List.replicate_append_replicate] at h
    have hhead := congrArg List.head? (List.append_cancel_left h)
    rw [List.head?_take, head?_staysFrom (by simp), accessAt?_eq_none hne,
      List.head?_replicate] at hhead
    simp at hhead
  · obtain ⟨n, hn⟩ := Option.ne_none_iff_exists'.1 hat
    obtain ⟨a, rest', hsplit, ⟨w₁, w₂, rfl, hw₁, -⟩, -, -⟩ := accessLength?_eq_some.1 hn
    have htrim : Text.trimStart (w ++ x :: (r ++ rest)) =
        Text.trimStart (w₁ ++ '.' :: (w₂ ++ rest')) := by
      congr 1
      simpa using hsplit
    rw [trimStart_append hw, trimStart_append hw₁, trimStart_cons hx,
      trimStart_cons (by decide), List.cons.injEq] at htrim
    exact absurd htrim.1 hne

theorem isAccess_nil_iff : IsAccess [] link ↔ link.filter (fun c => !Text.isBlank c) = ['.'] := by
  constructor
  · rintro ⟨w₁, w₂, rfl, hw₁, hw₂⟩
    have hdot : Text.isBlank '.' = false := by decide
    have hnone : ∀ w : List Char, (∀ c ∈ w, Text.isBlank c = true) →
        w.filter (fun c => !Text.isBlank c) = [] := by
      intro w hw
      simpa using hw
    simp [hdot, hnone w₁ hw₁, hnone w₂ hw₂]
  · intro h
    obtain ⟨w₁, w₂, rfl, hw₁, -, hw₂⟩ := List.filter_eq_cons_iff.1 h
    exact ⟨w₁, w₂, rfl, by simpa using hw₁, by simpa using hw₂⟩

theorem trimStart_name (h : Lexis.Wordlike field) (after : List Char) :
    Text.trimStart (field ++ after) = field ++ after := by
  obtain ⟨⟨c, u, rfl, -⟩, hword⟩ := h
  exact trimStart_cons (isBlank_of_isWordChar (hword c List.mem_cons_self)) _

theorem isAccess_append : IsAccess word (word ++ link) ↔ IsAccess [] link := by
  simp [IsAccess]

/-- **When a reference is reduced to its field**: if it does not follow a dot or a part of a name,
if it is written with a plain dot and white space, and if no access starts in its field. -/
theorem reduced_iff {before after : List Char} (hlink : IsLink link)
    (hfield : Lexis.Wordlike field) :
    Reduced before (stateWord ++ link) field after ↔
      startsName before.getLast? = true ∧ link.filter (fun c => !Text.isBlank c) = ['.'] ∧
      ∀ u w, field = u ++ w → w ≠ [] →
        accessAt? stateWord (stateWord ++ link ++ u).getLast? (w ++ after) = none := by
  have hreach : (stays stateWord (before ++ (stateWord ++ link ++ (field ++ after)))).drop
        before.length =
      staysFrom stateWord (before.getLast?.or none) 0 (stateWord ++ link ++ (field ++ after)) :=
    staysFrom_reach (by simp)
  rw [Option.or_none] at hreach
  have hrest := trimStart_name hfield after
  rw [Reduced, hreach, ← isAccess_nil_iff]
  constructor
  · intro h
    have hhead := congrArg (List.take (stateWord ++ link).length) h
    rw [List.take_take, Nat.min_eq_left (Nat.le_add_right _ _),
      List.take_left' List.length_replicate] at hhead
    obtain ⟨hbefore, haccess⟩ := isAccess_of_stays hlink hhead
    rw [staysFrom_access hbefore haccess hrest, take_replicate_append] at h
    refine ⟨hbefore, isAccess_append.1 haccess, fun u w hu hw => ?_⟩
    rw [List.getLast?_append]
    exact staysFrom_stretch.1 (List.append_cancel_left h) u w hu hw
  · rintro ⟨hbefore, hdot, hnone⟩
    rw [staysFrom_access hbefore (isAccess_append.2 hdot) hrest, take_replicate_append,
      staysFrom_stretch.2]
    intro u w hu hw
    rw [← List.getLast?_append]
    exact hnone u w hu hw

/-! ## References in a fragment -/

theorem append_of_opening {opening : List Char} (hopening : 's' ∉ opening)
    (h : opening ++ code = a ++ 's' :: s) :
    ∃ before, a = opening ++ before ∧ code = before ++ 's' :: s := by
  rcases List.append_eq_append_iff.1 h with ⟨before, ha, hcode⟩ | ⟨m, hm, hs⟩
  · exact ⟨before, ha, hcode⟩
  · cases m with
    | nil => exact ⟨[], by simpa using hm.symm, by simpa using hs.symm⟩
    | cons c m =>
      rw [List.cons_append, List.cons.injEq] at hs
      exact absurd (by simp [hm, ← hs.1]) hopening

/-- A field in a wrapped text lies in the text, not in the wrapper. -/
theorem append_of_closing {closing b : List Char} (hfield : Lexis.Wordlike field)
    (hclosing : closing = [] ∨ ∃ tail, closing = '\n' :: tail ∧ ∀ c ∈ tail, c = ')' ∨ c = '}')
    (h : code ++ closing = a ++ (field ++ b)) : ∃ after, code = a ++ (field ++ after) := by
  obtain ⟨⟨c, u, hcons, hstart⟩, hword⟩ := hfield
  have hbreak : '\n' ∉ field := fun hmem => absurd (hword '\n' hmem) (by decide)
  rcases hclosing with rfl | ⟨tail, rfl, htail⟩
  · exact ⟨b, by simpa using h⟩
  · rcases List.append_eq_append_iff.1 h with ⟨m, rfl, hm⟩ | ⟨m, rfl, hm⟩
    · -- The name would start in the closing.
      cases m with
      | nil =>
        rw [hcons, List.nil_append, List.cons_append, List.cons.injEq] at hm
        rw [hcons, ← hm.1] at hbreak
        exact absurd List.mem_cons_self hbreak
      | cons d m =>
        rw [List.cons_append, List.cons.injEq] at hm
        have hc : c = ')' ∨ c = '}' := htail c (by simp [hm.2, hcons])
        rcases hc with rfl | rfl
        · exact absurd hstart (by decide)
        · exact absurd hstart (by decide)
    · rcases List.append_eq_append_iff.1 hm with ⟨q, rfl, -⟩ | ⟨q, hq, htl⟩
      · exact ⟨q, rfl⟩
      · cases q with
        | nil => exact ⟨[], by simpa using hq.symm⟩
        | cons d q =>
          rw [List.cons_append, List.cons.injEq] at htl
          exact absurd (by simp [hq, ← htl.1]) hbreak

/-- A reference to a field lies in the fragment's own text, with something between the word and the
field that is read as a dot. -/
theorem reference_of_field {f : Fragment} (hf : Fragment.parse? code = some f) {s : Site}
    (hs : s ∈ f.sites) (h : stateField? s.tree = some field) :
    ∃ before link after, code = before ++ (stateWord ++ link ++ (field ++ after)) ∧
      f.wrapper.opening.length + before.length = s.start ∧
      s.tree.text = stateWord ++ link ++ field ∧ IsLink link ∧ Lexis.Wordlike field := by
  obtain ⟨r, gap₁, dot, gap₂, htree, hgap₁, hdot, hgap₂, hfield⟩ :=
    member_of_field (Fragment.wellShaped_of_mem_sites hf hs) h
  obtain ⟨a, b, htext, hstart⟩ := text_of_mem_sites hs
  have hlink : IsLink (textOf gap₁ ++ (dot.text ++ textOf gap₂)) :=
    ⟨gap₁, dot, gap₂, rfl, hgap₁, hdot, hgap₂⟩
  generalize hl : textOf gap₁ ++ (dot.text ++ textOf gap₂) = link at hlink
  have hmember : s.tree.text = stateWord ++ link ++ field := by
    rw [htree, ← hl]
    simp
  have hwrapper : f.wrapper ∈ wrappers := (Fragment.parseIn_eq_some hf).1
  have hopening : 's' ∉ f.wrapper.opening.toList := by
    revert hwrapper
    generalize f.wrapper = w
    revert w
    decide
  have hclosing : f.wrapper.closing.toList = [] ∨ ∃ tail, f.wrapper.closing.toList = '\n' :: tail ∧
      ∀ c ∈ tail, c = ')' ∨ c = '}' := by
    simp only [wrappers, List.mem_cons, List.not_mem_nil, or_false] at hwrapper
    rcases hwrapper with hw | hw | hw <;> rw [hw]
    · exact .inl rfl
    · exact .inr ⟨[')'], rfl, by simp⟩
    · exact .inr ⟨['}', ')'], rfl, by simp⟩
  have hall : f.wrapper.opening.toList ++ (code ++ f.wrapper.closing.toList) =
      f.lead ++ a ++ 's' :: (['t', 'a', 't', 'e'] ++ link ++ (field ++ b)) := by
    rw [← List.append_assoc, ← Fragment.text_of_parse? hf, htext, hmember]
    simp
  obtain ⟨before, hbefore, hcode⟩ := append_of_opening hopening hall
  have hcode : code ++ f.wrapper.closing.toList =
      before ++ (stateWord ++ link) ++ (field ++ b) := by
    rw [hcode]
    simp
  obtain ⟨after, hafter⟩ := append_of_closing hfield hclosing hcode
  refine ⟨before, link, after, by rw [hafter, List.append_assoc], ?_, hmember, hlink, hfield⟩
  rw [hstart, ← List.length_append, hbefore, List.length_append, String.length_toList]

/-- **Which references to fields become plain names.** In a fragment that can be read, processing
keeps the characters that stay. Every reference to a field of the state stands in the fragment's own
text, and it is reduced to its field exactly if the character in front of it is neither a dot nor
part of a name, only a dot and white space stand between `state` and the field, and no access
starts in the field itself. -/
theorem processed_reduced_iff {code : String} {f : Fragment}
    (hf : Code.parse (.str code) = .ok f) :
    processed .useState (.str code) =
        .ok (.str (String.ofList (chosen code.toList (stays stateWord code.toList)))) ∧
      ∀ s ∈ f.sites, ∀ field, stateField? s.tree = some field →
        ∃ before link after, code.toList = before ++ (stateWord ++ link ++ (field ++ after)) ∧
          f.wrapper.opening.length + before.length = s.start ∧
          s.tree.text = stateWord ++ link ++ field ∧
          (Reduced before (stateWord ++ link) field after ↔
            startsName before.getLast? = true ∧
            link.filter (fun c => !Text.isBlank c) = ['.'] ∧
            ∀ u w, field = u ++ w → w ≠ [] →
              accessAt? stateWord (stateWord ++ link ++ u).getLast? (w ++ after) = none) := by
  refine ⟨?_, fun s hs field hfield => ?_⟩
  · rw [processed, strip_eq_chosen]
    rfl
  · obtain ⟨before, link, after, hcode, hstart, htext, hlink, hname⟩ :=
      reference_of_field (Code.parse_str_eq_ok.1 hf) hs hfield
    exact ⟨before, link, after, hcode, hstart, htext, reduced_iff hlink hname⟩

/-- A reference that is reduced, and one with an optional dot, which is not. -/
def mixedCode : String := "(a, state\n.b ? 1 : state?.c)"

/-- What `mixedCode` is read as. -/
def mixed : Fragment := (Fragment.parse? mixedCode.toList).getD ⟨⟨"", ""⟩, [], .gap []⟩

theorem processed_reduced_iff_mixed :
    Code.parse (.str mixedCode) = .ok mixed ∧
      mixed.sites.filterMap (fun s => stateField? s.tree) = [['b'], ['c']] ∧
      processed .useState (.str mixedCode) = .ok (.str "(a, b ? 1 : state?.c)") := by
  have hsome : (Fragment.parse? mixedCode.toList).isSome = true := by decide +kernel
  have hparse : Code.parse (.str mixedCode) = .ok mixed := Code.parse_of_isSome hsome _
  refine ⟨hparse, by decide +kernel, ?_⟩
  have hchosen : chosen mixedCode.toList (stays stateWord mixedCode.toList) =
      "(a, b ? 1 : state?.c)".toList := by decide +kernel
  rw [(processed_reduced_iff hparse).1, hchosen, String.ofList_toList]

/-- A reference behind the dots of a spread element. -/
def spreadCode : String := "[...state.items]"

/-- What `spreadCode` is read as. -/
def spread : Fragment := (Fragment.parse? spreadCode.toList).getD ⟨⟨"", ""⟩, [], .gap []⟩

/-- A reference behind the dots of a spread element is not reduced. -/
theorem processed_keeps_spread :
    Code.parse (.str spreadCode) = .ok spread ∧
      (∃ s ∈ spread.sites, stateField? s.tree = some "items".toList) ∧
      ¬ Reduced "[...".toList "state.".toList "items".toList "]".toList ∧
      processed .useState (.str spreadCode) = .ok (.str "[...state.items]") := by
  have hsome : (Fragment.parse? spreadCode.toList).isSome = true := by decide +kernel
  have hparse : Code.parse (.str spreadCode) = .ok spread := Code.parse_of_isSome hsome _
  have hstrip : strip "state" spreadCode = "[...state.items]" := by decide +kernel
  refine ⟨hparse, by decide +kernel, ?_, ?_⟩
  · rw [Reduced]
    decide +kernel
  · rw [processed, hstrip]

end ReactWeave.State
