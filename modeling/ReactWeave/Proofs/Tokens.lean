import ReactWeave.Proofs.Lossless

/-!
# ReactWeave.Proofs.Tokens

What **gaps, names and marks** are made of.

A gap is cut into runs of blanks and comments (`Lexis.piecesOf`), by a function
that has to give something for every text. `plainTrivia_pieces` says that on the
text of a real gap it gives just that: blanks, and comments, which start with a
slash. A name is one or more characters of names (`wordlike_of_name`), and a mark
is itself (`take_of_mark`).
-/

namespace ReactWeave

variable {s : List Char} {n : Nat}

theorem Text.startsWith_iff {w : List Char} : startsWith w s = true ↔ ∃ r, s = w ++ r := by
  induction w generalizing s with
  | nil => simp [startsWith]
  | cons a w ih =>
    cases s with
    | nil => simp [startsWith]
    | cons b s =>
      simp only [startsWith, Bool.and_eq_true, beq_iff_eq, ih, List.cons_append,
        List.cons.injEq, exists_and_left]
      exact and_congr_left fun _ => eq_comm

namespace Script

namespace Lexis

/-! ## Comments -/

/-- The longest run of characters that pass a test stays the longest when the text is cut off
behind it. -/
theorem takeWhile_cut (p : Char → Bool) (s : List Char) (k : Nat) :
    (s.take (s.takeWhile p).length ++ (s.drop (s.takeWhile p).length).take k).takeWhile p =
      s.takeWhile p := by
  rw [← List.take_add, ← List.take_takeWhile]
  exact List.take_of_length_le (Nat.le_add_right _ _)

theorem blockEnd_take (h : blockEnd s = some n) :
    1 ≤ n ∧ n ≤ s.length ∧ ∀ r : List Char, blockEnd (s.take n ++ r) = some n := by
  fun_induction blockEnd s generalizing n with
  | case1 s =>
    cases h
    simp [blockEnd]
  | case2 c s hne ih =>
    obtain ⟨m, hm, rfl⟩ := Option.map_eq_some_iff.1 h
    obtain ⟨hpos, hle, hend⟩ := ih hm
    refine ⟨by omega, by simpa using hle, fun r => ?_⟩
    -- The character behind `c` is still there, so `c` does not start the end of the comment.
    have hstill : ∀ tail, c = '*' → s.take m ++ r = '/' :: tail → False := by
      intro tail hc htail
      cases s with
      | nil => simp [blockEnd] at hm
      | cons d s =>
        obtain ⟨m, rfl⟩ : ∃ k, m = k + 1 := ⟨m - 1, by omega⟩
        simp only [List.take_succ_cons, List.cons_append, List.cons.injEq] at htail
        exact hne s hc (by rw [htail.1])
    rw [List.take_succ_cons, List.cons_append, blockEnd.eq_2 _ _ hstill, hend]
    rfl
  | case3 => cases h

/-- A comment starts with a slash, and where it ends does not depend on what follows it, as long as
that still ends the line of a line comment. -/
theorem commentLength_take (h : commentLength s = some n) :
    (∃ m, n = m + 1) ∧ n ≤ s.length ∧ (∃ t, s = '/' :: t) ∧
      ∀ k, commentLength (s.take n ++ (s.drop n).take k) = some n := by
  unfold commentLength at h
  split at h
  · rename_i s
    cases h
    refine ⟨⟨_, rfl⟩, ?_, ⟨_, rfl⟩, fun k => ?_⟩
    · have := (List.takeWhile_sublist (p := fun c => !endsLine c) (l := s)).length_le
      simpa using this
    · simp only [List.take_succ_cons, List.drop_succ_cons, List.cons_append, commentLength,
        takeWhile_cut]
  · rename_i s
    obtain ⟨m, hm, rfl⟩ := Option.map_eq_some_iff.1 h
    obtain ⟨hpos, hle, hend⟩ := blockEnd_take hm
    refine ⟨⟨_, rfl⟩, by simpa using hle, ⟨_, rfl⟩, fun k => ?_⟩
    simp only [List.take_succ_cons, List.drop_succ_cons, List.cons_append, commentLength, hend,
      Option.map_some]
  · cases h

/-! ## Gaps -/

theorem gapFrom_skip (h : n ≤ s.length) : gapFrom n s = n + gapFrom 0 (s.drop n) := by
  induction n generalizing s with
  | zero => simp
  | succ n ih =>
    cases s with
    | nil => simp at h
    | cons c s =>
      rw [gapFrom, ih (by simpa using h), List.drop_succ_cons]
      omega

/-- Texts that consist of blanks and comments. -/
inductive IsGap : List Char → Prop where
  | nil : IsGap []
  | blank {c s} (hc : isBlank c = true) (hs : IsGap s) : IsGap (c :: s)
  | comment {t s} (hlen : commentLength (t ++ s) = some t.length) (ht : ∃ u, t = '/' :: u)
      (hs : IsGap s) : IsGap (t ++ s)

theorem isGap_take (s : List Char) : IsGap (s.take (gapFrom 0 s)) :=
  match s with
  | [] => by simpa using IsGap.nil
  | c :: s => by
    rw [gapFrom]
    split
    · rename_i hc
      exact .blank hc (isGap_take s)
    · split
      · split
        · rename_i n hn
          obtain ⟨-, hle, hslash, hcut⟩ := commentLength_take hn
          have hle : n ≤ s.length := by simpa using hle
          have hsplit : (c :: s).take (gapFrom n s + 1) =
              (c :: s).take (n + 1) ++ ((c :: s).drop (n + 1)).take (gapFrom 0 (s.drop n)) := by
            rw [← List.take_add, gapFrom_skip hle, Nat.add_right_comm]
          rw [hsplit]
          refine .comment ?_ ⟨s.take n, ?_⟩ (isGap_take (s.drop n))
          · rw [hcut, List.length_take, Nat.min_eq_left (by simpa using hle)]
          · obtain ⟨t, ht⟩ := hslash
            cases ht
            rfl
        · exact .nil
      · exact .nil
termination_by s.length
decreasing_by
  all_goals
    simp only [List.length_drop, List.length_cons]
    omega

theorem IsGap.dropWhile (h : IsGap s) : IsGap (s.dropWhile isBlank) := by
  induction h with
  | nil => exact .nil
  | blank hc hs ih => simpa [List.dropWhile_cons, hc] using ih
  | comment hlen ht hs ih =>
    obtain ⟨u, rfl⟩ := ht
    have hslash : isBlank '/' = false := by decide
    simpa [List.dropWhile_cons, hslash] using IsGap.comment hlen ⟨u, rfl⟩ hs

end Lexis

/-- Blanks, and comments as they are read: they start with a slash and have no role. -/
def PlainTrivia : Tree → Prop
  | .gap t => ∀ c ∈ t, Lexis.isBlank c = true
  | .token .comment none t => ∃ u, t = '/' :: u
  | _ => False

namespace Lexis

/-- The pieces of a gap are comments and runs of blanks. -/
theorem IsGap.plainTrivia {fuel : Nat} (h : IsGap s) (hfuel : s.length ≤ fuel) :
    ∀ g ∈ piecesOf fuel s, PlainTrivia g := by
  induction fuel generalizing s with
  | zero =>
    have hnil : s = [] := List.eq_nil_of_length_eq_zero (by omega)
    subst hnil
    simp [piecesOf]
  | succ fuel ih =>
    cases h with
    | nil => simp [piecesOf]
    | @blank c s hc hs =>
      have hno : commentLength (c :: s) = none := by
        cases hlen : commentLength (c :: s) with
        | none => rfl
        | some n =>
          obtain ⟨-, -, ⟨t, ht⟩, -⟩ := commentLength_take hlen
          cases ht
          exact absurd hc (by decide)
      have hrest : IsGap ((c :: s).dropWhile isBlank) := (IsGap.blank hc hs).dropWhile
      have hlen : ((c :: s).dropWhile isBlank).length ≤ fuel := by
        have := (List.dropWhile_sublist (p := isBlank) (l := s)).length_le
        rw [List.dropWhile_cons, if_pos hc]
        simp at hfuel
        omega
      simp only [piecesOf, hno]
      split
      · rename_i hnil
        simp [hc] at hnil
      · rw [drop_length_takeWhile]
        refine List.forall_mem_cons.2 ⟨?_, ih hrest hlen⟩
        exact List.all_eq_true.1 List.all_takeWhile
    | @comment t s hcomment ht hs =>
      obtain ⟨u, rfl⟩ := ht
      have hlen : s.length ≤ fuel := by
        simp at hfuel
        omega
      simp only [List.cons_append, piecesOf]
      simp only [List.cons_append] at hcomment
      rw [hcomment]
      refine List.forall_mem_cons.2 ⟨?_, ?_⟩
      · exact ⟨u, by simp⟩
      · simpa using ih hs hlen

theorem plainTrivia_pieces (s : List Char) :
    ∀ g ∈ lexicon.pieces (s.take (lexicon.gapLength s)), PlainTrivia g :=
  (isGap_take s).plainTrivia (Nat.le_refl _)

/-! ## Names -/

/-- Characters that names are written with; the last three only occur in escapes. -/
def isWordChar (c : Char) : Bool := isNamePart c || c == '\\' || c == '{' || c == '}'

/-- Texts that can be the text of a name; the first character does not end an escape. -/
def Wordlike (t : List Char) : Prop :=
  (∃ c u, t = c :: u ∧ (isNameStart c || c == '\\') = true) ∧ ∀ c ∈ t, isWordChar c = true

theorem isWordChar_of_isHexDigit {c : Char} (h : isHexDigit c = true) : isWordChar c = true := by
  simp only [isHexDigit, Bool.or_eq_true, Bool.and_eq_true, decide_eq_true_eq] at h
  simp only [isWordChar, isNamePart, isLetter, Bool.or_eq_true, Bool.and_eq_true,
    decide_eq_true_eq]
  rcases h with (h | h) | h
  · simp [h]
  · exact .inl (.inl (.inl (.inl (.inl (.inl (.inl (.inl (by omega))))))))
  · exact .inl (.inl (.inl (.inl (.inl (.inl (.inl (.inr (by omega))))))))

/-- An escape in a name has word characters only. -/
theorem unicodeEscapeLength_take (h : unicodeEscapeLength s = some n) :
    n ≤ s.length ∧ ∀ c ∈ s.take n, isWordChar c = true := by
  unfold unicodeEscapeLength at h
  split at h
  · rename_i s
    simp only at h
    split at h
    · rename_i rest hrest
      split at h
      · cases h
      · cases h
        rw [drop_length_takeWhile] at hrest
        have hsplit : s = s.takeWhile isHexDigit ++ '}' :: rest := by
          rw [← hrest, List.takeWhile_append_dropWhile]
        have hdigits : ∀ c ∈ s.takeWhile isHexDigit, isHexDigit c = true :=
          List.all_eq_true.1 List.all_takeWhile
        generalize s.takeWhile isHexDigit = digits at hsplit hdigits
        subst hsplit
        refine ⟨by simp, fun c hc => ?_⟩
        have htake : ('u' :: '{' :: (digits ++ '}' :: rest)).take (digits.length + 3) =
            'u' :: '{' :: (digits ++ ['}']) := by
          simp [List.take_append, List.take_of_length_le (Nat.le_succ digits.length)]
        rw [htake] at hc
        simp only [List.mem_cons, List.mem_append, List.not_mem_nil, or_false] at hc
        rcases hc with rfl | rfl | hc | rfl
        · decide
        · decide
        · exact isWordChar_of_isHexDigit (hdigits c hc)
        · decide
    · cases h
  · split at h
    · rename_i a b c d rest _ hhex
      cases h
      simp only [Bool.and_eq_true] at hhex
      refine ⟨by simp, fun x hx => ?_⟩
      simp only [List.take_succ_cons, List.take_zero, List.mem_cons, List.not_mem_nil,
        or_false] at hx
      rcases hx with rfl | rfl | rfl | rfl | rfl
      · decide
      · exact isWordChar_of_isHexDigit hhex.1.1.1
      · exact isWordChar_of_isHexDigit hhex.1.1.2
      · exact isWordChar_of_isHexDigit hhex.1.2
      · exact isWordChar_of_isHexDigit hhex.2
    · cases h
  · cases h

theorem nameFrom_skip (h : n ≤ s.length) : nameFrom n s = n + nameFrom 0 (s.drop n) := by
  induction n generalizing s with
  | zero => simp
  | succ n ih =>
    cases s with
    | nil => simp at h
    | cons c s =>
      rw [nameFrom, ih (by simpa using h), List.drop_succ_cons]
      omega

theorem isWordChar_of_mem_take (s : List Char) : ∀ c ∈ s.take (nameFrom 0 s), isWordChar c = true :=
  match s with
  | [] => by simp
  | c :: s => by
    rw [nameFrom]
    split
    · rename_i hc
      rw [List.take_succ_cons]
      exact List.forall_mem_cons.2 ⟨by simp [isWordChar, hc], isWordChar_of_mem_take s⟩
    · split
      · rename_i hslash
        split
        · rename_i n hn
          obtain ⟨hle, hescape⟩ := unicodeEscapeLength_take hn
          rw [List.take_succ_cons, nameFrom_skip hle, List.take_add]
          refine List.forall_mem_cons.2 ⟨by simp [isWordChar, hslash], ?_⟩
          exact List.forall_mem_append.2 ⟨hescape, isWordChar_of_mem_take (s.drop n)⟩
        · simp
      · simp
termination_by s.length
decreasing_by
  all_goals
    simp only [List.length_drop, List.length_cons]
    omega

/-- What is read as a name is a word. -/
theorem wordlike_of_name {test : List Char → Bool} (h : name test s = some n) :
    Wordlike (s.take n) := by
  have hn : n = nameLength s ∧ n ≠ 0 := by
    simp only [name] at h
    split at h
    · cases h
    · split at h
      · cases h
        exact ⟨rfl, ‹_›⟩
      · cases h
  cases s with
  | nil => exact absurd hn.1 hn.2
  | cons c s =>
    simp only [nameLength] at hn
    split at hn
    · rename_i hstart
      obtain ⟨m, rfl⟩ : ∃ m, n = m + 1 := ⟨n - 1, by omega⟩
      refine ⟨⟨c, s.take m, List.take_succ_cons, hstart⟩, ?_⟩
      rw [hn.1]
      exact isWordChar_of_mem_take (c :: s)
    · exact absurd hn.1 hn.2

end Lexis

/-! ## Marks -/

theorem take_of_mark {w stop : List Char} (h : Lexis.mark w stop s = some n) : s.take n = w := by
  simp only [Lexis.mark] at h
  split at h
  · rename_i hstart
    obtain ⟨r, rfl⟩ := Text.startsWith_iff.1 hstart
    have hn : n = w.length := by
      split at h
      · split at h
        · cases h
        · exact (Option.some.inj h).symm
      · exact (Option.some.inj h).symm
    rw [hn, List.take_left]
  · cases h

end Script

end ReactWeave
