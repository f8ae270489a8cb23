import ReactWeave.Proofs.HandleUses

/-!
# ReactWeave.Proofs.GetterCalls

**Calling getters is settled after one pass over a text, in any order.**

The reads of getters are replaced name by name, each pass scanning what the one
before it left. For names that are words other than `state` the passes do not get
into each other's way: no read starts inside another read or inside a call, and a
replacement changes nothing that a scanner looks at around it.

* `isGetter_of_callGetters`: getters stay getters.
-/

namespace ReactWeave.State

/-! ## Reads -/

theorem isNamePart_of_isBlank {c : Char} (h : Text.isBlank c = true) : isNamePart c = false := by
  have hnumber : c.toNat ≤ 32 ∨ c.toNat ∈ wideBlanks := by
    simp only [Text.isBlank, Bool.or_eq_true, Bool.and_eq_true, beq_iff_eq,
      decide_eq_true_eq] at h
    simp only [wideBlanks, List.mem_cons, List.not_mem_nil, or_false]
    omega
  have hne (d : Char) (hd : Text.isBlank d = false) : c ≠ d := by
    rintro rfl
    simp [h] at hd
  simp [isNamePart, Text.isWord, Text.classOf_of_blank hnumber, hne '$' (by decide),
    hne '_' (by decide)]

/-- Whether what follows a name ends it and does not call it. -/
def Uncalled (rest : List Char) : Prop :=
  (∀ c ∈ rest.head?, isNamePart c = false) ∧ (Text.trimStart rest).head? ≠ some '('

variable {name s rest link u : List Char} {n : Nat} {before : Option Char} {ps : List Snippet}

theorem isUncalled_iff : isUncalled name s = true ↔ ∃ rest, s = name ++ rest ∧ Uncalled rest := by
  have happend (rest : List Char) : isUncalled name (name ++ rest) = true ↔ Uncalled rest := by
    have hstart : Text.startsWith name (name ++ rest) = true := Text.startsWith_iff.2 ⟨rest, rfl⟩
    rw [isUncalled, hstart, List.drop_left, Bool.true_and]
    cases rest with
    | nil => simp [Uncalled, Text.trimStart]
    | cons c rest => simp [Uncalled]
  constructor
  · intro h
    obtain ⟨rest, rfl⟩ := Text.startsWith_iff.1 (Bool.and_eq_true_iff.1 h).1
    exact ⟨rest, rfl, (happend rest).1 h⟩
  · rintro ⟨rest, rfl, hrest⟩
    exact (happend rest).2 hrest

/-- Names that do not start with white space and can stand in a replacement text. -/
structure IsLiteralName (name : List Char) : Prop where
  starts : ∃ c name', name = c :: name' ∧ Text.isBlank c = false
  plain : '\\' ∉ name

/-- Names of getters that are words other than `state`. -/
structure IsGetterName (name : List Char) : Prop where
  ne_nil : name ≠ []
  parts : ∀ c ∈ name, isNamePart c = true
  ne_state : name ≠ stateWord

theorem IsGetterName.isLiteralName (h : IsGetterName name) : IsLiteralName name := by
  refine ⟨?_, fun hmem => absurd (h.parts _ hmem) (by decide)⟩
  obtain ⟨c, name', rfl⟩ := List.exists_cons_of_ne_nil h.ne_nil
  refine ⟨c, name', rfl, ?_⟩
  rw [Bool.eq_false_iff]
  intro hblank
  exact absurd (h.parts c List.mem_cons_self) (by simp [isNamePart_of_isBlank hblank])

theorem IsGetterName.trimStart_append (h : IsGetterName name) (rest : List Char) :
    Text.trimStart (name ++ rest) = name ++ rest := by
  obtain ⟨c, name', rfl, hc⟩ := h.isLiteralName.starts
  exact List.dropWhile_cons_of_neg (by simp [hc])

theorem IsGetterName.getLast?_append (h : IsGetterName name) (u : List Char)
    (before : Option Char) : (u ++ name).getLast?.or before = name.getLast? := by
  rw [List.getLast?_append]
  cases hlast : name.getLast? with
  | none => exact absurd (List.getLast?_eq_none_iff.1 hlast) h.ne_nil
  | some c => rfl

/-- A name is found behind blanks exactly where it stands and is not called. -/
theorem blanksBefore?_eq_some (hname : IsLiteralName name) :
    blanksBefore? name s = some n ↔
      ∃ w rest, s = w ++ (name ++ rest) ∧ (∀ c ∈ w, Text.isBlank c = true) ∧ Uncalled rest ∧
        n = w.length := by
  constructor
  · intro h
    induction s generalizing n with
    | nil =>
      rw [blanksBefore?] at h
      split at h
      · rename_i huncalled
        obtain ⟨rest, hs, hrest⟩ := isUncalled_iff.1 huncalled
        exact ⟨[], rest, hs, by simp, hrest, (Option.some.inj h).symm⟩
      · cases h
    | cons c s ih =>
      rw [blanksBefore?] at h
      split at h
      · rename_i m hm
        split at hm
        · rename_i hc
          obtain ⟨w, rest, rfl, hw, hrest, rfl⟩ := ih hm
          exact ⟨c :: w, rest, rfl, List.forall_mem_cons.2 ⟨hc, hw⟩, hrest,
            (Option.some.inj h).symm⟩
        · cases hm
      · split at h
        · rename_i huncalled
          obtain ⟨rest, hs, hrest⟩ := isUncalled_iff.1 huncalled
          exact ⟨[], rest, hs, by simp, hrest, (Option.some.inj h).symm⟩
        · cases h
  · rintro ⟨w, rest, rfl, hw, hrest, rfl⟩
    induction w with
    | nil =>
      obtain ⟨c, name', rfl, hc⟩ := hname.starts
      have huncalled : isUncalled (c :: name') (c :: (name' ++ rest)) = true :=
        isUncalled_iff.2 ⟨rest, rfl, hrest⟩
      rw [List.nil_append, List.cons_append, blanksBefore?]
      simp [hc, huncalled]
    | cons c w ih =>
      rw [List.forall_mem_cons] at hw
      rw [List.cons_append, blanksBefore?, if_pos hw.1, ih hw.2]
      rfl

/-- The scanner for a getter finds an access, the name, and something behind it that ends the name
and does not call it. -/
theorem readLength?_eq_some (hname : IsLiteralName name) :
    readLength? name s = some n ↔
      ∃ link rest, s = link ++ (name ++ rest) ∧ IsAccess stateWord link ∧ Uncalled rest ∧
        n = link.length + name.length := by
  constructor
  · intro h
    obtain ⟨behind, hbehind, h⟩ := Option.bind_eq_some_iff.1 h
    obtain ⟨m, hm, rfl⟩ := Option.map_eq_some_iff.1 h
    obtain ⟨w₁, rfl, hw₁⟩ := behindDot?_eq_some.1 hbehind
    obtain ⟨w₂, rest, rfl, hw₂, hrest, rfl⟩ := (blanksBefore?_eq_some hname).1 hm
    have hword : "state".toList = stateWord := rfl
    refine ⟨stateWord ++ (w₁ ++ '.' :: w₂), rest, by simp, ⟨w₁, w₂, rfl, hw₁, hw₂⟩, hrest, ?_⟩
    simp only [hword, List.length_append, List.length_cons]
    omega
  · rintro ⟨link, rest, rfl, ⟨w₁, w₂, rfl, hw₁, hw₂⟩, hrest, rfl⟩
    have hbehind : behindDot? "state".toList (stateWord ++ (w₁ ++ '.' :: w₂) ++ (name ++ rest)) =
        some (w₂ ++ (name ++ rest)) := behindDot?_eq_some.2 ⟨w₁, by simp, hw₁⟩
    have hblanks := (blanksBefore?_eq_some hname).2 ⟨w₂, rest, rfl, hw₂, hrest, rfl⟩
    rw [readLength?, hbehind, Option.bind_some, hblanks, Option.map_some]
    simp only [List.length_append, List.length_cons, Option.some.injEq]
    omega

/-! ## Texts in pieces -/

/-- A piece of a code: a single character, or an uncalled read of a name. -/
inductive Snippet where
  | char (c : Char)
  /-- What comes in front of the name is an access to the state. -/
  | read (link name : List Char)

/-- The text of a piece. -/
def Snippet.text : Snippet → List Char
  | char c => [c]
  | read link name => link ++ name

/-- The text that pieces make up. -/
def joined (ps : List Snippet) : List Char := ps.flatMap Snippet.text

@[simp] theorem joined_nil : joined [] = [] := rfl

@[simp] theorem joined_char (c : Char) (ps : List Snippet) :
    joined (.char c :: ps) = c :: joined ps := rfl

@[simp] theorem joined_read (link name : List Char) (ps : List Snippet) :
    joined (.read link name :: ps) = link ++ (name ++ joined ps) := List.append_assoc _ _ _

@[simp] theorem joined_append (ps qs : List Snippet) : joined (ps ++ qs) = joined ps ++ joined qs :=
  List.flatMap_append

@[simp] theorem joined_chars (u : List Char) : joined (u.map .char) = u := by
  induction u with
  | nil => rfl
  | cons c u ih => rw [List.map_cons, joined_char, ih]

/-- Whether `link` and `name` are a member of the state in front of `rest`. -/
structure IsMember (link name rest : List Char) : Prop where
  link : IsAccess stateWord link
  name : IsGetterName name
  ends : ∀ c ∈ rest.head?, isNamePart c = false

/-- Whether `link` and `name` are an uncalled read in front of `rest`. -/
structure IsRead (link name rest : List Char) : Prop extends IsMember link name rest where
  uncalled : (Text.trimStart rest).head? ≠ some '('

/-- Whether a text starts with an uncalled read. -/
def StartsRead (s : List Char) : Prop :=
  ∃ link name rest, s = link ++ (name ++ rest) ∧ IsRead link name rest

/-- Whether pieces cut a text behind the character `before` at its reads: the first read is taken
where it starts, and the text is cut further behind it. -/
inductive Cut : Option Char → List Snippet → Prop where
  | nil {before : Option Char} : Cut before []
  | char {before : Option Char} {c : Char} {ps : List Snippet}
      (hnone : startsName before = true → ¬StartsRead (c :: joined ps)) (hrest : Cut (some c) ps) :
      Cut before (.char c :: ps)
  | read {before : Option Char} {link name : List Char} {ps : List Snippet}
      (hbefore : startsName before = true) (hread : IsRead link name (joined ps))
      (hrest : Cut name.getLast? ps) : Cut before (.read link name :: ps)

/-- Every text can be cut into reads of the state and other characters. -/
theorem exists_cut (before : Option Char) (s : List Char) :
    ∃ ps, joined ps = s ∧ Cut before ps := by
  induction hn : s.length using Nat.strong_induction_on generalizing before s with
  | _ n ih =>
    by_cases hstart : startsName before = true ∧ StartsRead s
    · obtain ⟨hbefore, link, name, rest, rfl, hread⟩ := hstart
      have hlt : rest.length < n := by
        have := List.length_pos_of_ne_nil hread.name.ne_nil
        simp only [List.length_append] at hn
        omega
      obtain ⟨ps, rfl, hps⟩ := ih _ hlt name.getLast? rest rfl
      exact ⟨.read link name :: ps, by simp, .read hbefore hread hps⟩
    · cases s with
      | nil => exact ⟨[], rfl, .nil⟩
      | cons c s =>
        obtain ⟨ps, rfl, hps⟩ := ih _ (by simp [← hn]) (some c) s rfl
        exact ⟨.char c :: ps, rfl, .char (fun hbefore h => hstart ⟨hbefore, h⟩) hps⟩

/-! ## Where reads start -/

/-- Whether a text starts with the word `state`. -/
def StartsState (s : List Char) : Prop :=
  ∃ rest, s = stateWord ++ rest ∧ ∀ c ∈ rest.head?, isNamePart c = false

theorem isNamePart_behind (hw : ∀ c ∈ u, Text.isBlank c = true) (rest : List Char) :
    ∀ c ∈ (u ++ '.' :: rest).head?, isNamePart c = false := by
  intro c hc
  cases u with
  | nil =>
    obtain rfl := Option.some.inj hc
    decide
  | cons b u =>
    obtain rfl := Option.some.inj hc
    exact isNamePart_of_isBlank (hw b List.mem_cons_self)

theorem IsAccess.startsState (h : IsAccess stateWord link) (rest : List Char) :
    StartsState (link ++ rest) := by
  obtain ⟨w₁, w₂, rfl, hw₁, -⟩ := h
  exact ⟨w₁ ++ '.' :: (w₂ ++ rest), by simp, isNamePart_behind hw₁ _⟩

theorem StartsRead.startsState (h : StartsRead s) : StartsState s := by
  obtain ⟨link, name, rest, rfl, hread⟩ := h
  exact hread.link.startsState _

/-- A name ends where no character of a name follows, so it is read in one way. -/
theorem name_unique {name' rest' : List Char} (hname : ∀ c ∈ name, isNamePart c = true)
    (hname' : ∀ c ∈ name', isNamePart c = true) (hrest : ∀ c ∈ rest.head?, isNamePart c = false)
    (hrest' : ∀ c ∈ rest'.head?, isNamePart c = false) (h : name ++ rest = name' ++ rest') :
    name = name' ∧ rest = rest' := by
  have htake : ∀ {name rest : List Char}, (∀ c ∈ name, isNamePart c = true) →
      (∀ c ∈ rest.head?, isNamePart c = false) →
      (name ++ rest).takeWhile isNamePart = name := by
    intro name rest hname hrest
    rw [List.takeWhile_append_of_pos hname]
    cases rest with
    | nil => simp
    | cons c rest =>
      rw [List.takeWhile_cons_of_neg (by simp [hrest c rfl]), List.append_nil]
  have heq : name = name' := by rw [← htake hname hrest, h, htake hname' hrest']
  subst heq
  exact ⟨rfl, List.append_cancel_left h⟩

/-- A member of the state is read in one way. -/
theorem IsMember.unique {link' name' rest' : List Char} (h : IsMember link name rest)
    (h' : IsMember link' name' rest') (heq : link ++ (name ++ rest) = link' ++ (name' ++ rest')) :
    link = link' ∧ name = name' ∧ rest = rest' := by
  have hlength := accessLength?_eq_some.2
    ⟨link, name ++ rest, rfl, h.link, h.name.trimStart_append rest, rfl⟩
  have hlength' := accessLength?_eq_some.2
    ⟨link', name' ++ rest', rfl, h'.link, h'.name.trimStart_append rest', rfl⟩
  rw [heq, hlength', Option.some.injEq] at hlength
  obtain ⟨rfl, hnames⟩ := List.append_inj heq hlength.symm
  exact ⟨rfl, name_unique h.name.parts h'.name.parts h.ends h'.ends hnames⟩

/-- No access to the state starts inside a member. -/
theorem IsMember.eq_nil_of_startsState {v : List Char} (h : IsMember link name rest)
    (heq : link ++ (name ++ rest) = u ++ v) (hlt : u.length < link.length + name.length)
    (hv : StartsState v) (hu : startsName (u.getLast?.or before) = true) : u = [] := by
  obtain ⟨after, rfl, hafter⟩ := hv
  rcases Nat.lt_or_ge u.length link.length with hinside | hbehind
  · -- inside the access, only its first character is an `s`
    obtain ⟨link', hlink, hne⟩ := h.link.eq_cons
    cases u with
    | nil => rfl
    | cons d u =>
      obtain ⟨m, hm⟩ : (d :: u) ++ ['s'] <+: link :=
        List.prefix_of_prefix_length_le ⟨['t', 'a', 't', 'e'] ++ after, by rw [heq]; simp⟩
          ⟨_, rfl⟩ (by rw [List.length_append, List.length_singleton]; exact hinside)
      rw [hlink, List.cons_append, List.cons_append, List.cons.injEq] at hm
      exact absurd rfl (hne 's' (by rw [← hm.2]; simp))
  · obtain ⟨m, rfl⟩ : link <+: u := List.prefix_of_prefix_length_le ⟨_, rfl⟩ ⟨_, heq.symm⟩ hbehind
    rw [List.append_assoc] at heq
    have hm := List.append_cancel_left heq
    cases hlast : m.getLast? with
    | none =>
      -- at the start of the name, the name would be `state`
      rw [List.getLast?_eq_none_iff.1 hlast] at hm
      exact absurd (name_unique h.name.parts (by decide) h.ends hafter hm).1 h.name.ne_state
    | some c =>
      obtain ⟨w, rfl⟩ : m <+: name := by
        refine List.prefix_of_prefix_length_le ⟨_, hm.symm⟩ ⟨_, rfl⟩ ?_
        rw [List.length_append] at hlt
        omega
      have hc := h.name.parts c (List.mem_append_left _ (List.mem_of_getLast? hlast))
      simp [startsName, List.getLast?_append, hlast, hc] at hu

/-! ## Settled texts -/

/-- The call of a getter. -/
def callText (name : List Char) : List Char := stateWord ++ ['.'] ++ name ++ ['(', ')']

/-- A piece after the reads of some names have become calls. -/
def Snippet.settle (names : List (List Char)) : Snippet → List Snippet
  | char c => [.char c]
  | read link name => if name ∈ names then (callText name).map .char else [.read link name]

/-- Pieces after the reads of some names have become calls. -/
def settle (names : List (List Char)) (ps : List Snippet) : List Snippet :=
  ps.flatMap (Snippet.settle names)

variable (names : List (List Char))

@[simp] theorem settle_char (c : Char) (ps : List Snippet) :
    settle names (.char c :: ps) = .char c :: settle names ps := rfl

@[simp] theorem settle_chars (u : List Char) (ps : List Snippet) :
    settle names (u.map .char ++ ps) = u.map .char ++ settle names ps := by
  induction u with
  | nil => rfl
  | cons c u ih => rw [List.map_cons, List.cons_append, settle_char, ih, List.cons_append]

/-- A read of a listed name becomes the text of its call. -/
theorem settle_of_mem {names : List (List Char)} (h : name ∈ names) (ps : List Snippet) :
    settle names (.read link name :: ps) = (callText name).map .char ++ settle names ps := by
  rw [settle, List.flatMap_cons, Snippet.settle, if_pos h]
  rfl

/-- A read of another name stays. -/
theorem settle_of_not_mem {names : List (List Char)} (h : name ∉ names) (ps : List Snippet) :
    settle names (.read link name :: ps) = .read link name :: settle names ps := by
  rw [settle, List.flatMap_cons, Snippet.settle, if_neg h]
  rfl

theorem startsState_settle (h : Cut before (.read link name :: ps)) :
    StartsState (joined (settle names (.read link name :: ps))) := by
  cases h with
  | read _ hread _ =>
    by_cases hmem : name ∈ names
    · rw [settle_of_mem hmem, joined_append, joined_chars, callText]
      exact ⟨'.' :: (name ++ ['(', ')']) ++ joined (settle names ps), by simp, by simp; decide⟩
    · rw [settle_of_not_mem hmem, joined_read]
      exact hread.link.startsState _

/-- Calls do not change what a text starts with, nor what follows the blanks there. -/
theorem trimStart_head?_settle (h : Cut before ps) :
    (joined (settle names ps)).head? = (joined ps).head? ∧
      (Text.trimStart (joined (settle names ps))).head? = (Text.trimStart (joined ps)).head? := by
  induction h with
  | nil => exact ⟨rfl, rfl⟩
  | @char before c ps _ _ ih =>
    refine ⟨rfl, ?_⟩
    rw [settle_char, joined_char, joined_char, Text.trimStart, Text.trimStart]
    cases hc : Text.isBlank c with
    | true =>
      rw [List.dropWhile_cons_of_pos hc, List.dropWhile_cons_of_pos hc]
      exact ih.2
    | false =>
      rw [List.dropWhile_cons_of_neg (by simp [hc]), List.dropWhile_cons_of_neg (by simp [hc])]
      rfl
  | @read before link name ps hbefore hread hrest _ =>
    obtain ⟨r, hr, -⟩ := startsState_settle names (.read hbefore hread hrest)
    obtain ⟨r', hr', -⟩ := hread.link.startsState (name ++ joined ps)
    rw [hr, joined_read, hr']
    exact ⟨rfl, rfl⟩

theorem isRead_settle_iff (h : Cut before ps) :
    IsRead link name (joined (settle names ps)) ↔
      IsRead link name (joined ps) := by
  obtain ⟨hhead, htrim⟩ := trimStart_head?_settle names h
  constructor
  · intro hread
    exact ⟨⟨hread.link, hread.name, hhead ▸ hread.ends⟩, htrim ▸ hread.uncalled⟩
  · intro hread
    exact ⟨⟨hread.link, hread.name, hhead.symm ▸ hread.ends⟩, htrim.symm ▸ hread.uncalled⟩

/-- Text in front of which no access starts was there before the calls. -/
theorem Cut.exists_chars {names : List (List Char)} (h : Cut before ps)
    (heq : joined (settle names ps) = u ++ rest)
    (hu : ∀ x y, u = x ++ y → y ≠ [] → StartsState (y ++ rest) →
      startsName (x.getLast?.or before) = false) :
    ∃ qs, ps = u.map .char ++ qs ∧ joined (settle names qs) = rest ∧
      Cut (u.getLast?.or before) qs := by
  induction u generalizing before ps with
  | nil => exact ⟨ps, rfl, heq, h⟩
  | cons c u ih =>
    cases ps with
    | nil => cases heq
    | cons p ps =>
      cases p with
      | char d =>
        cases h with
        | char _ hrest =>
          rw [settle_char, joined_char, List.cons_append, List.cons.injEq] at heq
          obtain ⟨rfl, heq⟩ := heq
          obtain ⟨qs, rfl, hqs, hcut⟩ := ih hrest heq (by
            intro x y hxy hy hstart
            rw [← getLast?_cons_or d x before]
            exact hu (d :: x) y (by rw [hxy, List.cons_append]) hy hstart)
          refine ⟨qs, rfl, hqs, ?_⟩
          rwa [getLast?_cons_or]
      | read link name =>
        have hstart := startsState_settle names h
        rw [heq] at hstart
        have hbefore := hu [] (c :: u) rfl (by simp) hstart
        cases h with
        | read hname _ _ => simp [hname] at hbefore

/-- Calls make no new reads. -/
theorem Cut.startsRead_of_settle {names : List (List Char)} {c : Char} (h : Cut (some c) ps)
    (hread : StartsRead (c :: joined (settle names ps))) : StartsRead (c :: joined ps) := by
  obtain ⟨link, name, rest, heq, hread⟩ := hread
  obtain ⟨link', rfl, -⟩ := hread.link.eq_cons
  rw [List.cons_append, List.cons.injEq] at heq
  obtain ⟨rfl, heq⟩ := heq
  rw [← List.append_assoc] at heq
  obtain ⟨qs, rfl, hqs, hcut⟩ := h.exists_chars heq (by
    intro x y hxy hy hstart
    rw [Bool.eq_false_iff, ← getLast?_cons_or 's' x none]
    intro hx
    have hsplit : 's' :: link' ++ (name ++ rest) = ('s' :: x) ++ (y ++ rest) := by
      rw [List.cons_append, ← List.append_assoc, hxy]
      simp
    have hlt : ('s' :: x).length < ('s' :: link').length + name.length := by
      have hlength := congrArg List.length hxy
      have := List.length_pos_of_ne_nil hy
      simp only [List.length_append, List.length_cons] at hlength ⊢
      omega
    cases hread.eq_nil_of_startsState hsplit hlt hstart hx)
  refine ⟨'s' :: link', name, joined qs, by simp, (isRead_settle_iff names hcut).1 ?_⟩
  rwa [hqs]

theorem Cut.chars (hu : ∀ x y, u = x ++ y → y ≠ [] → startsName (x.getLast?.or before) = true →
      ¬StartsRead (y ++ joined ps)) (hps : Cut (u.getLast?.or before) ps) :
    Cut before (u.map .char ++ ps) := by
  induction u generalizing before with
  | nil => exact hps
  | cons c u ih =>
    refine .char (fun hbefore => ?_) (ih (fun x y hxy hy => ?_) ?_)
    · rw [List.append_eq, joined_append, joined_chars]
      exact hu [] (c :: u) rfl (by simp) hbefore
    · rw [← getLast?_cons_or c x before]
      exact hu (c :: x) y (by rw [hxy, List.cons_append]) hy
    · rwa [← getLast?_cons_or c u before]

/-- What stands in front of a cut does not matter where no name goes on. -/
theorem Cut.behind (h : Cut before ps) (hhead : ∀ c ∈ (joined ps).head?, isNamePart c = false)
    (before' : Option Char) : Cut before' ps := by
  cases h with
  | nil => exact .nil
  | @char _ c ps _ hrest =>
    refine .char (fun _ hread => ?_) hrest
    obtain ⟨rest, heq, -⟩ := hread.startsState
    obtain rfl : c = 's' := (List.cons.inj heq).1
    exact absurd (hhead 's' rfl) (by decide)
  | read _ hread _ =>
    obtain ⟨link', rfl, -⟩ := hread.link.eq_cons
    exact absurd (hhead 's' rfl) (by decide)

/-- There is no read in the text of a call. -/
theorem not_startsRead_callText {x y : List Char} (hname : IsGetterName name)
    (h : callText name = x ++ y) (hy : y ≠ []) (hx : startsName (x.getLast?.or before) = true) :
    ¬StartsRead (y ++ rest) := by
  intro hread
  have hmember : IsMember (stateWord ++ ['.']) name (['(', ')'] ++ rest) :=
    ⟨⟨[], [], rfl, by simp, by simp⟩, hname, by simp; decide⟩
  have heq : stateWord ++ ['.'] ++ (name ++ (['(', ')'] ++ rest)) = x ++ (y ++ rest) := by
    rw [← List.append_assoc x, ← h, callText]
    simp
  have hlt : x.length < (stateWord ++ ['.']).length + name.length := by
    by_contra hle
    obtain ⟨z, rfl⟩ : stateWord ++ ['.'] ++ name <+: x :=
      List.prefix_of_prefix_length_le ⟨_, rfl⟩ ⟨_, h.symm⟩ (by rw [List.length_append]; omega)
    rw [callText, List.append_assoc _ z, List.append_cancel_left_eq] at h
    obtain ⟨c, y, rfl⟩ := List.exists_cons_of_ne_nil hy
    obtain ⟨after, hs, -⟩ := hread.startsState
    obtain rfl : c = 's' := (List.cons.inj hs).1
    have hmem : 's' ∈ ['(', ')'] := by rw [h]; simp
    exact absurd hmem (by decide)
  obtain rfl := hmember.eq_nil_of_startsState heq hlt hread.startsState hx
  -- the call as a whole is a member that is called
  obtain ⟨link', name', rest', heq', hread'⟩ := hread
  rw [List.nil_append, heq'] at heq
  obtain ⟨-, -, hrest⟩ := hmember.unique hread'.toIsMember heq
  exact hread'.uncalled (by rw [← hrest]; rfl)

/-- **A cut text stays cut** when getters are called. -/
theorem Cut.settle (h : Cut before ps) : Cut before (settle names ps) := by
  induction h with
  | nil => exact .nil
  | char hnone hrest ih =>
    exact .char (fun hbefore hread => hnone hbefore (hrest.startsRead_of_settle hread)) ih
  | @read before link name ps hbefore hread hrest ih =>
    have hread' := (isRead_settle_iff names hrest).2 hread
    by_cases hmem : name ∈ names
    · rw [settle_of_mem hmem]
      exact .chars (fun x y hxy hy hx => not_startsRead_callText hread.name hxy hy hx)
        (ih.behind hread'.ends _)
    · rw [settle_of_not_mem hmem]
      exact .read hbefore hread' ih

/-! ## Scanning pieces -/

/-- The replacement text for the reads of a getter. -/
def callTemplate (name : List Char) : List TemplatePart := (callText name).map fun c => .text [c]

theorem Template.readFrom_plain (hs : '\\' ∉ s) :
    Template.readFrom 0 s = .ok (s.map fun c => .text [c]) := by
  induction s with
  | nil => rfl
  | cons c s ih =>
    rw [List.mem_cons, not_or] at hs
    rw [Template.readFrom]
    · rw [ih hs.2]
      rfl
    · exact fun h => hs.1 h.symm

theorem getterCall_eq_ok (hname : IsLiteralName name) :
    getterCall name = .ok (callTemplate name) := by
  have hplain : '\\' ∉ callText name := by simp [callText, hname.plain]
  exact Template.readFrom_plain hplain

theorem fill_callTemplate (whole name : List Char) :
    Template.fill whole (callTemplate name) = callText name := by
  rw [Template.fill, callTemplate, List.flatMap_map]
  exact List.flatMap_singleton' _

theorem callFrom_skip (name : List Char) (template : List TemplatePart) (before : Option Char)
    (a s : List Char) :
    callFrom name template before a.length (a ++ s) =
      callFrom name template (a.getLast?.or before) 0 s := by
  induction a generalizing before with
  | nil => simp
  | cons c a ih => rw [List.length_cons, List.cons_append, callFrom, ih, getLast?_cons_or]

/-- The scan copies what holds no read of the name. -/
theorem callFrom_copy {template : List TemplatePart}
    (hu : ∀ x y, u = x ++ y → y ≠ [] → startsName (x.getLast?.or before) = true →
      readLength? name (y ++ s) = none) :
    callFrom name template before 0 (u ++ s) =
      u ++ callFrom name template (u.getLast?.or before) 0 s := by
  induction u generalizing before with
  | nil => simp
  | cons c u ih =>
    have hnone :
        (if startsName before then readLength? name (c :: (u ++ s)) else none) = none := by
      split
      · rename_i hbefore
        exact hu [] (c :: u) rfl (by simp) hbefore
      · rfl
    rw [List.cons_append, callFrom, hnone, getLast?_cons_or, List.cons_append]
    rw [ih fun x y hxy hy hx => hu (c :: x) y (by rw [hxy, List.cons_append]) hy
      (by rwa [getLast?_cons_or])]

theorem startsRead_of_readLength? (hname : IsGetterName name) (h : readLength? name s = some n) :
    ∃ link rest, s = link ++ (name ++ rest) ∧ IsRead link name rest := by
  obtain ⟨link, rest, rfl, hlink, hrest, -⟩ := (readLength?_eq_some hname.isLiteralName).1 h
  exact ⟨link, rest, rfl, ⟨⟨hlink, hname, hrest.1⟩, hrest.2⟩⟩

/-- **One scan calls one getter**: every read of its name, and nothing else. -/
theorem callFrom_joined (hname : IsGetterName name) (h : Cut before ps) :
    callFrom name (callTemplate name) before 0 (joined ps) = joined (settle [name] ps) := by
  induction h with
  | nil => rfl
  | @char before c ps hnone hrest ih =>
    rw [settle_char, joined_char, joined_char, ← ih]
    refine callFrom_copy (u := [c]) fun x y hxy hy hx => ?_
    obtain ⟨rfl, rfl⟩ : x = [] ∧ y = [c] := by
      rcases List.append_eq_singleton_iff.1 hxy.symm with hcase | ⟨-, rfl⟩
      · exact hcase
      · exact absurd rfl hy
    rw [Option.eq_none_iff_forall_ne_some]
    intro n hn
    obtain ⟨link, rest, heq, hread⟩ := startsRead_of_readLength? hname hn
    exact hnone hx ⟨link, name, rest, heq, hread⟩
  | @read before link name' ps hbefore hread hrest ih =>
    by_cases hsame : name' = name
    · subst hsame
      have hlength := (readLength?_eq_some hname.isLiteralName).2
        ⟨link, joined ps, rfl, hread.link, ⟨hread.ends, hread.uncalled⟩, rfl⟩
      obtain ⟨link', rfl, -⟩ := hread.link.eq_cons
      rw [List.cons_append] at hlength
      have hskip : ('s' :: link').length + name'.length - 1 = (link' ++ name').length := by
        simp only [List.length_cons, List.length_append]
        omega
      rw [settle_of_mem (List.mem_singleton_self _), joined_append, joined_chars, ← ih,
        joined_read, List.cons_append, callFrom, if_pos hbefore, hlength]
      simp only
      rw [fill_callTemplate, hskip, ← List.append_assoc link', callFrom_skip,
        hname.getLast?_append]
    · rw [settle_of_not_mem (by simpa using hsame), joined_read, joined_read, ← ih,
        ← List.append_assoc, ← List.append_assoc, ← hread.name.getLast?_append link before]
      refine callFrom_copy fun x y hxy hy hx => ?_
      rw [Option.eq_none_iff_forall_ne_some]
      intro n hn
      obtain ⟨link₂, rest₂, heq, hread₂⟩ := startsRead_of_readLength? hname hn
      have hsplit : link ++ (name' ++ joined ps) = x ++ (y ++ joined ps) := by
        rw [← List.append_assoc, hxy, List.append_assoc]
      have hlt : x.length < link.length + name'.length := by
        have hlength := congrArg List.length hxy
        have := List.length_pos_of_ne_nil hy
        simp only [List.length_append] at hlength
        omega
      obtain rfl := hread.eq_nil_of_startsState hsplit hlt
        (StartsRead.startsState ⟨link₂, name, rest₂, heq, hread₂⟩) hx
      rw [List.nil_append, heq] at hsplit
      exact hsame (hread.toIsMember.unique hread₂.toIsMember hsplit).2.1

/-! ## All names at once -/

theorem settle_nil (ps : List Snippet) : settle [] ps = ps := by
  induction ps with
  | nil => rfl
  | cons p ps ih =>
    cases p with
    | char c => rw [settle_char, ih]
    | read link name => rw [settle_of_not_mem List.not_mem_nil, ih]

/-- Getters may be called one after the other or all at once. -/
theorem settle_settle (names' : List (List Char)) (ps : List Snippet) :
    settle names' (settle names ps) = settle (names ++ names') ps := by
  induction ps with
  | nil => rfl
  | cons p ps ih =>
    cases p with
    | char c => rw [settle_char, settle_char, settle_char, ih]
    | read link name =>
      by_cases hmem : name ∈ names
      · rw [settle_of_mem hmem, settle_of_mem (List.mem_append_left _ hmem), settle_chars, ih]
      · rw [settle_of_not_mem hmem]
        by_cases hmem' : name ∈ names'
        · rw [settle_of_mem hmem', settle_of_mem (List.mem_append_right _ hmem'), ih]
        · rw [settle_of_not_mem hmem', settle_of_not_mem (by simp [hmem, hmem']), ih]

theorem settle_congr {names names' : List (List Char)} (h : ∀ name, name ∈ names ↔ name ∈ names')
    (ps : List Snippet) : settle names ps = settle names' ps := by
  have hpiece (p : Snippet) : p.settle names = p.settle names' := by
    cases p with
    | char c => rfl
    | read link name => simp only [Snippet.settle, h]
  exact List.flatMap_congr fun p _ => hpiece p

/-- Names of getters, none of which is unusual. -/
def AreGetterNames (names : List String) : Prop := ∀ name ∈ names, IsGetterName name.toList

theorem callGetters_cons {name : String} (hname : IsLiteralName name.toList) (names : List String)
    (code : String) :
    callGetters (name :: names) (.str code) = callGetters names
      (.str (String.ofList
        (callFrom name.toList (callTemplate name.toList) none 0 code.toList))) := by
  rw [callGetters, callGetter, getterCall_eq_ok hname]
  rfl

/-- **The passes for all names make calls of the reads of all of them.** -/
theorem callGetters_joined {names : List String} (hnames : AreGetterNames names) {code : String}
    (hcut : Cut none ps) (hps : joined ps = code.toList) :
    callGetters names (.str code) =
      .ok (.str (String.ofList (joined (settle (names.map String.toList) ps)))) := by
  induction names generalizing code ps with
  | nil => rw [List.map_nil, settle_nil, hps, String.ofList_toList, callGetters]
  | cons name names ih =>
    obtain ⟨hname, hnames⟩ := List.forall_mem_cons.1 hnames
    rw [callGetters_cons hname.isLiteralName, ← hps, callFrom_joined hname hcut,
      ih hnames (hcut.settle _) String.toList_ofList.symm, settle_settle]
    rfl

theorem callGetters_of_not_str {name : String} {names : List String} (hname : IsGetterName name.toList)
    {code : Json} (hcode : ∀ s, code ≠ .str s) :
    callGetters (name :: names) code = .error .notApplicable := by
  rw [callGetters, callGetter, getterCall_eq_ok hname.isLiteralName]
  cases code with
  | str s => exact absurd rfl (hcode s)
  | _ => rfl

/-- **The order of the getters does not matter.** -/
theorem callGetters_perm {names names' : List String} (hnames : AreGetterNames names)
    (hperm : names'.Perm names) : callGetters names' = callGetters names := by
  have hnames' : AreGetterNames names' := fun name hname => hnames name (hperm.mem_iff.1 hname)
  funext code
  by_cases hstr : ∃ s, code = .str s
  · obtain ⟨s, rfl⟩ := hstr
    obtain ⟨ps, hps, hcut⟩ := exists_cut none s.toList
    rw [callGetters_joined hnames hcut hps, callGetters_joined hnames' hcut hps,
      settle_congr fun name => (hperm.map String.toList).mem_iff]
  · have hcode : ∀ s, code ≠ .str s := fun s h => hstr ⟨s, h⟩
    cases names with
    | nil => rw [List.perm_nil.1 hperm]
    | cons name names =>
      cases names' with
      | nil => cases List.nil_perm.1 hperm
      | cons name' names' =>
        rw [callGetters_of_not_str (hnames _ List.mem_cons_self) hcode,
          callGetters_of_not_str (hnames' _ List.mem_cons_self) hcode]

/-! ## Settled codes -/

/-- Whether the scanner for a getter finds no read in a text. -/
def Unread (name s : List Char) : Prop :=
  ∀ u v, s = u ++ v → startsName u.getLast? = true → readLength? name v = none

/-- A read that stands in a text is a piece of its cut. -/
theorem Cut.mem_of_read (h : Cut before ps) (heq : joined ps = u ++ (link ++ (name ++ rest)))
    (hu : startsName (u.getLast?.or before) = true) (hread : IsRead link name rest) :
    .read link name ∈ ps := by
  induction h generalizing u with
  | nil =>
    have hname := hread.name.ne_nil
    simp at heq
    exact absurd heq.2.2.1 hname
  | @char before c ps hnone _ ih =>
    rw [joined_char] at heq
    cases u with
    | nil =>
      exact absurd ⟨link, name, rest, heq, hread⟩ (hnone hu)
    | cons d u =>
      rw [List.cons_append, List.cons.injEq] at heq
      obtain ⟨rfl, heq⟩ := heq
      rw [getLast?_cons_or] at hu
      exact List.mem_cons_of_mem _ (ih heq hu)
  | @read before link' name' ps hbefore hread' _ ih =>
    rw [joined_read] at heq
    rcases Nat.lt_or_ge u.length (link'.length + name'.length) with hinside | hbehind
    · obtain rfl := hread'.eq_nil_of_startsState heq hinside (hread.link.startsState _) hu
      obtain ⟨rfl, rfl, -⟩ := hread'.toIsMember.unique hread.toIsMember heq
      exact List.mem_cons_self
    · rw [← List.append_assoc] at heq
      obtain ⟨x, rfl⟩ : link' ++ name' <+: u :=
        List.prefix_of_prefix_length_le ⟨_, rfl⟩ ⟨_, heq.symm⟩ (by simpa using hbehind)
      rw [List.append_assoc (link' ++ name'), List.append_cancel_left_eq] at heq
      refine List.mem_cons_of_mem _ (ih heq ?_)
      rwa [List.getLast?_append, Option.or_assoc, hread'.name.getLast?_append] at hu

theorem not_mem_settle {names : List (List Char)} (h : name ∈ names) (ps : List Snippet) :
    .read link name ∉ settle names ps := by
  intro hmem
  obtain ⟨p, -, hmem⟩ := List.mem_flatMap.1 hmem
  cases p with
  | char c => simp [Snippet.settle] at hmem
  | read link' name' =>
    rw [Snippet.settle] at hmem
    split at hmem
    · simp at hmem
    · rename_i hnot
      simp only [List.mem_singleton, Snippet.read.injEq] at hmem
      exact hnot (hmem.2 ▸ h)

/-- Where getters were called, none of them is read. -/
theorem unread_of_callGetters {names : List String} (hnames : AreGetterNames names) {old new : Json}
    (h : callGetters names old = .ok new) {name : String} (hname : name ∈ names) :
    Unread name.toList new.asText.toList := by
  by_cases hstr : ∃ s, old = .str s
  · obtain ⟨s, rfl⟩ := hstr
    obtain ⟨ps, hps, hcut⟩ := exists_cut none s.toList
    rw [callGetters_joined hnames hcut hps, Except.ok.injEq] at h
    subst h
    intro u v heq hu
    rw [Option.eq_none_iff_forall_ne_some]
    intro n hn
    obtain ⟨link, rest, rfl, hread⟩ := startsRead_of_readLength? (hnames name hname) hn
    rw [Json.asText, String.toList_ofList] at heq
    refine not_mem_settle (List.mem_map_of_mem hname) ps
      ((hcut.settle _).mem_of_read heq ?_ hread)
    rwa [Option.or_none]
  · cases names with
    | nil => cases hname
    | cons name names =>
      rw [callGetters_of_not_str (hnames _ List.mem_cons_self) fun s hs => hstr ⟨s, hs⟩] at h
      cases h

/-- A text without reads is left alone. -/
theorem callGetters_of_unread {names : List String} (hnames : AreGetterNames names) {code : String}
    (h : ∀ name ∈ names, Unread name.toList code.toList) :
    callGetters names (.str code) = .ok (.str code) := by
  induction names with
  | nil => rfl
  | cons name names ih =>
    obtain ⟨hname, hnames⟩ := List.forall_mem_cons.1 hnames
    obtain ⟨hunread, h⟩ := List.forall_mem_cons.1 h
    have hcopy : callFrom name.toList (callTemplate name.toList) none 0 code.toList =
        code.toList := by
      have hnone : ∀ x y, code.toList = x ++ y → y ≠ [] → startsName (x.getLast?.or none) = true →
          readLength? name.toList (y ++ []) = none := by
        intro x y hxy _ hx
        rw [List.append_nil]
        rw [Option.or_none] at hx
        exact hunread x y hxy hx
      simpa [callFrom] using callFrom_copy hnone
    rw [callGetters_cons hname.isLiteralName, hcopy, String.ofList_toList]
    exact ih hnames h

/-! ## Getters stay getters -/

theorem trimEnd_append_of_blank (s : List Char) {w : List Char}
    (hw : ∀ c ∈ w, Text.isBlank c = true) : Text.trimEnd (s ++ w) = Text.trimEnd s := by
  rw [Text.trimEnd, List.reverse_append, List.dropWhile_append_of_pos (by simpa using hw),
    Text.trimEnd]

theorem trimEnd_append (s : List Char) {t : List Char} (ht : Text.trimStart t ≠ []) :
    Text.trimEnd (s ++ t) = s ++ Text.trimEnd t := by
  have hrest : t.reverse.dropWhile Text.isBlank ≠ [] := by
    rw [Text.trimStart, Ne, List.dropWhile_eq_nil_iff] at ht
    simpa [List.dropWhile_eq_nil_iff] using ht
  rw [Text.trimEnd, List.reverse_append, List.dropWhile_append, if_neg (by simpa using hrest),
    List.reverse_append, List.reverse_reverse, Text.trimEnd]

/-- A getter is the word `get`, a space and something that is not blank. -/
theorem isGetter_iff :
    isGetter (String.ofList s) = true ↔
      ∃ w rest, s = w ++ (['g', 'e', 't', ' '] ++ rest) ∧ (∀ c ∈ w, Text.isBlank c = true) ∧
        Text.trimStart rest ≠ [] := by
  have hget : isGetter (String.ofList s) =
      Text.startsWith ['g', 'e', 't', ' '] (Text.trimEnd (Text.trimStart s)) := by
    rw [isGetter, Text.hasStart, Text.trimmed, String.toList_ofList, Text.trim]
    simp only [String.toList_ofList]
  rw [hget, Text.startsWith_iff]
  constructor
  · rintro ⟨r, hr⟩
    obtain ⟨w, hs, hw⟩ := exists_blank_append_trimStart s
    obtain ⟨w', hs', hw'⟩ := exists_blank_append_trimStart (Text.trimStart s).reverse
    have htrim : Text.trimStart s = ['g', 'e', 't', ' '] ++ (r ++ w'.reverse) := by
      rw [← List.append_assoc, ← hr, Text.trimEnd, ← List.reverse_append]
      exact List.reverse_eq_iff.1 hs'
    refine ⟨w, r ++ w'.reverse, by rw [← htrim]; exact hs, hw, ?_⟩
    intro hnil
    have hblank : ∀ c ∈ ' ' :: (r ++ w'.reverse), Text.isBlank c = true :=
      List.forall_mem_cons.2 ⟨rfl, List.dropWhile_eq_nil_iff.1 hnil⟩
    have hshort : Text.trimEnd (Text.trimStart s) = Text.trimEnd ['g', 'e', 't'] := by
      rw [htrim]
      exact trimEnd_append_of_blank ['g', 'e', 't'] hblank
    have hlength := congrArg List.length (hr.symm.trans hshort)
    simp [Text.trimEnd, Text.isBlank] at hlength
  · rintro ⟨w, rest, rfl, hw, hrest⟩
    refine ⟨Text.trimEnd rest, ?_⟩
    have hstart : Text.trimStart (['g', 'e', 't', ' '] ++ rest) =
        ['g', 'e', 't', ' '] ++ rest := rfl
    rw [trimStart_append hw, hstart, trimEnd_append _ hrest]

/-- A method stays a getter, or none, whichever getters are called in it. -/
theorem Cut.isGetter_settle {names names' : List (List Char)} (h : Cut before ps)
    (hget : isGetter (String.ofList (joined (State.settle names ps))) = true) :
    isGetter (String.ofList (joined (State.settle names' ps))) = true := by
  obtain ⟨w, rest, heq, hw, hrest⟩ := isGetter_iff.1 hget
  rw [← List.append_assoc] at heq
  obtain ⟨qs, rfl, rfl, hcut⟩ := h.exists_chars heq (by
    -- no read starts here: there is no `s`
    intro x y hxy hy hstart
    obtain ⟨c, y, rfl⟩ := List.exists_cons_of_ne_nil hy
    obtain ⟨after, hs, -⟩ := hstart
    obtain rfl : c = 's' := (List.cons.inj hs).1
    have hmem : 's' ∈ w ++ ['g', 'e', 't', ' '] := by rw [hxy]; simp
    rcases List.mem_append.1 hmem with hmem | hmem
    · exact absurd (hw 's' hmem) (by decide)
    · exact absurd hmem (by decide))
  refine isGetter_iff.2 ⟨w, joined (State.settle names' qs), by simp, hw, ?_⟩
  rw [Ne, ← List.head?_eq_none_iff] at hrest ⊢
  rwa [(trimStart_head?_settle names' hcut).2, ← (trimStart_head?_settle names hcut).2]

theorem isGetter_of_callGetters {names : List String} (hnames : AreGetterNames names)
    {old new : String} (h : callGetters names (.str old) = .ok (.str new)) :
    isGetter new = isGetter old := by
  obtain ⟨ps, hps, hcut⟩ := exists_cut none old.toList
  rw [callGetters_joined hnames hcut hps, Except.ok.injEq, Json.str.injEq] at h
  have hold : old = String.ofList (joined (settle [] ps)) := by
    rw [settle_nil, hps, String.ofList_toList]
  rw [Bool.eq_iff_iff, ← h, hold]
  exact ⟨hcut.isGetter_settle, hcut.isGetter_settle⟩

theorem getterKeys_cons (x : Json × Json) (state : Fields) :
    getterKeys (x :: state) = getterKeys [x] ++ getterKeys state := by
  rw [getterKeys, ← List.singleton_append, List.filterMap_append]
  rfl

/-- Calling getters keeps the keys of the getters. -/
theorem getterKeys_map {names : List String} (hnames : AreGetterNames names) {g : Json → Json}
    (hg : ∀ value, Recoded (callGetters names) value (g value)) (state : Fields) :
    getterKeys (state.map fun x => (x.1, g x.2)) = getterKeys state := by
  have hfield (key : Json) {old new : Json} (h : Recoded (callGetters names) old new) :
      getterKeys [(key, new)] = getterKeys [(key, old)] := by
    cases h with
    | @code tag old new h =>
      cases tag with
      | function => simp only [getterKeys, List.filterMap_cons, ofJson_text]
      | method =>
        simp only [getterKeys, List.filterMap_cons, ofJson_text,
          isGetter_of_callGetters hnames h]
    | data _ => rfl
  induction state with
  | nil => rfl
  | cons x state ih =>
    rw [List.map_cons, getterKeys_cons, hfield x.1 (hg x.2), ih, ← getterKeys_cons]

end ReactWeave.State
