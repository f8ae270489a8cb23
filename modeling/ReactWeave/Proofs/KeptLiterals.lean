import ReactWeave.Proofs.Quoting
import ReactWeave.Proofs.StripOrder

/-!
# ReactWeave.Proofs.KeptLiterals

**What rewriting reads of the state alters.**

Reads of the state are rewritten in the text of a fragment, one getter after
another, and then the accesses are removed. Nobody looks at the tree, so a string
that reads like code is rewritten like code. But if all that is found in the text
lies in member accesses on the identifier `state`, nothing else changes.

* `covers`: whether all that is found lies in such accesses.
* `Altered`: a text with only such accesses altered. It has the literals of the old
  one in the same order (`Altered.interleaved`).
* `Cut.altered`: what is left of a text that was cut at its reads.
* `rewritten_alters_members`: only member accesses are altered, and the literals of the
  fragment stay as they are.
-/

namespace ReactWeave.State

open ReactWeave.Script (Fragment Interleaved Place Spot accessSpots elsewhere)

variable {names : List (List Char)} {name : List Char} {before : Option Char}

/-! ## Alterations -/

/-- What is read of a name behind an access once one more character is read. -/
def nameGoesOn : Option (List Char) → Spot → Option (List Char)
  | some name, (c, .within) => some (name ++ [c])
  | _, _ => none

/-- A text in which only member accesses on `state` are altered: they are removed from in front of
their names, and names of getters are called. The first argument is what is read of the name behind
an access. -/
inductive Altered (names : List (List Char)) :
    Option (List Char) → List Spot → List Char → Prop where
  | nil {read : Option (List Char)} : Altered names read [] []
  | keep {read : Option (List Char)} {spot : Spot} {m : List Spot} {t : List Char}
      (h : Altered names (nameGoesOn read spot) m t) : Altered names read (spot :: m) (spot.1 :: t)
  | call {read : List Char} {c : Char} {m : List Spot} {t : List Char} (hname : read ++ [c] ∈ names)
      (h : Altered names (some (read ++ [c])) m t) :
      Altered names (some read) ((c, .within) :: m) (c :: '(' :: ')' :: t)
  | access {read : Option (List Char)} {link : List Char} {m : List Spot} {t : List Char}
      (hlink : IsAccess stateWord link) (h : Altered names (some []) m t) :
      Altered names read (accessSpots link ++ m) t

/-- The length of a read of a getter that starts here. -/
def readAt? (name : List Char) (before : Option Char) (s : List Char) : Option Nat :=
  if startsName before then readLength? name s else none

/-- Whether the first `n` characters are the beginning of a member access on `state`. -/
def startsMember (m : List Spot) (n : Nat) : Bool :=
  m.take n == accessSpots ((m.take n).map Prod.fst)

/-- Whether all accesses and all reads of getters that are found in a text lie in member accesses on
`state`; `before` is the character in front of the text. -/
def covers (names : List (List Char)) (before : Option Char) : List Spot → Bool
  | [] => true
  | spot :: m =>
    (accessAt? stateWord before ((spot :: m).map Prod.fst)).all (startsMember (spot :: m)) &&
      names.all (fun name =>
        (readAt? name before ((spot :: m).map Prod.fst)).all (startsMember (spot :: m))) &&
      covers names (some spot.1) m

theorem covers_append {u m : List Spot} (h : covers names before (u ++ m) = true) :
    covers names ((u.map Prod.fst).getLast?.or before) m = true := by
  induction u generalizing before with
  | nil => exact h
  | cons spot u ih =>
    rw [List.map_cons, getLast?_cons_or]
    exact ih (Bool.and_eq_true_iff.1 h).2

/-! ## Literals stay -/

/-- An access ends where no access is any more. -/
theorem Altered.split {u m : List Spot} {read : Option (List Char)} {t : List Char}
    (h : Altered names read (u ++ m) t) (hm : ∀ spot ∈ m.head?, spot.2 = .elsewhere) :
    ∃ t₁ t₂ read', t = t₁ ++ t₂ ∧ Altered names read' m t₂ := by
  generalize hall : u ++ m = all at h
  induction h generalizing u with
  | nil =>
    obtain ⟨rfl, rfl⟩ := List.append_eq_nil_iff.1 hall
    exact ⟨[], [], none, rfl, .nil⟩
  | @keep read spot m' t h ih =>
    cases u with
    | nil =>
      subst hall
      exact ⟨[], _, read, rfl, .keep h⟩
    | cons spot' u =>
      obtain ⟨rfl, htail⟩ := List.cons.inj hall
      obtain ⟨t₁, t₂, read', rfl, h'⟩ := ih htail
      exact ⟨spot'.1 :: t₁, t₂, read', rfl, h'⟩
  | @call read c m' t hname h ih =>
    cases u with
    | nil =>
      subst hall
      exact ⟨[], _, some read, rfl, .call hname h⟩
    | cons spot' u =>
      obtain ⟨rfl, htail⟩ := List.cons.inj hall
      obtain ⟨t₁, t₂, read', rfl, h'⟩ := ih htail
      exact ⟨c :: '(' :: ')' :: t₁, t₂, read', rfl, h'⟩
  | @access read link m' t hlink h ih =>
    rcases List.append_eq_append_iff.1 hall with ⟨v, hv, rfl⟩ | ⟨v, rfl, hv⟩
    · cases v with
      | nil => exact ih (u := []) rfl
      | cons spot v =>
        -- a character that is elsewhere would be in the access
        have hspot : spot ∈ accessSpots link := by rw [hv]; simp
        have helse := hm spot rfl
        obtain ⟨c, link', rfl⟩ := List.exists_cons_of_ne_nil hlink.ne_nil
        simp only [accessSpots, List.mem_cons, List.mem_map] at hspot
        rcases hspot with rfl | ⟨c, -, rfl⟩
        all_goals cases helse
    · exact ih hv.symm

/-- Text outside of members is copied. -/
theorem Altered.elsewhere_append {s : List Char} {m : List Spot} {read : Option (List Char)}
    {t : List Char} (h : Altered names read (elsewhere s ++ m) t) :
    ∃ t' read', t = s ++ t' ∧ Altered names read' m t' := by
  induction s generalizing read t with
  | nil => exact ⟨t, read, rfl, h⟩
  | cons c s ih =>
    generalize hall : elsewhere (c :: s) ++ m = all at h
    cases h with
    | nil => cases hall
    | keep h =>
      obtain ⟨rfl, rfl⟩ := List.cons.inj hall
      obtain ⟨t', read', rfl, h'⟩ := ih h
      exact ⟨t', read', rfl, h'⟩
    | call hname h => cases (List.cons.inj hall).1
    | access hlink h =>
      obtain ⟨d, link', rfl⟩ := List.exists_cons_of_ne_nil hlink.ne_nil
      cases (List.cons.inj hall).1

/-- What stands outside of members stands in the result, in the same order. -/
theorem Altered.interleaved {lits : List (List Char)} {m : List Spot} {read : Option (List Char)}
    {t : List Char} (h : Altered names read m t) (hne : ∀ lit ∈ lits, lit ≠ [])
    (hlits : Interleaved (lits.map elsewhere) m) : Interleaved lits t := by
  induction lits generalizing m read t with
  | nil => exact .nil t
  | cons lit lits ih =>
    rw [List.map_cons] at hlits
    cases hlits with
    | @cons u _ rest _ hrest =>
      obtain ⟨hlit, hmore⟩ := List.forall_mem_cons.1 hne
      obtain ⟨c, lit, rfl⟩ := List.exists_cons_of_ne_nil hlit
      obtain ⟨t₁, t₂, read₂, rfl, h₂⟩ := h.split (by simp [elsewhere])
      obtain ⟨t₃, read₃, rfl, h₃⟩ := h₂.elsewhere_append
      exact .cons t₁ (ih h₃ hmore hrest)

/-! ## Covered texts -/

variable {m : List Spot} {ps : List Snippet} {c : Char} {s t u : List Char}

theorem startsMember_iff {n : Nat} (hs : m.map Prod.fst = s ++ t) (hn : n = s.length) :
    startsMember m n = true ↔ m.take n = accessSpots s := by
  rw [startsMember, beq_iff_eq, List.map_take, hs, hn, List.take_left]

/-- What is found first in a covered text: an access, and the name of a getter behind it is part of
the same member. -/
theorem covers_access {n : Nat} (h : covers names before m = true)
    (hat : accessAt? stateWord before (m.map Prod.fst) = some n) :
    ∃ a m', m = accessSpots a ++ m' ∧ IsAccess stateWord a ∧ startsName before = true ∧
      Text.trimStart (m'.map Prod.fst) = m'.map Prod.fst ∧ covers names a.getLast? m' = true ∧
      ∀ name ∈ names, IsLiteralName name → ∀ rest, m'.map Prod.fst = name ++ rest → Uncalled rest →
        m'.take name.length = name.map (·, .within) := by
  obtain ⟨hbefore, a, rest, heq, ha, htrim, rfl⟩ := accessAt?_eq_some hat
  have hfound : startsMember m a.length = true ∧ ∀ name ∈ names, ∀ n,
      readAt? name before (m.map Prod.fst) = some n → startsMember m n = true := by
    cases m with
    | nil => exact absurd (List.append_eq_nil_iff.1 heq.symm).1 ha.ne_nil
    | cons spot m =>
      rw [covers, Bool.and_eq_true, Bool.and_eq_true, hat, Option.all_some, List.all_eq_true] at h
      refine ⟨h.1.1, fun name hname n hn => ?_⟩
      have hread := h.1.2 name hname
      rwa [hn, Option.all_some] at hread
  have hlink := (startsMember_iff heq rfl).1 hfound.1
  obtain ⟨m', rfl⟩ : ∃ m', m = accessSpots a ++ m' := ⟨_, by rw [← hlink, List.take_append_drop]⟩
  have hmap : (accessSpots a ++ m').map Prod.fst = a ++ m'.map Prod.fst := by
    rw [List.map_append, Script.map_fst_accessSpots]
  rw [hmap, List.append_cancel_left_eq] at heq
  refine ⟨a, m', rfl, ha, hbefore, by rwa [heq], ?_, ?_⟩
  · have htail := covers_append h
    rwa [Script.map_fst_accessSpots, ha.getLast?_or] at htail
  · intro name hname hplain rest' hm' hrest'
    rw [hm'] at hmap
    have hread : readAt? name before ((accessSpots a ++ m').map Prod.fst) =
        some (a.length + name.length) := by
      rw [readAt?, if_pos hbefore]
      exact (readLength?_eq_some hplain).2 ⟨a, rest', hmap, ha, hrest', rfl⟩
    have hall := (startsMember_iff (hmap.trans (List.append_assoc _ _ _).symm)
      List.length_append.symm).1 (hfound.2 name hname _ hread)
    have hlength : (accessSpots a).length = a.length := by
      rw [← List.length_map (f := Prod.fst), Script.map_fst_accessSpots]
    have hsplit : accessSpots (a ++ name) = accessSpots a ++ name.map (·, .within) := by
      obtain ⟨c, a, rfl⟩ := List.exists_cons_of_ne_nil ha.ne_nil
      simp [accessSpots]
    rw [← hlength, List.take_length_add_append, hsplit] at hall
    exact List.append_cancel_left hall

theorem readAt?_eq_none (hc : c ≠ 's') : readAt? name before (c :: s) = none := by
  have hbehind : behindDot? "state".toList (c :: s) = none := by
    rw [Option.eq_none_iff_forall_ne_some]
    intro rest hrest
    obtain ⟨w, heq, -⟩ := behindDot?_eq_some.1 hrest
    exact hc (List.cons.inj heq).1
  rw [readAt?, readLength?, hbehind, Option.bind_none, ite_self]

theorem covers_behind (h : covers names before m = true)
    (hhead : ∀ c ∈ (m.map Prod.fst).head?, isNamePart c = false) (before' : Option Char) :
    covers names before' m = true := by
  cases m with
  | nil => rfl
  | cons spot m =>
    have hs : spot.1 ≠ 's' := fun hs => absurd (hhead _ rfl) (by rw [hs]; decide)
    have htail := (Bool.and_eq_true_iff.1 h).2
    simp [covers, accessAt?_eq_none hs, readAt?_eq_none hs, htail]

/-! ## What is left of a text -/

/-- Calling getters changes a text only behind an `s`, and an access has no `s` but its first. -/
theorem Cut.prefix_settle_iff (h : Cut before ps) (hu : 's' ∉ u) :
    u <+: joined (State.settle names ps) ↔ u <+: joined ps := by
  induction h generalizing u with
  | nil => rfl
  | char _ _ ih =>
    cases u with
    | nil => simp
    | cons d u =>
      rw [List.mem_cons, not_or] at hu
      rw [settle_char, joined_char, joined_char, List.cons_prefix_cons, List.cons_prefix_cons,
        ih hu.2]
  | read hbefore hread hrest _ =>
    obtain ⟨r, hr, -⟩ := startsState_settle names (.read hbefore hread hrest)
    obtain ⟨r', hr', -⟩ := hread.link.startsState (_ ++ joined _)
    cases u with
    | nil => simp
    | cons d u =>
      rw [List.mem_cons, not_or] at hu
      rw [hr, joined_read, hr']
      simp [List.cons_prefix_cons, Ne.symm hu.1]

/-- Calls make no accesses where there were none. -/
theorem Cut.accessAt?_settle (h : Cut (some c) ps)
    (hnone : accessAt? stateWord before (c :: joined ps) = none) :
    accessAt? stateWord before (c :: joined (State.settle names ps)) = none := by
  rw [Option.eq_none_iff_forall_ne_some]
  intro n hn
  obtain ⟨hbefore, a, rest, heq, ha, -, -⟩ := accessAt?_eq_some hn
  obtain ⟨w₁, w₂, rfl, hw₁, -⟩ := id ha
  obtain ⟨a', hcons, hne⟩ := ha.eq_cons
  rw [hcons, List.cons_append, List.cons.injEq] at heq
  obtain ⟨rfl, heq⟩ := heq
  obtain ⟨rest', hrest'⟩ := (h.prefix_settle_iff fun hmem => hne 's' hmem rfl).1 ⟨rest, heq.symm⟩
  have hbehind : behindDot? stateWord ('s' :: joined ps) = some (w₂ ++ rest') :=
    behindDot?_eq_some.2 ⟨w₁, by rw [← hrest', ← List.cons_append, ← hcons]; simp, hw₁⟩
  rw [accessAt?, if_pos hbefore, accessLength?, hbehind] at hnone
  cases hnone

theorem stripFrom_parts (hu : ∀ c ∈ u, isNamePart c = true) (hbefore : startsName before = false) :
    stripFrom stateWord before 0 (u ++ s) =
      u ++ stripFrom stateWord (u.getLast?.or before) 0 s := by
  induction u generalizing before with
  | nil => rfl
  | cons c u ih =>
    obtain ⟨hc, hu⟩ := List.forall_mem_cons.1 hu
    have hnone : accessAt? stateWord before (c :: (u ++ s)) = none := by simp [accessAt?, hbefore]
    rw [List.cons_append, stripFrom_none hnone, ih hu (by simp [startsName, hc]), getLast?_cons_or,
      List.cons_append]

/-- A call of a getter loses its access. -/
theorem stripFrom_callText (hname : IsGetterName name) (hbefore : startsName before = true)
    (s : List Char) : stripFrom stateWord before 0 (callText name ++ s) =
      name ++ '(' :: ')' :: stripFrom stateWord (some ')') 0 s := by
  have hdot : IsAccess stateWord (stateWord ++ ['.']) := ⟨[], [], rfl, by simp, by simp⟩
  rw [callText, List.append_assoc, List.append_assoc,
    stripFrom_access hdot hbefore (hname.trimStart_append _), List.getLast?_concat,
    stripFrom_parts hname.parts rfl]
  simp only [List.cons_append, List.nil_append]
  rw [stripFrom_none (accessAt?_eq_none (by decide)), stripFrom_none (accessAt?_eq_none (by decide))]

theorem Altered.called {read : List Char} (hname : read ++ name ∈ names) (hne : name ≠ [])
    (h : Altered names (some (read ++ name)) m t) :
    Altered names (some read) (name.map (·, .within) ++ m) (name ++ '(' :: ')' :: t) := by
  induction name generalizing read with
  | nil => exact absurd rfl hne
  | cons c name ih =>
    cases name with
    | nil => exact .call hname h
    | cons d name =>
      refine @Altered.keep names (some read) (c, .within) _ _ (ih ?_ (by simp) ?_)
      · simpa using hname
      · simpa using h

/-- The characters of a member that is not called can be single pieces. -/
theorem Cut.of_read {link : List Char} (hread : IsRead link name (joined ps))
    (h : Cut name.getLast? ps) : Cut link.getLast? (name.map .char ++ ps) := by
  refine .chars (fun x y hxy hy hx hstart => ?_) ?_
  · have hsplit : link ++ (name ++ joined ps) = (link ++ x) ++ (y ++ joined ps) := by
      rw [hxy]
      simp
    have hlt : (link ++ x).length < link.length + name.length := by
      have := List.length_pos_of_ne_nil hy
      simp only [hxy, List.length_append]
      omega
    have hbefore : startsName ((link ++ x).getLast?.or none) = true := by
      rwa [Option.or_none, List.getLast?_append]
    have hnil := hread.eq_nil_of_startsState hsplit hlt hstart.startsState hbefore
    exact hread.link.ne_nil (List.append_eq_nil_iff.1 hnil).1
  · have hlast := hread.name.getLast?_append [] link.getLast?
    rwa [← hlast] at h

theorem Cut.trimStart_settle (h : Cut before ps)
    (htrim : Text.trimStart (joined ps) = joined ps) :
    Text.trimStart (joined (State.settle names ps)) = joined (State.settle names ps) := by
  obtain ⟨hhead, hfirst⟩ := trimStart_head?_settle names h
  rw [htrim, ← hhead] at hfirst
  cases hs : joined (State.settle names ps) with
  | nil => rfl
  | cons c s =>
    refine trimStart_cons (Bool.eq_false_iff.2 fun hc => ?_) s
    have hsolid := List.head?_dropWhile_not Text.isBlank (c :: s)
    rw [hs, Text.trimStart] at hfirst
    rw [hfirst, List.head?_cons] at hsolid
    simp [hc] at hsolid

/-- Characters that spell an access are pieces of their own, and what is behind them is cut. -/
theorem Cut.exists_behind_access (ha : IsAccess stateWord u) (hcut : Cut (some c) ps)
    (hps : c :: joined ps = u ++ s) :
    ∃ qs, .char c :: ps = u.map .char ++ qs ∧ joined qs = s ∧ Cut u.getLast? qs := by
  obtain ⟨u', rfl, hne⟩ := ha.eq_cons
  obtain ⟨rfl, hps⟩ := List.cons.inj hps
  obtain ⟨qs, rfl, hqs, hcut⟩ := @Cut.exists_chars _ _ _ _ [] hcut (by rwa [settle_nil])
    fun x y hxy hy hstart => by
      obtain ⟨d, y, rfl⟩ := List.exists_cons_of_ne_nil hy
      obtain ⟨after, hs, -⟩ := hstart
      exact absurd (List.cons.inj hs).1 (hne d (by simp [hxy]))
  rw [settle_nil] at hqs
  rw [← getLast?_cons_or 's' u' none, ha.getLast?_or] at hcut
  exact ⟨qs, rfl, hqs, hcut⟩

/-- The access of a read is the one that stands there. -/
theorem IsRead.eq_access {link rest : List Char} (hread : IsRead link name rest)
    (ha : IsAccess stateWord u) (htrim : Text.trimStart s = s)
    (heq : link ++ (name ++ rest) = u ++ s) : link = u ∧ name ++ rest = s := by
  have hlength := accessLength?_eq_some.2
    ⟨link, name ++ rest, rfl, hread.link, hread.name.trimStart_append _, rfl⟩
  rw [heq, accessLength?_eq_some.2 ⟨u, s, rfl, ha, htrim, rfl⟩, Option.some.injEq] at hlength
  exact List.append_inj heq hlength.symm

theorem exists_of_take_within {rest : List Char}
    (htake : m.take name.length = name.map (·, .within)) (hm : name ++ rest = m.map Prod.fst) :
    ∃ m₂, m = name.map (·, .within) ++ m₂ ∧ rest = m₂.map Prod.fst := by
  refine ⟨m.drop name.length, by rw [← htake, List.take_append_drop], ?_⟩
  rw [List.map_drop, ← hm, List.drop_left]

/-- **Removing the accesses of a covered text alters only member accesses**, also after getters have
been called. -/
theorem Cut.altered (hcut : Cut before ps) (hps : joined ps = m.map Prod.fst)
    (hcovers : covers names before m = true) (read : Option (List Char)) :
    Altered names read m (stripFrom stateWord before 0 (joined (State.settle names ps))) := by
  induction hn : m.length using Nat.strong_induction_on generalizing before m ps read with
  | _ n ih =>
    cases hat : accessAt? stateWord before (m.map Prod.fst) with
    | none =>
      cases hcut with
      | nil =>
        obtain rfl : m = [] := List.map_eq_nil_iff.1 hps.symm
        exact .nil
      | @char _ c ps _ hrest =>
        cases m with
        | nil => cases hps
        | cons spot m =>
          obtain ⟨rfl, htail⟩ : c = spot.1 ∧ joined ps = m.map Prod.fst := List.cons.inj hps
          rw [settle_char, joined_char, stripFrom_none (hrest.accessAt?_settle (by rwa [htail]))]
          exact .keep (ih _ (by simp [← hn]) hrest htail (Bool.and_eq_true_iff.1 hcovers).2 _ rfl)
      | read hbefore hread _ =>
        rw [← hps, joined_read, accessAt?, if_pos hbefore, accessLength?_eq_some.2
          ⟨_, _, rfl, hread.link, hread.name.trimStart_append _, rfl⟩] at hat
        cases hat
    | some k =>
      obtain ⟨a, m', rfl, ha, hbefore, htrim, hrest, hwithin⟩ := covers_access hcovers hat
      rw [List.map_append, Script.map_fst_accessSpots] at hps
      have hlt : m'.length < n := by
        obtain ⟨c, a, rfl⟩ := List.exists_cons_of_ne_nil ha.ne_nil
        simp only [← hn, accessSpots, List.length_append, List.length_map, List.length_cons]
        omega
      -- an access that no getter is called behind is removed, and the rest is like any text
      have hnext {qs : List Snippet} (hqs : Cut a.getLast? qs) (hm' : joined qs = m'.map Prod.fst) :
          Altered names read (accessSpots a ++ m')
            (stripFrom stateWord before 0 (a ++ joined (State.settle names qs))) := by
        rw [stripFrom_access ha hbefore (hqs.trimStart_settle (by rwa [hm']))]
        exact .access ha (ih _ hlt hqs hm' hrest _ rfl)
      cases hcut with
      | nil => exact absurd (List.append_eq_nil_iff.1 hps.symm).1 ha.ne_nil
      | @char _ c ps _ hcut =>
        obtain ⟨qs, hchars, hqs, hcut⟩ := hcut.exists_behind_access ha hps
        have hall := hnext hcut hqs
        rwa [hchars, settle_chars, joined_append, joined_chars]
      | @read _ link name ps _ hread hcut =>
        obtain ⟨rfl, hm'⟩ := hread.eq_access ha htrim (joined_read link name ps ▸ hps)
        by_cases hmem : name ∈ names
        · obtain ⟨m₂, rfl, hm₂⟩ := exists_of_take_within
            (hwithin name hmem hread.name.isLiteralName _ hm'.symm ⟨hread.ends, hread.uncalled⟩) hm'
          have hbehind : covers names (some ')') m₂ = true :=
            covers_behind (covers_append hrest) (hm₂ ▸ hread.ends) _
          rw [settle_of_mem hmem, joined_append, joined_chars,
            stripFrom_callText hread.name hbefore]
          refine .access ha (.called hmem hread.name.ne_nil (ih _ ?_ (hcut.behind hread.ends _) hm₂
            hbehind _ rfl))
          rw [List.length_append] at hlt
          omega
        · have hall := hnext (hcut.of_read hread) (by simp [hm'])
          rw [settle_of_not_mem hmem, joined_read]
          rwa [settle_chars, joined_append, joined_chars] at hall

/-! ## Fragments -/

/-- With names for getters every text goes through. -/
theorem exists_processed_callGetters {names : List String}
    (hnames : ∀ name ∈ names, Script.isName name.toList = true) (code : String) :
    ∃ text, (callGetters names (.str code)).bind (processed .useState) = .ok (.str text) := by
  induction names generalizing code with
  | nil => exact ⟨_, rfl⟩
  | cons name names ih =>
    obtain ⟨hname, hnames⟩ := List.forall_mem_cons.1 hnames
    obtain ⟨c, name', hcons, -⟩ := Script.isName_head hname
    rw [Script.isName, Bool.and_eq_true, List.all_eq_true, hcons] at hname
    have hplain : IsLiteralName name.toList := by
      refine ⟨⟨c, name', hcons, isBlank_of_isWordChar ?_⟩, fun hmem => ?_⟩
      · simp [Script.Lexis.isWordChar, hname.2 c List.mem_cons_self]
      · exact absurd (hname.2 _ (hcons ▸ hmem)) (by decide)
    rw [callGetters_cons hplain]
    exact ih hnames _

/-- **Rewriting reads alters only code, if all that reads like an access is one.** Calling the getters
and removing the accesses never fails. If the getters have ordinary names, and the accesses and the
reads of getters that are found in the text of a fragment all lie in member accesses on the identifier
`state`, then nothing but such accesses is altered, and the new text has the literals of the fragment
as they are and in the same order. -/
theorem rewritten_alters_members {code : String} {f : Fragment}
    (hparse : Code.parse (.str code) = .ok f) {names : List String}
    (hnames : ∀ name ∈ names, Script.isName name.toList = true) :
    f.spots.map Prod.fst = code.toList ∧
    ∃ text : String,
      (callGetters names (.str code)).bind (processed .useState) = .ok (.str text) ∧
      (AreGetterNames names → covers (names.map String.toList) none f.spots = true →
        Altered (names.map String.toList) none f.spots text.toList ∧
        Interleaved f.root.literals text.toList) := by
  have hcode := Fragment.map_fst_spots (Code.parse_str_eq_ok.1 hparse)
  have hquotes := Fragment.quotes_literals (Code.parse_str_eq_ok.1 hparse)
  obtain ⟨text, htext⟩ := exists_processed_callGetters hnames code
  refine ⟨hcode, text, htext, fun hgetters hcovers => ?_⟩
  obtain ⟨ps, hps, hcut⟩ := exists_cut none code.toList
  have haltered := hcut.altered (hps.trans hcode.symm) hcovers none
  rw [callGetters_joined hgetters hcut hps, Except.bind, processed, Except.ok.injEq,
    Json.str.injEq] at htext
  have hstrip : text.toList =
      stripFrom stateWord none 0 (joined (settle (names.map String.toList) ps)) := by
    rw [← htext]
    simp only [strip, String.toList_ofList]
    rfl
  rw [hstrip]
  refine ⟨haltered, haltered.interleaved (fun lit hlit => ?_) hquotes.interleaved⟩
  rintro rfl
  obtain ⟨c, hc, -⟩ := (hquotes.bounded [] hlit).opens
  cases hc

/-- Literals that mention the state without accessing it, around code that does. -/
def mentionCode : String :=
  "state.full + 'a.state' + \x60/state $\x7bstate . b(\x22x\x22)\x7d.\x60 + /(state)/g"

/-- What `mentionCode` is read as. -/
def mention : Fragment := (Fragment.parse? mentionCode.toList).getD ⟨⟨"", ""⟩, [], .gap []⟩

theorem rewritten_alters_members_mention :
    Code.parse (.str mentionCode) = .ok mention ∧
      mention.root.literals = ["'a.state'", "\x60/state $\x7b", "\x22x\x22", "\x7d.\x60",
        "/(state)/g"].map String.toList ∧
      ∃ text : String,
        (callGetters ["full"] (.str mentionCode)).bind (processed .useState) = .ok (.str text) ∧
        Altered ["full".toList] none mention.spots text.toList ∧
        Interleaved mention.root.literals text.toList := by
  have hsome : (Fragment.parse? mentionCode.toList).isSome = true := by decide +kernel
  have hparse : Code.parse (.str mentionCode) = .ok mention := Code.parse_of_isSome hsome _
  obtain ⟨-, text, htext, hkept⟩ := rewritten_alters_members hparse
    (show ∀ name ∈ ["full"], Script.isName name.toList = true by decide +kernel)
  have hgetters : AreGetterNames ["full"] :=
    List.forall_mem_singleton.2 ⟨by decide, by decide, by decide⟩
  exact ⟨hparse, by decide +kernel, text, htext, hkept hgetters (by decide +kernel)⟩

/-- A string that reads like an access. -/
def lookalikeCode : String := "'state.x'"

/-- What `lookalikeCode` is read as. -/
def lookalike : Fragment := (Fragment.parse? lookalikeCode.toList).getD ⟨⟨"", ""⟩, [], .gap []⟩

/-- A string that reads like an access is cut. -/
theorem processed_cuts_string :
    Code.parse (.str lookalikeCode) = .ok lookalike ∧
      lookalike.root.literals = [lookalikeCode.toList] ∧
      covers [] none lookalike.spots = false ∧
      (callGetters [] (.str lookalikeCode)).bind (processed .useState) = .ok (.str "'x'") ∧
      ¬ Interleaved lookalike.root.literals "'x'".toList := by
  have hsome : (Fragment.parse? lookalikeCode.toList).isSome = true := by decide +kernel
  have hlits : lookalike.root.literals = [lookalikeCode.toList] := by decide +kernel
  have hstrip : strip "state" lookalikeCode = "'x'" := by decide +kernel
  refine ⟨Code.parse_of_isSome hsome _, hlits, by decide +kernel, ?_, ?_⟩
  · rw [callGetters, Except.bind, processed, hstrip]
  · rw [hlits]
    generalize htext : "'x'".toList = text
    intro h
    cases h with
    | cons before h =>
      have hlength := congrArg List.length htext
      have hstring : lookalikeCode.toList.length = 9 := by decide
      have hthree : "'x'".toList.length = 3 := by decide
      simp only [List.length_append, hstring, hthree] at hlength
      omega

end ReactWeave.State
