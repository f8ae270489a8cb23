import ReactWeave.Proofs.Shapes

/-!
# ReactWeave.Proofs.Quoting

**The literals of a fragment** and where they stand in its text.

Strings and regular expressions are leaves between two delimiters, with the flags
of a regular expression behind the second one. A template is cut into pieces by its
substitutions, and each piece ends where a substitution or the template does.

* `Tree.spots`: the characters of a tree, each with the place it stands at, which is
  in a member access on the identifier `state` or elsewhere.
* `Interleaved`: texts that stand in a text in order.
* `Fragment.quotes_literals`: the literals of a fragment stand in it in order,
  and outside all of its member accesses on `state`.
-/

namespace ReactWeave.Script

open ReactWeave.Script.Tree

/-! ## Literals -/

namespace Tree

mutual

/-- The strings, regular expressions and pieces of templates in a tree. -/
def literals : Tree → List (List Char)
  | gap _ => []
  | token k _ t => if k = .string then [t] else []
  | node k _ ps =>
    if k = .string ∨ k = .regex then [textOf ps]
    else if k = .templateString then pieces [] ps
    else literalsOf ps

/-- The literals of neighbouring trees. -/
def literalsOf : List Tree → List (List Char)
  | [] => []
  | t :: ts => t.literals ++ literalsOf ts

/-- The literals of a template of which the piece that begins with `start` goes on. -/
def pieces (start : List Char) : List Tree → List (List Char)
  | [] => [start]
  | gap t :: ps => pieces (start ++ t) ps
  | token _ _ t :: ps => pieces (start ++ t) ps
  | node k r qs :: ps =>
    if k = .templateSubstitution then
      (start ++ ['$', '\x7b']) :: (literalsOf qs ++ pieces ['\x7d'] ps)
    else pieces (start ++ (node k r qs).text) ps

end

@[simp] theorem literalsOf_append (ts us : List Tree) :
    literalsOf (ts ++ us) = literalsOf ts ++ literalsOf us := by
  induction ts with
  | nil => rfl
  | cons t ts ih => simp [literalsOf, ih]

end Tree

/-! ## Places -/

/-- Where a character stands. -/
inductive Place where
  /-- A member access on the identifier `state` starts with it. -/
  | start
  /-- It is in such an access, behind its start. -/
  | within
  | elsewhere
  deriving DecidableEq, Repr

/-- A character and its place. -/
abbrev Spot := Char × Place

/-- Characters that are not in an access. -/
def elsewhere (s : List Char) : List Spot := s.map (·, .elsewhere)

/-- The characters of an access. -/
def accessSpots : List Char → List Spot
  | [] => []
  | c :: s => (c, .start) :: s.map (·, .within)

@[simp] theorem elsewhere_append (s t : List Char) :
    elsewhere (s ++ t) = elsewhere s ++ elsewhere t := List.map_append

@[simp] theorem map_fst_elsewhere (s : List Char) : (elsewhere s).map Prod.fst = s := by
  rw [elsewhere, List.map_map]
  exact List.map_id s

@[simp] theorem map_fst_accessSpots (s : List Char) : (accessSpots s).map Prod.fst = s := by
  cases s with
  | nil => rfl
  | cons c s =>
    rw [accessSpots, List.map_cons, List.map_map]
    exact congrArg (c :: ·) (List.map_id s)

namespace Tree

/-- Whether a tree is a member access on the identifier `state`. -/
def isStateMember : Tree → Bool
  | node .member _ (token .identifier _ t :: _) => t == ['s', 't', 'a', 't', 'e']
  | _ => false

mutual

/-- The characters of a tree with their places. -/
def spots : Tree → List Spot
  | gap t => elsewhere t
  | token _ _ t => elsewhere t
  | node k r ps => if (node k r ps).isStateMember then accessSpots (textOf ps) else spotsOf ps

/-- The characters of neighbouring trees with their places. -/
def spotsOf : List Tree → List Spot
  | [] => []
  | t :: ts => t.spots ++ spotsOf ts

end

@[simp] theorem spotsOf_append (ts us : List Tree) :
    spotsOf (ts ++ us) = spotsOf ts ++ spotsOf us := by
  induction ts with
  | nil => rfl
  | cons t ts ih => simp [spotsOf, ih]

mutual

theorem map_fst_spots : ∀ t : Tree, t.spots.map Prod.fst = t.text
  | gap t => map_fst_elsewhere t
  | token _ _ t => map_fst_elsewhere t
  | node k r ps => by
    rw [spots, text_node]
    split
    · exact map_fst_accessSpots _
    · exact map_fst_spotsOf ps

theorem map_fst_spotsOf : ∀ ts : List Tree, (spotsOf ts).map Prod.fst = textOf ts
  | [] => rfl
  | t :: ts => by rw [spotsOf, List.map_append, map_fst_spots t, map_fst_spotsOf ts, textOf_cons]

end

/-- Whether a tree is a leaf other than a string, or of one of the kinds. -/
def isFlat (kinds : List Kind) : Tree → Bool
  | gap _ => true
  | token k _ _ => k != .string
  | node k _ _ => kinds.contains k

theorem isFlat_of_isTrivia (kinds : List Kind) {t : Tree} (h : t.isTrivia = true) :
    t.isFlat kinds = true := by
  unfold isTrivia at h
  split at h
  · rfl
  · rfl
  · cases h

theorem spotsOf_of_isFlat {ts : List Tree} (h : ∀ t ∈ ts, t.isFlat [] = true) :
    spotsOf ts = elsewhere (textOf ts) ∧ literalsOf ts = [] := by
  induction ts with
  | nil => exact ⟨rfl, rfl⟩
  | cons t ts ih =>
    obtain ⟨ht, hts⟩ := List.forall_mem_cons.1 h
    rw [spotsOf, literalsOf, textOf_cons, elsewhere_append, (ih hts).1, (ih hts).2]
    cases t with
    | gap t => exact ⟨rfl, rfl⟩
    | token k r t => exact ⟨rfl, by simp [literals, bne_iff_ne.1 ht]⟩
    | node k r ps => simp [isFlat] at ht

end Tree

/-! ## What literals look like -/

/-- Characters that a literal begins with. -/
def literalOpeners : List Char := ['\x22', '\x27', '\x60', '/', '\x7d']

/-- Characters that a literal ends with. -/
def literalClosers : List Char := ['\x22', '\x27', '\x60', '/', '\x7b']

/-- Texts between two delimiters. -/
inductive Fenced : List Char → Prop where
  | mk {o c : Char} {mid : List Char} (ho : o ∈ literalOpeners) (hc : c ∈ literalClosers) :
      Fenced (o :: (mid ++ [c]))

/-- Characters that close a wrapper. -/
def wrapperClosers : List Char := ['\n', '\x7d', ')']

/-- Texts that begin like a literal and do not end like a wrapper. -/
structure Bounded (lit : List Char) : Prop where
  opens : ∃ c ∈ lit.head?, c ∈ literalOpeners
  closes : ∃ c ∈ lit.getLast?, c ∉ wrapperClosers

theorem Fenced.bounded {lit : List Char} (h : Fenced lit) : Bounded lit := by
  cases h with
  | @mk o c mid ho hc =>
    have hends : ∀ c ∈ literalClosers, c ∉ wrapperClosers := by decide
    exact ⟨⟨o, rfl, ho⟩, c, by simp [List.getLast?_cons], hends c hc⟩

/-- The parts of literals. -/
structure LiteralShape (k : Kind) (ps : List Tree) : Prop where
  leaves : k = .string ∨ k = .regex → Bounded (textOf ps) ∧ ∀ p ∈ ps, p.isFlat [] = true
  template : k = .templateString →
    ∃ mid, ps = token .symbol none ['\x60'] :: (mid ++ [token .symbol none ['\x60']]) ∧
      ∀ p ∈ mid, p.isFlat [.templateSubstitution] = true
  substitution : k = .templateSubstitution →
    ∃ mid, ps = token .symbol none ['$', '\x7b'] :: (mid ++ [token .symbol none ['\x7d']])
  member : k = .member → ∃ object more, ps = object :: more ∧ ∀ p ∈ more, p.isFlat [] = true

/-- Trees that stand between their delimiters if they are literals. -/
def Delimited : Tree → Prop
  | .gap _ => True
  | .token k _ t => k = .string → Fenced t
  | .node k _ ps => LiteralShape k ps

theorem literalShape_of_not_mem {k : Kind} (hk : k ∉ shapedKinds) (ps : List Tree) :
    LiteralShape k ps := by
  simp only [shapedKinds, List.mem_cons, List.not_mem_nil, or_false, not_or] at hk
  obtain ⟨hm, -, hs, ht, hsub, hr⟩ := hk
  exact ⟨fun h => absurd h (by simp [hs, hr]), fun h => absurd h ht, fun h => absurd h hsub,
    fun h => absurd h hm⟩

/-- The text of an attribute ends with its quote. -/
theorem Lexis.take_of_attributeFrom {quote : Char} {skip n : Nat} {s : List Char}
    (h : attributeFrom quote skip s = some n) : ∃ mid, s.take n = mid ++ [quote] := by
  induction s generalizing skip n with
  | nil => simp [attributeFrom] at h
  | cons c s ih =>
    have later {k : Nat} (h : (attributeFrom quote k s).map (· + 1) = some n) :
        ∃ mid, (c :: s).take n = mid ++ [quote] := by
      obtain ⟨m, hm, rfl⟩ := Option.map_eq_some_iff.1 h
      obtain ⟨mid, hmid⟩ := ih hm
      exact ⟨c :: mid, by rw [List.take_succ_cons, hmid, List.cons_append]⟩
    cases skip with
    | succ skip => exact later (by rwa [attributeFrom] at h)
    | zero =>
      rw [attributeFrom.eq_def] at h
      simp only at h
      split at h
      · rename_i hc
        rw [← Option.some.inj h, beq_iff_eq.1 hc]
        exact ⟨[], rfl⟩
      · split at h
        · split at h
          · split at h
            · split at h
              · exact later h
              · cases h
            · exact later h
          · cases h
        · exact later h

theorem Lexis.fenced_of_attributeString {s : List Char} {n : Nat}
    (h : attributeString s = some n) : Fenced (s.take n) := by
  cases s with
  | nil => simp [attributeString] at h
  | cons c s =>
    rw [attributeString] at h
    split at h
    · rename_i hc
      obtain ⟨m, hm, rfl⟩ := Option.map_eq_some_iff.1 h
      obtain ⟨mid, hmid⟩ := take_of_attributeFrom hm
      rw [List.take_succ_cons, hmid]
      simp only [Bool.or_eq_true, beq_iff_eq] at hc
      rcases hc with rfl | rfl
      all_goals exact .mk (by decide) (by decide)
    · cases h

/-- Whether a grammar reads leaves other than strings, and constructs of the kinds. -/
def Grammar.isFlat {R : Type} (kinds : List Kind) : Grammar R → Bool
  | .empty | .gap | .check _ | .absent _ => true
  | .token k _ | .glued k _ => k != .string
  | .seq a b | .alt a b => a.isFlat kinds && b.isFlat kinds
  | .many a | .field _ a => a.isFlat kinds
  | .node k _ => kinds.contains k
  | _ => false

section Reads

open Grammar Rules

variable {s rest : List Char} {ts : List Tree}

theorem reads_glued {k : Kind} {scan : Scan}
    (h : Reads Lexis.lexicon rules (.glued k scan) s ts rest) :
    ∃ n, scan s = some n ∧ ts = [.token k none (s.take n)] := by
  cases h with
  | glued h =>
    simp only [readGlued] at h
    split at h
    · rename_i n hn
      simp only [Option.some.injEq, Prod.mk.injEq] at h
      exact ⟨n, hn, h.1.symm⟩
    · cases h

theorem reads_gluedMark {k : Kind} {w stop : List Char}
    (h : Reads Lexis.lexicon rules (.glued k (Lexis.mark w stop)) s ts rest) :
    ts = [.token k none w] := by
  obtain ⟨n, hn, rfl⟩ := reads_glued h
  rw [take_of_mark hn]

/-- A grammar that mentions no other kinds reads flat trees. -/
theorem isFlat_of_reads {kinds : List Kind} {g : G} (h : Reads Lexis.lexicon rules g s ts rest)
    (hg : g.isFlat kinds = true) : ∀ t ∈ ts, t.isFlat kinds = true := by
  have htrivia {t : Tree} (ht : PlainTrivia t) : t.isFlat kinds = true :=
    isFlat_of_isTrivia kinds ht.isTrivia.1
  induction h with
  | empty | check | absent | manyNil => simp
  | gap => exact fun t ht => htrivia (Lexis.plainTrivia_pieces _ t ht)
  | token h =>
    obtain ⟨lead, u, n, rfl, -, hlead⟩ := reads_token (.token h)
    simp only [List.forall_mem_append, List.forall_mem_singleton]
    exact ⟨fun t ht => htrivia (hlead t ht), hg⟩
  | glued h =>
    obtain ⟨n, -, rfl⟩ := reads_glued (.glued h)
    exact List.forall_mem_singleton.2 hg
  | seq _ _ iha ihb =>
    obtain ⟨ha, hb⟩ := Bool.and_eq_true_iff.1 hg
    exact List.forall_mem_append.2 ⟨iha ha, ihb hb⟩
  | altLeft _ ih => exact ih (Bool.and_eq_true_iff.1 hg).1
  | altRight _ ih => exact ih (Bool.and_eq_true_iff.1 hg).2
  | manyCons _ _ iha ihm => exact List.forall_mem_append.2 ⟨iha hg, ihm hg⟩
  | node _ _ =>
    refine List.forall_mem_append.2 ⟨fun t ht => ?_, List.forall_mem_singleton.2 hg⟩
    exact isFlat_of_isTrivia kinds ((List.all_eq_true.1 List.all_takeWhile) t ht)
  | field _ hr ih =>
    obtain ⟨lead, t, rfl, rfl, -, -⟩ := giveRole_eq_some hr
    obtain ⟨hlead, ht⟩ := List.forall_mem_append.1 (ih hg)
    refine List.forall_mem_append.2 ⟨hlead, List.forall_mem_singleton.2 ?_⟩
    have ht := ht t (List.mem_singleton_self t)
    cases t <;> exact ht
  | rule | reshape | grow | stay | goOn => cases hg

theorem reads_between {kinds : List Kind} {g : G} {w w' : List Char} (hg : g.isFlat kinds = true)
    (h : Reads Lexis.lexicon rules (seq (.token .symbol (Lexis.mark w []))
      (seq g (glued .symbol (Lexis.mark w' [])))) s ts rest) :
    ∃ mid, (splitTrivia ts).2 = .token .symbol none w :: (mid ++ [.token .symbol none w']) ∧
      ∀ p ∈ mid, p.isFlat kinds = true := by
  cases h with
  | seq hopen hrest =>
    obtain ⟨lead, rfl, hlead⟩ := reads_mark hopen
    cases hrest with
    | @seq _ _ _ mid _ _ _ hmid hclose =>
      rw [reads_gluedMark hclose, List.append_assoc, List.singleton_append,
        splitTrivia_part (fun g hg => (hlead g hg).isTrivia.1) rfl]
      exact ⟨mid, rfl, isFlat_of_reads hmid hg⟩

theorem reads_substitution (h : Reads Lexis.lexicon rules substitutionBody s ts rest) :
    ∃ mid, (splitTrivia ts).2 =
      .token .symbol none ['$', '\x7b'] :: (mid ++ [.token .symbol none ['\x7d']]) := by
  cases h with
  | seq hopen hrest =>
    cases hrest with
    | @seq _ _ _ mid _ _ _ hmid hclose =>
      obtain ⟨lead, rfl, -⟩ := reads_mark hclose
      rw [reads_gluedMark hopen]
      exact ⟨mid ++ lead, by simp [splitTrivia, isTrivia]⟩

/-- The flags of a regular expression have no closing bracket. -/
theorem reads_flags (h : Reads Lexis.lexicon rules (opt (field .flags (glued .regexFlags
    (Lexis.runOf fun c => 97 ≤ c.toNat && c.toNat ≤ 122)))) s ts rest) :
    ∀ c ∈ textOf ts, c ∉ wrapperClosers := by
  cases h with
  | altRight h =>
    cases h
    simp
  | altLeft h =>
    cases h with
    | field h hr =>
      obtain ⟨n, hn, rfl⟩ := reads_glued h
      rw [@giveRole_concat _ [] _ _ hr]
      have htake : s.take n = s.takeWhile fun c => 97 ≤ c.toNat && c.toNat ≤ 122 := by
        simp only [Lexis.runOf] at hn
        split at hn
        · cases hn
        · rw [← Option.some.inj hn]
          exact (List.prefix_iff_eq_take.1 (List.takeWhile_prefix _)).symm
      intro c hc
      have hc : c ∈ s.takeWhile fun c => 97 ≤ c.toNat && c.toNat ≤ 122 := by
        simpa [withRole, htake] using hc
      have hlower := List.all_eq_true.1 List.all_takeWhile c hc
      intro hmem
      have hall : ∀ c ∈ wrapperClosers, (97 ≤ c.toNat && c.toNat ≤ 122) = false := by decide
      simp [hall c hmem] at hlower

/-- A regular expression begins like a literal and does not end like a wrapper. -/
theorem reads_regex (h : Reads Lexis.lexicon rules regexBody s ts rest) :
    Bounded (textOf (splitTrivia ts).2) := by
  cases h with
  | @seq _ _ _ _ u _ _ hopen hrest =>
    obtain ⟨lead, rfl, hlead⟩ := reads_mark hopen
    cases hrest with
    | seq hpattern hrest =>
      cases hpattern with
      | field hpattern hr =>
        obtain ⟨n, -, rfl⟩ := reads_glued hpattern
        have hr := @giveRole_concat _ [] _ _ hr
        cases hrest with
        | @seq _ _ _ _ _ flags _ hclose hflags =>
          have hflags := reads_flags hflags
          rw [hr, reads_gluedMark hclose, List.append_assoc, List.singleton_append,
            splitTrivia_part (fun g hg => (hlead g hg).isTrivia.1) rfl]
          have htext : textOf (.token .symbol none "/".toList :: (([] ++
              [(Tree.token .regexPattern none (u.take n)).withRole .pattern]) ++
              ([.token .symbol none "/".toList] ++ flags))) =
              '/' :: (u.take n ++ '/' :: textOf flags) := by
            simp [withRole]
          rw [htext]
          refine ⟨⟨'/', rfl, by decide⟩, ?_⟩
          rw [← List.cons_append, List.getLast?_append, List.getLast?_cons]
          cases hlast : (textOf flags).getLast? with
          | none => exact ⟨'/', rfl, by decide⟩
          | some c => exact ⟨c, rfl, hflags c (List.mem_of_getLast? hlast)⟩

end Reads

/-- **Every literal is delimited**, wherever it is read. -/
theorem readable_delimited : Readable Delimited where
  trivia {t} h := by
    unfold PlainTrivia at h
    split at h
    · exact trivial
    · exact fun h => by cases h
    · exact h.elim
  role {t} h ht r := by
    cases t with
    | gap s => exact h
    | token k r' s => exact h
    | node k r' ps => exact h
  token _ _ hk _ h := absurd h hk
  name hk _ h := absurd h hk
  dashedName hk _ h := absurd h hk
  shorthand _ _ := fun h => by cases h
  attributeString h _ := Lexis.fenced_of_attributeString h
  node hk _ ps := literalShape_of_not_mem hk ps
  string {q s rest ts} hq h := by
    obtain ⟨mid, heq, hflat⟩ := @reads_between _ _ _ [] _ _ _ rfl h
    refine ⟨fun _ => ?_, by simp, by simp, by simp⟩
    rw [heq]
    simp only [textOf_cons, textOf_append, textOf_nil, text_token, List.append_nil,
      List.singleton_append, List.forall_mem_cons, List.forall_mem_append]
    simp only [List.mem_cons, List.not_mem_nil, or_false] at hq
    refine ⟨Fenced.bounded ?_, rfl, hflat, by simp [isFlat]⟩
    rcases hq with rfl | rfl
    all_goals exact .mk (by decide) (by decide)
  template h := ⟨by simp, fun _ => reads_between rfl h, by simp, by simp⟩
  substitution h := ⟨by simp, by simp, fun _ => reads_substitution h, by simp⟩
  regex {s rest ts} h := by
    refine ⟨fun _ => ⟨reads_regex h, fun p hp => ?_⟩, by simp, by simp, by simp⟩
    exact isFlat_of_reads h rfl p ((List.dropWhile_sublist _).mem hp)
  member {g s rest body start more} hg hfit hreads := by
    refine ⟨by simp, by simp, by simp, fun _ => ?_⟩
    obtain ⟨object, -, rfl, rfl⟩ := Reshape.asPart_eq_some hfit
    have hflat : g.isFlat [] = true := by
      simp only [List.mem_cons, List.not_mem_nil, or_false] at hg
      rcases hg with rfl | rfl | rfl <;> rfl
    exact ⟨_, more, rfl, isFlat_of_reads hreads hflat⟩
  assignment _ _ _ := ⟨by simp, by simp, by simp, by simp⟩

/-! ## Where literals stand -/

/-- Whether texts stand in a text, in this order and one behind the other. -/
inductive Interleaved {α : Type} : List (List α) → List α → Prop where
  | nil (s : List α) : Interleaved [] s
  | cons (before : List α) {lit rest : List α} {lits : List (List α)}
      (h : Interleaved lits rest) : Interleaved (lit :: lits) (before ++ (lit ++ rest))

namespace Interleaved

variable {α : Type} {lits lits' : List (List α)} {s s' x : List α}

theorem prepend (x : List α) (h : Interleaved lits s) : Interleaved lits (x ++ s) := by
  cases h with
  | nil => exact .nil _
  | cons before h =>
    rw [← List.append_assoc]
    exact .cons (x ++ before) h

theorem append (h : Interleaved lits s) (h' : Interleaved lits' s') :
    Interleaved (lits ++ lits') (s ++ s') := by
  induction h with
  | nil s => exact h'.prepend s
  | cons before h ih =>
    rw [List.cons_append, List.append_assoc, List.append_assoc]
    exact .cons before ih

/-- A text in front that no literal starts with can be left out. -/
theorem of_prepend (hlits : ∀ lit ∈ lits, ∃ c ∈ lit.head?, c ∉ x) (h : Interleaved lits (x ++ s)) :
    Interleaved lits s := by
  induction x with
  | nil => exact h
  | cons c x ih =>
    refine ih (fun lit hlit => ?_) ?_
    · obtain ⟨d, hd, hnot⟩ := hlits lit hlit
      exact ⟨d, hd, fun hmem => hnot (List.mem_cons_of_mem c hmem)⟩
    rw [List.cons_append] at h
    generalize htext : c :: (x ++ s) = text at h
    cases h with
    | nil => exact .nil _
    | @cons before lit rest lits h =>
      cases before with
      | cons d before =>
        rw [(List.cons.inj htext).2]
        exact .cons before h
      | nil =>
        obtain ⟨d, hd, hnot⟩ := hlits lit List.mem_cons_self
        obtain ⟨lit', rfl⟩ := List.head?_eq_some_iff.1 hd
        exact absurd ((List.cons.inj htext).1 ▸ List.mem_cons_self) hnot

/-- So can a text behind that no literal ends with. -/
theorem of_append (hlits : ∀ lit ∈ lits, ∃ c ∈ lit.getLast?, c ∉ x)
    (h : Interleaved lits (s ++ x)) : Interleaved lits s := by
  generalize htext : s ++ x = text at h
  induction h generalizing s x with
  | nil => exact .nil _
  | @cons before lit rest lits h ih =>
    obtain ⟨⟨d, hd, hnot⟩, hmore⟩ := List.forall_mem_cons.1 hlits
    obtain ⟨lit', rfl⟩ := List.getLast?_eq_some_iff.1 hd
    rw [← List.append_assoc] at htext
    rcases List.append_eq_append_iff.1 htext with ⟨m, hm, hx⟩ | ⟨m, hm, hrest⟩
    · rcases List.eq_nil_or_concat m with rfl | ⟨m, e, rfl⟩
      · have hs : s = before ++ (lit' ++ [d] ++ []) := by rw [List.append_nil, hm, List.append_nil]
        rw [hs]
        exact .cons before (ih hmore hx)
      · rw [← List.append_assoc, List.concat_eq_append, ← List.append_assoc] at hm
        have hde : d = e := List.singleton_inj.1 (List.append_inj' hm rfl).2
        exact absurd (by simp [hx, hde]) hnot
    · rw [hm, List.append_assoc]
      exact .cons before (ih hmore hrest.symm)

end Interleaved

/-- Literals that stand in a text in order, and nowhere in an access. -/
structure Quotes (lits : List (List Char)) (text : List Spot) : Prop where
  interleaved : Interleaved (lits.map elsewhere) text
  bounded : ∀ lit ∈ lits, Bounded lit

namespace Quotes

variable {lits lits' : List (List Char)} {s s' : List Spot}

theorem nil (s : List Spot) : Quotes [] s := ⟨.nil s, by simp⟩

theorem append (h : Quotes lits s) (h' : Quotes lits' s') : Quotes (lits ++ lits') (s ++ s') :=
  ⟨by rw [List.map_append]; exact h.interleaved.append h'.interleaved,
    List.forall_mem_append.2 ⟨h.bounded, h'.bounded⟩⟩

theorem singleton {lit : List Char} (h : Bounded lit) : Quotes [lit] (elsewhere lit) := by
  have hcons : Interleaved [elsewhere lit] ([] ++ (elsewhere lit ++ [])) := .cons [] (.nil [])
  rw [List.append_nil, List.nil_append] at hcons
  exact ⟨hcons, List.forall_mem_singleton.2 h⟩

theorem inner {x y : List Spot} (hx : ∀ c ∈ x, c.1 ∉ literalOpeners)
    (hy : ∀ c ∈ y, c.1 ∈ wrapperClosers) (h : Quotes lits (x ++ (s ++ y))) : Quotes lits s := by
  refine ⟨.of_append (x := y) ?_ (.of_prepend (x := x) ?_ h.interleaved), h.bounded⟩
  · intro lit hlit
    obtain ⟨lit, hmem, rfl⟩ := List.mem_map.1 hlit
    obtain ⟨c, hc, hnot⟩ := (h.bounded lit hmem).closes
    exact ⟨(c, .elsewhere), by simp [elsewhere, Option.mem_def.1 hc], fun hmem => hnot (hy _ hmem)⟩
  · intro lit hlit
    obtain ⟨lit, hmem, rfl⟩ := List.mem_map.1 hlit
    obtain ⟨c, hc, hopener⟩ := (h.bounded lit hmem).opens
    exact ⟨(c, .elsewhere), by simp [elsewhere, Option.mem_def.1 hc],
      fun hmem => hx _ hmem hopener⟩

theorem literalsOf {ts : List Tree} (h : ∀ t ∈ ts, Quotes t.literals t.spots) :
    Quotes (literalsOf ts) (spotsOf ts) := by
  induction ts with
  | nil => exact .nil _
  | cons t ts ih =>
    obtain ⟨ht, hts⟩ := List.forall_mem_cons.1 h
    rw [Tree.literalsOf, spotsOf]
    exact ht.append (ih hts)

/-- The pieces of a template stand in order, each between its own delimiters. -/
theorem pieces {o : Char} (ho : o ∈ literalOpeners) {start : List Char} {ps : List Tree}
    (hflat : ∀ t ∈ ps, t.isFlat [.templateSubstitution] = true)
    (h : ∀ t ∈ ps, Delimited t ∧ Quotes t.literals t.spots) :
    Quotes (pieces (o :: start) (ps ++ [token .symbol none ['\x60']]))
      (elsewhere (o :: start) ++ spotsOf (ps ++ [token .symbol none ['\x60']])) := by
  induction ps generalizing o start with
  | nil =>
    simp only [List.nil_append, Tree.pieces, spotsOf, spots, List.append_nil, ← elsewhere_append]
    exact singleton (Fenced.mk ho (by decide)).bounded
  | cons t ps ih =>
    obtain ⟨ht, hps⟩ := List.forall_mem_cons.1 h
    obtain ⟨htflat, hmore⟩ := List.forall_mem_cons.1 hflat
    cases t with
    | gap t =>
      rw [List.cons_append, Tree.pieces, spotsOf, spots, ← List.append_assoc, ← elsewhere_append]
      exact ih ho hmore hps
    | token k r t =>
      rw [List.cons_append, Tree.pieces, spotsOf, spots, ← List.append_assoc, ← elsewhere_append]
      exact ih ho hmore hps
    | node k r qs =>
      obtain rfl : k = .templateSubstitution := by simpa [isFlat] using htflat
      obtain ⟨hshape, hquotes⟩ := ht
      obtain ⟨mid, rfl⟩ := hshape.substitution rfl
      have hlits : Tree.literalsOf (.token .symbol none ['$', '\x7b'] ::
          (mid ++ [.token .symbol none ['\x7d']])) = Tree.literalsOf mid := by
        simp [Tree.literalsOf, literals]
      have hspots : (node .templateSubstitution r (.token .symbol none ['$', '\x7b'] ::
          (mid ++ [.token .symbol none ['\x7d']]))).spots =
          elsewhere ['$', '\x7b'] ++ (spotsOf mid ++ elsewhere ['\x7d']) := by
        simp [spotsOf, spots, isStateMember]
      have hmid : Quotes (Tree.literalsOf mid) (spotsOf mid) := by
        rw [literals, if_neg (by simp), if_neg (by simp), hlits, hspots] at hquotes
        exact hquotes.inner (by decide) (by decide)
      have hpiece : Quotes [o :: start ++ ['$', '\x7b']]
          (elsewhere (o :: start ++ ['$', '\x7b'])) := by
        have hfenced : Fenced (o :: (start ++ ['$'] ++ ['\x7b'])) := .mk ho (by decide)
        exact singleton (by simpa using hfenced.bounded)
      have hall := hpiece.append (hmid.append (@ih '\x7d' (by decide) [] hmore hps))
      rw [List.cons_append, Tree.pieces, if_pos rfl, spotsOf, hspots, hlits]
      simpa [elsewhere] using hall

end Quotes

/-- The literals of a tree stand in it in order, and outside its members on `state`. -/
theorem Throughout.quotes_literals {t : Tree} (h : Throughout Delimited t) :
    Quotes t.literals t.spots := by
  induction h with
  | @mk t root parts ih =>
    cases t with
    | gap t => exact .nil _
    | token k r t =>
      rw [literals, spots]
      split
      · rename_i hk
        exact .singleton (root hk).bounded
      · exact .nil _
    | node k r ps =>
      have hshape : LiteralShape k ps := root
      rw [literals]
      split
      · rename_i hk
        obtain ⟨hbounded, hflat⟩ := hshape.leaves hk
        have hspots : (node k r ps).spots = elsewhere (textOf ps) := by
          rcases hk with rfl | rfl
          all_goals exact (spotsOf_of_isFlat hflat).1
        rw [hspots]
        exact .singleton hbounded
      · split
        · rename_i hk
          subst hk
          obtain ⟨mid, rfl, hflat⟩ := hshape.template rfl
          have hmid : ∀ t ∈ mid, Delimited t ∧ Quotes t.literals t.spots := by
            intro t ht
            have hpart : t ∈ (Tree.node .templateString r (.token .symbol none ['\x60'] ::
                (mid ++ [.token .symbol none ['\x60']]))).parts := by
              simp [Tree.parts, ht]
            cases parts t hpart with
            | mk root _ => exact ⟨root, ih t hpart⟩
          exact @Quotes.pieces '\x60' (by decide) [] mid hflat hmid
        · rw [spots]
          split
          · -- the parts of a member access on `state` are leaves
            rename_i hmember
            unfold isStateMember at hmember
            split at hmember
            · rename_i heq
              obtain ⟨rfl, -, rfl⟩ := Tree.node.inj heq
              obtain ⟨object, more, hps, hflat⟩ := hshape.member rfl
              obtain ⟨rfl, rfl⟩ := List.cons.inj hps
              rw [Tree.literalsOf, (spotsOf_of_isFlat hflat).2]
              exact .nil _
            · cases hmember
          · exact .literalsOf ih

/-! ## Fragments -/

/-- The characters of a fragment with their places: those of its tree, without the wrapper. -/
def Fragment.spots (f : Fragment) : List Spot :=
  let all := elsewhere f.lead ++ f.root.spots
  (all.take (all.length - f.wrapper.closing.length)).drop f.wrapper.opening.length

namespace Fragment

/-- The wrapper of a fragment stands around its own characters. -/
theorem exists_wrapped_spots {code : List Char} {f : Fragment} (h : parse? code = some f) :
    ∃ x y, elsewhere f.lead ++ f.root.spots = x ++ (f.spots ++ y) ∧
      x.map Prod.fst = f.wrapper.opening.toList ∧ f.spots.map Prod.fst = code ∧
      y.map Prod.fst = f.wrapper.closing.toList := by
  have hall : (elsewhere f.lead ++ f.root.spots).map Prod.fst =
      f.wrapper.opening.toList ++ (code ++ f.wrapper.closing.toList) := by
    rw [List.map_append, map_fst_elsewhere, map_fst_spots, text_of_parse? h, List.append_assoc]
  obtain ⟨x, m, hx, hopening, hm⟩ := List.map_eq_append_iff.1 hall
  obtain ⟨z, y, rfl, hcode, hclosing⟩ := List.map_eq_append_iff.1 hm
  have hxlength : f.wrapper.opening.length = x.length := by
    rw [← String.length_toList, ← hopening, List.length_map]
  have hylength : f.wrapper.closing.length = y.length := by
    rw [← String.length_toList, ← hclosing, List.length_map]
  have hspots : f.spots = z := by
    have htake : (x ++ (z ++ y)).length - y.length = (x ++ z).length := by
      simp only [List.length_append]
      omega
    rw [spots, hx, hxlength, hylength, htake, ← List.append_assoc, List.take_left, List.drop_left]
  exact ⟨x, y, by rw [hspots, hx], hopening, by rw [hspots, hcode], hclosing⟩

theorem map_fst_spots {code : List Char} {f : Fragment} (h : parse? code = some f) :
    f.spots.map Prod.fst = code := by
  obtain ⟨x, y, -, -, hcode, -⟩ := exists_wrapped_spots h
  exact hcode

/-- **The literals of a fragment stand in it in order**, and not in its accesses to the state. -/
theorem quotes_literals {code : List Char} {f : Fragment} (h : parse? code = some f) :
    Quotes f.root.literals f.spots := by
  have hroot : Quotes f.root.literals f.root.spots :=
    (throughout_of_readProgram readable_delimited (parseIn_eq_some h).2).quotes_literals
  have hall : Quotes f.root.literals (elsewhere f.lead ++ f.root.spots) :=
    ⟨hroot.interleaved.prepend _, hroot.bounded⟩
  obtain ⟨x, y, heq, hopening, -, hclosing⟩ := exists_wrapped_spots h
  have hwrapper : ∀ w ∈ wrappers, (∀ c ∈ w.opening.toList, c ∉ literalOpeners) ∧
      ∀ c ∈ w.closing.toList, c ∈ wrapperClosers := by
    decide
  obtain ⟨hopen, hclose⟩ := hwrapper _ (parseIn_eq_some h).1
  rw [← hopening] at hopen
  rw [← hclosing] at hclose
  rw [heq] at hall
  exact hall.inner (fun c hc => hopen c.1 (List.mem_map_of_mem hc))
    fun c hc => hclose c.1 (List.mem_map_of_mem hc)

end Fragment

end ReactWeave.Script
