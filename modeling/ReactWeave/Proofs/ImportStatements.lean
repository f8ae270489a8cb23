import ReactWeave.Imports
import ReactWeave.Proofs.Methods

/-!
# ReactWeave.Proofs.ImportStatements

**Import statements** bind what was asked for, as long as the grammar has a form for it.

An import lists the names that stand for the default of a module, then those that
stand for all of it, then the others in braces. The grammar knows only one default,
only one name for the whole, and no list next to the latter.

* `Script.importOf?` reads an import statement: the module it refers to, and the local
  names that it binds with what they stand for.
* `Import.statement_binds`: an import is read back exactly if its names are
  `Import.Regular`; otherwise its text is no import statement.
-/

namespace ReactWeave.Script

/-! ## Reading imports -/

/-- A piece of an import statement. -/
inductive Lexeme where
  | word (name : String)
  | mark (c : Char)
  /-- A string without escapes. -/
  | string (body : String)
  deriving DecidableEq

/-- The piece that a text starts with, and its length. -/
def lexeme (c : Char) (s : List Char) : Lexeme × Nat :=
  match Lexis.nameLength (c :: s) with
  | n + 1 => (.word (String.ofList ((c :: s).take (n + 1))), n)
  | 0 =>
    let body := s.takeWhile fun d => d != c && d != '\\' && d != '\r' && d != '\n'
    if (c = '\'' ∨ c = '\x22') ∧ (s.drop body.length).head? = some c then
      (.string (String.ofList body), body.length + 1)
    else (.mark c, 0)

/-- The pieces of a text; the first `skip` characters belong to none that is left. -/
def lexemes : Nat → List Char → List Lexeme
  | _, [] => []
  | skip + 1, _ :: s => lexemes skip s
  | 0, c :: s =>
    match Lexis.gapFrom 0 (c :: s) with
    | n + 1 => lexemes n s
    | 0 => (lexeme c s).1 :: lexemes (lexeme c s).2 s

/-- A local name and what it stands for. -/
abbrev Binding := String × String

/-- Whether a word may be bound. -/
def isBindable (name : String) : Bool := Lexis.isIdentifier name.toList

/-- A name of a list: the last one in front of a brace, or one in front of a comma. -/
def item? (b : Binding) (m : Char) (ls : List Lexeme)
    (others : Option (List Binding × List Lexeme)) : Option (List Binding × List Lexeme) :=
  if isBindable b.1 then
    if m = '}' then some ([b], ls)
    else if m = ',' then others.map fun (bs, ls) => (b :: bs, ls) else none
  else none

/-- The names of a list, up to the brace that closes it: alone, or behind the names that they are
exported by. -/
def items? : List Lexeme → Option (List Binding × List Lexeme)
  | .mark '}' :: ls => some ([], ls)
  | .word name :: .mark m :: ls => item? (name, name) m ls (items? ls)
  | .word exported :: .word "as" :: .word name :: .mark m :: ls
  | .string exported :: .word "as" :: .word name :: .mark m :: ls =>
    item? (name, exported) m ls (items? ls)
  | _ => none

/-- A name for all that a module exports, or a list of names. -/
def group? : List Lexeme → Option (List Binding × List Lexeme)
  | .mark '*' :: .word "as" :: .word name :: ls =>
    if isBindable name then some ([(name, "*")], ls) else none
  | .mark '{' :: ls => items? ls
  | _ => none

/-- A clause: a name for the default, one of the other forms, or both. -/
def clause? : List Lexeme → Option (List Binding × List Lexeme)
  | .word name :: ls =>
    if isBindable name then
      match ls with
      | .mark ',' :: ls => (group? ls).map fun (bs, ls) => ((name, "default") :: bs, ls)
      | _ => some ([(name, "default")], ls)
    else none
  | ls => group? ls

/-- The module that a statement ends with. -/
def module? (bs : List Binding) : List Lexeme → Option (String × List Binding)
  | [.string path, .mark ';'] => some (path, bs)
  | _ => none

/-- The module and the names of an import statement. -/
def statement? : List Lexeme → Option (String × List Binding)
  | .word "import" :: ls =>
    match clause? ls with
    | some (bs, .word "from" :: ls) => module? bs ls
    | some _ => none
    | none => module? [] ls
  | _ => none

/-- The module and the names of a text that is one import statement. -/
def importOf? (s : List Char) : Option (String × List Binding) := statement? (lexemes 0 s)

/-! ## Pieces of what is written -/

/-- Whether a path stands for itself between quotes. -/
abbrev IsPlainPath (path : List Char) : Prop :=
  ∀ c ∈ path, (c != '\'' && c != '\\' && c != '\r' && c != '\n') = true

namespace Lexeme

/-- A piece as it stands behind others. -/
def text : Lexeme → List Char
  | word name => ' ' :: name.toList
  | mark c => if c = ',' ∨ c = ';' then [c] else [' ', c]
  | string body => ' ' :: '\'' :: (body.toList ++ ['\''])

/-- Whether a piece can be told from its text. -/
def IsLegible : Lexeme → Prop
  | word name => isName name.toList = true
  | mark c => c ∈ [',', ';', '*', '{', '}']
  | string body => IsPlainPath body.toList

end Lexeme

section Pieces

variable {ls : List Lexeme}

theorem lexemes_length (t s : List Char) : lexemes t.length (t ++ s) = lexemes 0 s := by
  induction t with
  | nil => rfl
  | cons c t ih => exact ih

theorem lexemes_space (s : List Char) : lexemes 0 (' ' :: s) = lexemes 0 s := by
  show lexemes (Lexis.gapFrom 0 s) s = _
  cases s with
  | nil => simp [lexemes]
  | cons c s => cases h : Lexis.gapFrom 0 (c :: s) <;> simp [lexemes, h]

theorem lexemes_word {name rest : List Char} (h : isName name = true)
    (hrest : ∀ c ∈ rest.head?, endsWord c = true) :
    lexemes 0 (name ++ rest) = .word (String.ofList name) :: lexemes 0 rest := by
  have hlength := nameLength_of_endsWord h hrest
  have hsolid : Lexis.gapFrom 0 (name ++ rest) = 0 := solid_of_isName h rest
  obtain ⟨c, name, rfl, -⟩ := isName_head h
  rw [List.cons_append] at hlength hsolid ⊢
  have hlexeme : lexeme c (name ++ rest) = (.word (String.ofList (c :: name)), name.length) := by
    simp [lexeme, hlength]
  simp only [lexemes, hsolid, hlexeme, lexemes_length]

/-- A path without quotes and backslashes is one lexeme. -/
theorem lexemes_string {path : List Char} (h : IsPlainPath path) (s : List Char) :
    lexemes 0 ('\'' :: (path ++ '\'' :: s)) = .string (String.ofList path) :: lexemes 0 s := by
  have hbody : (path ++ '\'' :: s).takeWhile
      (fun c => c != '\'' && c != '\\' && c != '\r' && c != '\n') = path := by
    rw [List.takeWhile_append_of_pos h]
    simp
  have hlexeme : lexeme '\'' (path ++ '\'' :: s) =
      (.string (String.ofList path), path.length + 1) := by
    have hname : Lexis.nameLength ('\'' :: (path ++ '\'' :: s)) = 0 := rfl
    simp [lexeme, hname, hbody]
  have hsolid : Lexis.gapFrom 0 ('\'' :: (path ++ '\'' :: s)) = 0 := rfl
  have hskip := lexemes_length (path ++ ['\'']) s
  simp only [List.length_append, List.length_singleton, List.append_assoc, List.singleton_append]
    at hskip
  simp only [lexemes, hsolid, hlexeme, hskip]

theorem Lexeme.exists_text (l : Lexeme) : ∃ c t, l.text = c :: t ∧ endsWord c = true := by
  cases l with
  | word name => exact ⟨_, _, rfl, by decide⟩
  | string body => exact ⟨_, _, rfl, by decide⟩
  | mark c =>
    rw [text]
    split
    · rename_i hc
      rcases hc with rfl | rfl <;> exact ⟨_, _, rfl, by decide⟩
    · exact ⟨_, _, rfl, by decide⟩

theorem endsWord_text (ls : List Lexeme) :
    ∀ c ∈ (ls.flatMap Lexeme.text).head?, endsWord c = true := by
  cases ls with
  | nil => simp
  | cons l ls =>
    obtain ⟨c, t, htext, hc⟩ := l.exists_text
    simpa [htext] using hc

/-- **Pieces are read back.** -/
theorem lexemes_text (h : ∀ l ∈ ls, l.IsLegible) : lexemes 0 (ls.flatMap Lexeme.text) = ls := by
  induction ls with
  | nil => rfl
  | cons l ls ih =>
    obtain ⟨hl, hls⟩ := List.forall_mem_cons.1 h
    rw [List.flatMap_cons]
    cases l with
    | word name =>
      rw [Lexeme.text, List.cons_append, lexemes_space, lexemes_word hl (endsWord_text ls), ih hls,
        String.ofList_toList]
    | mark c =>
      have hmark (s : List Char) : lexemes 0 ((Lexeme.mark c).text ++ s) = .mark c :: lexemes 0 s := by
        simp only [Lexeme.IsLegible, List.mem_cons, List.not_mem_nil, or_false] at hl
        rcases hl with rfl | rfl | rfl | rfl | rfl <;> rfl
      rw [hmark, ih hls]
    | string body =>
      rw [Lexeme.text, List.cons_append, List.cons_append, List.append_assoc,
        List.singleton_append, lexemes_space, lexemes_string hl, ih hls, String.ofList_toList]

/-- The text of some pieces, without the space in front of it. -/
def unspaced (ls : List Lexeme) : String := String.ofList (ls.flatMap Lexeme.text).tail

theorem toList_unspaced (h : (ls.flatMap Lexeme.text).head? = some ' ') :
    ' ' :: (unspaced ls).toList = ls.flatMap Lexeme.text := by
  obtain ⟨t, ht⟩ := List.head?_eq_some_iff.1 h
  simp [unspaced, ht]

/-- Clauses joined by commas are the text of their lexemes. -/
theorem text_intercalate {cs : List (List Lexeme)} (hne : cs ≠ [])
    (h : ∀ c ∈ cs, (c.flatMap Lexeme.text).head? = some ' ') :
    ' ' :: (", ".intercalate (cs.map unspaced)).toList =
      ([.mark ','].intercalate cs).flatMap Lexeme.text := by
  induction cs with
  | nil => exact absurd rfl hne
  | cons c cs ih =>
    obtain ⟨hc, hcs⟩ := List.forall_mem_cons.1 h
    have hfirst := toList_unspaced hc
    cases cs with
    | nil => simpa using hfirst
    | cons c' cs =>
      have hothers := ih (by simp) hcs
      simp only [String.toList_intercalate, List.map_cons, List.intercalate_cons_cons] at hothers ⊢
      rw [List.flatMap_append, List.flatMap_append, ← hothers, ← hfirst]
      simp [Lexeme.text]

theorem isLegible_intercalate {cs : List (List Lexeme)} (h : ∀ c ∈ cs, ∀ l ∈ c, l.IsLegible) :
    ∀ l ∈ [.mark ','].intercalate cs, l.IsLegible := by
  induction cs with
  | nil => simp
  | cons c cs ih =>
    obtain ⟨hc, hcs⟩ := List.forall_mem_cons.1 h
    cases cs with
    | nil => simpa using hc
    | cons c' cs =>
      rw [List.intercalate_cons_cons, List.forall_mem_append, List.forall_mem_append]
      exact ⟨⟨hc, by simp [Lexeme.IsLegible]⟩, ih hcs⟩

end Pieces

/-! ## Clauses -/

/-- A name behind what it stands for. -/
def aliasOf (exported : Lexeme) (name : String) : List Lexeme := [exported, .word "as", .word name]

/-- A name of a list. -/
def itemOf (b : Binding) : List Lexeme :=
  if b.1 = b.2 then [.word b.1] else aliasOf (.word b.2) b.1

/-- A list of names in braces. -/
def bracedOf (bs : List Binding) : List Lexeme :=
  .mark '{' :: ([.mark ','].intercalate (bs.map itemOf) ++ [.mark '}'])

/-- A statement with some clauses. -/
def statementOf (path : String) : List (List Lexeme) → List Lexeme
  | [] => [.word "import", .string path, .mark ';']
  | cs => .word "import" :: ([.mark ','].intercalate cs ++ [.word "from", .string path, .mark ';'])

section Clauses

variable {name path : String} {bs : List Binding}

theorem group?_whole (h : isBindable name = true) (ls : List Lexeme) :
    group? (aliasOf (.mark '*') name ++ ls) = some ([(name, "*")], ls) := by
  simp [aliasOf, group?, h]

theorem items?_itemOf (b : Binding) (m : Char) (ls : List Lexeme) :
    items? (itemOf b ++ .mark m :: ls) = item? b m ls (items? ls) := by
  rw [itemOf]
  split
  · have hsame : (b.1, b.1) = b := Prod.ext rfl ‹_›
    simp [items?, hsame]
  · rfl

/-- The names in braces are read back as they were listed. -/
theorem items?_intercalate (hne : bs ≠ []) (h : ∀ b ∈ bs, isBindable b.1 = true)
    (ls : List Lexeme) :
    items? ([.mark ','].intercalate (bs.map itemOf) ++ .mark '}' :: ls) = some (bs, ls) := by
  induction bs with
  | nil => exact absurd rfl hne
  | cons b bs ih =>
    obtain ⟨hb, hbs⟩ := List.forall_mem_cons.1 h
    cases bs with
    | nil => simp [items?_itemOf, item?, hb]
    | cons b' bs =>
      have hothers := ih (by simp) hbs
      simp only [List.map_cons, List.intercalate_cons_cons, List.append_assoc,
        List.cons_append, List.nil_append] at hothers ⊢
      rw [items?_itemOf, hothers]
      simp [item?, hb]

theorem group?_bracedOf (hne : bs ≠ []) (h : ∀ b ∈ bs, isBindable b.1 = true) (ls : List Lexeme) :
    group? (bracedOf bs ++ ls) = some (bs, ls) := by
  simpa [bracedOf, group?] using items?_intercalate hne h ls

theorem statement?_of_clause {c : List Lexeme} (h : ∀ ls, clause? (c ++ ls) = some (bs, ls))
    (cs : List (List Lexeme)) :
    statement? (statementOf path (c :: cs)) = if cs = [] then some (path, bs) else none := by
  cases cs <;> simp [statementOf, statement?, h, module?]

theorem statement?_default (hname : isBindable name = true) {c : List Lexeme}
    (h : ∀ ls, group? (c ++ ls) = some (bs, ls)) (cs : List (List Lexeme)) :
    statement? (statementOf path ([.word name] :: c :: cs)) =
      if cs = [] then some (path, (name, "default") :: bs) else none := by
  have hclause (ls : List Lexeme) : clause? ((.word name :: .mark ',' :: c) ++ ls) =
      some ((name, "default") :: bs, ls) := by simp [clause?, hname, h]
  rw [← statement?_of_clause hclause cs]
  cases cs <;> simp [statementOf]

theorem statement?_names (name name' : String) (cs : List (List Lexeme)) :
    statement? (statementOf path ([.word name] :: [.word name'] :: cs)) = none := by
  cases cs <;> cases h : isBindable name <;>
    simp [statementOf, statement?, clause?, group?, module?, h]

theorem importOf?_unspaced {cs : List (List Lexeme)} (h : ∀ l ∈ statementOf path cs, l.IsLegible) :
    importOf? (unspaced (statementOf path cs)).toList = statement? (statementOf path cs) := by
  have hspace : ' ' :: (unspaced (statementOf path cs)).toList = _ :=
    toList_unspaced (by cases cs <;> rfl)
  have hlexemes := lexemes_text h
  rw [← hspace, lexemes_space] at hlexemes
  rw [importOf?, hlexemes]

end Clauses

end ReactWeave.Script

namespace ReactWeave.Import

open Script

/-! ## Imports as text -/

/-- Names and what they stand for, as the fields of an import. -/
def pairs (bs : List Binding) : Fields := bs.map fun b => (.str b.1, .str b.2)

/-- The import of some names of a module. -/
def ofBindings (path : String) (bs : List Binding) : Import := ⟨.str path, pairs bs⟩

/-- The names that stand for the default. -/
def defaultsOf (bs : List Binding) : List Binding := bs.filter fun b => b.2 == "default"

/-- The names that stand for the whole. -/
def wholesOf (bs : List Binding) : List Binding := bs.filter fun b => b.2 == "*"

/-- The names that stand for one other name. -/
def namedOf (bs : List Binding) : List Binding :=
  bs.filter fun b => !(b.2 == "default" || b.2 == "*")

/-- Names that the grammar has a clause for: at most one for the default, and either at most one
for the whole or a list. -/
abbrev Regular (bs : List Binding) : Prop :=
  (defaultsOf bs).length ≤ 1 ∧ (wholesOf bs).length ≤ 1 ∧ (wholesOf bs = [] ∨ namedOf bs = [])

theorem perm_sorts (bs : List Binding) :
    (defaultsOf bs ++ (wholesOf bs ++ namedOf bs)).Perm bs := by
  have hrest : (wholesOf bs ++ namedOf bs).Perm (bs.filter fun b => !(b.2 == "default")) := by
    have h := List.filter_append_perm (fun b : Binding => b.2 == "*")
      (bs.filter fun b => !(b.2 == "default"))
    rw [List.filter_filter, List.filter_filter] at h
    refine List.Perm.trans (List.Perm.of_eq ?_) h
    congr 1 <;> refine List.filter_congr fun b _ => ?_
    · by_cases hb : b.2 = "*" <;> simp [hb]
    · simp [Bool.and_comm]
  exact (hrest.append_left _).trans (List.filter_append_perm _ bs)

/-- The clauses for names of the three sorts. -/
def clausesOf (ds ws ns : List Binding) : List (List Lexeme) :=
  ds.map (fun b => [.word b.1]) ++
    (ws.map (fun b => aliasOf (.mark '*') b.1) ++ if ns.isEmpty then [] else [bracedOf ns])

theorem filter_pairs (p : Json → Bool) (bs : List Binding) :
    ((pairs bs).filter fun (_, imported) => p imported) =
      pairs (bs.filter fun b => p (.str b.2)) := by
  rw [pairs, List.filter_map]
  rfl

theorem mapM_pairs {f : Json × Json → Outcome String} {g : Binding → String}
    (h : ∀ b : Binding, f (.str b.1, .str b.2) = .ok (g b)) (bs : List Binding) :
    (pairs bs).mapM f = .ok (bs.map g) := by
  induction bs with
  | nil => rfl
  | cons b bs ih =>
    rw [pairs, List.map_cons, List.mapM_cons, h, ← pairs, ih]
    rfl

theorem namedClause_pair (b : Binding) :
    namedClause (.str b.1) (.str b.2) = .ok (unspaced (itemOf b)) := by
  simp only [namedClause, itemOf, Json.same, Json.sameScalar, beq_iff_eq]
  split <;> simp [localName, Json.asText, aliasOf, unspaced, Lexeme.text, ← String.toList_inj]

theorem head?_itemOf (b : Binding) : ((itemOf b).flatMap Lexeme.text).head? = some ' ' := by
  rw [itemOf]
  split <;> simp [aliasOf, Lexeme.text]

theorem head?_clausesOf {ds ws ns : List Binding} :
    ∀ c ∈ clausesOf ds ws ns, (c.flatMap Lexeme.text).head? = some ' ' := by
  simp only [clausesOf, List.forall_mem_append, List.forall_mem_map]
  refine ⟨fun b _ => rfl, fun b _ => rfl, fun c hc => ?_⟩
  split at hc
  · cases hc
  · obtain rfl := List.mem_singleton.1 hc
    rfl

/-- All named bindings stand in one pair of braces. -/
theorem namedClauses_pairs (bs : List Binding) :
    namedClauses (pairs bs) =
      .ok (if (namedOf bs).isEmpty then [] else [unspaced (bracedOf (namedOf bs))]) := by
  have hfilter : ((pairs bs).filter fun (_, imported) =>
      !(isAs "default" imported || isAs "*" imported)) = pairs (namedOf bs) :=
    filter_pairs (fun imported => !(isAs "default" imported || isAs "*" imported)) bs
  rw [namedClauses, hfilter]
  cases namedOf bs with
  | nil => rfl
  | cons b bs =>
    rw [if_neg (by simp [pairs]), mapM_pairs namedClause_pair]
    have hitems := @text_intercalate ((b :: bs).map itemOf) (by simp)
      (List.forall_mem_map.2 fun b _ => head?_itemOf b)
    rw [List.map_map] at hitems
    refine congrArg (fun t => Except.ok [t]) (String.toList_inj.1 ?_)
    rw [unspaced, bracedOf, List.flatMap_cons, List.flatMap_append, ← hitems]
    simp [Lexeme.text, Function.comp_def]

theorem clauses_pairs (bs : List Binding) :
    clauses (pairs bs) =
      .ok ((clausesOf (defaultsOf bs) (wholesOf bs) (namedOf bs)).map unspaced) := by
  have hdefault : ((pairs bs).filter fun (_, imported) => isAs "default" imported) =
      pairs (defaultsOf bs) := filter_pairs (isAs "default") bs
  have hwhole : ((pairs bs).filter fun (_, imported) => isAs "*" imported) =
      pairs (wholesOf bs) := filter_pairs (isAs "*") bs
  rw [clauses, namedClauses_pairs, hdefault, hwhole,
    mapM_pairs (g := Prod.fst) (fun _ => rfl)]
  refine congrArg Except.ok ?_
  cases h : (namedOf bs).isEmpty <;>
    simp [clausesOf, h, pairs, Function.comp_def, aliasOf, unspaced, Lexeme.text,
      Json.asText, ← String.toList_inj]

/-- What is written for an import: its defaults, its namespaces, its names in braces. -/
theorem statement_ofBindings (path : String) (bs : List Binding) :
    statement (ofBindings path bs) = .ok (unspaced (statementOf path
      (clausesOf (defaultsOf bs) (wholesOf bs) (namedOf bs)))) := by
  have hclauses : clauses (ofBindings path bs).names = _ := clauses_pairs bs
  have hheads := @head?_clausesOf (defaultsOf bs) (wholesOf bs) (namedOf bs)
  rw [statement, hclauses]
  cases hcs : clausesOf (defaultsOf bs) (wholesOf bs) (namedOf bs) with
  | nil =>
    refine congrArg Except.ok ?_
    simp [ofBindings, Json.asText, statementOf, unspaced, Lexeme.text, ← String.toList_inj]
  | cons c cs =>
    rw [hcs] at hheads
    refine congrArg Except.ok ?_
    simp [ofBindings, Json.asText, statementOf, unspaced, Lexeme.text, ← String.toList_inj,
      ← text_intercalate (by simp) hheads]

/-! ## Imports are read back -/

/-- Whether a local name may be bound, and what it stands for is the whole or a name. -/
structure IsImportable (b : Binding) : Prop where
  isName : isName b.1.toList = true
  isBindable : isBindable b.1 = true
  imported : b.2 = "*" ∨ Script.isName b.2.toList = true

section Reading

variable {path : String} {bs ds ws ns : List Binding}

/-- Such a statement is read exactly if it has at most one default, at most one namespace, and not a
namespace beside names in braces. -/
theorem statement?_clausesOf (hds : ∀ b ∈ ds, b.2 = "default" ∧ IsImportable b)
    (hws : ∀ b ∈ ws, b.2 = "*" ∧ IsImportable b) (hns : ∀ b ∈ ns, IsImportable b) :
    statement? (statementOf path (clausesOf ds ws ns)) =
      if ds.length ≤ 1 ∧ ws.length ≤ 1 ∧ (ws = [] ∨ ns = []) then some (path, ds ++ (ws ++ ns))
      else none := by
  have hname {b : Binding} {exported : String} (h : b.2 = exported) : (b.1, exported) = b :=
    Prod.ext rfl h.symm
  have hlist (hne : ns ≠ []) := group?_bracedOf hne fun b hb => (hns b hb).isBindable
  rcases ds with _ | ⟨d, _ | ⟨d', ds⟩⟩
  · rcases ws with _ | ⟨w, ws⟩
    · cases ns with
      | nil => rfl
      | cons n ns => exact statement?_of_clause (c := bracedOf (n :: ns)) (hlist (by simp)) []
    · obtain ⟨hwhole, hw⟩ := hws w List.mem_cons_self
      refine (statement?_of_clause (c := aliasOf (.mark '*') w.1)
        (group?_whole hw.isBindable) _).trans ?_
      cases ws <;> cases ns <;> simp [hname hwhole]
  · obtain ⟨hdefault, hd⟩ := hds d List.mem_cons_self
    rcases ws with _ | ⟨w, ws⟩
    · cases ns with
      | nil =>
        simp [clausesOf, statementOf, statement?, clause?, module?, hd.isBindable, hname hdefault]
      | cons n ns =>
        refine (statement?_default hd.isBindable (hlist (by simp)) []).trans ?_
        simp [hname hdefault]
    · obtain ⟨hwhole, hw⟩ := hws w List.mem_cons_self
      refine (statement?_default hd.isBindable (group?_whole hw.isBindable) _).trans ?_
      cases ws <;> cases ns <;> simp [hname hdefault, hname hwhole]
  · exact (statement?_names _ _ _).trans (by simp)

theorem isLegible_aliasOf {exported : Lexeme} {name : String} (hexported : exported.IsLegible)
    (hname : isName name.toList = true) : ∀ l ∈ aliasOf exported name, l.IsLegible := by
  have has : isName "as".toList = true := by decide
  simp only [aliasOf, List.forall_mem_cons]
  exact ⟨hexported, has, hname, by simp⟩

theorem isLegible_clausesOf (hds : ∀ b ∈ ds, IsImportable b) (hws : ∀ b ∈ ws, IsImportable b)
    (hns : ∀ b ∈ ns, isName b.2.toList = true ∧ IsImportable b) :
    ∀ c ∈ clausesOf ds ws ns, ∀ l ∈ c, l.IsLegible := by
  simp only [clausesOf, List.forall_mem_append, List.forall_mem_map]
  refine ⟨fun b hb => ?_, fun b hb => ?_, fun c hc => ?_⟩
  · simpa [Lexeme.IsLegible] using (hds b hb).isName
  · exact isLegible_aliasOf (by simp [Lexeme.IsLegible]) (hws b hb).isName
  · split at hc
    · cases hc
    · obtain rfl := List.mem_singleton.1 hc
      have hitem : ∀ b ∈ ns, ∀ l ∈ itemOf b, l.IsLegible := by
        intro b hb
        rw [itemOf]
        split
        · simpa [Lexeme.IsLegible] using (hns b hb).2.isName
        · exact isLegible_aliasOf (hns b hb).1 (hns b hb).2.isName
      have hitems := isLegible_intercalate (List.forall_mem_map.2 hitem)
      simpa [bracedOf, or_imp, forall_and, Lexeme.IsLegible] using hitems

theorem isLegible_statementOf (hpath : IsPlainPath path.toList) {cs : List (List Lexeme)}
    (h : ∀ c ∈ cs, ∀ l ∈ c, l.IsLegible) : ∀ l ∈ statementOf path cs, l.IsLegible := by
  have hwords : (Lexeme.word "import").IsLegible ∧ (Lexeme.word "from").IsLegible ∧
      (Lexeme.string path).IsLegible ∧ (Lexeme.mark ';').IsLegible :=
    ⟨(by decide : isName "import".toList = true), (by decide : isName "from".toList = true), hpath,
      by simp [Lexeme.IsLegible]⟩
  cases cs with
  | nil => simp [statementOf, hwords]
  | cons c cs =>
    have hcs := isLegible_intercalate h
    simpa [statementOf, or_imp, forall_and, hwords] using hcs

end Reading

/-- **An import binds what it lists** if it is regular: the statement is read back with its path and
the same bindings, up to their order. If it is not, the statement cannot be read. -/
theorem statement_binds {path : String} {bs : List Binding} (hpath : IsPlainPath path.toList)
    (hbs : ∀ b ∈ bs, IsImportable b) :
    ∃ text, statement (ofBindings path bs) = .ok text ∧
      (Regular bs → ∃ found, importOf? text.toList = some (path, found) ∧ found.Perm bs) ∧
      (¬Regular bs → importOf? text.toList = none) := by
  have hds : ∀ b ∈ defaultsOf bs, b.2 = "default" ∧ IsImportable b := by
    intro b hb
    obtain ⟨hmem, hdefault⟩ := List.mem_filter.1 hb
    exact ⟨beq_iff_eq.1 hdefault, hbs b hmem⟩
  have hws : ∀ b ∈ wholesOf bs, b.2 = "*" ∧ IsImportable b := by
    intro b hb
    obtain ⟨hmem, hwhole⟩ := List.mem_filter.1 hb
    exact ⟨beq_iff_eq.1 hwhole, hbs b hmem⟩
  have hns : ∀ b ∈ namedOf bs, isName b.2.toList = true ∧ IsImportable b := by
    intro b hb
    obtain ⟨hmem, hnot⟩ := List.mem_filter.1 hb
    refine ⟨(hbs b hmem).imported.resolve_left fun hwhole => ?_, hbs b hmem⟩
    simp [hwhole] at hnot
  have hplain := isLegible_statementOf hpath (isLegible_clausesOf (fun b hb => (hds b hb).2)
    (fun b hb => (hws b hb).2) hns)
  have hread : importOf? (unspaced (statementOf path _)).toList = _ :=
    (importOf?_unspaced hplain).trans (statement?_clausesOf hds hws fun b hb => (hns b hb).2)
  refine ⟨_, statement_ofBindings path bs, fun hregular => ?_, fun hirregular => ?_⟩
  · exact ⟨_, hread.trans (if_pos hregular), perm_sorts bs⟩
  · exact hread.trans (if_neg hirregular)

theorem statement_binds_default_named :
    Regular [("React", "default"), ("memo", "memo"), ("Part", "Fragment")] ∧
      ∃ text, statement (ofBindings "react"
          [("React", "default"), ("memo", "memo"), ("Part", "Fragment")]) = .ok text ∧
        ∃ found, importOf? text.toList = some ("react", found) ∧
          found.Perm [("React", "default"), ("memo", "memo"), ("Part", "Fragment")] := by
  have hpath : IsPlainPath "react".toList := by decide
  have hbs : ∀ b ∈ [("React", "default"), ("memo", "memo"), ("Part", "Fragment")],
      IsImportable b := by
    simp only [List.forall_mem_cons]
    exact ⟨⟨by decide, by decide, .inr (by decide)⟩, ⟨by decide, by decide, .inr (by decide)⟩,
      ⟨by decide, by decide, .inr (by decide)⟩, by simp⟩
  obtain ⟨text, htext, hread, -⟩ := statement_binds hpath hbs
  exact ⟨by decide, text, htext, hread (by decide)⟩

/-- Two names for the default are joined by a comma, which no statement has there. -/
theorem statement_two_defaults :
    statement (ofBindings "x" [("A", "default"), ("B", "default")]) =
        .ok "import A, B from 'x';" ∧
      importOf? "import A, B from 'x';".toList = none := by
  exact ⟨rfl, by decide⟩

end ReactWeave.Import
