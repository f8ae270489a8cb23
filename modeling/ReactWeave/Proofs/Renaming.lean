import ReactWeave.Proofs.Shapes
import ReactWeave.Refs

/-!
# ReactWeave.Proofs.Renaming

**Which occurrences of a variable are renamed.**

A fragment mentions variables where it refers to them and where it binds them.
Renaming looks at the name alone, so it replaces both; `binds` tells the two
apart by the construct that an occurrence is a direct part of.

* `Tree.replaced_rename`: what is replaced are the occurrences of the names, bound or not.
* `Code.rename_of_parse`: the result is an exact splice of these occurrences.
-/

namespace ReactWeave.Script

open ReactWeave.Script.Tree

/-! ## Variables are names -/

/-- Leaves that renaming looks at: names, and lone names in objects. -/
def isVariable : Kind → Bool
  | .identifier | .shorthandPropertyIdentifier => true
  | _ => false

namespace Tree

mutual

/-- The names of the variables in a tree. -/
def variableNames : Tree → List (List Char)
  | gap _ => []
  | token k _ t => if isVariable k then [t] else []
  | node _ _ ps => variableNamesOf ps

/-- The names of the variables in neighbouring trees. -/
def variableNamesOf : List Tree → List (List Char)
  | [] => []
  | t :: ts => variableNames t ++ variableNamesOf ts

end

theorem mem_variablesOf {x : List Char} {ts : List Tree} :
    x ∈ variableNamesOf ts ↔ ∃ t ∈ ts, x ∈ t.variableNames := by
  induction ts with
  | nil => simp [variableNamesOf]
  | cons t ts ih => simp [variableNamesOf, ih]

end Tree

/-- What a variable may be written as: it starts like a name, and has no line break. -/
def Namelike (t : List Char) : Prop :=
  (∃ c u, t = c :: u ∧ (Lexis.isNameStart c || c == '\\') = true) ∧ '\n' ∉ t

theorem namelike_of_name {test : List Char → Bool} {s : List Char} {n : Nat}
    (h : Lexis.name test s = some n) : Namelike (s.take n) := by
  obtain ⟨hstart, hword⟩ := Lexis.wordlike_of_name h
  exact ⟨hstart, fun hbreak => absurd (hword _ hbreak) (by decide)⟩

theorem namelike_of_dashedName {s : List Char} {n : Nat} (h : Lexis.dashedName s = some n) :
    Namelike (s.take n) := by
  have hname : Lexis.nameLength s ≠ 0 := by
    intro hzero
    simp [Lexis.dashedName, hzero] at h
  have hscan : Lexis.name (fun _ => true) s = some (Lexis.nameLength s) := by
    simp [Lexis.name, hname]
  have hnamelike := namelike_of_name hscan
  simp only [Lexis.dashedName, if_neg hname] at h
  split at h
  · cases h
    rcases Nat.le_total (s.takeWhile fun c => Lexis.isNamePart c || c == '-').length
      (Lexis.nameLength s) with hle | hle
    · rwa [Nat.max_eq_left hle]
    · -- The name is what the dashed name starts with.
      rw [Nat.max_eq_right hle]
      obtain ⟨⟨c, u, hc, hstart⟩, -⟩ := hnamelike
      obtain ⟨m, hm⟩ := Nat.exists_eq_succ_of_ne_zero hname
      cases s with
      | nil => simp at hc
      | cons d s =>
        rw [hm, List.take_succ_cons, List.cons.injEq] at hc
        rw [hc.1]
        refine ⟨?_, ?_⟩
        · obtain ⟨k, hk⟩ := Nat.exists_eq_succ_of_ne_zero (Nat.ne_of_gt
            (Nat.lt_of_lt_of_le (Nat.pos_of_ne_zero hname) hle))
          rw [hc.1] at hk
          exact ⟨c, s.take k, by rw [hk, List.take_succ_cons], hstart⟩
        · rw [← List.prefix_iff_eq_take.1 (List.takeWhile_prefix _)]
          intro hbreak
          exact absurd (List.all_eq_true.1 List.all_takeWhile _ hbreak) (by decide)
  · cases h
    exact hnamelike

/-- Whether a tree is no variable, or one that is written as a name. -/
def NamesVariable : Tree → Prop
  | .token k _ t => isVariable k = true → Namelike t
  | _ => True

/-- The leaves that name variables have names for texts. -/
theorem readable_namesVariable : Readable NamesVariable where
  trivia {t} h := by
    unfold PlainTrivia at h
    split at h
    · exact trivial
    · exact fun h => by cases h
    · exact h.elim
  role {t} h _ r := by
    cases t with
    | gap s => exact h
    | token k r' s => exact h
    | node k r' ps => exact h
  token {k} hi hs _ _ h := by
    cases k
    case identifier => exact absurd rfl hi
    case shorthandPropertyIdentifier => exact absurd rfl hs
    all_goals cases h
  name _ h _ := namelike_of_name h
  dashedName _ h _ := namelike_of_dashedName h
  shorthand _ _ h := by cases h
  attributeString _ h := by cases h
  node _ _ _ := trivial
  string _ _ := trivial
  template _ := trivial
  substitution _ := trivial
  regex _ := trivial
  member _ _ _ := trivial
  assignment _ _ _ := trivial

theorem namelike_of_throughout {t : Tree} (h : Throughout NamesVariable t) :
    ∀ x ∈ t.variableNames, Namelike x := by
  induction h with
  | @mk t root _ ih =>
    intro x hx
    cases t with
    | gap s => cases hx
    | token k r s =>
      rw [variableNames] at hx
      split at hx
      · rename_i hk
        obtain rfl := List.mem_singleton.1 hx
        exact root hk
      · cases hx
    | node k r ps =>
      obtain ⟨p, hp, hx⟩ := mem_variablesOf.1 hx
      exact ih p hp x hx

theorem namelike_of_readProgram {s lead : List Char} {root : Tree}
    (h : readProgram s = some (lead, root)) : ∀ x ∈ root.variableNames, Namelike x :=
  namelike_of_throughout (throughout_of_readProgram readable_namesVariable h)

/-! ## Occurrences -/

/-- Whether a variable that is a direct part `t` of a construct is bound by it: the name of a
function, class or declared variable, a parameter, the target of a pattern, or an imported name. -/
def Tree.binds (k : Kind) (ps : List Tree) (t : Tree) : Bool :=
  match k with
  | .functionDeclaration | .generatorFunctionDeclaration | .functionExpression
  | .generatorFunction | .classDeclaration | .classExpression | .variableDeclarator =>
    t.role? == some .name
  | .arrowFunction | .catchClause => t.role? == some .parameter
  | .formalParameters | .arrayPattern | .restPattern | .importClause | .namespaceImport => true
  | .pairPattern => t.role? == some .value
  | .assignmentPattern => t.role? == some .left
  | .forInStatement => t.role? == some .left && ps.any fun p => p.role? == some .kind
  | .importSpecifier =>
    t.role? == some .alias || t.role? == some .name && !ps.any fun p => p.role? == some .alias
  | _ => false

/-- A variable in a program, and whether it is bound there. -/
structure Occurrence where
  site : Site
  binds : Bool

namespace Occurrence

def name (o : Occurrence) : List Char := o.site.tree.text

/-- What a variable becomes as `mapper` says; the member of an object keeps its name. -/
def become (mapper : String → String) (o : Occurrence) : List Char :=
  (if o.site.tree.isKind .shorthandPropertyIdentifier then o.name ++ [':', ' '] else []) ++
    (mapper (String.ofList o.name)).toList

end Occurrence

namespace Tree

mutual

/-- The variables of a tree that starts at `start`; `bound` says whether the tree is bound, should
it be a variable. -/
def occurrences (start : Nat) (bound : Bool) : Tree → List Occurrence
  | gap _ => []
  | token k r t => if Script.isVariable k then [⟨⟨start, token k r t⟩, bound⟩] else []
  | node k _ ps => occurrencesOf start (binds k ps) ps

/-- The variables of neighbouring trees; `bound` says which of the trees are bound. -/
def occurrencesOf (start : Nat) (bound : Tree → Bool) : List Tree → List Occurrence
  | [] => []
  | t :: ts =>
    occurrences start (bound t) t ++ occurrencesOf (start + t.text.length) bound ts

end

mutual

/-- An occurrence stands at a site of the tree, and is a leaf with its name. -/
theorem mem_sites_of_mem_occurrences {o : Occurrence} {start : Nat} {bound : Bool} :
    ∀ {t : Tree}, o ∈ t.occurrences start bound →
      o.site ∈ t.sites start ∧ o.name ∈ t.variableNames ∧ ∃ k r x, o.site.tree = token k r x ∧
        Script.isVariable k = true
  | gap t, h => by simp [occurrences] at h
  | token k r t, h => by
    rw [occurrences] at h
    split at h
    · rename_i hk
      rw [List.mem_singleton] at h
      subst h
      exact ⟨by simp [sites], by simp [variableNames, hk, Occurrence.name], k, r, t, rfl, hk⟩
    · cases h
  | node k r ps, h => by
    rw [occurrences] at h
    obtain ⟨hsite, hrest⟩ := mem_sitesOf_of_mem_occurrencesOf h
    exact ⟨by rw [sites]; exact List.mem_cons_of_mem _ hsite, hrest⟩

theorem mem_sitesOf_of_mem_occurrencesOf {o : Occurrence} {start : Nat} {bound : Tree → Bool} :
    ∀ {ts : List Tree}, o ∈ occurrencesOf start bound ts →
      o.site ∈ sitesOf start ts ∧ o.name ∈ variableNamesOf ts ∧ ∃ k r x, o.site.tree = token k r x ∧
        Script.isVariable k = true
  | [], h => by simp [occurrencesOf] at h
  | t :: ts, h => by
    rw [occurrencesOf] at h
    rw [sitesOf, variableNamesOf]
    rcases List.mem_append.1 h with h | h
    · obtain ⟨hsite, hname, hleaf⟩ := mem_sites_of_mem_occurrences h
      exact ⟨List.mem_append_left _ hsite, List.mem_append_left _ hname, hleaf⟩
    · obtain ⟨hsite, hname, hleaf⟩ := mem_sitesOf_of_mem_occurrencesOf h
      exact ⟨List.mem_append_right _ hsite, List.mem_append_right _ hname, hleaf⟩

end

end Tree

/-! ## Renaming -/

/-- The rewriter that replaces the variables `names` as `mapper` says. -/
def renamer (names : List String) (mapper : String → String) : Rewriter :=
  (renameVariables (names.map String.toList) fun name => (mapper (String.ofList name)).toList).rewriter

section Renaming

variable {names : List String} {mapper : String → String}

/-- Whether an occurrence is one of the names. -/
def Occurrence.isNamed (names : List String) (o : Occurrence) : Bool :=
  names.contains (String.ofList o.name)

theorem contains_map_toList (names : List String) (t : List Char) :
    (names.map String.toList).contains t = names.contains (String.ofList t) := by
  rw [Bool.eq_iff_iff, List.contains_iff_mem, List.contains_iff_mem, List.mem_map]
  constructor
  · rintro ⟨name, hname, rfl⟩
    rwa [String.ofList_toList]
  · intro h
    exact ⟨_, h, String.toList_ofList⟩

/-- A leaf is answered exactly if it is a variable with one of the names. -/
theorem answer?_token (start : Nat) (k : Kind) (r : Option Role) (t : List Char) (bound : Bool) :
    (renamer names mapper).answer? ⟨start, token k r t⟩ =
      if isVariable k && names.contains (String.ofList t) then
        some (Occurrence.become mapper ⟨⟨start, token k r t⟩, bound⟩)
      else none := by
  have hvisit : renameVariables (names.map String.toList) (fun name =>
      (mapper (String.ofList name)).toList) (token k r t) =
        if isVariable k && names.contains (String.ofList t) then
          some [.text (Occurrence.become mapper ⟨⟨start, token k r t⟩, bound⟩)]
        else none := by
    rw [← contains_map_toList]
    cases k <;> rfl
  unfold Rewriter.answer? renamer Visitor.rewriter
  rw [hvisit]
  split
  · rw [Option.map_some, Piece.assemble, Piece.assemble, List.append_nil]
  · rfl

theorem answer?_node (start : Nat) (k : Kind) (r : Option Role) (ps : List Tree) :
    (renamer names mapper).answer? ⟨start, node k r ps⟩ = none := rfl

namespace Tree

mutual

/-- **Renaming replaces the occurrences of the names**, whether they are bound or not. -/
theorem replaced_rename (start : Nat) (bound : Bool) : ∀ t : Tree,
    t.replaced (renamer names mapper) start =
      ((t.occurrences start bound).filter (Occurrence.isNamed names)).map Occurrence.site
  | gap t => rfl
  | token k r t => by
    rw [replaced, answer?_token start k r t bound, occurrences]
    cases hk : Script.isVariable k with
    | false => rfl
    | true =>
      cases hmem : names.contains (String.ofList t) with
      | false =>
        have hnamed : Occurrence.isNamed names ⟨⟨start, token k r t⟩, bound⟩ = false := by
          rw [Occurrence.isNamed, Occurrence.name, text_token, hmem]
        simp [hnamed]
      | true =>
        have hnamed : Occurrence.isNamed names ⟨⟨start, token k r t⟩, bound⟩ = true := by
          rw [Occurrence.isNamed, Occurrence.name, text_token, hmem]
        simp [hnamed]
  | node k r ps => by
    rw [replaced, answer?_node, occurrences]
    exact replacedOf_rename start (binds k ps) ps

theorem replacedOf_rename (start : Nat) (bound : Tree → Bool) : ∀ ts : List Tree,
    replacedOf (renamer names mapper) start ts =
      ((occurrencesOf start bound ts).filter (Occurrence.isNamed names)).map Occurrence.site
  | [] => rfl
  | t :: ts => by
    rw [replacedOf, occurrencesOf, List.filter_append, List.map_append,
      replaced_rename start (bound t) t, replacedOf_rename _ bound ts]

end

end Tree

end Renaming

/-! ## Fragments -/

/-- Characters that a variable may start with. -/
def startsVariable (c : Char) : Bool := Lexis.isNameStart c || c == '\\'

/-- What is put around a fragment has no place where a variable could start, and its end starts with
a line break. -/
theorem wrappers_apart : ∀ w ∈ wrappers,
    (∀ c ∈ w.opening.toList ++ w.closing.toList, startsVariable c = false) ∧
      (w.closing.toList = [] ∨ w.closing.toList.head? = some '\n') := by
  decide +kernel

theorem behind_opening {o r x u : List Char} {c : Char} (htext : o ++ r = x ++ c :: u)
    (hopen : c ∉ o) : ∃ x', x = o ++ x' := by
  rcases List.append_eq_append_iff.1 htext with ⟨x', rfl, -⟩ | ⟨o', rfl, ho⟩
  · exact ⟨x', rfl⟩
  · cases o' with
    | nil => exact ⟨[], by simp⟩
    | cons d o' =>
      rw [List.cons_append, List.cons.injEq] at ho
      rw [ho.1] at hopen
      simp at hopen

/-- A stretch of a text in brackets that cannot start in the brackets, nor cross their line break,
lies between them. -/
theorem between_brackets {o code cl x u y : List Char} {c : Char}
    (htext : o ++ (code ++ cl) = x ++ (c :: u ++ y)) (hopen : c ∉ o) (hclose : c ∉ cl)
    (hbreak : cl = [] ∨ cl.head? = some '\n') (hline : '\n' ∉ c :: u) :
    o.length ≤ x.length ∧ x.length + (c :: u).length ≤ o.length + code.length := by
  obtain ⟨x, rfl⟩ := behind_opening htext hopen
  rw [List.append_assoc, List.append_cancel_left_eq, ← List.append_assoc] at htext
  refine ⟨by simp, ?_⟩
  rcases List.append_eq_append_iff.1 htext with ⟨z, hx, hcl⟩ | ⟨z, hcode, -⟩
  · cases z with
    | nil =>
      have hlen := congrArg List.length hx
      simp only [List.length_append, List.length_cons, List.length_nil] at hlen ⊢
      omega
    | cons d z =>
      -- Otherwise the line break is inside it, or in front of it.
      exfalso
      rw [hcl, List.cons_append] at hbreak
      obtain rfl : d = '\n' := by simpa using hbreak
      rcases List.append_eq_append_iff.1 hx with ⟨w, hw, hu⟩ | ⟨w, rfl, hu⟩
      · exact hline (by rw [hu]; simp)
      · cases w with
        | nil =>
          rw [List.nil_append, List.cons.injEq] at hu
          rw [← hu.1] at hline
          simp at hline
        | cons e w =>
          rw [List.cons_append, List.cons.injEq] at hu
          exact hclose (by rw [hcl, hu.2]; simp)
  · have hlen := congrArg List.length hcode
    simp only [List.length_append, List.length_cons] at hlen ⊢
    omega

namespace Fragment

/-- The variables of a fragment. -/
def occurrences (f : Fragment) : List Occurrence := f.root.occurrences f.lead.length false

/-- The names that a fragment binds. -/
def boundNames (f : Fragment) : List (List Char) :=
  (f.occurrences.filter Occurrence.binds).map Occurrence.name

/-- The edits that make every use of the handles `names` read the current element. -/
def renamings (names : List String) (f : Fragment) : List Edit :=
  (f.occurrences.filter (Occurrence.isNamed names)).map fun o =>
    ⟨o.site.start - f.wrapper.opening.length, o.site.stop - f.wrapper.opening.length,
      o.become currentElement⟩

variable {code : List Char} {f : Fragment} {names : List String} {mapper : String → String}

/-- An occurrence lies within the fragment, never in its wrapper. -/
theorem owns_of_mem_occurrences (hf : parse? code = some f) {o : Occurrence}
    (ho : o ∈ f.occurrences) : f.Owns code o.site := by
  obtain ⟨hsite, hname, -⟩ := Tree.mem_sites_of_mem_occurrences ho
  obtain ⟨hwrapper, hread⟩ := parseIn_eq_some hf
  obtain ⟨⟨c, u, hcons, hstart⟩, hline⟩ := namelike_of_readProgram hread _ hname
  obtain ⟨a, b, htext, hplace⟩ := Tree.text_of_mem_sites hsite
  obtain ⟨happart, hbreak⟩ := wrappers_apart _ hwrapper
  have hcode : f.wrapper.opening.toList ++ (code ++ f.wrapper.closing.toList) =
      (f.lead ++ a) ++ (c :: u ++ b) := by
    rw [← List.append_assoc, ← text_of_parse? hf, htext, ← hcons]
    simp [Occurrence.name]
  have hmem (l : List Char)
      (hl : ∀ d ∈ l, d ∈ f.wrapper.opening.toList ++ f.wrapper.closing.toList) : c ∉ l := by
    intro hc
    rw [← startsVariable, happart c (hl c hc)] at hstart
    cases hstart
  obtain ⟨hlo, hhi⟩ := between_brackets hcode
    (hmem _ fun d hd => List.mem_append_left _ hd) (hmem _ fun d hd => List.mem_append_right _ hd)
    hbreak (by rwa [← hcons])
  rw [List.length_append, String.length_toList] at hlo hhi
  rw [← hcons, Occurrence.name] at hhi
  exact ⟨by omega, by rw [Site.stop]; omega⟩

theorem replaced_rename : f.replaced (renamer names mapper) =
    (f.occurrences.filter (Occurrence.isNamed names)).map Occurrence.site :=
  Tree.replaced_rename _ false _

/-- The edits of a renaming are those of the named occurrences. -/
theorem edits_rename : f.edits (renamer names currentElement) = f.renamings names := by
  rw [edits, replaced_rename, renamings, List.map_map, List.map_map]
  refine List.map_congr_left fun o ho => ?_
  obtain ⟨hmem, hnamed⟩ := List.mem_filter.1 ho
  obtain ⟨-, -, k, r, x, htree, hvariable⟩ := Tree.mem_sites_of_mem_occurrences hmem
  obtain ⟨⟨start, tree⟩, bound⟩ := o
  cases htree
  have hanswer : (renamer names currentElement).answer? ⟨start, token k r x⟩ =
      some (Occurrence.become currentElement ⟨⟨start, token k r x⟩, bound⟩) := by
    rw [Occurrence.isNamed, Occurrence.name, text_token] at hnamed
    rw [answer?_token start k r x bound, hvariable, hnamed]
    rfl
  simp only [Function.comp_apply, Rewriter.edit, hanswer]
  rfl

theorem owns_of_renamed (hf : parse? code = some f) :
    ∀ s ∈ f.replaced (renamer names mapper), f.Owns code s := by
  intro s hs
  rw [replaced_rename, List.mem_map] at hs
  obtain ⟨o, ho, rfl⟩ := hs
  exact owns_of_mem_occurrences hf (List.mem_filter.1 ho).1

theorem rewrite_rename (hf : parse? code = some f) (names : List String) :
    f.rewrite (renamer names currentElement) = splice code (f.renamings names) := by
  rw [← edits_rename, rewrite_eq_splice hf (owns_of_renamed hf)]

end Fragment

end ReactWeave.Script

namespace ReactWeave.Text

theorem occurs_append (w a b : List Char) : occurs w (a ++ (w ++ b)) = true := by
  induction a with
  | nil =>
    rw [List.nil_append]
    cases h : w ++ b with
    | nil => simp [occurs, (List.append_eq_nil_iff.1 h).1]
    | cons c s => rw [occurs, startsWith_iff.2 ⟨b, h.symm⟩, Bool.true_or]
  | cons c a ih => rw [List.cons_append, occurs, ih, Bool.or_true]

end ReactWeave.Text

namespace ReactWeave.Code

open Script

theorem mentionsAny_str (code : String) (names : List String) :
    mentionsAny (.str code) names = .ok (names.any fun name => Text.occursIn name code) := by
  induction names with
  | nil => rfl
  | cons name names ih =>
    rw [mentionsAny, mentions, List.any_cons]
    cases Text.occursIn name code with
    | true => rfl
    | false => exact ih

/-- Without the names in the text there is nothing to rename. -/
theorem rewrite_renamer_of_absent {code : String} {f : Fragment} {names : List String}
    (hf : Fragment.parse? code.toList = some f)
    (h : (names.any fun name => Text.occursIn name code) = false) (mapper : String → String) :
    f.rewrite (renamer names mapper) = code.toList := by
  have hnone : f.occurrences.filter (Occurrence.isNamed names) = [] := by
    rw [List.filter_eq_nil_iff]
    intro o ho hnamed
    obtain ⟨hsite, -⟩ := Tree.mem_sites_of_mem_occurrences ho
    have htext := Fragment.text_of_owns hf hsite (Fragment.owns_of_mem_occurrences hf ho)
    have hoccurs : Text.occursIn (String.ofList o.name) code = true := by
      rw [Text.occursIn, String.toList_ofList]
      generalize o.site.start - f.wrapper.opening.length = i at htext
      rw [← List.take_append_drop i code.toList,
        ← List.take_append_drop o.site.tree.text.length (code.toList.drop i), htext]
      exact Text.occurs_append _ _ _
    rw [List.any_eq_false] at h
    exact h _ (List.contains_iff_mem.1 hnamed) hoccurs
  rw [Fragment.rewrite_eq_splice hf (Fragment.owns_of_renamed hf), Fragment.edits,
    Fragment.replaced_rename, hnone]
  rfl

/-- Looking for the names first changes nothing. -/
theorem rename_eq_rewrite {code : String} {f : Fragment} (hf : Fragment.parse? code.toList = some f)
    (names : List String) (mapper : String → String) : rename names mapper (.str code) =
      .ok (.str (String.ofList (f.rewrite (renamer names mapper)))) := by
  rw [rename, mentionsAny_str]
  cases hmentions : names.any fun name => Text.occursIn name code with
  | false => simp [rewrite_renamer_of_absent hf hmentions]
  | true =>
    change (rewrite (renamer names mapper) (.str code)).map Json.str = _
    rw [rewrite_of_parse (parse_str_eq_ok.2 hf)]
    rfl

/-- The result is the text with the named occurrences replaced. -/
theorem rename_of_parse {code : String} {f : Fragment} (hf : Fragment.parse? code.toList = some f)
    (names : List String) : rename names currentElement (.str code) =
      .ok (.str (String.ofList (splice code.toList (f.renamings names)))) := by
  rw [rename_eq_rewrite hf, Fragment.rewrite_rename hf]

/-- A declaration of a handle's name. -/
def declarationCode : String := "const el = 1;"

/-- The declared name is renamed like a use of it, which leaves no program. -/
theorem rename_declaration : ∃ f, Fragment.parse? declarationCode.toList = some f ∧
    f.boundNames = [['e', 'l']] ∧
    rename ["el"] currentElement (.str declarationCode) = .ok (.str "const el.current = 1;") ∧
    Fragment.parse? "const el.current = 1;".toList = none := by
  have hsome : (Fragment.parse? declarationCode.toList).isSome = true := by decide +kernel
  have hnone : Fragment.parse? "const el.current = 1;".toList = none := by
    rw [← Option.isNone_iff_eq_none]
    decide +kernel
  obtain ⟨f, hf⟩ := Option.isSome_iff_exists.1 hsome
  have hrest : (Fragment.parse? declarationCode.toList).all (fun f =>
      f.boundNames == [['e', 'l']] && splice declarationCode.toList (f.renamings ["el"]) ==
        "const el.current = 1;".toList) = true := by
    decide +kernel
  rw [hf, Option.all_some, Bool.and_eq_true, beq_iff_eq, beq_iff_eq] at hrest
  exact ⟨f, hf, hrest.1, by rw [rename_of_parse hf, hrest.2, String.ofList_toList], hnone⟩

end ReactWeave.Code
