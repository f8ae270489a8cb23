import ReactWeave.Proofs.Expressions
import ReactWeave.Proofs.Renaming
import ReactWeave.Proofs.SetterCalls
import ReactWeave.Proofs.Stages

/-!
# ReactWeave.Proofs.Commuting

**Setters and handles in either order.** In a binding the setters are called
first, and then the handles are renamed; in the hook of mounting it is the other
way round. Each pass reads the text that the other one wrote.

What a pass writes is the text of a changed tree: `Tree.renamed` has every use of a
handle read its current element, `Tree.withSetters` has calls for assignments. The
two changes commute as trees, so the passes commute as far as a text that was
written is read as the tree it was written from.

* `Code.bound_eq_mounted_iff`: the two orders agree exactly if what becomes of the handles can be
  read again.
* `Code.mounted_breaks_declaration`: the name of a declared variable becomes a text that cannot.
-/

namespace ReactWeave

open Script

/-! ## Names of setters -/

namespace Text

theorem flatMap_toList_cons (cs : List Char) (runs : List String) :
    (String.ofList cs :: runs).flatMap String.toList = cs ++ runs.flatMap String.toList := by
  simp [List.flatMap_cons]

/-- Characters that a name may start with, and no keyword does. -/
def startsPlainName (c : Char) : Bool :=
  Lexis.isNameStart c && !(97 ≤ c.toNat && c.toNat ≤ 122)

theorem upperShifts_named :
    (upperShifts.all fun r => (List.range r.count).all fun i =>
      startsPlainName (Char.ofNat ((r.first + i * r.step : Int) + r.difference).toNat)) = true := by
  rw [upperShifts, decodeShifts, toUpperRuns]
  repeat rw [flatMap_toList_cons]
  decide +kernel

theorem upperExpansions_named :
    (upperExpansions.all fun entry => !entry.2.isEmpty && entry.2.all startsPlainName) = true := by
  rw [upperExpansions, decodeExpansions, toUpperExpansions]
  repeat rw [flatMap_toList_cons]
  decide +kernel

theorem ShiftRun.exists_of_counterpart {r : ShiftRun} {n m : Nat} (h : r.counterpart n = some m) :
    ∃ i, i < r.count ∧ n = r.first + i * r.step ∧ m = ((n : Int) + r.difference).toNat := by
  unfold counterpart at h
  split at h
  · rename_i hin
    simp only [Bool.and_eq_true, decide_eq_true_eq, beq_iff_eq] at hin
    obtain ⟨⟨hle, hmod⟩, hlt⟩ := hin
    refine ⟨_, hlt, ?_, by simpa using h.symm⟩
    rw [Nat.div_mul_cancel (Nat.dvd_of_mod_eq_zero hmod)]
    omega
  · cases h

/-- What a table gives for a character is the character itself, or of the sort that all its
counterparts are of. -/
theorem mapByTable_cases {shifts : List ShiftRun} {expansions : List (Nat × List Char)}
    {P : Char → Bool}
    (hshifts : (shifts.all fun r => (List.range r.count).all fun i =>
      P (Char.ofNat ((r.first + i * r.step : Int) + r.difference).toNat)) = true)
    (hexpansions : (expansions.all fun entry => !entry.2.isEmpty && entry.2.all P) = true)
    (c : Char) : mapByTable shifts expansions c = [c] ∨
      (mapByTable shifts expansions c ≠ [] ∧ ∀ d ∈ mapByTable shifts expansions c, P d = true) := by
  rw [mapByTable]
  split
  · rename_i cs hfind
    have hall := List.all_eq_true.1 hexpansions _ (List.mem_of_find?_eq_some hfind)
    simp only [Bool.and_eq_true, Bool.not_eq_true', List.isEmpty_eq_false_iff] at hall
    exact .inr ⟨hall.1, List.all_eq_true.1 hall.2⟩
  · split
    · rename_i m hshift
      obtain ⟨r, hr, hm⟩ := List.exists_of_findSome?_eq_some hshift
      obtain ⟨i, hi, hn, rfl⟩ := ShiftRun.exists_of_counterpart hm
      have hall := List.all_eq_true.1 hshifts _ hr
      have hpart := List.all_eq_true.1 hall i (List.mem_range.2 hi)
      rw [hn]
      exact .inr ⟨List.cons_ne_nil _ _, List.forall_mem_singleton.2 (by exact_mod_cast hpart)⟩
    · exact .inl rfl

/-- A character in upper case is itself, unless it is one of the letters from a to z, or names may
start with all that it becomes. -/
theorem upperChar_cases (c : Char) :
    (upperChar c = [c] ∧ ¬(97 ≤ c.toNat ∧ c.toNat ≤ 122)) ∨
      (upperChar c ≠ [] ∧ ∀ d ∈ upperChar c, startsPlainName d = true) := by
  rw [upperChar]
  split
  · split
    · rename_i hlower
      have hcapital : ∀ k, k < 91 → 65 ≤ k → startsPlainName (Char.ofNat k) = true := by decide
      simp only [Bool.and_eq_true, decide_eq_true_eq] at hlower
      exact .inr ⟨List.cons_ne_nil _ _,
        List.forall_mem_singleton.2 (hcapital _ (by omega) (by omega))⟩
    · rename_i hlower
      exact .inl ⟨rfl, by simpa using hlower⟩
  · exact (mapByTable_cases upperShifts_named upperExpansions_named c).imp_left
      fun h => ⟨h, by omega⟩

theorem cases_of_mem_upperChar {c d : Char} (hd : d ∈ upperChar c) :
    (d = c ∧ ¬(97 ≤ c.toNat ∧ c.toNat ≤ 122)) ∨ startsPlainName d = true := by
  rcases upperChar_cases c with ⟨h, hletter⟩ | ⟨-, h⟩
  · exact .inl ⟨by simpa [h] using hd, hletter⟩
  · exact .inr (h d hd)

theorem isNamePart_upperChar {c : Char} (h : Lexis.isNamePart c = true) :
    ∀ d ∈ upperChar c, Lexis.isNamePart d = true := by
  intro d hd
  rcases cases_of_mem_upperChar hd with ⟨rfl, -⟩ | hstart
  · exact h
  · simp only [startsPlainName, Lexis.isNameStart, Bool.and_eq_true] at hstart
    exact hstart.1.1

end Text

variable {field : List Char} {names refs : List String} {code : String}

namespace State

theorem setterName_ne {k : List Char} (h : "set".toList.isPrefixOf k = false) :
    setterName field ≠ k := by
  rintro rfl
  cases h

theorem setterName_not_mem (field : List Char) {ks : List (List Char)}
    (h : ∀ k ∈ ks, "set".toList.isPrefixOf k = false) : ks.contains (setterName field) = false := by
  rw [← Bool.not_eq_true, List.contains_iff_mem]
  intro hmem
  exact setterName_ne (h _ hmem) rfl

/-- **The setter of a field is a name.** -/
theorem isPlainName_setterName (h : isName field = true) :
    isPlainName (setterName field) = true := by
  have hparts : ∀ c ∈ setterName field, Lexis.isNamePart c = true := by
    obtain ⟨a, u, rfl, -⟩ := isName_head h
    simp only [isName, Bool.and_eq_true, List.all_eq_true, List.forall_mem_cons] at h
    intro c hc
    simp only [setterName, Naming.capitalizeChars, List.take_succ_cons, List.take_zero,
      List.drop_succ_cons, List.drop_zero, Text.upper, List.flatMap_cons, List.flatMap_nil,
      List.append_nil, List.mem_append] at hc
    rcases hc with hc | hc | hc
    · revert c
      decide
    · exact Text.isNamePart_upperChar h.2.1 c hc
    · exact h.2.2 c hc
  have hword {k : List Char} (hk : "set".toList.isPrefixOf k = false) :
      (setterName field != k) = true :=
    bne_iff_ne.2 (setterName_ne hk)
  have hreserved : Lexis.reserved.contains (setterName field) = false :=
    setterName_not_mem field (by decide)
  have hother : ["async".toList, "await".toList].contains (setterName field) = false :=
    setterName_not_mem field (by decide)
  simp only [isPlainName, Lexis.isLabel, Lexis.isIdentifier, Lexis.isReserved, Bool.and_eq_true,
    List.all_eq_true, hreserved, hother]
  exact ⟨⟨⟨rfl, hparts⟩, ⟨rfl, hword (by decide)⟩, hword (by decide)⟩, rfl⟩

end State

/-! ## Changed trees -/

namespace Script

namespace Tree

/-- A tree that is nothing to the node around it. -/
def withoutRole : Tree → Tree
  | gap t => gap t
  | token k _ t => token k none t
  | node k _ ps => node k none ps

/-- How the current element of a handle is read. -/
def currentOf (r : Option Role) (w : List Char) : Tree :=
  node .member r [token .identifier (some .object) w, token .symbol none ['.'],
    token .propertyIdentifier (some .property) "current".toList]

/-- How a use of a handle is read after renaming: a lone name in an object is written out. -/
def useOf (k : Kind) (r : Option Role) (w : List Char) : Tree :=
  if k = .shorthandPropertyIdentifier then
    node .pair r [token .propertyIdentifier (some .key) w, token .symbol none [':'], gap [' '],
      currentOf (some .value) w]
  else currentOf r w

mutual

/-- A tree in which every use of the handles reads the current element. -/
def renamed (names : List String) : Tree → Tree
  | gap t => gap t
  | token k r t =>
    if isVariable k && names.contains (String.ofList t) then useOf k r t else token k r t
  | node k r ps => node k r (renamedOf names ps)

/-- The same for neighbouring trees. -/
def renamedOf (names : List String) : List Tree → List Tree
  | [] => []
  | t :: ts => renamed names t :: renamedOf names ts

end

/-- How the call of a setter is read. -/
def setterCallOf (r : Option Role) (field : List Char) (value : Option Tree) : Tree :=
  node .call r [token .identifier (some .function) (State.setterName field),
    node .arguments (some .arguments) (token .symbol none ['('] ::
      ((value.map withoutRole).toList ++ [token .symbol none [')']]))]

mutual

/-- A tree with calls of setters in place of assignments to fields of the state. -/
def withSetters : Tree → Tree
  | gap t => gap t
  | token k r t => token k r t
  | node k r ps =>
    match State.assignedField? (node k r ps) with
    | some field =>
      setterCallOf r field ((withSettersOf ps).find? fun p => p.role? == some .right)
    | none => node k r (withSettersOf ps)

/-- The same for neighbouring trees. -/
def withSettersOf : List Tree → List Tree
  | [] => []
  | t :: ts => withSetters t :: withSettersOf ts

end

mutual

/-- The setters that are called for the assignments of a tree. -/
def setterNames : Tree → List (List Char)
  | node k r ps =>
    ((State.assignedField? (node k r ps)).map State.setterName).toList ++ setterNamesOf ps
  | _ => []

/-- The same for neighbouring trees. -/
def setterNamesOf : List Tree → List (List Char)
  | [] => []
  | t :: ts => setterNames t ++ setterNamesOf ts

end

theorem text_withoutRole (t : Tree) : t.withoutRole.text = t.text := by
  cases t <;> rfl

theorem renamedOf_eq_map (ts : List Tree) : renamedOf names ts = ts.map (renamed names) := by
  induction ts with
  | nil => rfl
  | cons t ts ih => rw [renamedOf, ih, List.map_cons]

theorem withSettersOf_eq_map (ts : List Tree) : withSettersOf ts = ts.map withSetters := by
  induction ts with
  | nil => rfl
  | cons t ts ih => rw [withSettersOf, ih, List.map_cons]

theorem role?_renamed (t : Tree) : (t.renamed names).role? = t.role? := by
  cases t with
  | gap u => rfl
  | node k r ps => rfl
  | token k r u =>
    rw [renamed]
    split
    · rw [useOf]
      split <;> rfl
    · rfl

theorem role?_withSetters (t : Tree) : t.withSetters.role? = t.role? := by
  cases t with
  | gap u => rfl
  | token k r u => rfl
  | node k r ps =>
    rw [withSetters]
    split <;> rfl

/-- A change that keeps roles changes the part in a role. -/
theorem find?_role_map {f : Tree → Tree} (hf : ∀ t, (f t).role? = t.role?) (r : Role)
    (ts : List Tree) : (ts.map f).find? (fun p => p.role? == some r) =
      (ts.find? fun p => p.role? == some r).map f := by
  rw [List.find?_map]
  congr 2
  funext t
  rw [Function.comp_apply, hf]

/-! ## What the passes write -/

theorem text_currentOf (r : Option Role) (w : List Char) :
    (currentOf r w).text = (currentElement (String.ofList w)).toList := by
  simp [currentOf, currentElement]

mutual

/-- **Renaming writes the renamed tree.** -/
theorem render_renamer (start : Nat) : ∀ t : Tree,
    t.render (renamer names currentElement) start = (t.renamed names).text
  | gap t => by rw [render, renamed]; rfl
  | token k r t => by
    rw [render_token, answer?_token start k r t false, renamed]
    split
    · rw [Option.getD_some, useOf, Occurrence.become, Occurrence.name, isKind, kind?]
      by_cases hk : k = .shorthandPropertyIdentifier
      · simp [hk, text_currentOf]
      · simp [hk, text_currentOf]
    · rfl
  | node k r ps => by
    rw [render_node, answer?_node, Option.getD_none, renderParts_renamer start ps]
    rfl

theorem renderParts_renamer (start : Nat) : ∀ ts : List Tree,
    renderParts (renamer names currentElement) start ts = textOf (renamedOf names ts)
  | [] => by rw [renderParts_nil]; rfl
  | t :: ts => by
    rw [renderParts_cons, render_renamer start t, renderParts_renamer _ ts, renamedOf, textOf_cons]

end

theorem renderParts_of_render {v : Rewriter} {f : Tree → Tree} {ts : List Tree}
    (hparts : ∀ p ∈ ts, ∀ start, p.render v start = (f p).text) (start : Nat) :
    renderParts v start ts = textOf (ts.map f) := by
  induction ts generalizing start with
  | nil => rw [renderParts_nil, List.map_nil]; rfl
  | cons t ts ih =>
    rw [List.forall_mem_cons] at hparts
    rw [renderParts_cons, hparts.1, ih hparts.2, List.map_cons, textOf_cons]

/-- What becomes of the part in a role, if the parts become what the changed trees read. -/
theorem render_part? {v : Rewriter} {f : Tree → Tree} {k : Kind} {r : Option Role} {ps : List Tree}
    (hparts : ∀ p ∈ ps, ∀ start, p.render v start = (f p).text) (start : Nat) (role : Role) :
    (((Site.mk start (node k r ps)).part? role).map fun p => p.val.tree.render v p.val.start) =
      (ps.find? fun p => p.role? == some role).map fun p => (f p).text := by
  have hval : (((Site.mk start (node k r ps)).part? role).map fun p =>
      p.val.tree.render v p.val.start) = (((Site.mk start (node k r ps)).part? role).map
        Subtype.val).map fun p => p.tree.render v p.start := by
    rw [Option.map_map]
    rfl
  rw [hval, Site.val_part?]
  change ((Site.listFrom start ps).find? _).map _ = _
  clear hval
  induction ps generalizing start with
  | nil => rfl
  | cons p ps ih =>
    rw [List.forall_mem_cons] at hparts
    rw [Site.listFrom, List.find?_cons, List.find?_cons]
    cases p.role? == some role with
    | true => exact congrArg some (hparts.1 start)
    | false => exact ih hparts.2 _

theorem answer?_setters_of_none {t : Tree} (h : State.assignedField? t = none) (start : Nat) :
    State.setters.answer? ⟨start, t⟩ = none := by
  rw [← Option.isNone_iff_eq_none, ← Option.not_isSome, State.isSome_answer?_setters, h]
  rfl

/-- A node is rewritten exactly if it assigns a field, and then to the call with the rewritten
value. -/
theorem answer?_setters {k : Kind} {r : Option Role} {ps : List Tree}
    (hparts : ∀ p ∈ ps, ∀ start, p.render State.setters start = p.withSetters.text)
    (start : Nat) : State.setters.answer? ⟨start, node k r ps⟩ =
      (State.assignedField? (node k r ps)).map fun field =>
        (setterCallOf r field ((withSettersOf ps).find? fun p => p.role? == some .right)).text := by
  have hvalue := render_part? (k := k) (r := r) hparts start .right
  simp only [Rewriter.answer?, Visitor.rewriter, State.setterCall, Option.map_map]
  congr 1
  funext field
  simp only [Function.comp_apply, Piece.assemble, hvalue, withSettersOf_eq_map,
    find?_role_map role?_withSetters]
  cases ps.find? fun p => p.role? == some .right with
  | none => simp [setterCallOf]
  | some p => simp [setterCallOf, text_withoutRole]

mutual

/-- **Calling setters writes the tree with setters.** -/
theorem render_setters : ∀ (t : Tree) (start : Nat),
    t.render State.setters start = t.withSetters.text
  | gap t, start => by rw [render, withSetters]; rfl
  | token k r t, start => by
    rw [render_token, answer?_setters_of_none (State.assignedField?_token k r t)]
    rfl
  | node k r ps, start => by
    have hparts := render_parts_setters ps
    rw [render_node, answer?_setters hparts, withSetters]
    cases State.assignedField? (node k r ps) with
    | some field => rfl
    | none =>
      rw [Option.map_none, Option.getD_none, renderParts_of_render hparts start,
        ← withSettersOf_eq_map]
      rfl

theorem render_parts_setters : ∀ ts : List Tree, ∀ t ∈ ts, ∀ start,
    t.render State.setters start = t.withSetters.text
  | [] => List.forall_mem_nil _
  | t :: ts => List.forall_mem_cons.2 ⟨render_setters t, render_parts_setters ts⟩

end

/-! ## Either order -/

theorem part?_renamed (k : Kind) (r : Option Role) (ps : List Tree) (role : Role) :
    (node k r (renamedOf names ps)).part? role =
      ((node k r ps).part? role).map (renamed names) := by
  rw [part?, parts, renamedOf_eq_map, find?_role_map role?_renamed]
  rfl

theorem withoutRole_renamed (t : Tree) :
    (t.renamed names).withoutRole = t.withoutRole.renamed names := by
  cases t with
  | gap u => rfl
  | node k r ps => rfl
  | token k r u =>
    rw [renamed, withoutRole, renamed]
    split
    · rw [useOf, useOf]
      split <;> rfl
    · rfl

theorem renamed_node (k : Kind) (r : Option Role) (ps : List Tree) :
    (node k r ps).renamed names = node k r (renamedOf names ps) := rfl

/-- A leaf that is no variable, or has another name, is kept. -/
theorem renamed_token {k : Kind} {u : List Char}
    (h : isVariable k = false ∨ names.contains (String.ofList u) = false) (r : Option Role) :
    (token k r u).renamed names = token k r u := by
  rw [renamed, if_neg]
  rcases h with h | h
  · rw [h, Bool.false_and]
    exact Bool.false_ne_true
  · rw [h, Bool.and_false]
    exact Bool.false_ne_true

theorem eq_token_of_renamed {t : Tree} {k : Kind} {r : Option Role} {u : List Char}
    (h : t.renamed names = token k r u) : t = token k r u := by
  cases t with
  | gap v => cases h
  | node k' r' ps => cases h
  | token k' r' v =>
    rw [renamed] at h
    split at h
    · rw [useOf] at h
      split at h <;> cases h
    · exact h

theorem stateField?_eq_some {t : Tree} {field : List Char} :
    State.stateField? t = some field ↔ t.isKind .member = true ∧
      (∃ r, t.part? .object = some (token .identifier r "state".toList)) ∧
      ∃ r, t.part? .property = some (token .propertyIdentifier r field) := by
  unfold State.stateField?
  split
  · split
    · split <;> simp_all
    · rename_i hother
      refine ⟨nofun, ?_⟩
      rintro ⟨-, ⟨r, hobject⟩, r', hproperty⟩
      exact absurd hproperty (hother _ _ _ _ hobject)
  · simp_all

/-- Renaming makes no field of the state, and keeps those there are. -/
theorem stateField?_renamed (hstate : names.contains "state" = false) (t : Tree) :
    State.stateField? (t.renamed names) = State.stateField? t := by
  have hobject (r : Option Role) := renamed_token (k := .identifier) (u := "state".toList)
    (.inr (by rwa [String.ofList_toList])) r
  have hproperty (u : List Char) (r : Option Role) : (token .propertyIdentifier r u).renamed names =
      token .propertyIdentifier r u :=
    renamed_token (.inl rfl) r
  refine Option.ext fun field => ?_
  rw [stateField?_eq_some, stateField?_eq_some]
  cases t with
  | gap u => exact Iff.rfl
  | token k r u =>
    -- A name that is renamed becomes a member of something else than the state.
    refine ⟨?_, ?_⟩
    · rintro ⟨-, ⟨r', hr⟩, -⟩
      rw [renamed] at hr
      split at hr
      · rename_i hnamed
        rw [useOf] at hr
        split at hr
        · cases hr
        · cases hr
          rw [String.ofList_toList, hstate, Bool.and_false] at hnamed
          cases hnamed
      · cases hr
    · rintro ⟨-, ⟨r', hr⟩, -⟩
      cases hr
  | node k r ps =>
    simp only [renamed, part?_renamed, Option.map_eq_some_iff]
    refine and_congr Iff.rfl (and_congr ?_ ?_)
    · refine exists_congr fun r' => ⟨?_, fun h => ⟨_, h, hobject r'⟩⟩
      rintro ⟨p, hp, heq⟩
      rw [hp, eq_token_of_renamed heq]
    · refine exists_congr fun r' => ⟨?_, fun h => ⟨_, h, hproperty field r'⟩⟩
      rintro ⟨p, hp, heq⟩
      rw [hp, eq_token_of_renamed heq]

theorem assignedField?_renamed (hstate : names.contains "state" = false) (k : Kind)
    (r : Option Role) (ps : List Tree) :
    State.assignedField? (node k r (renamedOf names ps)) = State.assignedField? (node k r ps) := by
  rw [State.assignedField?, State.assignedField?, part?_renamed, Option.bind_map]
  simp only [Function.comp_def, stateField?_renamed hstate]
  rfl

theorem withSetters_useOf (k : Kind) (r : Option Role) (w : List Char) :
    (useOf k r w).withSetters = useOf k r w := by
  rw [useOf]
  split <;> rfl

/-- Renaming goes through the call of a setter to its value, as long as no handle is called like it.
-/
theorem renamed_setterCallOf (r : Option Role) {field : List Char}
    (hfield : names.contains (String.ofList (State.setterName field)) = false)
    (value : Option Tree) : (setterCallOf r field value).renamed names =
      setterCallOf r field (value.map (renamed names)) := by
  have hname := renamed_token (k := .identifier) (.inr hfield) (some .function)
  have hmark (u : List Char) : (token .symbol none u).renamed names = token .symbol none u :=
    renamed_token (.inl rfl) none
  have hvalue : renamedOf names (value.map withoutRole).toList =
      ((value.map (renamed names)).map withoutRole).toList := by
    cases value with
    | none => rfl
    | some t => exact congrArg (· :: []) (withoutRole_renamed t).symm
  simp only [setterCallOf, renamed_node, renamedOf_eq_map, List.map_cons, List.map_nil, hname]
  rw [hmark]
  simp only [List.map_append, ← renamedOf_eq_map, hvalue]
  simp only [renamedOf, hmark]

mutual

/-- **The two changes commute**, unless a handle is the state or a setter that is called. -/
theorem withSetters_renamed (hstate : names.contains "state" = false) : ∀ t : Tree,
    (∀ w ∈ t.setterNames, names.contains (String.ofList w) = false) →
      (t.renamed names).withSetters = t.withSetters.renamed names
  | gap t, _ => rfl
  | token k r t, _ => by
    rw [withSetters, renamed]
    split
    · exact withSetters_useOf k r t
    · rfl
  | node k r ps, h => by
    rw [setterNames, List.forall_mem_append] at h
    have hparts := withSettersOf_renamed hstate ps h.2
    rw [renamed, withSetters, assignedField?_renamed hstate, hparts, withSetters]
    cases hfield : State.assignedField? (node k r ps) with
    | none => rfl
    | some field =>
      have hname := h.1 (State.setterName field) (by simp [hfield])
      rw [renamed_setterCallOf r hname, renamedOf_eq_map, find?_role_map role?_renamed]

theorem withSettersOf_renamed (hstate : names.contains "state" = false) : ∀ ts : List Tree,
    (∀ w ∈ setterNamesOf ts, names.contains (String.ofList w) = false) →
      withSettersOf (renamedOf names ts) = renamedOf names (withSettersOf ts)
  | [], _ => rfl
  | t :: ts, h => by
    rw [setterNamesOf, List.forall_mem_append] at h
    rw [renamedOf, withSettersOf, withSetters_renamed hstate t h.1,
      withSettersOf_renamed hstate ts h.2]
    rfl

end

/-! ## Trees without variables -/

mutual

/-- Renaming changes nothing where none of the names is mentioned. -/
theorem renamed_of_absent : ∀ {t : Tree},
    (∀ x ∈ t.variableNames, names.contains (String.ofList x) = false) → t.renamed names = t
  | gap _, _ => rfl
  | token k r u, h => by
    cases hk : isVariable k with
    | false => exact renamed_token (.inl hk) r
    | true => exact renamed_token (.inr (h u (by simp [variableNames, hk]))) r
  | node k r ps, h => by rw [renamed, renamedOf_of_absent h]

theorem renamedOf_of_absent : ∀ {ts : List Tree},
    (∀ x ∈ variableNamesOf ts, names.contains (String.ofList x) = false) →
      renamedOf names ts = ts
  | [], _ => rfl
  | t :: ts, h => by
    rw [variableNamesOf, List.forall_mem_append] at h
    rw [renamedOf, renamed_of_absent h.1, renamedOf_of_absent h.2]

end

theorem variables_nil_of_part? {t p : Tree} {r : Role} (h : t.variableNames = [])
    (hp : t.part? r = some p) : p.variableNames = [] := by
  have hmem := List.mem_of_find?_eq_some hp
  cases t with
  | node k r' ps =>
    rw [List.eq_nil_iff_forall_not_mem] at h ⊢
    exact fun x hx => h x (mem_variablesOf.2 ⟨p, hmem, hx⟩)
  | _ => cases hmem

theorem assignedField?_of_variables_nil {t : Tree} (h : t.variableNames = []) :
    State.assignedField? t = none := by
  unfold State.assignedField?
  split
  · cases hleft : t.part? .left with
    | none => rfl
    | some place =>
      rw [Option.bind_some, ← Option.not_isSome_iff_eq_none, Option.isSome_iff_exists]
      rintro ⟨field, hfield⟩
      obtain ⟨-, ⟨r, hobject⟩, -⟩ := stateField?_eq_some.1 hfield
      cases variables_nil_of_part? (variables_nil_of_part? h hleft) hobject
  · rfl

mutual

theorem withSetters_of_variables_nil : ∀ {t : Tree}, t.variableNames = [] → t.withSetters = t
  | gap _, _ => rfl
  | token _ _ _, _ => rfl
  | node k r ps, h => by
    rw [withSetters, assignedField?_of_variables_nil h, withSettersOf_of_variables_nil h]

theorem withSettersOf_of_variables_nil : ∀ {ts : List Tree}, variableNamesOf ts = [] →
    withSettersOf ts = ts
  | [], _ => rfl
  | _ :: _, h => by
    obtain ⟨ht, hts⟩ := List.append_eq_nil_iff.1 h
    rw [withSettersOf, withSetters_of_variables_nil ht, withSettersOf_of_variables_nil hts]

end

/-! ## Comparing trees -/

mutual

/-- Whether two trees are the same. -/
def same : Tree → Tree → Bool
  | gap t, gap u => t == u
  | token k r t, token k' r' u => k == k' && r == r' && t == u
  | node k r ps, node k' r' qs => k == k' && r == r' && sameAll ps qs
  | _, _ => false

/-- The same for neighbouring trees. -/
def sameAll : List Tree → List Tree → Bool
  | [], [] => true
  | t :: ts, u :: us => same t u && sameAll ts us
  | _, _ => false

end

mutual

/-- The test of trees is sound. -/
theorem eq_of_same : ∀ {t u : Tree}, same t u = true → t = u
  | gap t, u, h => by
    cases u with
    | gap v => rw [eq_of_beq h]
    | _ => cases h
  | token k r t, u, h => by
    cases u with
    | token k' r' v =>
      simp only [same, Bool.and_eq_true, beq_iff_eq] at h
      rw [h.1.1, h.1.2, h.2]
    | _ => cases h
  | node k r ps, u, h => by
    cases u with
    | node k' r' qs =>
      simp only [same, Bool.and_eq_true, beq_iff_eq] at h
      rw [h.1.1, h.1.2, eq_of_sameAll h.2]
    | _ => cases h

theorem eq_of_sameAll : ∀ {ts us : List Tree}, sameAll ts us = true → ts = us
  | [], us, h => by
    cases us with
    | nil => rfl
    | cons u us => cases h
  | t :: ts, us, h => by
    cases us with
    | nil => cases h
    | cons u us =>
      simp only [sameAll, Bool.and_eq_true] at h
      rw [eq_of_same h.1, eq_of_sameAll h.2]

end

end Tree

namespace Fragment

/-- A fragment in which every use of the handles reads the current element. -/
def renamed (names : List String) (f : Fragment) : Fragment :=
  { f with root := f.root.renamed names }

/-- A fragment with calls of setters in place of assignments to fields of the state. -/
def withSetters (f : Fragment) : Fragment := { f with root := f.root.withSetters }

/-- Whether two fragments are the same. -/
def same (f g : Fragment) : Bool :=
  f.wrapper == g.wrapper && f.lead == g.lead && f.root.same g.root

theorem eq_of_same {f g : Fragment} (h : f.same g = true) : f = g := by
  obtain ⟨w, lead, root⟩ := f
  obtain ⟨w', lead', root'⟩ := g
  simp only [same, Bool.and_eq_true, beq_iff_eq] at h
  rw [h.1.1, h.1.2, Tree.eq_of_same h.2]

/-- What renaming writes is the text of the renamed tree. -/
theorem rewrite_renamer (f : Fragment) : f.rewrite (renamer names currentElement) =
    unwrap f.wrapper (f.lead ++ (f.root.renamed names).text) := by
  rw [rewrite, renderAll, Tree.render_renamer]

theorem rewrite_setters (f : Fragment) : f.rewrite State.setters =
    unwrap f.wrapper (f.lead ++ f.root.withSetters.text) := by
  rw [rewrite, renderAll, Tree.render_setters]

end Fragment

end Script

/-! ## Codes -/

namespace Code

/-- What the code of a binding becomes: setters are called, then handles are renamed. -/
def bound (refs : List String) (code : Json) : Outcome Json :=
  State.useSetters code >>= fun text => rename refs currentElement (.str text)

/-- What the code of the mounting hook becomes: handles are renamed, then setters are called. -/
def mounted (refs : List String) (code : Json) : Outcome Json :=
  rename refs currentElement code >>= fun renamed => (State.useSetters renamed).map .str

theorem useSetters_of_unreadable (h : Fragment.parse? code.toList = none) :
    State.useSetters (.str code) = .error (.unparsable (.str code)) :=
  rewrite_of_unreadable h

theorem useSetters_of_parse {f : Fragment} (h : Fragment.parse? code.toList = some f) :
    State.useSetters (.str code) = .ok (String.ofList (f.rewrite State.setters)) :=
  rewrite_of_parse (parse_str_eq_ok.2 h)

theorem rename_of_unreadable (refs : List String) (h : Fragment.parse? code.toList = none) :
    rename refs currentElement (.str code) = .ok (.str code) ∨
      rename refs currentElement (.str code) = .error (.unparsable (.str code)) := by
  rw [rename, mentionsAny_str]
  cases refs.any fun ref => Text.occursIn ref code with
  | false => exact .inl rfl
  | true =>
    refine .inr ?_
    simp only [replace, rewrite_of_unreadable h]
    rfl

/-- Whether the passes see through each other's texts: no handle is the state or a setter that is
called, what is written with setters is read with the calls in place of the assignments, and what
is written with current elements, if it can be read, is read with these in place of the handles. -/
structure Settled (refs : List String) (f : Fragment) : Prop where
  state : refs.contains "state" = false
  setters : ∀ w ∈ f.root.setterNames, refs.contains (String.ofList w) = false
  called : Fragment.parse? (f.rewrite State.setters) = some f.withSetters
  renamed : ∀ g, Fragment.parse? (f.rewrite (renamer refs currentElement)) = some g →
    g = f.renamed refs

/-- What both passes make of a fragment. -/
def settledText (refs : List String) (f : Fragment) : String :=
  String.ofList (f.withSetters.rewrite (renamer refs currentElement))

theorem Settled.bound_eq {f : Fragment} (h : Settled refs f)
    (hf : Fragment.parse? code.toList = some f) :
    bound refs (.str code) = .ok (.str (settledText refs f)) := by
  have hcalled := h.called
  rw [← String.toList_ofList (l := f.rewrite State.setters)] at hcalled
  rw [bound, useSetters_of_parse hf, ok_bind, rename_eq_rewrite hcalled]
  rfl

/-- **What is read again is settled**: the second pass finds the assignments where they were. -/
theorem Settled.mounted_eq {f g : Fragment} (h : Settled refs f)
    (hf : Fragment.parse? code.toList = some f)
    (hg : Fragment.parse? (f.rewrite (renamer refs currentElement)) = some g) :
    mounted refs (.str code) = .ok (.str (settledText refs f)) := by
  have hread := hg
  rw [h.renamed g hg, ← String.toList_ofList (l := f.rewrite (renamer refs currentElement))] at hread
  have hcommute := Tree.withSetters_renamed h.state f.root h.setters
  rw [mounted, rename_eq_rewrite hf, ok_bind, useSetters_of_parse hread, settledText,
    Fragment.rewrite_renamer, Fragment.rewrite_setters]
  simp only [Fragment.renamed, Fragment.withSetters, hcommute]
  rfl

theorem mounted_of_unreadable {f : Fragment} (hf : Fragment.parse? code.toList = some f)
    (hg : Fragment.parse? (f.rewrite (renamer refs currentElement)) = none) :
    ∃ e, mounted refs (.str code) = .error e := by
  rw [← String.toList_ofList (l := f.rewrite (renamer refs currentElement))] at hg
  rw [mounted, rename_eq_rewrite hf, ok_bind, useSetters_of_unreadable hg]
  exact ⟨_, rfl⟩

/-- **Setters and handles in either order.** What cannot be read is refused in both orders. What can
be read is compiled in the order of bindings; and in the order of the mounting hook it comes to the
same exactly if what becomes of the handles can be read again. -/
theorem bound_eq_mounted_iff {code : String}
    (h : ∀ f, Fragment.parse? code.toList = some f → Settled refs f) :
    (Fragment.parse? code.toList = none →
        bound refs (.str code) = .error (.unparsable (.str code)) ∧
        mounted refs (.str code) = .error (.unparsable (.str code))) ∧
      (∀ f, Fragment.parse? code.toList = some f →
        bound refs (.str code) = .ok (.str (settledText refs f))) ∧
      (bound refs (.str code) = mounted refs (.str code) ↔
        ∀ f, Fragment.parse? code.toList = some f →
          (Fragment.parse? (f.rewrite (renamer refs currentElement))).isSome = true) := by
  have hunreadable (hnone : Fragment.parse? code.toList = none) :
      bound refs (.str code) = .error (.unparsable (.str code)) ∧
        mounted refs (.str code) = .error (.unparsable (.str code)) := by
    have hsetters := useSetters_of_unreadable hnone
    refine ⟨by rw [bound, hsetters, error_bind], ?_⟩
    rw [mounted]
    rcases rename_of_unreadable refs hnone with hrename | hrename
    · rw [hrename, ok_bind, hsetters]
      rfl
    · rw [hrename, error_bind]
  refine ⟨hunreadable, fun f hf => (h f hf).bound_eq hf, ?_⟩
  cases hf : Fragment.parse? code.toList with
  | none =>
    obtain ⟨hbound, hmounted⟩ := hunreadable hf
    rw [hbound, hmounted]
    exact iff_of_true rfl nofun
  | some f =>
    have hsettled := h f hf
    rw [hsettled.bound_eq hf]
    cases hg : Fragment.parse? (f.rewrite (renamer refs currentElement)) with
    | some g =>
      rw [hsettled.mounted_eq hf hg]
      refine iff_of_true rfl fun f' hf' => ?_
      obtain rfl := Option.some.inj hf'
      rw [hg]
      rfl
    | none =>
      obtain ⟨e, he⟩ := mounted_of_unreadable hf hg
      rw [he]
      refine iff_of_false nofun fun hall => ?_
      have hsome := hall f rfl
      rw [hg] at hsome
      cases hsome

/-- Whether the passes see through each other's texts, as a computation. -/
def isSettled (refs : List String) (f : Fragment) : Bool :=
  !refs.contains "state" && f.root.setterNames.all (fun w => !refs.contains (String.ofList w)) &&
    (Fragment.parse? (f.rewrite State.setters)).any f.withSetters.same &&
    (Fragment.parse? (f.rewrite (renamer refs currentElement))).all (f.renamed refs).same

theorem settled_of_isSettled {f : Fragment} (h : isSettled refs f = true) : Settled refs f := by
  simp only [isSettled, Bool.and_eq_true, Bool.not_eq_true', List.all_eq_true] at h
  obtain ⟨⟨⟨hstate, hsetters⟩, hcalled⟩, hrenamed⟩ := h
  refine ⟨hstate, hsetters, ?_, fun g hg => ?_⟩
  · obtain ⟨g, hg, hsame⟩ := (Option.any_eq_true _ _).1 hcalled
    rw [hg, Fragment.eq_of_same hsame]
  · rw [hg, Option.all_some] at hrenamed
    exact (Fragment.eq_of_same hrenamed).symm

/-- Code with a condition, an arrow function, an optional chain, a list and an object. -/
def refreshingCode : String :=
  "if (el) setTimeout(() => el?.focus(),0); state.items = [\x7b el \x7d, ...state.items]"

/-- What both passes make of it. -/
def refreshedCode : String :=
  "if (el.current) setTimeout(() => el.current?.focus(),0); " ++
    "setItems([\x7b el: el.current \x7d, ...state.items])"

theorem bound_eq_mounted_iff_refreshing :
    (∀ f, Fragment.parse? refreshingCode.toList = some f → Settled ["el"] f) ∧
      bound ["el"] (.str refreshingCode) = .ok (.str refreshedCode) ∧
      mounted ["el"] (.str refreshingCode) = .ok (.str refreshedCode) := by
  have hcode : (Fragment.parse? refreshingCode.toList).any (fun f =>
      isSettled ["el"] f && settledText ["el"] f == refreshedCode &&
        (Fragment.parse? (f.rewrite (renamer ["el"] currentElement))).isSome) = true := by
    decide +kernel
  obtain ⟨f, hf, hcode⟩ := (Option.any_eq_true _ _).1 hcode
  simp only [Bool.and_eq_true, beq_iff_eq] at hcode
  have honly : ∀ g, Fragment.parse? refreshingCode.toList = some g → g = f :=
    fun g hg => Option.some.inj (hg.symm.trans hf)
  have hsettled : ∀ g, Fragment.parse? refreshingCode.toList = some g → Settled ["el"] g :=
    fun g hg => honly g hg ▸ settled_of_isSettled hcode.1.1
  obtain ⟨-, hbound, hiff⟩ := bound_eq_mounted_iff hsettled
  have heq := hiff.2 fun g hg => honly g hg ▸ hcode.2
  rw [hbound f hf, hcode.1.2] at heq
  exact ⟨hsettled, by rw [hbound f hf, hcode.1.2], heq.symm⟩

/-- A declared handle is renamed like a use of it. What comes out cannot be read again, so it is
refused where the setters are called last, but not where they are called first. -/
theorem mounted_breaks_declaration :
    bound ["el"] (.str declarationCode) = .ok (.str "const el.current = 1;") ∧
      mounted ["el"] (.str declarationCode) =
        .error (.unparsable (.str "const el.current = 1;")) := by
  obtain ⟨f, hf, -, hrename, hnone⟩ := rename_declaration
  have hsame : (Fragment.parse? declarationCode.toList).all (fun f =>
      f.rewrite State.setters == declarationCode.toList) = true := by
    decide +kernel
  rw [hf, Option.all_some, beq_iff_eq] at hsame
  have hsetters : State.useSetters (.str declarationCode) = .ok declarationCode := by
    rw [State.useSetters, replace, rewrite_of_parse (parse_str_eq_ok.2 hf), hsame,
      String.ofList_toList]
  have hrefused := useSetters_of_unreadable hnone
  constructor
  · rw [bound, hsetters, ok_bind, hrename]
  · rw [mounted, hrename, ok_bind, hrefused, Except.map]

end Code

end ReactWeave
