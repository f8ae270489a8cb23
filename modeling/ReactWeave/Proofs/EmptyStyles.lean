import ReactWeave.Proofs.Commuting
import ReactWeave.Proofs.FirstFailure
import ReactWeave.Proofs.StateReads

/-!
# ReactWeave.Proofs.EmptyStyles

**Empty styles stay empty** on the way to the markup.

A style is empty if it is nothing but blanks, or an empty object up to blanks. Such
a text has no dot and no variable, so no pass over the bindings finds anything to
replace in it: calls of getters, calls of setters, handles and plain names of state
fields leave it as it is.

* `Style.Kept`: what the passes keep of the bindings of a node;
  `Style.kept_of_prepareState` and `Style.kept_of_mapRefs` say that they do.
-/

namespace ReactWeave

/-! ## Scripts without variables -/

namespace Script

mutual

theorem Tree.mem_text_of_mem_variables {x : List Char} {c : Char} (hc : c ∈ x) :
    ∀ {t : Tree}, x ∈ t.variableNames → c ∈ t.text
  | .gap u, h => by cases h
  | .token k r u, h => by
    rw [Tree.variableNames] at h
    split at h
    · obtain rfl := List.mem_singleton.1 h
      exact hc
    · cases h
  | .node k r ps, h => by
    have hparts : x ∈ Tree.variableNamesOf ps := h
    exact Tree.mem_textOf_of_mem_variablesOf hc hparts

theorem Tree.mem_textOf_of_mem_variablesOf {x : List Char} {c : Char} (hc : c ∈ x) :
    ∀ {ts : List Tree}, x ∈ Tree.variableNamesOf ts → c ∈ Tree.textOf ts
  | [], h => by cases h
  | t :: ts, h => by
    rw [Tree.textOf_cons, List.mem_append]
    rcases List.mem_append.1 h with h | h
    · exact .inl (Tree.mem_text_of_mem_variables hc h)
    · exact .inr (Tree.mem_textOf_of_mem_variablesOf hc h)

end

/-- Whether a rewriter leaves trees without variables as they are. -/
def Rewriter.LeavesLiterals (v : Rewriter) : Prop :=
  ∀ {t : Tree}, t.variableNames = [] → ∀ {start : Nat}, t.render v start = t.text

theorem leavesLiterals_renamer (names : List String) :
    (renamer names currentElement).LeavesLiterals := by
  intro t h start
  rw [Tree.render_renamer, Tree.renamed_of_absent (by simp [h])]

theorem leavesLiterals_setters : State.setters.LeavesLiterals := by
  intro t h start
  rw [Tree.render_setters, Tree.withSetters_of_variables_nil h]

namespace Fragment

variable {code : List Char} {f : Fragment}

/-- A text without a character that a name can start with has no variables. -/
theorem variables_eq_nil (hf : parse? code = some f)
    (h : ∀ c ∈ code, startsVariable c = false) : f.root.variableNames = [] := by
  rw [List.eq_nil_iff_forall_not_mem]
  intro x hx
  obtain ⟨hmem, hread⟩ := parseIn_eq_some hf
  obtain ⟨⟨c, u, rfl, hc⟩, -⟩ := namelike_of_readProgram hread x hx
  have htext : c ∈ f.lead ++ f.root.text :=
    List.mem_append_right _ (Tree.mem_text_of_mem_variables List.mem_cons_self hx)
  rw [text_of_parse? hf, List.mem_append, List.mem_append] at htext
  -- The character stands in the fragment or in what was put around it.
  have hnone : startsVariable c = false := by
    have hwrapper := (wrappers_apart _ hmem).1
    rcases htext with (hopen | hcode) | hclose
    · exact hwrapper c (List.mem_append_left _ hopen)
    · exact h c hcode
    · exact hwrapper c (List.mem_append_right _ hclose)
  rw [startsVariable, hc] at hnone
  cases hnone

/-- **A script without variables is rewritten to itself** by rewriters that leave literals alone. -/
theorem rewrite_of_variables_nil {v : Rewriter} (hv : v.LeavesLiterals)
    (hf : parse? code = some f) (h : f.root.variableNames = []) : f.rewrite v = code := by
  rw [rewrite, renderAll, hv h, text_of_parse? hf, unwrap_wrapped]

end Fragment

end Script

/-! ## Texts without dots -/

variable {s : List Char} {c c' : Component}

namespace State

theorem behindDot?_of_not_mem (word : List Char) (h : '.' ∉ s) : behindDot? word s = none := by
  unfold behindDot?
  split
  · split
    · rename_i rest hrest
      have hdot : '.' ∈ Text.trimStart (s.drop word.length) := hrest ▸ List.mem_cons_self
      exact absurd (List.mem_of_mem_drop ((List.dropWhile_sublist _).subset hdot)) h
    · rfl
  · rfl

theorem stripFrom_of_not_mem (word : List Char) (h : '.' ∉ s) (before : Option Char) :
    stripFrom word before 0 s = s := by
  induction s generalizing before with
  | nil => rfl
  | cons c s ih =>
    have hrest : '.' ∉ s := fun hs => h (List.mem_cons_of_mem _ hs)
    have hnone : accessLength? word (c :: s) = none := by
      rw [accessLength?, behindDot?_of_not_mem word h]
      rfl
    simp only [stripFrom, hnone, ite_self, ih hrest]

theorem callFrom_of_not_mem (name : List Char) (template : List TemplatePart) (h : '.' ∉ s)
    (before : Option Char) : callFrom name template before 0 s = s := by
  induction s generalizing before with
  | nil => rfl
  | cons c s ih =>
    have hrest : '.' ∉ s := fun hs => h (List.mem_cons_of_mem _ hs)
    have hnone : readLength? name (c :: s) = none := by
      rw [readLength?, behindDot?_of_not_mem _ h]
      rfl
    simp only [callFrom, hnone, ite_self, ih hrest]

theorem callGetters_of_not_mem {names : List String} {code : String} (h : '.' ∉ code.toList)
    {new : Json} (hnew : callGetters names (.str code) = .ok new) : new = .str code := by
  induction names with
  | nil =>
    cases hnew
    rfl
  | cons name names ih =>
    obtain ⟨called, hcall, hrest⟩ := bind_eq_ok.1 hnew
    obtain ⟨template, -, hcall⟩ := bind_eq_ok.1 hcall
    have hcalled : called = .str code := by
      rw [← Except.ok.inj hcall, callFrom_of_not_mem _ _ h, String.ofList_toList]
    rw [hcalled] at hrest
    exact ih hrest

end State

/-! ## Empty styles -/

namespace Style

theorem hasDeclarations_cases {css : String} (h : hasDeclarations css = false) {c : Char}
    (hc : c ∈ css.toList) : Text.isBlank c = true ∨ c = '\x7b' ∨ c = '\x7d' := by
  by_cases hblank : Text.isBlank c = true
  · exact .inl hblank
  · have hsolid : c ∈ css.toList.filter fun c => !Text.isBlank c :=
      List.mem_filter.2 ⟨hc, by simpa using hblank⟩
    simp only [hasDeclarations, Bool.not_eq_false', Bool.or_eq_true, beq_iff_eq,
      List.isEmpty_iff] at h
    rcases h with h | h
    · rw [h] at hsolid
      cases hsolid
    · rw [h] at hsolid
      exact .inr (by simpa using hsolid)

section Empty

variable {css : String} (h : hasDeclarations css = false)

include h

theorem dot_not_mem : '.' ∉ css.toList := by
  intro hdot
  rcases hasDeclarations_cases h hdot with hblank | hbrace | hbrace
  · revert hblank
    decide
  · cases hbrace
  · cases hbrace

/-- The text of a style without declarations has no such character. -/
theorem startsVariable_eq_false : ∀ c ∈ css.toList, Script.startsVariable c = false := by
  intro c hc
  rw [Bool.eq_false_iff]
  intro hstart
  rcases hasDeclarations_cases h hc with hblank | rfl | rfl
  · have hword : Script.Lexis.isWordChar c = true := by
      simp only [Script.startsVariable, Script.Lexis.isNameStart, Bool.or_eq_true,
        Bool.and_eq_true] at hstart
      simp only [Script.Lexis.isWordChar, Bool.or_eq_true]
      exact .inl (.inl (hstart.imp And.left id))
    rw [State.isBlank_of_isWordChar hword] at hblank
    cases hblank
  · revert hstart
    decide
  · revert hstart
    decide

theorem processed_empty (strategy : StateStrategy) :
    State.processed strategy (.str css) = .ok (.str css) := by
  cases strategy with
  | useState =>
    have hstrip := State.stripFrom_of_not_mem "state".toList (dot_not_mem h) none
    rw [State.processed, State.strip, State.stripChars, hstrip, String.ofList_toList]
  | _ => rfl

theorem rewrite_empty {v : Script.Rewriter} (hv : v.LeavesLiterals) {text : String}
    (htext : Code.rewrite v (.str css) = .ok text) : text = css := by
  cases hparse : Script.Fragment.parse? css.toList with
  | none =>
    rw [Code.rewrite_of_unreadable hparse] at htext
    cases htext
  | some f =>
    have hnone := Script.Fragment.variables_eq_nil hparse (startsVariable_eq_false h)
    rw [Code.rewrite_of_parse (Code.parse_str_eq_ok.2 hparse),
      Script.Fragment.rewrite_of_variables_nil hv hparse hnone, String.ofList_toList] at htext
    exact (Except.ok.inj htext).symm

theorem useSetters_empty {text : String} (htext : State.useSetters (.str css) = .ok text) :
    text = css :=
  rewrite_empty h Script.leavesLiterals_setters htext

theorem rename_empty {refs : List String} {new : Json}
    (hnew : Code.rename refs currentElement (.str css) = .ok new) : new = .str css := by
  rw [Code.rename] at hnew
  split at hnew
  · cases hnew
  · exact (Except.ok.inj hnew).symm
  · obtain ⟨text, htext, rfl⟩ := map_eq_ok.1 hnew
    rw [rewrite_empty h (Script.leavesLiterals_renamer refs) htext]

end Empty

/-! ## Passes -/

/-- What the passes keep of a binding: its key, and its text if that is an empty style. -/
def KeptBinding (b b' : Json × Json) : Prop :=
  b.1 = b'.1 ∧ ∀ css : String, b.2 = .str css → hasDeclarations css = false → b'.2 = .str css

/-- What the passes keep of the bindings of a node. -/
def Kept (h h' : Head) : Prop := List.Forall₂ KeptBinding h.bindings h'.bindings

theorem Kept.refl (h : Head) : Kept h h := List.forall₂_same.2 fun _ _ => ⟨rfl, fun _ hb _ => hb⟩

/-- What two passes keep, both keep together. -/
theorem Kept.trans {h h' h'' : Head} (hkept : Kept h h') (hkept' : Kept h' h'') : Kept h h'' := by
  refine forall₂_trans ?_ hkept hkept'
  rintro b b' b'' ⟨hkey, hvalue⟩ ⟨hkey', hvalue'⟩
  exact ⟨hkey.trans hkey', fun css hb hempty => hvalue' css (hvalue css hb hempty) hempty⟩

theorem kept_of_passed {f : Json → Json → Outcome Json}
    (hf : ∀ (key : Json) (css : String) (new : Json), hasDeclarations css = false →
      f key (.str css) = .ok new → new = .str css) {h h' : Head} (hpass : h.Passed f h') :
    Kept h h' := by
  refine hpass.bindings.imp ?_
  rintro ⟨key, value⟩ b' ⟨hkey, hnew⟩
  refine ⟨hkey, ?_⟩
  rintro css rfl hempty
  exact hf key css b'.2 hempty hnew

theorem kept_of_passGetters (h : (State.passGetters c).toOutcome = .ok c') :
    List.Forall₂ Kept c.heads c'.heads := by
  rcases Component.passed_of_passGetters h with rfl | ⟨names, h⟩
  · exact List.forall₂_same.2 fun _ _ => .refl _
  · exact h.heads.imp fun _ _ => kept_of_passed fun _ _ _ hempty hnew =>
      State.callGetters_of_not_mem (dot_not_mem hempty) hnew

theorem kept_of_passSetters (h : (State.passSetters c).toOutcome = .ok c') :
    List.Forall₂ Kept c.heads c'.heads := by
  obtain ⟨children, rfl, hheads⟩ := Component.eq_of_passBindings h
  refine hheads.imp fun _ _ => kept_of_passed fun key css new hempty hnew => ?_
  obtain ⟨text, htext, rfl⟩ := map_eq_ok.1 hnew
  rw [useSetters_empty hempty htext]

/-- **Preparing the state keeps empty styles.** -/
theorem kept_of_prepareState {strategy : StateStrategy} (h : prepareState strategy c = .ok c') :
    List.Forall₂ Kept c.heads c'.heads := by
  cases strategy with
  | useState =>
    obtain ⟨called, hcalled, hset⟩ := Progress.andThen_eq_ok.1 h
    refine forall₂_trans (T := Kept) ?_ (kept_of_passGetters hcalled) (kept_of_passSetters hset)
    exact fun _ _ _ => Kept.trans
  | _ =>
    cases h
    exact List.forall₂_same.2 fun _ _ => .refl _

/-- **Replacing the uses of handles keeps empty styles.** -/
theorem kept_of_mapRefs (h : (c.mapRefs currentElement).toOutcome = .ok c') :
    List.Forall₂ Kept c.heads c'.heads := by
  rcases Component.passed_of_mapRefs h with rfl | h
  · exact List.forall₂_same.2 fun _ _ => .refl _
  · refine h.heads.imp fun _ _ => kept_of_passed fun key css new hempty hnew => ?_
    split at hnew
    · exact (Except.ok.inj hnew).symm
    · exact rename_empty hempty hnew

end Style

end ReactWeave
