import ReactWeave.Proofs.HookImports

/-!
# ReactWeave.Proofs.KeptNames

**The names that a preparation keeps.** A preparation rewrites the codes of a
component. This module says which of the names in them it leaves alone, so that
what a source declares can be read off the component that it is made from.

* `Component.refs_of_prepare`: handles that are written without dots stay what
  they are.
-/

namespace ReactWeave

/-! ## Fronts -/

/-- Whether a text starts with `front` and a parenthesis. -/
def Opens (front s : List Char) : Prop := ∃ rest, s = front ++ '(' :: rest

variable {front s : List Char} {code : String} {f : Json → Outcome Json}

theorem Opens.cons (c : Char) (h : Opens front s) : Opens (c :: front) (c :: s) := by
  obtain ⟨rest, rfl⟩ := h
  exact ⟨rest, rfl⟩

theorem Opens.exists_append {word : List Char} (hword : '(' ∉ word) (h : Opens front s)
    (hstart : Text.startsWith word s = true) : ∃ after, front = word ++ after := by
  obtain ⟨rest, rfl⟩ := h
  obtain ⟨after, hafter⟩ := Text.startsWith_iff.1 hstart
  rcases List.append_eq_append_iff.1 hafter with ⟨w, hw, hrest⟩ | ⟨w, hw, -⟩
  · cases w with
    | nil => exact ⟨[], by rw [hw, List.append_nil, List.append_nil]⟩
    | cons d w =>
      obtain rfl := (List.cons.inj hrest).1
      exact absurd (hw ▸ List.mem_append_right _ List.mem_cons_self) hword
  · exact ⟨w, hw⟩

/-- In front of its first parenthesis a method without dots has no access. -/
theorem State.behindDot?_of_opens {word : List Char} (hword : '(' ∉ word) (hfront : '.' ∉ front)
    (h : Opens front s) : behindDot? word s = none := by
  unfold behindDot?
  split
  · rename_i hstart
    obtain ⟨front', rfl⟩ := h.exists_append hword hstart
    obtain ⟨rest, rfl⟩ := h
    rw [List.append_assoc, List.drop_left]
    split
    · rename_i tail htail
      obtain ⟨blanks, heq, hblanks⟩ := exists_blank_append_trimStart (front' ++ '(' :: rest)
      rw [htail] at heq
      have hdot : '.' ∉ front' := fun hmem => hfront (List.mem_append_right _ hmem)
      rcases List.append_eq_append_iff.1 heq with ⟨w, hw, hrest⟩ | ⟨w, hw, hrest⟩
      · cases w with
        | nil => cases hrest
        | cons d w =>
          obtain rfl := (List.cons.inj hrest).1
          exact absurd (hblanks _ (hw ▸ List.mem_append_right _ List.mem_cons_self)) (by decide)
      · cases w with
        | nil => cases hrest
        | cons d w =>
          obtain rfl := (List.cons.inj hrest).1
          exact absurd (hw ▸ List.mem_append_right _ List.mem_cons_self) hdot
    · rfl
  · rfl

/-- A scan that copies what holds no access copies the front of a method. -/
theorem State.opens_of_step (word : List Char) (scan : Option Char → List Char → List Char)
    (hscan : ∀ before c s, behindDot? word (c :: s) = none →
      scan before (c :: s) = c :: scan (some c) s) (hword : '(' ∉ word) (hfront : '.' ∉ front)
    (h : Opens front s) (before : Option Char) : Opens front (scan before s) := by
  induction front generalizing before s with
  | nil =>
    obtain ⟨rest, rfl⟩ := h
    rw [List.nil_append, hscan _ _ _ (behindDot?_of_opens hword hfront ⟨rest, rfl⟩)]
    exact ⟨_, rfl⟩
  | cons c front ih =>
    have hnone := behindDot?_of_opens hword hfront h
    obtain ⟨rest, rfl⟩ := h
    rw [List.cons_append] at hnone ⊢
    rw [hscan _ _ _ hnone]
    exact .cons c (ih (fun hmem => hfront (List.mem_cons_of_mem _ hmem)) ⟨rest, rfl⟩ _)

theorem State.strip_opens (hfront : '.' ∉ front) (h : Opens front code.toList) :
    Opens front (strip "state" code).toList := by
  rw [strip, String.toList_ofList]
  refine opens_of_step "state".toList (fun before => stripFrom "state".toList before 0) ?_
    (by decide) hfront h none
  intro before c s hnone
  simp only [stripFrom, accessLength?, hnone, Option.map_none, ite_self]

/-- Calling getters keeps the front of a method. -/
theorem State.callGetters_opens {names : List String} {new : Json} (hfront : '.' ∉ front)
    (h : Opens front code.toList) (hnew : callGetters names (.str code) = .ok new) :
    ∃ text : String, new = .str text ∧ Opens front text.toList := by
  induction names generalizing code with
  | nil => exact ⟨code, (Except.ok.inj hnew).symm, h⟩
  | cons name names ih =>
    obtain ⟨called, hcall, hrest⟩ := bind_eq_ok.1 hnew
    obtain ⟨template, -, hcall⟩ := bind_eq_ok.1 hcall
    obtain rfl := Except.ok.inj hcall
    refine ih ?_ hrest
    rw [String.toList_ofList]
    refine opens_of_step "state".toList (fun before => callFrom name.toList template before 0) ?_
      (by decide) hfront h none
    intro before c s hnone
    simp only [callFrom, readLength?, hnone, Option.bind_none, ite_self]

/-! ## Handles in fronts -/

/-- Fronts that hold no dot and no handle, where handles hold no parenthesis. -/
structure SparedFront (refs : List String) (front : List Char) : Prop where
  dot : '.' ∉ front
  paren : ∀ ref ∈ refs, '(' ∉ ref.toList
  handles : ∀ ref ∈ refs, Text.occurs ref.toList front = false

/-- Whether a change of codes keeps the fronts that hold no dot and no handle. -/
def KeepsFronts (refs : List String) (f : Json → Outcome Json) : Prop :=
  ∀ {front : List Char} {code : String} {new : Json}, SparedFront refs front →
    Opens front code.toList → f (.str code) = .ok new →
      ∃ text : String, new = .str text ∧ Opens front text.toList

theorem State.keepsFronts_callGetters (refs names : List String) :
    KeepsFronts refs (callGetters names) := fun hspared => callGetters_opens hspared.dot

theorem Script.splice_opens {es : List Edit} (h : Opens front s)
    (hes : ∀ e ∈ es, front.length < e.start) : Opens front (splice s es) := by
  cases es with
  | nil => exact h
  | cons e es =>
    obtain ⟨rest, rfl⟩ := h
    obtain ⟨n, hn⟩ := Nat.exists_eq_add_of_lt (hes e List.mem_cons_self)
    rw [splice, spliceFrom, Nat.sub_zero, hn, Nat.add_assoc, List.take_length_add_append,
      List.take_succ_cons, List.append_assoc, List.append_assoc, List.cons_append]
    exact ⟨_, rfl⟩

theorem occurs_of_opens {name : List Char} {i : Nat} (h : Opens front s)
    (hname : (s.drop i).take name.length = name) (hparen : '(' ∉ name) (hi : i ≤ front.length) :
    Text.occurs name front = true := by
  obtain ⟨rest, rfl⟩ := h
  rw [List.drop_append_of_le_length hi] at hname
  have hle : name.length ≤ (front.drop i).length := by
    by_contra hlt
    rw [List.take_append] at hname
    obtain ⟨n, hn⟩ := Nat.exists_eq_add_of_lt (Nat.lt_of_not_le hlt)
    rw [hn, Nat.add_assoc, Nat.add_sub_cancel_left, List.take_succ_cons] at hname
    exact hparen (hname ▸ List.mem_append_right _ List.mem_cons_self)
  rw [List.take_append_of_le_length hle] at hname
  rw [← List.take_append_drop i front, ← List.take_append_drop name.length (front.drop i), hname]
  exact Text.occurs_append _ _ _

/-- Renaming keeps the front of a method that mentions no handle. -/
theorem Code.keepsFronts_rename (refs : List String) :
    KeepsFronts refs (rename refs currentElement) := by
  intro front code new hspared h hnew
  cases hparse : Script.Fragment.parse? code.toList with
  | none =>
    rcases rename_of_unreadable refs hparse with hsame | herror
    · exact ⟨code, Except.ok.inj (hnew.symm.trans hsame), h⟩
    · cases hnew.symm.trans herror
  | some f =>
    rw [rename_of_parse hparse] at hnew
    refine ⟨_, (Except.ok.inj hnew).symm, ?_⟩
    rw [String.toList_ofList]
    refine Script.splice_opens h ?_
    intro e he
    obtain ⟨o, ho, rfl⟩ := List.mem_map.1 he
    obtain ⟨hmem, hnamed⟩ := List.mem_filter.1 ho
    have hsite := (Script.Tree.mem_sites_of_mem_occurrences hmem).1
    have htext := Script.Fragment.text_of_owns hparse hsite
      (Script.Fragment.owns_of_mem_occurrences hparse hmem)
    have hparen := hspared.paren _ (List.contains_iff_mem.1 hnamed)
    have habsent := hspared.handles _ (List.contains_iff_mem.1 hnamed)
    rw [String.toList_ofList] at hparen habsent
    by_contra hle
    rw [Script.Occurrence.name, occurs_of_opens h htext hparen (Nat.le_of_not_lt hle)] at habsent
    cases habsent

/-! ## Values -/

namespace State

/-- The code of a method. -/
def method? (value : Json) : Option String :=
  match Value.ofJson value with
  | .code .method code => some code
  | _ => none

/-- What a preparation keeps of a value of the state: whether it is a method, and the front of a
method if it holds no dot and no handle. -/
structure KeepsFront (refs : List String) (value value' : Json) : Prop where
  isSome : (method? value').isSome = (method? value).isSome
  front : ∀ {front : List Char} {code : String}, SparedFront refs front →
    method? value = some code → Opens front code.toList →
      ∃ code', method? value' = some code' ∧ Opens front code'.toList

theorem KeepsFront.refl (refs : List String) (value : Json) : KeepsFront refs value value :=
  ⟨rfl, fun _ hcode hopens => ⟨_, hcode, hopens⟩⟩

theorem KeepsFront.trans {refs : List String} {v v' v'' : Json} (h : KeepsFront refs v v')
    (h' : KeepsFront refs v' v'') : KeepsFront refs v v'' := by
  refine ⟨h'.isSome.trans h.isSome, ?_⟩
  intro front code hspared hcode hopens
  obtain ⟨code', hcode', hopens'⟩ := h.front hspared hcode hopens
  exact h'.front hspared hcode' hopens'

/-- A change of codes that keeps fronts keeps those of tagged values. -/
theorem keepsFront_of_mapCode {refs : List String} {value value' : Json} (hf : KeepsFronts refs f)
    (h : Value.mapCode f value = .ok value') : KeepsFront refs value value' := by
  unfold Value.mapCode at h
  cases hvalue : Value.ofJson value with
  | data data =>
    rw [hvalue] at h
    obtain rfl := Except.ok.inj h
    rw [eq_of_ofJson_eq_data hvalue]
    exact .refl refs value
  | code tag code =>
    rw [hvalue] at h
    obtain ⟨new, hnew, rfl⟩ := map_eq_ok.1 h
    cases tag with
    | function =>
      have hnone : method? value = none := by rw [method?, hvalue]
      refine ⟨by rw [method?, ofJson_text, hnone], ?_⟩
      intro front code' hspared hcode
      rw [hnone] at hcode
      cases hcode
    | method =>
      have hsome : method? value = some code := by rw [method?, hvalue]
      refine ⟨by rw [method?, ofJson_text, hsome]; rfl, ?_⟩
      intro front code' hspared hcode hopens
      obtain rfl := Option.some.inj (hsome.symm.trans hcode)
      obtain ⟨text, rfl, htext⟩ := hf hspared hopens hnew
      exact ⟨text, by rw [method?, Json.asText, ofJson_text], htext⟩

/-- What a preparation keeps of a field of the state. -/
def KeepsField (refs : List String) (field field' : Json × Json) : Prop :=
  field.1 = field'.1 ∧ KeepsFront refs field.2 field'.2

end State

/-! ## Preparations -/

namespace Component

/-- Whether a component has the fields of another one, up to changes of their codes that keep the
fronts of methods. -/
def KeepsFields (refs : List String) (c c' : Component) : Prop :=
  List.Forall₂ (State.KeepsField refs) c.state c'.state

variable {c c' c'' : Component} {refs : List String}

theorem KeepsFields.of_state_eq (h : c'.state = c.state) : KeepsFields refs c c' := by
  rw [KeepsFields, h]
  exact List.forall₂_same.2 fun field _ => ⟨rfl, .refl refs field.2⟩

theorem KeepsFields.trans (h : KeepsFields refs c c') (h' : KeepsFields refs c' c'') :
    KeepsFields refs c c'' := by
  refine forall₂_trans ?_ h h'
  intro f f' f'' hf hf'
  exact ⟨hf.1.trans hf'.1, hf.2.trans hf'.2⟩

theorem KeepsFields.of_passed {spared : Json → Bool} (hf : KeepsFronts refs f)
    (h : Passed f spared c c') : KeepsFields refs c c' :=
  h.state.imp fun _ _ hfield => ⟨hfield.1, State.keepsFront_of_mapCode hf hfield.2⟩

theorem KeepsFields.of_passGetters (h : (State.passGetters c).toOutcome = .ok c') :
    KeepsFields refs c c' := by
  rcases passed_of_passGetters h with rfl | ⟨names, h⟩
  · exact .of_state_eq rfl
  · exact .of_passed (State.keepsFronts_callGetters refs names) h

theorem KeepsFields.of_mapRefs (h : (c.mapRefs currentElement).toOutcome = .ok c') :
    KeepsFields c.refs c c' := by
  rcases passed_of_mapRefs h with rfl | h
  · exact .of_state_eq rfl
  · exact .of_passed (Code.keepsFronts_rename c.refs) h

/-- **A preparation keeps the fields of the state**: their keys, which of them are methods, and the
fronts of those. -/
theorem KeepsFields.of_prepare {styles : StyleStrategy} {p : Prepared}
    (h : (prepare .useState styles c).outcome = .ok p) : KeepsFields p.refs c p.component := by
  obtain ⟨⟨set, mapped, hset, hmapped, hstyles, -, hrefs, -⟩⟩ := exists_preparation h
  obtain ⟨called, hcalled, hset⟩ := Progress.andThen_eq_ok.1 hset
  obtain ⟨⟨children, hchildren⟩, -⟩ := eq_of_prepareStyles hstyles
  have hsetters : KeepsFields set.refs called set := by
    obtain ⟨children, rfl, -⟩ := eq_of_passBindings hset
    exact .of_state_eq rfl
  have hkeeps : KeepsFields set.refs c mapped :=
    ((KeepsFields.of_passGetters hcalled).trans hsetters).trans (.of_mapRefs hmapped)
  rw [hrefs, hchildren]
  exact hkeeps

end Component

/-! ## Handles -/

theorem Fields.get?_of_forall₂ {R : Json → Json → Prop} {fields gs : Fields}
    (h : List.Forall₂ (fun x y => x.1 = y.1 ∧ R x.2 y.2) fields gs) (key : String) :
    Option.Rel R (fields.get? key) (gs.get? key) := by
  induction h with
  | nil => exact .none
  | cons hxy _ ih =>
    obtain ⟨hkey, hvalue⟩ := hxy
    rw [get?, get?, hkey]
    split
    · exact .some hvalue
    · exact ih

/-- Whether a node that declares a handle does so by a text without dots. -/
def Head.HasPlainRef (h : Head) : Prop :=
  ∀ value, h.bindings.get? refKey = some value → ∃ s : String, value = .str s ∧ '.' ∉ s.toList

/-- Whether the binding for a handle is the same in two nodes, if it is a text without dots. -/
def Head.KeepsRef (h h' : Head) : Prop :=
  h.HasPlainRef → h'.bindings.get? refKey = h.bindings.get? refKey

theorem Head.KeepsRef.trans {h h' h'' : Head} (hkeeps : h.KeepsRef h') (hkeeps' : h'.KeepsRef h'') :
    h.KeepsRef h'' := by
  intro hplain
  have heq := hkeeps hplain
  have hplain' : h'.HasPlainRef := by
    rw [HasPlainRef, heq]
    exact hplain
  exact (hkeeps' hplain').trans heq

theorem Head.KeepsRef.ref?_eq {h h' : Head} (hkeeps : h.KeepsRef h') (hplain : h.HasPlainRef) :
    h'.ref? = h.ref? := by
  rw [ref?, ref?, hkeeps hplain]

/-- A handle has no dot, so a pass that leaves such texts alone keeps it. -/
theorem Head.keepsRef_of_passed {f : Json → Json → Outcome Json} {head head' : Head}
    (hf : ∀ (key : Json) (s : String) (new : Json), '.' ∉ s.toList → f key (.str s) = .ok new →
      new = .str s) (h : head.Passed f head') : head.KeepsRef head' := by
  intro hplain
  have hrel := Fields.get?_of_forall₂ (R := fun v w => ∃ key, f key v = .ok w)
    (h.bindings.imp fun x y hxy => ⟨hxy.1, x.1, hxy.2⟩) refKey
  unfold Head.HasPlainRef at hplain
  generalize head.bindings.get? refKey = old at hrel hplain ⊢
  generalize head'.bindings.get? refKey = new at hrel ⊢
  cases hrel with
  | none => rfl
  | some hstep =>
    obtain ⟨key, hstep⟩ := hstep
    obtain ⟨s, rfl, hdot⟩ := hplain _ rfl
    rw [hf key s _ hdot hstep]

/-! ## Texts without dots -/

namespace State

open Script

theorem dot_mem_of_assignedField {t : Tree} (hw : WellShaped t)
    (h : (assignedField? t).isSome = true) : '.' ∈ t.text := by
  obtain ⟨field, hfield⟩ := Option.isSome_iff_exists.1 h
  obtain ⟨r, left, mid, right, rfl, hleft, -, hplace, -, -⟩ := assignment_of_field hw hfield
  obtain ⟨r', gap₁, dot, gap₂, rfl, -, hdot, -, -⟩ := member_of_field hleft hplace
  have hmem : '.' ∈ dot.text := by
    rcases hdot with rfl | rfl <;> simp
  simp [hmem]

/-- Without a dot there is no assignment to a field. -/
theorem assignedField?_of_not_mem {code : List Char} {f : Fragment} (h : '.' ∉ code)
    (hf : Fragment.parse? code = some f) {s : Site} (hs : s ∈ f.sites) :
    (assignedField? s.tree).isSome = false := by
  rw [Bool.eq_false_iff]
  intro hfield
  have hdot := dot_mem_of_assignedField (Fragment.wellShaped_of_mem_sites hf hs) hfield
  obtain ⟨a, b, htext, -⟩ := Tree.text_of_mem_sites hs
  have hmem : '.' ∈ f.lead ++ f.root.text := by
    rw [htext]
    simp [hdot]
  have hwrapper : ∀ w ∈ wrappers, '.' ∉ w.opening.toList ∧ '.' ∉ w.closing.toList := by decide
  obtain ⟨hopening, hclosing⟩ := hwrapper _ (Fragment.parseIn_eq_some hf).1
  rw [Fragment.text_of_parse? hf, List.mem_append, List.mem_append] at hmem
  rcases hmem with (hmem | hmem) | hmem
  · exact hopening hmem
  · exact h hmem
  · exact hclosing hmem

/-- So a code without a dot calls no setters. -/
theorem useSetters_of_not_mem {text : String} (h : '.' ∉ code.toList)
    (htext : useSetters (.str code) = .ok text) : text = code := by
  cases hparse : Fragment.parse? code.toList with
  | none =>
    rw [Code.useSetters_of_unreadable hparse] at htext
    cases htext
  | some f =>
    have hnone : ∀ {f : Fragment}, Fragment.parse? code.toList = some f → ∀ s ∈ f.sites,
        ¬(assignedField? s.tree).isSome := by
      intro f hf s hs
      rw [assignedField?_of_not_mem h hf hs]
      exact Bool.false_ne_true
    have howns : OwnsAssignments code := fun f hf s hs hfield => absurd hfield (hnone hf s hs)
    obtain ⟨-, -, hsplice⟩ := (rewritten_iff_owns htext).2 howns f hparse
    have hreplaced : f.replaced setters = [] := by
      rw [List.eq_nil_iff_forall_not_mem]
      intro s hs
      obtain ⟨hmem, hfield⟩ := isSome_of_mem_replaced hs
      exact hnone hparse s hmem hfield
    rw [Fragment.edits, hreplaced] at hsplice
    exact String.toList_inj.1 hsplice

end State

namespace Component

variable {c c' : Component}

theorem keepsRef_of_passGetters (h : (State.passGetters c).toOutcome = .ok c') :
    List.Forall₂ Head.KeepsRef c.heads c'.heads := by
  rcases passed_of_passGetters h with rfl | ⟨names, h⟩
  · exact List.forall₂_same.2 fun _ _ _ => rfl
  · exact h.heads.imp fun _ _ => Head.keepsRef_of_passed fun _ _ _ hdot hnew =>
      State.callGetters_of_not_mem hdot hnew

theorem keepsRef_of_passSetters (h : (State.passSetters c).toOutcome = .ok c') :
    List.Forall₂ Head.KeepsRef c.heads c'.heads := by
  obtain ⟨children, rfl, hheads⟩ := eq_of_passBindings h
  refine hheads.imp fun _ _ => Head.keepsRef_of_passed fun key s new hdot hnew => ?_
  obtain ⟨text, htext, rfl⟩ := map_eq_ok.1 hnew
  rw [State.useSetters_of_not_mem hdot htext]

theorem filterMap_ref?_of_keepsRef {hs hs' : List Head} (h : List.Forall₂ Head.KeepsRef hs hs')
    (hplain : ∀ head ∈ hs, head.HasPlainRef) :
    hs'.filterMap Head.ref? = hs.filterMap Head.ref? := by
  induction h with
  | nil => rfl
  | cons hkeeps _ ih =>
    obtain ⟨hhead, hrest⟩ := List.forall_mem_cons.1 hplain
    rw [List.filterMap_cons, List.filterMap_cons, hkeeps.ref?_eq hhead, ih hrest]

/-- **A preparation keeps handles**, if they are written without dots. -/
theorem refs_of_prepare {styles : StyleStrategy} {p : Prepared}
    (hplain : ∀ h ∈ c.heads, h.HasPlainRef) (h : (prepare .useState styles c).outcome = .ok p) :
    p.refs = c.refs := by
  obtain ⟨⟨set, mapped, hset, -, -, -, hrefs, -⟩⟩ := exists_preparation h
  obtain ⟨called, hcalled, hset⟩ := Progress.andThen_eq_ok.1 hset
  have hkeeps : List.Forall₂ Head.KeepsRef c.heads set.heads := by
    refine forall₂_trans ?_ (keepsRef_of_passGetters hcalled) (keepsRef_of_passSetters hset)
    intro h h' h'' hkeeps hkeeps'
    exact hkeeps.trans hkeeps'
  exact hrefs.trans (congrArg (addNew []) (filterMap_ref?_of_keepsRef hkeeps hplain))

end Component

end ReactWeave
