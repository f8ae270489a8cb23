import ReactWeave.Proofs.KeptNames

/-!
# ReactWeave.Proofs.HandleUses

**Every use of a handle is replaced once, and nothing else changes.**

Replacing handles is not idempotent: what a use becomes mentions the handle
again. So it matters that each code of a component is rewritten exactly once, and
that the bindings which declare the handles are not rewritten at all.

* `Component.mapRefs_eq_ok_iff`: the pass gives a component exactly if each of its
  codes is the old one, renamed once, and all else is as before.
* `Component.mapRefs_exact`: and then it declares the handles that were replaced.
-/

namespace ReactWeave

/-! ## Passes over trees -/

theorem Fields.pass_eq_ok_iff {f : Json → Json → Outcome Json} {fields gs : Fields} :
    (Fields.pass f fields).toOutcome = .ok gs ↔
      List.Forall₂ (fun x y => x.1 = y.1 ∧ f x.1 x.2 = .ok y.2) fields gs := by
  refine ⟨Fields.forall₂_of_pass, fun h => ?_⟩
  induction h with
  | nil => rfl
  | @cons x y xs ys hxy _ ih =>
    obtain ⟨key, old⟩ := x
    obtain ⟨key', new⟩ := y
    obtain ⟨rfl, hnew⟩ : key = key' ∧ f key old = .ok new := hxy
    rw [Fields.pass, hnew]
    exact Progress.map_eq_ok.2 ⟨ys, ih, rfl⟩

namespace Node

variable {R : Head → Head → Prop}

mutual

theorem Matches.refl : ∀ {n : Node}, (∀ h ∈ n.heads, R h h) → Matches R n n
  | ⟨head, children⟩, hrefl => by
    rw [heads, List.forall_mem_cons] at hrefl
    exact .node hrefl.1 (MatchesAll.refl hrefl.2)

theorem MatchesAll.refl : ∀ {ns : List Node}, (∀ h ∈ headsOf ns, R h h) → MatchesAll R ns ns
  | [], _ => .nil
  | n :: ns, hrefl => by
    rw [headsOf, List.forall_mem_append] at hrefl
    exact .cons (Matches.refl hrefl.1) (MatchesAll.refl hrefl.2)

end

variable {f : Unit → Head → Progress (Unit × Head)}

mutual

theorem Matches.pass_eq : ∀ {n m : Node},
    Matches (fun h h' => (f () h).toOutcome = .ok ((), h')) n m →
      (n.pass f ()).toOutcome = .ok ((), m)
  | ⟨head, children⟩, _, .node hhead hchildren => by
    obtain ⟨hnone, hvalue⟩ := Progress.toOutcome_eq_ok.1 hhead
    rw [pass]
    simp only [hnone, hvalue]
    exact Progress.map_eq_ok.2 ⟨_, hchildren.passAll_eq, rfl⟩

theorem MatchesAll.passAll_eq : ∀ {ns ms : List Node},
    MatchesAll (fun h h' => (f () h).toOutcome = .ok ((), h')) ns ms →
      (passAll f () ns).toOutcome = .ok ((), ms)
  | _, _, .nil => rfl
  | n :: ns, _, .cons hfirst hrest => by
    obtain ⟨hnone, hvalue⟩ := Progress.toOutcome_eq_ok.1 hfirst.pass_eq
    rw [passAll]
    simp only [hnone, hvalue]
    exact Progress.map_eq_ok.2 ⟨_, hrest.passAll_eq, rfl⟩

end

theorem passAll_eq_ok_iff {ns ms : List Node} : (passAll f () ns).toOutcome = .ok ((), ms) ↔
    MatchesAll (fun h h' => (f () h).toOutcome = .ok ((), h')) ns ms := by
  refine ⟨fun h => (matchesAll_of_passAll h).imp ?_, MatchesAll.passAll_eq⟩
  rintro head head' ⟨⟨⟩, ⟨⟩, hstep⟩
  exact hstep

end Node

/-! ## Components with other codes -/

namespace State

/-- A value of the state after a change of its code: a tagged value keeps its tag, and data stays as
it is. -/
inductive Recoded (f : Json → Outcome Json) : Json → Json → Prop where
  | code {tag : Tag} {old new : String} (h : f (.str old) = .ok (.str new)) :
      Recoded f (.str (tag.text ++ old)) (.str (tag.text ++ new))
  | data {value : Json} (h : tag? value = none) : Recoded f value value

/-- A tagged value is its tag and its code. -/
theorem eq_text_of_ofJson {value : Json} {tag : Tag} {code : String}
    (h : Value.ofJson value = .code tag code) : value = .str (tag.text ++ code) := by
  have hcut {w s : String} (hstart : Text.hasStart w s = true) :
      s = w ++ Text.dropChars w.length s := by
    obtain ⟨rest, hrest⟩ := Text.startsWith_iff.1 hstart
    rw [← String.toList_inj, String.toList_append, Text.dropChars, String.toList_ofList, hrest,
      ← String.length_toList, List.drop_left]
  unfold Value.ofJson at h
  split at h
  · rename_i s
    split at h
    · rename_i hstart
      cases h
      exact congrArg Json.str (hcut hstart)
    · split at h
      · rename_i hstart
        cases h
        exact congrArg Json.str (hcut hstart)
      · cases h
  · cases h

/-- What changing the code of a value gives, said without running it. -/
theorem mapCode_eq_ok_iff {f : Json → Outcome Json} (hf : KeepsTexts f) {value new : Json} :
    Value.mapCode f value = .ok new ↔ Recoded f value new := by
  constructor
  · intro h
    unfold Value.mapCode at h
    cases hvalue : Value.ofJson value with
    | code tag code =>
      rw [hvalue] at h
      obtain ⟨changed, hchanged, rfl⟩ := map_eq_ok.1 h
      obtain ⟨text, rfl⟩ := hf code changed hchanged
      rw [eq_text_of_ofJson hvalue]
      exact .code hchanged
    | data data =>
      rw [hvalue] at h
      obtain rfl := Except.ok.inj h
      rw [eq_of_ofJson_eq_data hvalue]
      exact .data (by rw [tag?, hvalue])
  · intro h
    cases h with
    | code h =>
      unfold Value.mapCode
      rw [ofJson_text]
      exact map_eq_ok.2 ⟨_, h, rfl⟩
    | data h =>
      unfold tag? at h
      unfold Value.mapCode
      cases hvalue : Value.ofJson value with
      | code tag code => simp [hvalue] at h
      | data data => rw [eq_of_ofJson_eq_data hvalue]

end State

/-- A node after a change of the codes of its bindings, those with spared keys excepted. -/
structure Head.Recoded (f : Json → Outcome Json) (spared : Json → Bool) (h h' : Head) : Prop where
  name : h'.name = h.name
  properties : h'.properties = h.properties
  bindings : List.Forall₂ (fun x y => x.1 = y.1 ∧ if spared x.1 then y.2 = x.2 else f x.2 = .ok y.2)
    h.bindings h'.bindings

/-- A hook after a change of its code, if it has one. -/
def HookRecoded (f : Json → Outcome Json) (hook new : Json) : Prop :=
  if hook.truthy then f hook = .ok new else new = hook

namespace Component

/-- A component after a change of its codes, bindings with spared keys excepted. Names, imports,
properties, data in the state, the shape of the tree and the order of all tables are the same. -/
structure Recoded (f : Json → Outcome Json) (spared : Json → Bool) (c c' : Component) : Prop where
  name : c'.name = c.name
  imports : c'.imports = c.imports
  state : List.Forall₂ (fun x y => x.1 = y.1 ∧ State.Recoded f x.2 y.2) c.state c'.state
  children : Node.MatchesAll (Head.Recoded f spared) c.children c'.children
  init : HookRecoded f c.init c'.init
  onMount : HookRecoded f c.onMount c'.onMount

variable {c c' : Component} {f : Json → Outcome Json} {spared : Json → Bool}

theorem passState_eq_ok_iff (hf : KeepsTexts f) :
    (c.passState fun _ v => State.Value.mapCode f v).toOutcome = .ok c' ↔
      ∃ state, c' = { c with state } ∧
        List.Forall₂ (fun x y => x.1 = y.1 ∧ State.Recoded f x.2 y.2) c.state state := by
  simp only [passState, Progress.map_eq_ok, Fields.pass_eq_ok_iff, State.mapCode_eq_ok_iff hf]
  exact exists_congr fun state => ⟨fun h => ⟨h.2.symm, h.1⟩, fun h => ⟨h.2, h.1.symm⟩⟩

/-- What a pass over bindings gives: the same tree with each binding changed on its own. -/
theorem passBindings_eq_ok_iff :
    (c.passBindings fun key v => if spared key then .ok v else f v).toOutcome = .ok c' ↔
      ∃ children, c' = { c with children } ∧
        Node.MatchesAll (Head.Recoded f spared) c.children children := by
  have hstep (h h' : Head) :
      ((h.bindings.pass fun key v => if spared key then .ok v else f v).map
        fun bs => ((), { h with bindings := bs })).toOutcome = .ok ((), h') ↔
      h.Recoded f spared h' := by
    have hcode (key old new : Json) : (if spared key then .ok old else f old) = .ok new ↔
        if spared key then new = old else f old = .ok new := by
      split
      · rw [Except.ok.injEq, eq_comm]
      · rfl
    simp only [Progress.map_eq_ok, Fields.pass_eq_ok_iff, hcode]
    constructor
    · rintro ⟨bindings, hbindings, heq⟩
      cases heq
      exact ⟨rfl, rfl, hbindings⟩
    · rintro ⟨hname, hproperties, hbindings⟩
      obtain ⟨name, properties, bindings⟩ := h'
      obtain rfl : name = h.name := hname
      obtain rfl : properties = h.properties := hproperties
      exact ⟨bindings, hbindings, rfl⟩
  simp only [passBindings, passHeads, Progress.map_eq_ok]
  constructor
  · rintro ⟨-, ⟨⟨u, children⟩, hpass, rfl⟩, rfl⟩
    exact ⟨children, rfl, (Node.passAll_eq_ok_iff.1 hpass).imp fun h h' => (hstep h h').1⟩
  · rintro ⟨children, rfl, hmatches⟩
    exact ⟨((), _), ⟨((), children),
      Node.passAll_eq_ok_iff.2 (hmatches.imp fun h h' => (hstep h h').2), rfl⟩, rfl⟩

theorem passHooks_eq_ok_iff :
    (c.passHooks f).toOutcome = .ok c' ↔
      ∃ init onMount, c' = { c with init, onMount } ∧ HookRecoded f c.init init ∧
        HookRecoded f c.onMount onMount := by
  have hhook (hook new : Json) : passHook f hook = .ok new ↔ HookRecoded f hook new := by
    unfold passHook HookRecoded
    split
    · rfl
    · rw [Except.ok.injEq, eq_comm]
  simp only [passHooks, Progress.andThen_eq_ok, Progress.map_eq_ok, Progress.ofOutcome_eq_ok, hhook]
  constructor
  · rintro ⟨-, ⟨init, hinit, rfl⟩, onMount, hmount, rfl⟩
    exact ⟨init, onMount, rfl, hinit, hmount⟩
  · rintro ⟨init, onMount, rfl, hinit, hmount⟩
    exact ⟨_, ⟨init, hinit, rfl⟩, onMount, hmount, rfl⟩

/-- **A pass over all codes changes each of them once and nothing else**, and it goes through
exactly if each code can be changed. -/
theorem passCodes_eq_ok_iff (hf : KeepsTexts f) :
    (c.passCodes f spared).toOutcome = .ok c' ↔ c.Recoded f spared c' := by
  simp only [passCodes, Progress.andThen_eq_ok, passState_eq_ok_iff hf, passBindings_eq_ok_iff,
    passHooks_eq_ok_iff]
  constructor
  · rintro ⟨-, ⟨-, ⟨state, rfl, hstate⟩, children, rfl, hchildren⟩, init, onMount, rfl, hinit,
      hmount⟩
    exact ⟨rfl, rfl, hstate, hchildren, hinit, hmount⟩
  · intro h
    obtain ⟨name, state, init, onMount, imports, children⟩ := c'
    obtain rfl : name = c.name := h.name
    obtain rfl : imports = c.imports := h.imports
    exact ⟨_, ⟨_, ⟨state, rfl, h.state⟩, children, rfl, h.children⟩, init, onMount, rfl, h.init,
      h.onMount⟩

/-- A change that leaves all codes alone leaves the component alone. -/
theorem Recoded.refl
    (hstate : ∀ code ∈ State.taggedCodes c, f (.str code) = .ok (.str code))
    (hbindings : ∀ h ∈ c.heads, ∀ b ∈ h.bindings, spared b.1 = false → f b.2 = .ok b.2)
    (hinit : c.init.truthy = true → f c.init = .ok c.init)
    (hmount : c.onMount.truthy = true → f c.onMount = .ok c.onMount) : c.Recoded f spared c := by
  have hhook {hook : Json} (h : hook.truthy = true → f hook = .ok hook) :
      HookRecoded f hook hook := by
    unfold HookRecoded
    split
    · exact h ‹_›
    · rfl
  refine ⟨rfl, rfl, List.forall₂_same.2 fun x hx => ⟨rfl, ?_⟩, Node.MatchesAll.refl fun h hh =>
    ⟨rfl, rfl, List.forall₂_same.2 fun b hb => ⟨rfl, ?_⟩⟩, hhook hinit, hhook hmount⟩
  · cases hvalue : State.Value.ofJson x.2 with
    | code tag code =>
      rw [State.eq_text_of_ofJson hvalue]
      exact .code (hstate code (List.mem_filterMap.2 ⟨x, hx, by rw [hvalue]⟩))
    | data _ => exact .data (by rw [State.tag?, hvalue])
  · split
    · rfl
    · exact hbindings h hh b hb (Bool.eq_false_iff.2 ‹_›)

theorem Recoded.of_codes (hc : c.HasTexts)
    (hcodes : ∀ code ∈ c.codes spared, f (.str code) = .ok (.str code)) : c.Recoded f spared c := by
  simp only [codes, List.mem_append] at hcodes
  have hhook {hook : Json} (hhook : hook = .null ∨ ∃ code : String, hook = .str code)
      (hcode : ∀ code ∈ State.hookCodes hook, f (.str code) = .ok (.str code))
      (htruthy : hook.truthy = true) : f hook = .ok hook := by
    rcases hhook with rfl | ⟨code, rfl⟩
    · cases htruthy
    · refine hcode code ?_
      rw [State.hookCodes, if_pos htruthy]
      exact List.mem_singleton_self _
  refine .refl (fun code hcode => hcodes code (.inl (.inl hcode))) (fun h hh b hb hspared => ?_)
    (hhook hc.init fun code hcode => hcodes code (.inr (.inl hcode)))
    (hhook hc.onMount fun code hcode => hcodes code (.inr (.inr hcode)))
  obtain ⟨code, hcode⟩ := hc.bindings h hh b hb
  rw [hcode]
  refine hcodes code (.inl (.inr (List.mem_flatMap.2 ⟨h, hh, List.mem_flatMap.2 ⟨b, hb, ?_⟩⟩)))
  rw [hspared, hcode]
  exact List.mem_singleton_self _

theorem passCodes_eq_done (hf : KeepsTexts f) (h : c.Recoded f spared c) :
    c.passCodes f spared = .done c := by
  obtain ⟨hfailure, hvalue⟩ := Progress.toOutcome_eq_ok.1 ((passCodes_eq_ok_iff hf).2 h)
  generalize c.passCodes f spared = p at hfailure hvalue
  obtain ⟨value, failure⟩ := p
  obtain rfl : failure = none := hfailure
  obtain rfl : value = c := hvalue
  rfl

/-- What holds of every changed code holds of all codes afterwards. -/
theorem Recoded.forall_codes {P : String → Prop} (h : c.Recoded f spared c')
    (hP : ∀ old new, f old = .ok new → P new.asText) : ∀ code ∈ c'.codes spared, P code := by
  have hhook : ∀ {hook new : Json}, HookRecoded f hook new → ∀ code ∈ State.hookCodes new,
      P code := by
    intro hook new hnew code hcode
    unfold HookRecoded at hnew
    unfold State.hookCodes at hcode
    split at hnew
    · split at hcode
      · rw [List.mem_singleton.1 hcode]
        exact hP hook new hnew
      · cases hcode
    · rename_i hfalse
      rw [hnew, if_neg hfalse] at hcode
      cases hcode
  simp only [codes, List.mem_append]
  rintro code ((hcode | hcode) | hcode | hcode)
  · obtain ⟨field, hfield, hcode⟩ := List.mem_filterMap.1 hcode
    obtain ⟨⟨key, old⟩, -, -, hrecoded⟩ := exists_mem_of_forall₂ h.state hfield
    generalize field.2 = value at hcode hrecoded
    cases hrecoded with
    | code hnew =>
      rw [State.ofJson_text] at hcode
      cases hcode
      exact hP _ _ hnew
    | data hnone =>
      unfold State.tag? at hnone
      split at hcode
      · rename_i hvalue
        simp [hvalue] at hnone
      · cases hcode
  · obtain ⟨head, hhead, hcode⟩ := List.mem_flatMap.1 hcode
    obtain ⟨binding, hbinding, hcode⟩ := List.mem_flatMap.1 hcode
    obtain ⟨old, -, hrecoded⟩ := exists_mem_of_forall₂ h.children.forall₂_heads hhead
    obtain ⟨⟨key, value⟩, -, hkey, hvalue⟩ := exists_mem_of_forall₂ hrecoded.bindings hbinding
    rw [← hkey] at hcode
    split at hcode
    · cases hcode
    · rename_i hspared
      rw [if_neg hspared] at hvalue
      rw [List.mem_singleton.1 hcode]
      exact hP _ _ hvalue
  · exact hhook h.init code hcode
  · exact hhook h.onMount code hcode

/-! ## Handles -/

/-- Collecting names one by one keeps each where it is first seen. -/
theorem addNew_eq_eraseDups (names more : List String) :
    addNew names more = names ++ (more.filter fun name => !names.contains name).eraseDups := by
  induction more generalizing names with
  | nil => simp [addNew]
  | cons name more ih =>
    rw [addNew, ih]
    cases hmem : names.contains name with
    | true =>
      rw [if_pos rfl, List.filter_cons_of_neg (by rw [hmem]; exact Bool.false_ne_true)]
    | false =>
      have hfilter : (more.filter fun n => !(names ++ [name]).contains n) =
          (more.filter fun n => !names.contains n).filter fun n => !(n == name) := by
        rw [List.filter_filter]
        congr 1
        funext n
        simp [Bool.and_comm, beq_eq_decide]
      simp only [Bool.false_eq_true, if_false, hfilter, hmem, Bool.not_false,
        List.filter_cons_of_pos, List.eraseDups_cons, List.append_assoc, List.singleton_append]

theorem refs_eq_eraseDups (c : Component) : c.refs = (c.heads.filterMap Head.ref?).eraseDups := by
  simp [refs, addNew_eq_eraseDups]

/-- Handles are declared by bindings that are spared, so they stay. -/
theorem refs_of_recoded (h : c.Recoded f (Fields.isKey refKey) c') : c'.refs = c.refs := by
  have hheads : List.Forall₂ (fun h h' : Head => h.ref? = h'.ref?) c.heads c'.heads := by
    refine h.children.forall₂_heads.imp fun head head' hhead => ?_
    have hget : ∀ {xs ys : Fields},
        List.Forall₂ (fun x y => x.1 = y.1 ∧
          if Fields.isKey refKey x.1 then y.2 = x.2 else f x.2 = .ok y.2) xs ys →
        xs.get? refKey = ys.get? refKey := by
      intro xs ys hxys
      induction hxys with
      | nil => rfl
      | @cons x y xs ys hxy _ ih =>
        obtain ⟨hkey, hvalue⟩ := hxy
        rw [Fields.get?, Fields.get?, ← hkey]
        split at hvalue
        · rename_i href
          rw [if_pos href, if_pos href, hvalue]
        · rename_i hother
          rw [if_neg hother, if_neg hother, ih]
    rw [Head.ref?, Head.ref?, hget hhead.bindings]
  have hrefs : List.Forall₂ Eq (c.heads.map Head.ref?) (c'.heads.map Head.ref?) := by
    rwa [List.forall₂_map_left_iff, List.forall₂_map_right_iff]
  rw [List.forall₂_eq_eq_eq] at hrefs
  have hdeclared (hs : List Head) : hs.filterMap Head.ref? = (hs.map Head.ref?).filterMap id := by
    rw [List.filterMap_map]
    rfl
  rw [refs, refs, hdeclared, hdeclared, hrefs]

/-- **What replacing handles gives**: every code renamed once and all else kept. -/
theorem mapRefs_eq_ok_iff (mapper : String → String) :
    (c.mapRefs mapper).toOutcome = .ok c' ↔
      c.Recoded (Code.rename c.refs mapper) (Fields.isKey refKey) c' := by
  rw [← passCodes_eq_ok_iff (keepsTexts_rename _ _), mapRefs]
  split
  · -- without handles the pass is not run: it would change nothing
    rename_i hrefs
    have hrefl : c.Recoded (Code.rename [] mapper) (Fields.isKey refKey) c :=
      .refl (fun _ _ => rfl) (fun _ _ _ _ _ => rfl) (fun _ => rfl) fun _ => rfl
    rw [List.isEmpty_iff.1 hrefs, (passCodes_eq_ok_iff (keepsTexts_rename _ _)).2 hrefl]
    rfl
  · rfl

/-- **Every use of a handle is replaced once, and nothing else changes.** The handles of a component
are the names that its nodes declare, each where it is first seen. What the replacement gives is the
component with every code renamed once: the codes of tagged values behind their tags, the bindings
that declare no handle, and the hooks that are there. All else is as before, and the declared
handles are those that were replaced. If there is such a component, the replacement goes through. -/
theorem mapRefs_exact (c : Component) (mapper : String → String) :
    c.refs = (c.heads.filterMap Head.ref?).eraseDups ∧
      ∀ c', (c.mapRefs mapper).toOutcome = .ok c' ↔
        c.Recoded (Code.rename c.refs mapper) (Fields.isKey refKey) c' ∧ c'.refs = c.refs := by
  refine ⟨refs_eq_eraseDups c, fun c' => ?_⟩
  rw [mapRefs_eq_ok_iff]
  exact ⟨fun h => ⟨h, refs_of_recoded h⟩, And.left⟩

end Component

end ReactWeave
