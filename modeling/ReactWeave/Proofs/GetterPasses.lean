import ReactWeave.Proofs.GetterCalls

/-!
# ReactWeave.Proofs.GetterPasses

**Calling getters is settled after one pass over a component, in any order of its
state.**

* `State.passGetters_settled` puts this together with what is known of texts.
-/

namespace ReactWeave

/-! ## Passes that are repeated -/

/-- A change of fields that changes nothing twice may be made twice. -/
theorem Fields.pass_pass {f : Json → Json → Outcome Json}
    (hf : ∀ key old new, f key old = .ok new → f key new = .ok new) (fields : Fields) :
    Fields.pass f (Fields.pass f fields).value = Fields.pass f fields := by
  induction fields with
  | nil => rfl
  | cons x fields ih =>
    obtain ⟨key, old⟩ := x
    rw [Fields.pass]
    cases hnew : f key old with
    | error e =>
      simp only
      rw [Fields.pass, hnew]
    | ok new =>
      simp only [Progress.map]
      rw [Fields.pass, hf key old new hnew]
      simp only [ih, Progress.map]

variable {g : Json → Json} {names : List String}

theorem Fields.pass_of_ok {f : Json → Json → Outcome Json}
    (h : ∀ key value, f key value = .ok (g value)) (fields : Fields) :
    Fields.pass f fields = .done (fields.map fun x => (x.1, g x.2)) := by
  induction fields with
  | nil => rfl
  | cons x fields ih =>
    obtain ⟨key, value⟩ := x
    rw [Fields.pass, h key value]
    simp only [ih]
    rfl

namespace Node

variable {f : Unit → Head → Progress (Unit × Head)}

mutual

/-- A change of nodes that changes nothing twice may be made twice. -/
theorem pass_pass (hf : ∀ h, f () (f () h).value.2 = f () h) :
    ∀ n : Node, (n.pass f ()).value.2.pass f () = n.pass f ()
  | ⟨head, children⟩ => by
    rw [pass]
    cases hfailure : (f () head).failure with
    | some e =>
      simp only
      rw [pass]
      simp only [hf, hfailure]
    | none =>
      simp only [Progress.map]
      rw [pass]
      simp only [hf, hfailure, Progress.map]
      rw [passAll_passAll hf children]

theorem passAll_passAll (hf : ∀ h, f () (f () h).value.2 = f () h) : ∀ ns : List Node,
    passAll f () (passAll f () ns).value.2 = passAll f () ns
  | [] => rfl
  | n :: ns => by
    rw [passAll]
    cases hfailure : (n.pass f ()).failure with
    | some e =>
      simp only
      rw [passAll]
      simp only [pass_pass hf n, hfailure]
    | none =>
      simp only [Progress.map]
      rw [passAll]
      simp only [pass_pass hf n, hfailure, Progress.map]
      rw [passAll_passAll hf ns]

end

end Node

theorem Progress.andThen_map {α : Type} {g : α → α} {k : α → Progress α} (p : Progress α)
    (h : ∀ a, k (g a) = (k a).map g) : (p.map g).andThen k = (p.andThen k).map g := by
  obtain ⟨value, failure⟩ := p
  cases failure with
  | none => exact h value
  | some e => rfl

namespace Component

variable {f : Json → Outcome Json} {spared : Json → Bool}

/-- Changes the codes of bindings and hooks. -/
def passOthers (f : Json → Outcome Json) (spared : Json → Bool) (c : Component) :
    Progress Component :=
  (c.passBindings fun key v => if spared key then .ok v else f v).andThen fun c => c.passHooks f

theorem passOthers_with_state (c : Component) (state : Fields) :
    ({ c with state } : Component).passOthers f spared =
      (c.passOthers f spared).map fun d => { d with state } := by
  have hhooks (c : Component) : ({ c with state } : Component).passHooks f =
      (c.passHooks f).map fun d => { d with state } := by
    rw [passHooks, passHooks]
    cases passHook f c.init with
    | error e => rfl
    | ok init => rfl
  exact Progress.andThen_map (c.passBindings fun key v => if spared key then .ok v else f v) hhooks

/-- If no state value can fail, a pass over codes is one over bindings and hooks. -/
theorem passCodes_eq_passOthers (hg : ∀ value, State.Value.mapCode f value = .ok (g value))
    (c : Component) :
    c.passCodes f spared = (c.passOthers f spared).map fun d =>
      { d with state := c.state.map fun x => (x.1, g x.2) } := by
  rw [← passOthers_with_state, passCodes, passState, Fields.pass_of_ok fun _ => hg]
  rfl

variable (hf : ∀ old new, f old = .ok new → f new = .ok new)

include hf

/-- A pass over hooks may be made twice, also where it stops half-way. -/
theorem passHooks_passHooks (c : Component) :
    (c.passHooks f).value.passHooks f = c.passHooks f := by
  have hhook {hook new : Json} (h : passHook f hook = .ok new) : passHook f new = .ok new := by
    unfold passHook at h ⊢
    split at h
    · split
      · exact hf hook new h
      · rfl
    · rename_i hfalse
      cases h
      rw [if_neg hfalse]
  cases hinit : passHook f c.init with
  | error e => simp [passHooks, hinit, Progress.ofOutcome, Progress.map, Progress.andThen]
  | ok init =>
    cases hmount : passHook f c.onMount with
    | error e =>
      simp [passHooks, hinit, hhook hinit, hmount, Progress.ofOutcome, Progress.map,
        Progress.andThen]
    | ok onMount =>
      simp [passHooks, hinit, hhook hinit, hmount, hhook hmount, Progress.ofOutcome,
        Progress.map, Progress.andThen]

/-- So may a pass over bindings. -/
theorem passBindings_passBindings (spared : Json → Bool) (c : Component) :
    ((c.passBindings fun key v => if spared key then .ok v else f v).value.passBindings
      fun key v => if spared key then .ok v else f v) =
        c.passBindings fun key v => if spared key then .ok v else f v := by
  have hbinding (key old new : Json) (h : (if spared key then .ok old else f old) = .ok new) :
      (if spared key then .ok new else f new) = Except.ok new := by
    split at h
    · rw [if_pos ‹_›]
    · rw [if_neg ‹_›]
      exact hf old new h
  simp only [passBindings, passHeads, Progress.map]
  rw [Node.passAll_passAll]
  intro h
  simp only [Fields.pass_pass hbinding]

/-- So may both together. -/
theorem passOthers_passOthers (c : Component) :
    (c.passOthers f spared).value.passOthers f spared = c.passOthers f spared := by
  have hbindings := passBindings_passBindings hf spared c
  have hhooks (d : Component) :
      ∃ init onMount, (d.passHooks f).value = { d with init, onMount } := by
    rw [passHooks]
    cases passHook f d.init with
    | error e => exact ⟨_, _, rfl⟩
    | ok init => exact ⟨_, _, rfl⟩
  generalize hp : (c.passBindings fun key v => if spared key then .ok v else f v) = p at hbindings
  obtain ⟨d, failure⟩ := p
  have hothers : c.passOthers f spared = Progress.andThen ⟨d, failure⟩ fun c => c.passHooks f := by
    rw [passOthers, hp]
  rw [hothers]
  cases failure with
  | some e =>
    simp only [Progress.andThen]
    rw [passOthers, hbindings]
    rfl
  | none =>
    obtain ⟨init, onMount, hvalue⟩ := hhooks d
    have hagain : ((d.passHooks f).value.passBindings
        fun key v => if spared key then .ok v else f v) = .done (d.passHooks f).value := by
      rw [hvalue]
      exact congrArg (Progress.map fun d => { d with init, onMount }) hbindings
    simp only [Progress.andThen]
    rw [passOthers, hagain]
    exact passHooks_passHooks hf d

/-- **A repeated pass changes nothing more**, if a repeated change of a code does not. -/
theorem passCodes_passCodes (hg : ∀ value, State.Value.mapCode f value = .ok (g value))
    (hgg : ∀ value, g (g value) = g value) (c : Component) :
    (c.passCodes f spared).value.passCodes f spared = c.passCodes f spared := by
  have hstate : (c.state.map fun x => (x.1, g x.2)).map (fun x => (x.1, g x.2)) =
      c.state.map fun x => (x.1, g x.2) := by
    rw [List.map_map]
    exact List.map_congr_left fun x _ => by rw [Function.comp_apply, hgg]
  rw [passCodes_eq_passOthers hg c, passCodes_eq_passOthers hg]
  simp only [Progress.map, hstate, passOthers_with_state, passOthers_passOthers hf c]

end Component

namespace State

/-! ## Getters -/

theorem namesOf_map (names : List String) : namesOf (names.map .str) = .ok names := by
  induction names with
  | nil => rfl
  | cons name names ih =>
    rw [List.map_cons, namesOf, ih]
    rfl

theorem exists_eq_map_str {keys : List Json} (h : ∀ key ∈ keys, ∃ name : String, key = .str name) :
    ∃ names : List String, keys = names.map .str := by
  induction keys with
  | nil => exact ⟨[], rfl⟩
  | cons key keys ih =>
    obtain ⟨⟨name, rfl⟩, hkeys⟩ := List.forall_mem_cons.1 h
    obtain ⟨names, rfl⟩ := ih hkeys
    exact ⟨name :: names, rfl⟩

theorem exists_callGetters (hnames : AreGetterNames names) (code : String) :
    ∃ text : String, callGetters names (.str code) = .ok (.str text) := by
  obtain ⟨ps, hps, hcut⟩ := exists_cut none code.toList
  exact ⟨_, callGetters_joined hnames hcut hps⟩

theorem keepsTexts_callGetters (hnames : AreGetterNames names) :
    KeepsTexts (callGetters names) := by
  intro code new h
  obtain ⟨text, htext⟩ := exists_callGetters hnames code
  exact ⟨text, Except.ok.inj (h.symm.trans htext)⟩

theorem callGetters_callGetters (hnames : AreGetterNames names) {old new : Json}
    (h : callGetters names old = .ok new) : callGetters names new = .ok new := by
  cases names with
  | nil => rfl
  | cons name names =>
    by_cases hstr : ∃ code, old = .str code
    · obtain ⟨code, rfl⟩ := hstr
      obtain ⟨text, rfl⟩ := keepsTexts_callGetters hnames code new h
      exact callGetters_of_unread hnames fun name hname => unread_of_callGetters hnames h hname
    · rw [callGetters_of_not_str (hnames _ List.mem_cons_self) fun code hcode =>
        hstr ⟨code, hcode⟩] at h
      cases h

/-- Calling getters gives every value another one, and the same when it is called again. -/
theorem exists_converted (hnames : AreGetterNames names) :
    ∃ g : Json → Json, (∀ value, Value.mapCode (callGetters names) value = .ok (g value)) ∧
      (∀ value, Recoded (callGetters names) value (g value)) ∧ ∀ value, g (g value) = g value := by
  have hkeeps := keepsTexts_callGetters hnames
  have htotal (value : Json) : ∃ new, Value.mapCode (callGetters names) value = .ok new := by
    unfold Value.mapCode
    cases Value.ofJson value with
    | data data => exact ⟨data, rfl⟩
    | code tag code =>
      obtain ⟨text, htext⟩ := exists_callGetters hnames code
      exact ⟨_, map_eq_ok.2 ⟨_, htext, rfl⟩⟩
  choose g hg using htotal
  have hrecoded (value : Json) : Recoded (callGetters names) value (g value) :=
    (mapCode_eq_ok_iff hkeeps).1 (hg value)
  refine ⟨g, hg, hrecoded, fun value => ?_⟩
  have hagain : Recoded (callGetters names) (g value) (g value) := by
    have h := hrecoded value
    generalize g value = new at h
    cases h with
    | code h => exact .code (callGetters_callGetters hnames h)
    | data h => exact .data h
  exact Except.ok.inj ((hg (g value)).symm.trans ((mapCode_eq_ok_iff hkeeps).2 hagain))

/-- Whether the getters of a state have these names, none of which is unusual. -/
structure HasGetters (state : Fields) (names : List String) : Prop where
  keys : getterKeys state = names.map .str
  good : AreGetterNames names

theorem HasGetters.of_perm {state state' : Fields} (h : HasGetters state names)
    (hperm : state'.Perm state) : ∃ names', HasGetters state' names' ∧ names'.Perm names := by
  have hkeys : (getterKeys state').Perm (names.map .str) := h.keys ▸ hperm.filterMap _
  obtain ⟨names', hnames'⟩ := exists_eq_map_str fun key hkey =>
    (List.mem_map.1 (hkeys.mem_iff.1 hkey)).imp fun _ hname => hname.2.symm
  rw [hnames', List.map_perm_map_iff fun _ _ => Json.str.inj] at hkeys
  exact ⟨names', ⟨hnames', fun name hname => h.good name (hkeys.mem_iff.1 hname)⟩, hkeys⟩

variable {c : Component} {names : List String}

/-- With getters the pass is one over all codes. -/
theorem HasGetters.passGetters_eq (h : HasGetters c.state names) :
    passGetters c = c.passCodes (callGetters names) fun _ => false := by
  rw [passGetters, h.keys, namesOf_map]
  cases names with
  | nil =>
    refine (Component.passCodes_eq_done (keepsTexts_callGetters h.good) ?_).symm
    exact .refl (fun _ _ => rfl) (fun _ _ _ _ _ => rfl) (fun _ => rfl) fun _ => rfl
  | cons name names => rfl

theorem HasGetters.passGetters_passGetters (h : HasGetters c.state names) :
    passGetters (passGetters c).value = passGetters c := by
  obtain ⟨g, hg, hrecoded, hgg⟩ := exists_converted h.good
  have hagain : HasGetters (passGetters c).value.state names := by
    refine ⟨?_, h.good⟩
    rw [h.passGetters_eq, Component.passCodes_eq_passOthers hg, ← h.keys]
    exact getterKeys_map h.good hrecoded c.state
  rw [hagain.passGetters_eq, h.passGetters_eq]
  exact Component.passCodes_passCodes (fun _ _ => callGetters_callGetters h.good) hg hgg c

theorem HasGetters.failure_passGetters (h : HasGetters c.state names) (hc : c.HasTexts) :
    (passGetters c).failure = none := by
  have hnever (code : String) :
      failure? (callGetters names (.str code)) = rejection (fun _ => false) [code] := by
    obtain ⟨text, htext⟩ := exists_callGetters h.good code
    rw [htext]
    rfl
  rw [h.passGetters_eq, Component.failure_passCodes hc hnever]
  simp [rejection]

theorem HasGetters.unread_passGetters (h : HasGetters c.state names)
    (hdone : (passGetters c).failure = none) {name : String} (hname : name ∈ names) :
    ∀ code ∈ (passGetters c).value.codes fun _ => false, Unread name.toList code.toList := by
  have hok := Progress.toOutcome_eq_ok.2 ⟨hdone, rfl⟩
  rw [h.passGetters_eq] at hok ⊢
  have hrecoded := (Component.passCodes_eq_ok_iff (keepsTexts_callGetters h.good)).1 hok
  exact hrecoded.forall_codes fun old new hnew => unread_of_callGetters h.good hnew hname

theorem HasGetters.passGetters_of_unread (h : HasGetters c.state names) (hc : c.HasTexts)
    (hunread : ∀ name ∈ names, ∀ code ∈ c.codes fun _ => false, Unread name.toList code.toList) :
    passGetters c = .done c := by
  have hcode (code : String) (hmem : code ∈ c.codes fun _ => false) :
      callGetters names (.str code) = .ok (.str code) :=
    callGetters_of_unread h.good fun name hname => hunread name hname code hmem
  rw [h.passGetters_eq]
  exact Component.passCodes_eq_done (keepsTexts_callGetters h.good) (.of_codes hc hcode)

/-- **Calling getters is settled after one pass, in any order.** Let the keys of the getters be
words other than `state`. Then a second pass changes nothing, wherever the first one ended. If the
codes are texts it went through, and it changes nothing if all reads of getters are calls. Once it
went through, they are. The order of the state has no effect on bindings, hooks or any single value
of the state, and data is never changed. -/
theorem passGetters_settled
    (hkeys : ∀ key ∈ getterKeys c.state, ∃ name : String, key = .str name ∧ IsGetterName name.toList) :
    passGetters (passGetters c).value = passGetters c ∧
      (c.HasTexts → (passGetters c).failure = none ∧
        ((∀ name : String, .str name ∈ getterKeys c.state → ∀ code ∈ c.codes fun _ => false,
          Unread name.toList code.toList) → (passGetters c).value = c)) ∧
      ((passGetters c).failure = none → ∀ name : String, .str name ∈ getterKeys c.state →
        ∀ code ∈ (passGetters c).value.codes fun _ => false, Unread name.toList code.toList) ∧
      ∃ g : Json → Json, (∀ value, tag? value = none → g value = value) ∧
        ∀ state : Fields, state.Perm c.state →
          passGetters { c with state } =
            ⟨{ (passGetters c).value with state := state.map fun x => (x.1, g x.2) },
              (passGetters c).failure⟩ := by
  obtain ⟨names, hnames⟩ := exists_eq_map_str fun key hkey => (hkeys key hkey).imp fun _ h => h.1
  have hmem (name : String) : .str name ∈ getterKeys c.state ↔ name ∈ names := by
    rw [hnames]
    exact List.mem_map_of_injective fun _ _ => Json.str.inj
  have h : HasGetters c.state names := by
    refine ⟨hnames, fun name hname => ?_⟩
    obtain ⟨name', heq, hgood⟩ := hkeys (.str name) ((hmem name).2 hname)
    cases heq
    exact hgood
  obtain ⟨g, hg, hrecoded, -⟩ := exists_converted h.good
  simp only [hmem]
  refine ⟨h.passGetters_passGetters, fun hc => ⟨h.failure_passGetters hc, fun hunread => ?_⟩,
    fun hdone name hname => h.unread_passGetters hdone hname, g, fun value hvalue => ?_,
    fun state hperm => ?_⟩
  · rw [h.passGetters_of_unread hc hunread]
    rfl
  · have hvalue' := hrecoded value
    generalize g value = new at hvalue'
    cases hvalue' with
    | code _ => rw [tag?_text] at hvalue; cases hvalue
    | data _ => rfl
  · obtain ⟨names', h', hnames'⟩ := h.of_perm hperm
    have h'' : HasGetters ({ c with state } : Component).state names' := h'
    rw [h''.passGetters_eq, callGetters_perm h.good hnames', h.passGetters_eq,
      Component.passCodes_eq_passOthers hg, Component.passCodes_eq_passOthers hg,
      Component.passOthers_with_state]
    rfl

/-- A component with two getters, one of which is named like the start of the other. -/
def nameCard : Component :=
  ⟨.str "NameCard",
    [(.str "full", .str "@jsx-lite/method:get full() \x7b return state . fullName \x7d"),
     (.str "fullName", .str "@jsx-lite/method:get fullName() \x7b return 'A' \x7d"),
     (.str "note", .str "state.full")],
    .str "state.full", .null, [],
    [⟨⟨.str "b", [], [(.str "title", .str "state.fullName + state.full()")]⟩, []⟩]⟩

theorem passGetters_settled_nameCard :
    getterKeys nameCard.state = [.str "full", .str "fullName"] ∧
      passGetters (passGetters nameCard).value = passGetters nameCard ∧
      (passGetters nameCard).failure = none ∧
      (∀ code ∈ (passGetters nameCard).value.codes fun _ => false,
        Unread "full".toList code.toList) ∧
      ∀ state : Fields, state.Perm nameCard.state →
        (passGetters { nameCard with state }).value.init = .str "state.full()" := by
  have hkeys : getterKeys nameCard.state = [.str "full", .str "fullName"] := by rfl
  have hgood : ∀ key ∈ getterKeys nameCard.state,
      ∃ name : String, key = .str name ∧ IsGetterName name.toList := by
    rw [hkeys]
    simp only [List.mem_cons, List.not_mem_nil, or_false]
    rintro key (rfl | rfl)
    · exact ⟨"full", rfl, by decide, by decide, by decide⟩
    · exact ⟨"fullName", rfl, by decide, by decide, by decide⟩
  have htexts : nameCard.HasTexts := by
    refine ⟨fun h hh b hb => ?_, .inr ⟨_, rfl⟩, .inl rfl⟩
    obtain rfl := List.mem_singleton.1 hh
    obtain rfl := List.mem_singleton.1 hb
    exact ⟨_, rfl⟩
  obtain ⟨hagain, hdone, hunread, g, -, hperm⟩ := passGetters_settled hgood
  refine ⟨hkeys, hagain, (hdone htexts).1, hunread (hdone htexts).1 "full" (by rw [hkeys]; simp), ?_⟩
  intro state hstate
  rw [hperm state hstate]
  rfl

end State

end ReactWeave
