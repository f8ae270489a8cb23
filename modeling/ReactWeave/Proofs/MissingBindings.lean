import ReactWeave.Proofs.FirstFailure

/-!
# ReactWeave.Proofs.MissingBindings

**Loops and conditions that lack a binding.**

A loop needs a collection and a variable, a condition needs an expression. The
markup asks for them when it comes to the node, and it does not come to every
node: nothing below texts and elements without content is written, and loops and
conditions drop empty texts.

* `Markup.node_missingBinding_iff` is the criterion.
-/

namespace ReactWeave

/-! ## What a node needs -/

/-- Whether a value is a text. -/
def Json.isText (j : Json) : Bool := j.str?.isSome

theorem Json.isText_iff {j : Json} : j.isText = true ↔ ∃ s : String, j = .str s := by
  cases j <;> simp [isText, str?]

/-- The bindings that a node of a kind cannot do without, in the order in which they are asked
for. -/
def NodeKind.needs : NodeKind → List String
  | .loop => ["each", forNameKey]
  | .condition => ["when"]
  | .element | .text | .fragment => []

theorem NodeKind.ofJson_ne_text (name : Json) : ofJson name ≠ .ok text := by
  cases name with
  | str s =>
    have hname : ofName s ≠ text := by
      unfold ofName
      split
      · simp
      · split
        · simp
        · split <;> simp
    exact fun h => hname (Except.ok.inj h)
  | null | bool _ | int _ | real _ | arr _ | obj _ => simp [ofJson, Fields.isScalar]

namespace Head

/-- Whether a binding is absent, or nothing but white space. -/
def lacks (h : Head) (key : String) : Bool :=
  match h.bindings.get? key with
  | some (.str code) => Text.isBlankText code.toList
  | _ => true

/-- The bindings that a node cannot do without. -/
def needs (h : Head) : List String :=
  match h.kind with
  | .ok kind => kind.needs
  | .error _ => []

/-- The first binding that a node needs and lacks. -/
def missing? (h : Head) : Option String := h.needs.find? h.lacks

/-- The failure of a node that lacks a binding. -/
def shortage (h : Head) : Option Failure := h.missing?.map (.missingBinding h.name)

theorem shortage_eq (h : Head) : h.shortage =
    h.needs.findSome? fun key =>
      if h.lacks key then some (.missingBinding h.name key) else none := by
  rw [shortage, missing?]
  induction h.needs with
  | nil => rfl
  | cons key keys ih =>
    rw [List.find?_cons, List.findSome?_cons]
    cases h.lacks key with
    | true => rfl
    | false => exact ih

/-- Whether a node can be written as far as its own texts go: its name is no array or object, and
its bindings are texts under texts. -/
structure HasTexts (h : Head) : Prop where
  name : Fields.isScalar h.name = true
  bindings : ∀ b ∈ h.bindings, b.1.isText = true ∧ b.2.isText = true

instance (h : Head) : Decidable h.HasTexts :=
  decidable_of_iff (Fields.isScalar h.name = true ∧
      ∀ b ∈ h.bindings, b.1.isText = true ∧ b.2.isText = true)
    ⟨fun hh => ⟨hh.1, hh.2⟩, fun hh => ⟨hh.name, hh.bindings⟩⟩

theorem HasTexts.exists_of_mem {h : Head} (hh : h.HasTexts) {b : Json × Json}
    (hb : b ∈ h.bindings) : ∃ key code : String, b = (.str key, .str code) := by
  obtain ⟨hkey, hcode⟩ := hh.bindings b hb
  obtain ⟨key, hkey⟩ := Json.isText_iff.1 hkey
  obtain ⟨code, hcode⟩ := Json.isText_iff.1 hcode
  exact ⟨key, code, Prod.ext hkey hcode⟩

theorem HasTexts.kind {h : Head} (hh : h.HasTexts) : ∃ kind, h.kind = .ok kind := by
  have hname : ∃ kind, NodeKind.ofJson h.name = .ok kind := by
    unfold NodeKind.ofJson
    rw [hh.name]
    cases h.name <;> exact ⟨_, rfl⟩
  obtain ⟨kind, hkind⟩ := hname
  unfold Head.kind
  rw [hkind]
  cases kind with
  | element => dsimp only; split <;> exact ⟨_, rfl⟩
  | text | fragment | loop | condition => exact ⟨_, rfl⟩

end Head

theorem State.exists_processed (strategy : StateStrategy) (code : String) :
    ∃ text : String, State.processed strategy (.str code) = .ok (.str text) := by
  cases strategy with
  | useState => exact ⟨_, rfl⟩
  | _ => exact ⟨code, rfl⟩

namespace Markup

variable {strategy : StateStrategy} {h : Head}

/-! ## Heads -/

theorem failure?_required (h : Head) (key : String) :
    failure? (required h key) =
      if h.lacks key then some (.missingBinding h.name key) else none := by
  unfold required Head.lacks
  cases h.bindings.get? key with
  | none => rfl
  | some value =>
    cases value with
    | str code => cases hblank : Text.isBlankText code.toList <;> simp [hblank, failure?]
    | null | bool _ | int _ | real _ | arr _ | obj _ => rfl

theorem exists_of_required {key : String} {value : Json} (hvalue : required h key = .ok value) :
    ∃ code : String, value = .str code := by
  unfold required at hvalue
  split at hvalue
  · split at hvalue
    · cases hvalue
    · exact ⟨_, (Except.ok.inj hvalue).symm⟩
  · cases hvalue

theorem exists_binding (strategy : StateStrategy) (key code : String) :
    ∃ first, binding strategy (.str key) (.str code) = .ok first := by
  obtain ⟨text, htext⟩ := State.exists_processed strategy code
  unfold binding
  rw [htext]
  split
  · exact ⟨_, rfl⟩
  · simp only [ok_bind, isEmptyStyle]
    split
    · split <;> exact ⟨_, rfl⟩
    · exact ⟨_, rfl⟩

theorem exists_bindingsOf (strategy : StateStrategy) {fields : Fields}
    (hfields : ∀ b ∈ fields, ∃ key code : String, b = (.str key, .str code)) :
    ∃ texts, bindingsOf strategy fields = .ok texts := by
  induction fields with
  | nil => exact ⟨[], rfl⟩
  | cons field fields ih =>
    rw [List.forall_mem_cons] at hfields
    obtain ⟨⟨key, code, rfl⟩, hrest⟩ := hfields
    obtain ⟨first, hfirst⟩ := exists_binding strategy key code
    obtain ⟨more, hmore⟩ := ih hrest
    refine ⟨first.toList ++ more, ?_⟩
    rw [bindingsOf, hfirst, hmore]
    rfl

/-- With texts for values every tag can be written. -/
theorem exists_opening (strategy : StateStrategy) (hh : h.HasTexts) :
    ∃ text, opening strategy h = .ok text := by
  have hspread : ∃ texts, spread strategy h.bindings = .ok texts := by
    unfold spread
    split
    · exact ⟨_, rfl⟩
    · rename_i value hvalue
      obtain ⟨key, code, heq⟩ := hh.exists_of_mem (Fields.mem_of_get? hvalue)
      cases heq
      obtain ⟨text, htext⟩ := State.exists_processed strategy code
      exact ⟨_, by rw [htext]; rfl⟩
  obtain ⟨first, hfirst⟩ := hspread
  obtain ⟨more, hmore⟩ := exists_bindingsOf strategy fun _ => hh.exists_of_mem
  refine ⟨" ".intercalate (("<" ++ h.name.asText) ::
    (h.properties.map fun p => property p.1 p.2) ++ first ++ more), ?_⟩
  rw [opening, hfirst, hmore]
  rfl

/-- So can every text. -/
theorem exists_textContent (strategy : StateStrategy) (hh : h.HasTexts)
    (hkind : h.kind = .ok .text) : ∃ text, textContent strategy h = .ok text := by
  unfold textContent
  split
  · exact ⟨_, rfl⟩
  · rename_i hnone
    -- The text is not among the properties, so it is among the bindings.
    have hsome : (h.bindings.get? textKey).isSome = true := by
      unfold Head.kind at hkind
      split at hkind
      · cases hkind
      · split at hkind
        · rename_i hhas
          simpa [Fields.has, hnone] using hhas
        · cases hkind
      · rename_i kind _ hname
        cases hkind
        exact absurd hname (NodeKind.ofJson_ne_text _)
    obtain ⟨value, hvalue⟩ := Option.isSome_iff_exists.1 hsome
    obtain ⟨key, code, heq⟩ := hh.exists_of_mem (Fields.mem_of_get? hvalue)
    cases heq
    obtain ⟨text, htext⟩ := State.exists_processed strategy code
    rw [hvalue, Option.getD_some, htext]
    exact ⟨_, rfl⟩

/-! ## Trees -/

mutual

/-- The heads that the markup of a tree comes to, parents first: nothing below texts and elements
without content, and no empty texts below loops and conditions. -/
def written : Node → List Head
  | ⟨head, children⟩ => head ::
    match head.kind with
    | .ok .fragment => writtenOf false children
    | .ok .loop => writtenOf true children
    | .ok .condition => writtenOf true children
    | .ok .element => if isVoid head.name then [] else writtenOf false children
    | _ => []

/-- The same of neighbouring trees; `skip` says whether empty texts are left out. -/
def writtenOf (skip : Bool) : List Node → List Head
  | [] => []
  | ⟨head, children⟩ :: rest =>
    if skip && head.isEmptyText then writtenOf skip rest
    else written ⟨head, children⟩ ++ writtenOf skip rest

end

theorem failure?_required_bind {α : Type} {key : String} {next : Json → Outcome α}
    {later : Option Failure} (hnext : ∀ code : String, failure? (next (.str code)) = later) :
    failure? (required h key >>= next) =
      (if h.lacks key then some (.missingBinding h.name key) else none).or later := by
  rw [← failure?_required]
  refine failure?_bind fun value hvalue => ?_
  obtain ⟨code, rfl⟩ := exists_of_required hvalue
  exact hnext code

/-- A loop fails exactly for what it lacks. -/
theorem failure?_loopHead (strategy : StateStrategy) (hkind : h.kind = .ok .loop) :
    failure? (loopHead strategy h) = h.shortage := by
  have hneeds : h.needs = ["each", forNameKey] := by simp [Head.needs, hkind, NodeKind.needs]
  have hboth : failure? (loopHead strategy h) =
      (if h.lacks "each" then some (.missingBinding h.name "each") else none).or
        ((if h.lacks forNameKey then some (.missingBinding h.name forNameKey) else none).or
          none) := by
    refine failure?_required_bind fun code => ?_
    obtain ⟨text, htext⟩ := State.exists_processed strategy code
    rw [htext, ok_bind]
    exact failure?_required_bind fun _ => rfl
  rw [hboth, Head.shortage_eq, hneeds]
  simp only [List.findSome?_cons, List.findSome?_nil]
  cases h.lacks "each" <;> cases h.lacks forNameKey <;> rfl

theorem failure?_conditionHead (strategy : StateStrategy) (hkind : h.kind = .ok .condition) :
    failure? (conditionHead strategy h) = h.shortage := by
  have hneeds : h.needs = ["when"] := by simp [Head.needs, hkind, NodeKind.needs]
  have hwhen : failure? (conditionHead strategy h) =
      (if h.lacks "when" then some (.missingBinding h.name "when") else none).or none := by
    refine failure?_required_bind fun code => ?_
    obtain ⟨text, htext⟩ := State.exists_processed strategy code
    rw [htext]
    rfl
  rw [hwhen, Head.shortage_eq, hneeds]
  simp

mutual

/-- **Why a tree cannot be written.** If its bindings are texts, the markup fails for the first
binding that one of the heads it comes to lacks, and for no other reason. -/
theorem failure?_node : ∀ n : Node, (∀ h ∈ n.heads, h.HasTexts) →
    failure? (node strategy n) = (written n).findSome? Head.shortage
  | ⟨head, children⟩, htexts => by
    rw [Node.heads, List.forall_mem_cons] at htexts
    obtain ⟨hhead, hchildren⟩ := htexts
    obtain ⟨kind, hkind⟩ := hhead.kind
    have hnone (hneeds : kind.needs = []) : head.shortage = none := by
      simp [Head.shortage, Head.missing?, Head.needs, hkind, hneeds]
    rw [node, hkind, ok_bind, written, hkind, ← List.singleton_append, List.findSome?_append,
      List.findSome?_singleton]
    cases kind with
    | text =>
      obtain ⟨text, htext⟩ := exists_textContent strategy hhead hkind
      rw [hnone rfl, htext]
      rfl
    | fragment =>
      rw [hnone rfl, Option.none_or]
      exact (failure?_bind_pure _ _).trans (failure?_nodes children false hchildren)
    | loop =>
      rw [← failure?_loopHead strategy hkind]
      refine failure?_bind fun _ _ => ?_
      exact (failure?_bind_pure _ _).trans (failure?_nodes children true hchildren)
    | condition =>
      rw [← failure?_conditionHead strategy hkind]
      refine failure?_bind fun _ _ => ?_
      exact (failure?_bind_pure _ _).trans (failure?_nodes children true hchildren)
    | element =>
      obtain ⟨opening, hopening⟩ := exists_opening strategy hhead
      rw [hnone rfl, hopening, ok_bind]
      dsimp only
      split
      · rfl
      · rw [Option.none_or]
        exact (failure?_bind_pure _ _).trans (failure?_nodes children false hchildren)

/-- **Markup fails at the first node that lacks a binding**, of those that are written. -/
theorem failure?_nodes : ∀ (ns : List Node) (skip : Bool), (∀ h ∈ Node.headsOf ns, h.HasTexts) →
    failure? (nodes strategy skip ns) = (writtenOf skip ns).findSome? Head.shortage
  | [], _, _ => by
    rw [nodes, writtenOf]
    rfl
  | ⟨head, children⟩ :: rest, skip, htexts => by
    rw [Node.headsOf, List.forall_mem_append] at htexts
    obtain ⟨hfirst, hrest⟩ := htexts
    rw [nodes, writtenOf]
    split
    · exact failure?_nodes rest skip hrest
    · rw [List.findSome?_append, ← failure?_node ⟨head, children⟩ hfirst,
        ← failure?_nodes rest skip hrest]
      refine failure?_bind fun _ _ => ?_
      exact failure?_bind_pure _ _

end

/-! ## The criterion -/

theorem shortage_eq_some {name : Json} {key : String} :
    h.shortage = some (.missingBinding name key) ↔ h.name = name ∧ h.missing? = some key := by
  cases hkey : h.missing? <;> simp [Head.shortage, hkey]

theorem shortage_eq_none : h.shortage = none ↔ h.missing? = none := by
  simp [Head.shortage]

/-- **When a tree cannot be written.** If its bindings are texts, the markup fails with a missing
binding exactly if one of the heads it comes to lacks a binding that it needs; the failure names the
first of these heads, and the first binding that it lacks; and if there is no such head, the markup
goes through. -/
theorem node_missingBinding_iff (strategy : StateStrategy) {n : Node}
    (htexts : ∀ h ∈ n.heads, h.HasTexts) :
    ((∃ name key, node strategy n = .error (.missingBinding name key)) ↔
      ∃ h ∈ written n, ∃ key ∈ h.needs, h.lacks key = true) ∧
    (∀ name key, node strategy n = .error (.missingBinding name key) ↔
      ∃ before h behind, written n = before ++ h :: behind ∧ (∀ g ∈ before, g.missing? = none) ∧
        h.name = name ∧ h.missing? = some key) ∧
    ((∀ h ∈ written n, h.missing? = none) → ∃ text, node strategy n = .ok text) := by
  have hfailure : failure? (node strategy n) = (written n).findSome? Head.shortage :=
    failure?_node n htexts
  have hfirst : ∀ name key, node strategy n = .error (.missingBinding name key) ↔
      ∃ before h behind, written n = before ++ h :: behind ∧ (∀ g ∈ before, g.missing? = none) ∧
        h.name = name ∧ h.missing? = some key := by
    intro name key
    have hsome : node strategy n = .error (.missingBinding name key) ↔
        (written n).findSome? Head.shortage = some (.missingBinding name key) := by
      rw [← hfailure]
      exact ⟨fun herror => by rw [herror]; rfl, eq_error_of_failure?⟩
    rw [hsome, List.findSome?_eq_some_iff]
    simp only [shortage_eq_some, shortage_eq_none]
    refine exists_congr fun before => exists_congr fun h => exists_congr fun behind => ?_
    rw [and_congr_right_iff]
    exact fun _ => and_comm
  have hnone : (∀ h ∈ written n, h.missing? = none) → ∃ text, node strategy n = .ok text := by
    intro hall
    refine exists_eq_ok_of_failure? ?_
    rw [hfailure, List.findSome?_eq_none_iff]
    exact fun h hh => shortage_eq_none.2 (hall h hh)
  refine ⟨⟨?_, ?_⟩, hfirst, hnone⟩
  · rintro ⟨name, key, herror⟩
    obtain ⟨before, h, behind, hsplit, -, -, hkey⟩ := (hfirst name key).1 herror
    refine ⟨h, by simp [hsplit], key, List.mem_of_find?_eq_some hkey, ?_⟩
    simpa using List.find?_some hkey
  · rintro ⟨h, hh, key, hneeds, hlacks⟩
    -- One head lacks a binding, so there is a first one that does.
    have hmissing : h.missing?.isSome = true := by
      rw [Head.missing?, List.find?_isSome]
      exact ⟨key, hneeds, hlacks⟩
    have hsome : ((written n).findSome? Head.shortage).isSome = true := by
      rw [List.findSome?_isSome_iff]
      exact ⟨h, hh, by simpa [Head.shortage] using hmissing⟩
    obtain ⟨e, he⟩ := Option.isSome_iff_exists.1 hsome
    obtain ⟨g, -, hg⟩ := List.exists_of_findSome?_eq_some he
    obtain ⟨key', -, rfl⟩ := Option.map_eq_some_iff.1 hg
    exact ⟨g.name, key', eq_error_of_failure? (hfailure.trans he)⟩

/-- A condition with a void element, an empty text and a list in it. The loops below the void
element and in the place of the empty text lack everything, and that in the list its variable. -/
def ledger : Node :=
  ⟨⟨.str "Show", [], [(.str "when", .str "ready")]⟩,
    [⟨⟨.str "br", [], []⟩, [⟨⟨.str "For", [], []⟩, []⟩]⟩,
     ⟨⟨.str "For", [(.str textKey, .str " ")], []⟩, []⟩,
     ⟨⟨.str "ul", [], []⟩,
      [⟨⟨.str "For", [], [(.str "each", .str "state.rows"), (.str forNameKey, .str " ")]⟩,
        [⟨⟨.str "Show", [], []⟩, []⟩]⟩]⟩]⟩

theorem node_missingBinding_iff_ledger :
    (∀ h ∈ ledger.heads, h.HasTexts) ∧
      node .useState ledger = .error (.missingBinding (.str "For") forNameKey) := by
  have htexts : ∀ h ∈ ledger.heads, h.HasTexts := by decide
  have hwritten : written ledger =
      [⟨.str "Show", [], [(.str "when", .str "ready")]⟩, ⟨.str "br", [], []⟩,
        ⟨.str "ul", [], []⟩] ++
        ⟨.str "For", [], [(.str "each", .str "state.rows"), (.str forNameKey, .str " ")]⟩ ::
          [⟨.str "Show", [], []⟩] := rfl
  refine ⟨htexts, ((node_missingBinding_iff .useState htexts).2.1 _ _).2 ?_⟩
  exact ⟨_, _, _, hwritten, by decide, rfl, by decide⟩

end Markup

end ReactWeave
