import ReactWeave.Proofs.StyleFrames

/-!
# ReactWeave.Proofs.BoundClasses

**When the class of a styled node is its only class attribute.**

The class of a styled node goes into its properties. A node may have its class as a
binding as well, and then the tag has two attributes of that name, of which the later
one counts: the binding.

* `collectSheet_keysApart_iff`: when no node of a tree has two class attributes.
-/

namespace ReactWeave

/-! ## Attributes -/

/-- Whether no key of a node is both a property and a binding. -/
def Head.KeysApart (h : Head) : Prop :=
  ∀ p ∈ h.properties, ∀ b ∈ h.bindings, p.1.sameScalar b.1 = false

instance (h : Head) : Decidable h.KeysApart :=
  inferInstanceAs (Decidable (∀ p ∈ h.properties, ∀ b ∈ h.bindings, p.1.sameScalar b.1 = false))

variable {key : Json} {fields fields' : Fields} {className : String}

namespace Markup

variable {s : StateStrategy} {h : Head}

/-- The keys of the bindings that have an attribute: all but the spread expression. -/
def boundKeys (bindings : Fields) : List Json :=
  (bindings.map Prod.fst).filter fun key => !Fields.isKey spreadKey key

theorem mem_boundKeys {bindings : Fields} : key ∈ boundKeys bindings ↔
    key ∈ bindings.map Prod.fst ∧ Fields.isKey spreadKey key = false := by
  rw [boundKeys, List.mem_filter, Bool.not_eq_true']

/-- The keys that an element has attributes for: those of its properties, and behind them those of
its bindings. -/
def attributeKeys (h : Head) : List Json :=
  h.properties.map Prod.fst ++ boundKeys h.bindings

/-- The name of the attribute of a binding. -/
def boundName (key : Json) : String :=
  if Fields.isKey "innerHTML" key then "dangerouslySetInnerHTML" else key.asText

/-- Whether a text is an attribute of this name. -/
def IsNamed (name text : String) : Prop := ∃ value, text = name ++ "=" ++ value

theorem isNamed_property (p : Json × Json) : IsNamed p.1.asText (property p.1 p.2) := by
  refine ⟨"\"" ++ escapeAttribute p.2 ++ "\"", ?_⟩
  simp [property, ← String.toList_inj]

theorem isNamed_bindingText (name : String) (code : Json) :
    IsNamed (boundName (.str name)) (bindingText name code) := by
  by_cases hname : name = "innerHTML"
  · subst hname
    exact ⟨braced (braced ("\"__html\": " ++ code.asText)), rfl⟩
  · have hkey : Fields.isKey "innerHTML" (.str name) = false := beq_false_of_ne hname
    have hbound : boundName (.str name) = name := by
      rw [boundName, hkey]
      rfl
    rw [hbound, bindingText, if_neg hname]
    split
    · exact ⟨_, rfl⟩
    · exact ⟨_, rfl⟩

/-- A binding that is neither spread nor a style becomes one attribute with its name. -/
theorem binding_eq_some {value : Json} {first : Option String}
    (hspread : Fields.isKey spreadKey key = false) (hcss : Fields.isKey cssKey key = false)
    (h : binding s key value = .ok first) :
    ∃ text, first = some text ∧
      IsNamed (boundName key) text := by
  unfold binding at h
  rw [hspread] at h
  obtain ⟨code, -, h⟩ := bind_eq_ok.1 h
  simp only [hcss] at h
  cases key with
  | str name =>
    cases h
    exact ⟨_, rfl, isNamed_bindingText name code⟩
  | _ => cases h

/-- The attributes of an element are named, in order, after the keys that are bound. -/
theorem isNamed_bindingsOf {texts : List String}
    (hcss : ∀ b ∈ fields, Fields.isKey cssKey b.1 = false) (h : bindingsOf s fields = .ok texts) :
    List.Forall₂ IsNamed ((boundKeys fields).map boundName) texts := by
  induction fields generalizing texts with
  | nil =>
    cases h
    exact .nil
  | cons field fields ih =>
    obtain ⟨hfield, hcss⟩ := List.forall_mem_cons.1 hcss
    obtain ⟨first, hfirst, h⟩ := bind_eq_ok.1 h
    obtain ⟨more, hmore, h⟩ := bind_eq_ok.1 h
    cases h
    have hrest := ih hcss hmore
    rw [boundKeys, List.map_cons]
    cases hspread : Fields.isKey spreadKey field.1 with
    | true =>
      have hnone : first = none := by
        rw [binding, hspread] at hfirst
        exact (Except.ok.inj hfirst).symm
      rw [List.filter_cons_of_neg (by simp [hspread]), hnone]
      exact hrest
    | false =>
      obtain ⟨text, rfl, htext⟩ := binding_eq_some hspread hfield hfirst
      rw [List.filter_cons_of_pos (by simp [hspread]), List.map_cons]
      exact .cons htext hrest

/-- Whether a tag has an attribute for every key of a node: those of the properties come first, then
the spread expression, then those of the bindings. -/
def HasAttributes (h : Head) (tag : String) : Prop :=
  ∃ properties spread bindings, spread.length ≤ 1 ∧
    tag = " ".intercalate (("<" ++ h.name.asText) :: properties ++ spread ++ bindings) ∧
    List.Forall₂ IsNamed ((h.properties.map Prod.fst).map Json.asText) properties ∧
    List.Forall₂ IsNamed ((boundKeys h.bindings).map boundName) bindings

/-- **The tag of a node without a style has an attribute for every key.** -/
theorem hasAttributes_of_opening {tag : String}
    (hcss : ∀ b ∈ h.bindings, Fields.isKey cssKey b.1 = false) (hopening : opening s h = .ok tag) :
    HasAttributes h tag := by
  obtain ⟨spread, hspread, hopening⟩ := bind_eq_ok.1 hopening
  obtain ⟨bindings, hbindings, hopening⟩ := bind_eq_ok.1 hopening
  cases hopening
  refine ⟨_, spread, bindings, ?_, rfl, ?_, isNamed_bindingsOf hcss hbindings⟩
  · unfold Markup.spread at hspread
    cases hget : h.bindings.get? spreadKey with
    | none =>
      simp only [hget] at hspread
      cases hspread
      exact Nat.zero_le 1
    | some code =>
      simp only [hget] at hspread
      obtain ⟨code, -, hspread⟩ := bind_eq_ok.1 hspread
      cases hspread
      exact Nat.le_refl 1
  · rw [List.forall₂_map_right_iff, List.forall₂_map_left_iff, List.forall₂_map_left_iff]
    exact List.forall₂_same.2 fun p _ => isNamed_property p

end Markup

/-! ## Keys of a node -/

namespace Fields

variable {key : String}

theorem has_iff : fields.has key = true ↔ .str key ∈ fields.map Prod.fst := by
  induction fields with
  | nil => simp [has, get?]
  | cons field fields ih =>
    rw [has, get?, List.map_cons, List.mem_cons]
    by_cases hkey : isKey key field.1 = true
    · rw [if_pos hkey, isKey_iff.1 hkey]
      simp
    · have hne : Json.str key ≠ field.1 := fun heq => hkey (isKey_iff.2 heq.symm)
      rw [if_neg hkey, ← has, ih, or_iff_right hne]

theorem str_sameScalar (k : Json) : (Json.str key).sameScalar k = isKey key k := by
  cases k with
  | str text => simp [Json.sameScalar, isKey, eq_comm, Bool.beq_eq_decide_eq]
  | _ => simp [Json.sameScalar, isKey, Json.asInt?]

/-- A key is counted exactly if it is there. -/
theorem countP_isKey_pos_iff {keys : List Json} :
    0 < keys.countP (isKey key) ↔ .str key ∈ keys := by
  rw [List.countP_pos_iff]
  constructor
  · intro hsome
    obtain ⟨k, hk, hkey⟩ := hsome
    exact isKey_iff.1 hkey ▸ hk
  · exact fun hmem => ⟨_, hmem, isKey_iff.2 rfl⟩

theorem countP_isKey_le_one (key : String) {keys : List Json} (hnodup : keys.Nodup) :
    keys.countP (isKey key) ≤ 1 := by
  induction keys with
  | nil => exact Nat.zero_le 1
  | cons k keys ih =>
    obtain ⟨hk, hkeys⟩ := List.nodup_cons.1 hnodup
    by_cases hkey : isKey key k = true
    · rw [isKey_iff.1 hkey, ← countP_isKey_pos_iff] at hk
      rw [List.countP_cons_of_pos hkey]
      omega
    · rw [List.countP_cons_of_neg hkey]
      exact ih hkeys

end Fields

/-- Whether no key stands twice among the properties of a node, nor among its bindings. -/
structure Head.Tabled (h : Head) : Prop where
  properties : (h.properties.map Prod.fst).Nodup
  bindings : (h.bindings.map Prod.fst).Nodup

namespace Head

variable {h : Head} {key : String}

theorem KeysApart.has_eq_false (hapart : h.KeysApart)
    (hkey : .str key ∈ h.properties.map Prod.fst) : h.bindings.has key = false := by
  rw [Bool.eq_false_iff, ne_eq, Fields.has_iff]
  intro hbound
  obtain ⟨p, hp, hpkey⟩ := List.mem_map.1 hkey
  obtain ⟨b, hb, hbkey⟩ := List.mem_map.1 hbound
  have hdiffer := hapart p hp b hb
  rw [hpkey, hbkey, Fields.sameScalar_str, Fields.isKey_iff.2 rfl] at hdiffer
  cases hdiffer

theorem countP_attributeKeys (key : String) (h : Head) :
    (Markup.attributeKeys h).countP (Fields.isKey key) =
      (h.properties.map Prod.fst).countP (Fields.isKey key) +
        (Markup.boundKeys h.bindings).countP (Fields.isKey key) :=
  List.countP_append

/-- With distinct keys apart from each other, an element has each attribute at most once. -/
theorem Tabled.countP_le_one (htabled : h.Tabled) (hapart : h.KeysApart) (key : String) :
    (Markup.attributeKeys h).countP (Fields.isKey key) ≤ 1 := by
  have hproperties := Fields.countP_isKey_le_one key htabled.properties
  have hbindings : (Markup.boundKeys h.bindings).countP (Fields.isKey key) ≤ 1 :=
    Fields.countP_isKey_le_one key (htabled.bindings.filter _)
  rw [countP_attributeKeys]
  rcases Nat.eq_zero_or_pos ((h.properties.map Prod.fst).countP (Fields.isKey key)) with
    hnone | hsome
  · omega
  · -- The key is a property, so it is no binding.
    have hunbound := hapart.has_eq_false (Fields.countP_isKey_pos_iff.1 hsome)
    have hzero : ¬ 0 < (Markup.boundKeys h.bindings).countP (Fields.isKey key) := by
      rw [Fields.countP_isKey_pos_iff, Markup.mem_boundKeys, ← Fields.has_iff, hunbound]
      simp
    omega

theorem one_lt_countP (hspread : key ≠ spreadKey) (hproperty : .str key ∈ h.properties.map Prod.fst)
    (hbinding : h.bindings.has key = true) :
    1 < (Markup.attributeKeys h).countP (Fields.isKey key) := by
  have hfirst := Fields.countP_isKey_pos_iff.2 hproperty
  have hsecond : 0 < (Markup.boundKeys h.bindings).countP (Fields.isKey key) := by
    rw [Fields.countP_isKey_pos_iff, Markup.mem_boundKeys]
    exact ⟨Fields.has_iff.1 hbinding, beq_false_of_ne hspread⟩
  rw [countP_attributeKeys]
  omega

end Head

/-! ## The class of a styled node -/

namespace Style

variable {property : String} {h h' : Head}

/-- Whether a node has a style and a class of its own as a binding. -/
def BindsClass (property : String) (h : Head) : Prop :=
  h.style?.isSome = true ∧ h.bindings.has property = true

instance (property : String) (h : Head) : Decidable (BindsClass property h) :=
  inferInstanceAs (Decidable (_ ∧ _))

/-- Adding a class changes the keys only by the class itself, behind all others. -/
theorem ClassAdded.keys (hadded : ClassAdded property className fields fields') :
    (.str property ∈ fields.map Prod.fst ∧ fields'.map Prod.fst = fields.map Prod.fst) ∨
      (.str property ∉ fields.map Prod.fst ∧
        fields'.map Prod.fst = fields.map Prod.fst ++ [.str property]) := by
  cases hadded with
  | behind before rest old hfirst => exact .inl (by simp)
  | last fields hnone =>
    refine .inr ⟨fun hmem => ?_, by simp⟩
    obtain ⟨f, hf, hkey⟩ := List.mem_map.1 hmem
    have hother := hnone f hf
    rw [Fields.isKey_iff.2 hkey] at hother
    cases hother

theorem ClassAdded.mem_keys (hadded : ClassAdded property className fields fields') :
    key ∈ fields'.map Prod.fst ↔ key ∈ fields.map Prod.fst ∨ key = .str property := by
  rcases hadded.keys with ⟨hmem, hkeys⟩ | ⟨-, hkeys⟩
  · rw [hkeys]
    exact ⟨.inl, fun hkey => hkey.elim id fun heq => heq ▸ hmem⟩
  · rw [hkeys, List.mem_append, List.mem_singleton]

theorem ClassAdded.nodup (hadded : ClassAdded property className fields fields')
    (hnodup : (fields.map Prod.fst).Nodup) : (fields'.map Prod.fst).Nodup := by
  rcases hadded.keys with ⟨-, hkeys⟩ | ⟨hnew, hkeys⟩
  · rwa [hkeys]
  · rw [hkeys, ← List.concat_eq_append]
    exact hnodup.concat hnew

/-- **What becomes of the keys of one node**: the bindings are the old ones without the style, and
of the properties only that of the class may be new, which a styled node has in any case. -/
structure Rekeyed (property : String) (h h' : Head) : Prop where
  bindings : h'.bindings = h.bindings.erase cssKey
  nodup : (h.properties.map Prod.fst).Nodup → (h'.properties.map Prod.fst).Nodup
  properties : ∀ key, key ∈ h'.properties.map Prod.fst ↔
    key ∈ h.properties.map Prod.fst ∨ (h.style?.isSome = true ∧ key = .str property)

theorem rekeyed_of_stepsTo (hstep : Node.StepsTo (classify property) h h') :
    Rekeyed property h h' := by
  obtain ⟨s, s', hstep⟩ := hstep
  rcases classify_cases hstep with ⟨hnone, -, rfl⟩ | ⟨w, hw, -, rfl⟩
  · refine ⟨rfl, id, fun key => ?_⟩
    rw [hnone]
    simp [unstyled]
  · obtain ⟨css, hcss, -⟩ := Option.bind_eq_some_iff.1 hw
    have hadded := classAdded_addClass property (s.counts.next w.base "-") (unstyled h)
    refine ⟨rfl, hadded.nodup, fun key => ?_⟩
    rw [hadded.mem_keys, hcss]
    simp [unstyled]

theorem Rekeyed.tabled (hrekeyed : Rekeyed property h h') (htabled : h.Tabled) : h'.Tabled := by
  refine ⟨hrekeyed.nodup htabled.properties, ?_⟩
  rw [hrekeyed.bindings, Fields.erase_eq_filter cssKey htabled.bindings]
  exact htabled.bindings.sublist (List.filter_sublist.map Prod.fst)

theorem Rekeyed.has_eq (hrekeyed : Rekeyed property h h') (hcss : property ≠ cssKey) :
    h'.bindings.has property = h.bindings.has property := by
  rw [Fields.has, Fields.has, hrekeyed.bindings, Fields.get?_erase_of_ne hcss.symm]

/-- A node that gets a class keeps its attributes apart exactly if it binds no class of its own. -/
theorem Rekeyed.keysApart_iff (hrekeyed : Rekeyed property h h') (hcss : property ≠ cssKey)
    (hapart : h.KeysApart) :
    h'.KeysApart ↔ ¬BindsClass property h := by
  constructor
  · intro hapart' hbinds
    obtain ⟨hstyled, hbound⟩ := hbinds
    have hproperty := (hrekeyed.properties (.str property)).2 (.inr ⟨hstyled, rfl⟩)
    rw [← hrekeyed.has_eq hcss, hapart'.has_eq_false hproperty] at hbound
    cases hbound
  · -- A property of the node is an old one, apart from all bindings, or the class.
    intro hnot p' hp' b hb
    rw [hrekeyed.bindings] at hb
    have hb := Fields.mem_of_mem_erase hb
    rcases (hrekeyed.properties p'.1).1 (List.mem_map_of_mem hp') with hold | ⟨hstyled, hnew⟩
    · obtain ⟨p, hp, hkey⟩ := List.mem_map.1 hold
      rw [← hkey]
      exact hapart p hp b hb
    · rw [hnew, Fields.str_sameScalar, Bool.eq_false_iff]
      intro hkey
      refine hnot ⟨hstyled, Fields.has_iff.2 ?_⟩
      rw [← Fields.isKey_iff.1 hkey]
      exact List.mem_map_of_mem hb

theorem Rekeyed.countP_le_one_iff (hrekeyed : Rekeyed property h h') (hcss : property ≠ cssKey)
    (hspread : property ≠ spreadKey) (htabled : h.Tabled) (hapart : h.KeysApart) :
    (Markup.attributeKeys h').countP (Fields.isKey property) ≤ 1 ↔ ¬BindsClass property h := by
  constructor
  · intro hcount hbinds
    obtain ⟨hstyled, hbound⟩ := hbinds
    have hproperty := (hrekeyed.properties (.str property)).2 (.inr ⟨hstyled, rfl⟩)
    rw [← hrekeyed.has_eq hcss] at hbound
    exact absurd hcount (Nat.not_le.2 (Head.one_lt_countP hspread hproperty hbound))
  · intro hnot
    exact (hrekeyed.tabled htabled).countP_le_one
      ((hrekeyed.keysApart_iff hcss hapart).2 hnot) property

/-- **When the class of a styled node is its only class attribute.** If no key of a node is both a
property and a binding, the same holds after the collection exactly if no styled node has its class
as a binding. Node by node, the tag has at most one class attribute exactly in that case; otherwise
the class of the style stands in front of the binding. -/
theorem collectSheet_keysApart_iff {c c' : Component} {sheet : String}
    (htabled : ∀ h ∈ c.heads, h.Tabled) (hapart : ∀ h ∈ c.heads, h.KeysApart)
    (hcollect : (collectSheet "className" c).toOutcome = .ok (sheet, c')) :
    ((∀ h' ∈ c'.heads, h'.KeysApart) ↔ ∀ h ∈ c.heads, ¬BindsClass "className" h) ∧
      Node.MatchesAll (fun h h' => (h'.KeysApart ↔ ¬BindsClass "className" h) ∧
        ((Markup.attributeKeys h').countP (Fields.isKey "className") ≤ 1 ↔
          ¬BindsClass "className" h)) c.children c'.children ∧
      List.Forall₂ (fun p name => ClassAdded "className" name p.1.properties p.2.properties)
        (styledPairs c.heads c'.heads) (classesOf c) ∧
      ∀ s text, Markup.forest s c'.children = .ok text →
        ∀ h' ∈ Markup.elementsOf false c'.children,
          ∃ tag, Markup.HasAttributes h' tag ∧ tag.toList <:+: text.toList := by
  obtain ⟨⟨table, c₁⟩, hclasses, heq⟩ := Progress.map_eq_ok.1 hcollect
  cases heq
  obtain ⟨⟨counts, c₁⟩, hpass, heq⟩ := Progress.map_eq_ok.1 hclasses
  cases heq
  obtain ⟨-, hmatches, hlist⟩ := Component.of_passHeads hpass
  have hcss : "className" ≠ cssKey := by decide
  have hnodes : Node.MatchesAll (fun h h' => Rekeyed "className" h h' ∧ h.Tabled ∧ h.KeysApart)
      c.children c'.children :=
    hmatches.imp_of_mem fun h hh h' hstep => ⟨rekeyed_of_stepsTo hstep, htabled h hh, hapart h hh⟩
  refine ⟨?_, hnodes.imp ?_, (of_passList_classify hlist).2, ?_⟩
  · refine forall_mem_iff_of_forall₂ (hnodes.forall₂_heads.imp ?_)
    exact fun h h' hnode => hnode.1.keysApart_iff hcss hnode.2.2
  · intro h h' hnode
    obtain ⟨hrekeyed, htabled, hapart⟩ := hnode
    exact ⟨hrekeyed.keysApart_iff hcss hapart,
      hrekeyed.countP_le_one_iff hcss (by decide) htabled hapart⟩
  · intro s text hforest h' hh'
    obtain ⟨texts, hnodes', heq⟩ := bind_eq_ok.1 hforest
    cases heq
    obtain ⟨tag, hopening, htag⟩ := Markup.opening_infix_nodes hnodes' hh'
    obtain ⟨h, hh, hrekeyed, htabled, -⟩ := exists_mem_of_forall₂ hnodes.forall₂_heads
      (Markup.mem_headsOf_of_mem_elementsOf hh')
    refine ⟨tag, Markup.hasAttributes_of_opening (fun b hb => ?_) hopening, htag⟩
    rw [hrekeyed.bindings] at hb
    exact Fields.isKey_of_mem_erase htabled.bindings hb

/-- A styled list with a class of its own, whose items have their classes as a binding. -/
def menu : Component :=
  ⟨.str "Menu", [], .null, .null, [],
    [⟨⟨.str "ul", [(.str "className", .str "list")],
        [(.str cssKey, .str "\x7bcolor: 'red'\x7d")]⟩,
      [⟨⟨.str "li", [], [(.str "className", .str "look")]⟩, []⟩]⟩]⟩

theorem collectSheet_keysApart_iff_menu :
    (∀ h ∈ menu.heads, h.Tabled) ∧ (∀ h ∈ menu.heads, h.KeysApart) ∧
      ∃ sheet c', (collectSheet "className" menu).toOutcome = .ok (sheet, c') ∧
        (∀ h' ∈ c'.heads, h'.KeysApart) ∧
        (Markup.forest .mobx c'.children).toOption =
          some "<ul className=\"list ul\"><li className=\x7blook\x7d></li></ul>" := by
  have htabled : ∀ h ∈ menu.heads, h.Tabled := by
    simp only [menu, Component.heads, Node.headsOf, Node.heads, List.append_nil,
      List.forall_mem_cons]
    exact ⟨⟨by simp, by simp⟩, ⟨by simp, by simp⟩, by simp⟩
  have hapart : ∀ h ∈ menu.heads, h.KeysApart := by decide +kernel
  have hfree : ∀ h ∈ menu.heads, ¬BindsClass "className" h := by decide +kernel
  have hdone : (collectSheet "className" menu).failure.isNone = true := by decide +kernel
  have hmarkup : (Markup.forest .mobx (collectSheet "className" menu).value.2.children).toOption =
      some "<ul className=\"list ul\"><li className=\x7blook\x7d></li></ul>" := by
    decide +kernel
  obtain ⟨sheet, c', hcollect, hwritten⟩ := Progress.exists_of_isNone
    (p := collectSheet "className" menu)
    (P := fun _ c' => (Markup.forest .mobx c'.children).toOption =
      some "<ul className=\"list ul\"><li className=\x7blook\x7d></li></ul>") hdone hmarkup
  exact ⟨htabled, hapart, sheet, c', hcollect,
    (collectSheet_keysApart_iff htabled hapart hcollect).1.2 hfree, hwritten⟩

/-- A styled element with its class as a binding. -/
def boundBox : Component :=
  ⟨.str "App", [], .null, .null, [],
    [⟨⟨.str "div", [], [(.str "className", .str "look"),
      (.str cssKey, .str "\x7bcolor: 'red'\x7d")]⟩, []⟩]⟩

/-- The class of a style does not count if the element has its class as a binding. -/
theorem collectSheet_class_twice :
    (∀ h ∈ boundBox.heads, h.KeysApart) ∧
      (collectSheet "className" boundBox).failure.isNone = true ∧
      (collectSheet "className" boundBox).value.1 = ".div \x7b\n  color: red;\n\x7d" ∧
      ¬(∀ h ∈ (collectSheet "className" boundBox).value.2.heads, h.KeysApart) ∧
      (Markup.forest .mobx (collectSheet "className" boundBox).value.2.children).toOption =
        some "<div className=\"div\" className=\x7blook\x7d></div>" := by
  decide +kernel

end Style

end ReactWeave
