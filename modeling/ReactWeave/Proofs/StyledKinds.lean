import ReactWeave.Proofs.StyledNames

/-!
# ReactWeave.Proofs.StyledKinds

**What nodes are** before and after components are made for the styled ones.

A styled node takes the name of the component that is made for it, and what a node
is follows from its name. So a loop, a condition or a fragment with a style becomes
an element, and an element may become one of them, if the name of its component is
theirs.

* `collectStyled_kinds_iff`: all nodes stay what they are exactly if the styled ones
  and their components are all called like elements.
* `collectStyled_swaps_kinds`: a loop that becomes an element, and an element that
  becomes a loop.
-/

namespace ReactWeave

namespace Head

variable {h : Head} {name : String}

theorem kind_of_element (hname : h.name = .str name) (hkind : NodeKind.ofName name = .element) :
    h.kind = if h.properties.has textKey || h.bindings.has textKey then .ok .text
      else .ok .element := by
  have hjson : NodeKind.ofJson (.str name) = .ok .element := congrArg Except.ok hkind
  rw [kind, hname, hjson]

theorem kind_of_control (hname : h.name = .str name) (hkind : NodeKind.ofName name ≠ .element) :
    h.kind = .ok (NodeKind.ofName name) := by
  have hjson : NodeKind.ofJson (.str name) = .ok (NodeKind.ofName name) := rfl
  rw [kind, hname, hjson]
  cases hk : NodeKind.ofName name with
  | element => exact absurd hk hkind
  | _ => rfl

theorem kind_ne_of_control {h' : Head} {name' : String} (hname : h.name = .str name)
    (hkind : NodeKind.ofName name ≠ .element) (hname' : h'.name = .str name')
    (hkind' : NodeKind.ofName name' = .element) : h.kind ≠ h'.kind := by
  have hne : NodeKind.ofName name ≠ .text := by
    unfold NodeKind.ofName
    repeat' split
    all_goals simp
  rw [kind_of_control hname hkind, kind_of_element hname' hkind']
  intro heq
  split at heq
  · exact hne (Except.ok.inj heq)
  · exact hkind (Except.ok.inj heq)

end Head

namespace Style

/-! ## One node -/

/-- A control node becomes an element: its component has another name. -/
theorem ofName_baseOf {tag : String} (htag : NodeKind.ofName tag ≠ .element) :
    NodeKind.ofName (baseOf tag) = .element := by
  unfold NodeKind.ofName at htag
  split at htag
  · rename_i heq
    rw [eq_of_beq heq]
    decide
  · split at htag
    · rename_i heq
      rw [eq_of_beq heq]
      decide
    · split at htag
      · rename_i heq
        rw [eq_of_beq heq]
        decide
      · exact absurd rfl htag

/-- **When a styled node stays what it is**: if it is called like an element, and the component made
for it is so as well. -/
theorem kind_renamed_iff {h : Head} {tag : String} (hname : h.name = .str tag) (n : Nat) :
    ({ unstyled h with name := .str (nth "" (baseOf tag) n) } : Head).kind = h.kind ↔
      NodeKind.ofName tag = .element ∧ (NodeKind.ofName (baseOf tag) = .element ∨ n ≠ 1) := by
  let renamed : Head := { unstyled h with name := .str (nth "" (baseOf tag) n) }
  have hrenamed : renamed.name = .str (nth "" (baseOf tag) n) := rfl
  rw [← ofName_nth]
  by_cases htag : NodeKind.ofName tag = .element
  · by_cases hnth : NodeKind.ofName (nth "" (baseOf tag) n) = .element
    · refine iff_of_true ?_ ⟨htag, hnth⟩
      have hhas : renamed.bindings.has textKey = h.bindings.has textKey :=
        congrArg Option.isSome (get?_unstyled h (by decide))
      rw [Head.kind_of_element hname htag, Head.kind_of_element hrenamed hnth, hhas]
      rfl
    · refine iff_of_false ?_ fun hboth => hnth hboth.2
      exact Head.kind_ne_of_control hrenamed hnth hname htag
  · have hnth : NodeKind.ofName (nth "" (baseOf tag) n) = .element :=
      (ofName_nth _ n).2 (.inl (ofName_baseOf htag))
    refine iff_of_false ?_ fun hboth => htag hboth.1
    exact (Head.kind_ne_of_control hname htag hrenamed hnth).symm

/-! ## All nodes -/

/-- Whether a styled node stays what it is, if `counts` names were given out before. -/
def StaysElement (counts : Counts) (h : Head) : Prop :=
  ∃ tag, h.name = .str tag ∧ NodeKind.ofName tag = .element ∧
    (NodeKind.ofName (baseOf tag) = .element ∨ 0 < counts.get (baseOf tag))

theorem staysElement_iff {h : Head} {tag : String} (counts : Counts) (hname : h.name = .str tag) :
    StaysElement counts h ↔ NodeKind.ofName tag = .element ∧
      (NodeKind.ofName (baseOf tag) = .element ∨ 0 < counts.get (baseOf tag)) := by
  constructor
  · rintro ⟨tag', hname', hstays⟩
    obtain rfl : tag' = tag := Json.str.inj (hname'.symm.trans hname)
    exact hstays
  · exact fun hstays => ⟨tag, hname, hstays⟩

theorem staysElement_add {h : Head} {counts : Counts} {base : String}
    (hbase : NodeKind.ofName base = .element ∨ 0 < counts.get base) :
    StaysElement (counts.add base) h ↔ StaysElement counts h := by
  refine exists_congr fun tag => and_congr_right fun _ => and_congr_right fun _ => ?_
  rw [Counts.get_add]
  by_cases hb : base = baseOf tag
  · subst hb
    simp only [if_true, Nat.succ_pos, or_true, true_iff]
    exact hbase
  · rw [if_neg hb, Nat.add_zero]

/-- All nodes stay what they are exactly if each styled one does, where it is. -/
theorem kinds_passList_iff {hs hs' : List Head} {s s' : Wardrobe}
    (hpass : passList dress s hs = .ok (s', hs')) :
    hs'.map Head.kind = hs.map Head.kind ↔
      ∀ h ∈ hs, h.style?.isSome = true → StaysElement s.counts h := by
  induction hs generalizing s hs' with
  | nil =>
    cases hpass
    simp
  | cons h hs ih =>
    obtain ⟨⟨s₁, h₁⟩, hstep, hrest⟩ := bind_eq_ok.1 hpass
    obtain ⟨⟨s₂, hs₂⟩, hlater, heq⟩ := map_eq_ok.1 hrest
    cases heq
    rw [List.map_cons, List.map_cons, List.cons.injEq, ih hlater, List.forall_mem_cons]
    rcases dress_cases hstep with ⟨hnone, rfl, rfl⟩ | ⟨g, hg, hcounts, -, rfl⟩
    · have hunstyled : h.style?.isSome = true → StaysElement s₁.counts h := by
        intro hsome
        rw [hnone] at hsome
        cases hsome
      rw [kind_unstyled]
      exact ⟨fun hkept => ⟨hunstyled, hkept.2⟩, fun hkept => ⟨rfl, hkept.2⟩⟩
    · obtain ⟨hsome, hname⟩ := name_of_garment hg
      rw [next_eq_nth, kind_renamed_iff hname, staysElement_iff s.counts hname, hcounts]
      -- The later nodes may use that this one has taken the name, but need not.
      have hone : s.counts.get (baseOf g.tag) + 1 ≠ 1 ↔ 0 < s.counts.get (baseOf g.tag) := by omega
      simp only [hone, hsome, true_implies]
      refine and_congr_right fun hkept => ?_
      simp only [staysElement_add hkept.2]

/-- Whether a tag and the component that is made for it are both called like elements. -/
def namesElements (tag : Json) : Bool :=
  match tag, styledBase tag with
  | .str name, .ok (base, _) =>
    NodeKind.ofName name == .element && NodeKind.ofName base == .element
  | _, _ => false

theorem staysElement_nil_iff (h : Head) : StaysElement [] h ↔ namesElements h.name = true := by
  unfold StaysElement namesElements
  cases h.name with
  | str tag => simp [styledBase_str, Counts.get]
  | _ => simp

/-- **When components for styled nodes leave all nodes what they are**: exactly if all styled nodes
are called like elements, and so are the components that are made for them. -/
theorem collectStyled_kinds_iff {c c' : Component} {made : List Styled}
    (hcollect : (collectStyled c).toOutcome = .ok (made, c')) :
    c'.heads.map Head.kind = c.heads.map Head.kind ↔
      ∀ h ∈ c.heads, h.style?.isSome = true → namesElements h.name = true := by
  obtain ⟨⟨s, c₁⟩, hpass, heq⟩ := Progress.map_eq_ok.1 hcollect
  cases heq
  have hlist : passList dress ⟨[], []⟩ c.heads = .ok (s, c'.heads) := by
    rw [← Component.passHeads_heads, hpass]
    rfl
  simp only [kinds_passList_iff hlist, staysElement_nil_iff]

/-- A styled list with an item in it. -/
def board : Component :=
  ⟨.str "Board", [], .null, .null, [],
    [⟨⟨.str "my-list", [], [(.str cssKey, .str "\x7bcolor: 'red'\x7d")]⟩,
      [⟨⟨.str "Item", [], [(.str cssKey, .str "\x7bcolor: 'blue'\x7d")]⟩, []⟩,
        ⟨⟨.str "For", [], []⟩, []⟩]⟩]⟩

theorem collectStyled_kinds_iff_board :
    ∃ made c', (collectStyled board).toOutcome = .ok (made, c') ∧
      made.map Styled.name = ["MyList", "StyledItem"] ∧
      c'.heads.map Head.kind = board.heads.map Head.kind := by
  have hdone : (collectStyled board).failure.isNone = true := by decide +kernel
  have hmade : (collectStyled board).value.1.map Styled.name = ["MyList", "StyledItem"] := by
    decide +kernel
  obtain ⟨made, c', hcollect, hnames⟩ :=
    Progress.exists_of_isNone (P := fun made _ => made.map Styled.name = ["MyList", "StyledItem"])
      hdone hmade
  have helements : ∀ h ∈ board.heads, h.style?.isSome = true → namesElements h.name = true := by
    decide +kernel
  exact ⟨made, c', hcollect, hnames, (collectStyled_kinds_iff hcollect).2 helements⟩

/-- A component with an element that is called like a loop but for its case, and with a loop. -/
def rows : Component :=
  ⟨.str "Rows", [], .null, .null, [],
    [⟨⟨.str "for", [], [(.str cssKey, .str "\x7bcolor: 'red'\x7d")]⟩, []⟩,
      ⟨⟨.str "For", [], [(.str cssKey, .str "\x7bcolor: 'blue'\x7d")]⟩, []⟩]⟩

/-- The element becomes a loop, and the loop an element. -/
theorem collectStyled_swaps_kinds :
    rows.heads.map (fun h => h.kind.toOption) = [some .element, some .loop] ∧
      ∃ made c', (collectStyled rows).toOutcome = .ok (made, c') ∧
        c'.heads.map (fun h => h.kind.toOption) = [some .loop, some .element] := by
  have hdone : (collectStyled rows).failure.isNone = true := by decide +kernel
  have hkinds : (collectStyled rows).value.2.heads.map (fun h => h.kind.toOption) =
      [some .loop, some .element] := by
    decide +kernel
  exact ⟨by decide +kernel, Progress.exists_of_isNone hdone hkinds⟩

end Style

end ReactWeave
