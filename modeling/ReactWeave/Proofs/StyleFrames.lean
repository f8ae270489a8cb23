import ReactWeave.Proofs.HandleUses
import ReactWeave.Proofs.MissingBindings
import ReactWeave.Proofs.StyledNames

/-!
# ReactWeave.Proofs.StyleFrames

**What collecting styles leaves alone.**

Both collectors take the style off every node. Besides, one of them adds a class to
the styled nodes, and the other one gives them the names of components. Nothing else
changes: the tree keeps its shape, and the nodes keep all other fields in their order.

* `collectClasses_frame`: classes are added to the styled nodes and nothing else
  changes; `collectClasses_error_iff` says when there is no result.
* `collectStyled_aligned`: the declarations of styled components belong to the styled
  nodes one by one.
-/

namespace ReactWeave

/-- **What a pass over the heads of a tree keeps**: everything but the tree, and the shape of the
tree. -/
theorem Component.of_passHeads {σ : Type} {f : σ → Head → Progress (σ × Head)} {s s' : σ}
    {c c' : Component} (h : (c.passHeads f s).toOutcome = .ok (s', c')) :
    c' = { c with children := c'.children } ∧
      Node.MatchesAll (Node.StepsTo f) c.children c'.children ∧
      passList f s c.heads = .ok (s', c'.heads) := by
  have hlist := Component.passHeads_heads (f := f) c s
  rw [h] at hlist
  obtain ⟨children, rfl, hall⟩ := Component.eq_of_passHeads h
  exact ⟨rfl, Node.matchesAll_of_passAll hall, hlist.symm⟩

/-! ## Tables -/

namespace Fields

/-- In a table with distinct keys a key is erased by filtering. -/
theorem erase_eq_filter (key : String) {fields : Fields} (hnodup : (fields.map Prod.fst).Nodup) :
    fields.erase key = fields.filter fun b => !isKey key b.1 := by
  induction fields with
  | nil => rfl
  | cons field fields ih =>
    rw [erase]
    by_cases hkey : isKey key field.1 = true
    · have hrest : fields.filter (fun b => !isKey key b.1) = fields := by
        rw [List.filter_eq_self]
        intro b hb
        rw [isKey_of_mem_behind hnodup hkey hb]
        rfl
      rw [if_pos hkey, List.filter_cons_of_neg (by simp [hkey]), hrest]
    · rw [if_neg hkey, List.filter_cons_of_pos (by simpa using hkey), ih hnodup.of_cons]

theorem sameScalar_str (k : Json) (key : String) : k.sameScalar (.str key) = isKey key k := by
  cases k <;> simp [Json.sameScalar, isKey, Json.asInt?]

end Fields

variable {css : String} {h h' : Head} {hs : List Head}

namespace Style

variable {property : String}

/-- Properties with another class in one of them: behind what is there, at its place, or as a new
property behind the others. -/
inductive ClassAdded (property className : String) : Fields → Fields → Prop where
  | behind (before rest : Fields) (old : Json)
      (hfirst : ∀ f ∈ before, Fields.isKey property f.1 = false) :
      ClassAdded property className (before ++ (.str property, old) :: rest)
        (before ++ (.str property, .str (Text.trimmed (old.asText ++ " " ++ className))) :: rest)
  | last (fields : Fields) (hnone : ∀ f ∈ fields, Fields.isKey property f.1 = false) :
      ClassAdded property className fields
        (fields ++ [(.str property, .str (Text.trimmed ("" ++ " " ++ className)))])

theorem ClassAdded.cons {className : String} {fields fields' : Fields} {field : Json × Json}
    (hfield : Fields.isKey property field.1 = false)
    (h : ClassAdded property className fields fields') :
    ClassAdded property className (field :: fields) (field :: fields') := by
  cases h with
  | behind before rest old hfirst =>
    exact .behind (field :: before) rest old (List.forall_mem_cons.2 ⟨hfield, hfirst⟩)
  | last fields hnone => exact .last (field :: fields) (List.forall_mem_cons.2 ⟨hfield, hnone⟩)

/-- A class is put behind those that are there, or behind all properties. -/
theorem classAdded_addClass (property className : String) (h : Head) :
    ClassAdded property className h.properties (addClass property className h).properties := by
  have hput (fields : Fields) : ClassAdded property className fields
      (fields.put (.str property) (.str (Text.trimmed
        (((fields.get? property).getD (.str "")).asText ++ " " ++ className)))) := by
    induction fields with
    | nil => exact .last [] (by simp)
    | cons field fields ih =>
      obtain ⟨key, value⟩ := field
      rw [Fields.put, Fields.sameScalar_str, Fields.get?]
      by_cases hkey : Fields.isKey property key = true
      · rw [if_pos hkey, if_pos hkey]
        obtain rfl := Fields.isKey_iff.1 hkey
        exact .behind [] fields value (by simp)
      · rw [if_neg hkey, if_neg hkey]
        exact ih.cons (Bool.eq_false_iff.2 hkey)
  exact hput h.properties

/-! ## Classes -/

theorem readMap_eq_ok {map : Map} : readMap css = .ok map ↔ Json5.read css = .ok (.obj map) := by
  unfold readMap
  cases hread : Json5.read css with
  | error e => simp
  | ok j => cases j <;> simp

/-- Whether a style can be collected: it is on a node whose tag is a text, and it is an object. -/
def Collectable (h : Head) (css : String) : Prop :=
  h.name.isText = true ∧ ∃ fields, Json5.read css = .ok (.obj fields)

theorem isSome_garment?_iff (hcss : h.style? = some css) :
    (garment? h).isSome = true ↔ Collectable h css := by
  rw [garment?, hcss, Option.bind_some, Collectable]
  cases hname : h.name with
  | str tag =>
    cases hmap : readMap css with
    | error e => simp [← readMap_eq_ok, hmap]
    | ok map => simp [← readMap_eq_ok, hmap, Json.isText, Json.str?]
  | _ => simp [Json.isText, Json.str?]

/-- **All that happens to one node**: without a style it only loses its binding; with one it gets the
next class of its tag as well. -/
theorem classify_cases {s s' : Classes} (hstep : (classify property s h).toOutcome = .ok (s', h')) :
    (h.style? = none ∧ s' = s ∧ h' = unstyled h) ∨
      ∃ g, garment? h = some g ∧ s'.counts = s.counts.add g.base ∧
        h' = addClass property (s.counts.next g.base "-") (unstyled h) := by
  cases hstyle : h.style? with
  | none =>
    rw [classify_of_none hstyle] at hstep
    cases hstep
    exact .inl ⟨rfl, rfl, rfl⟩
  | some css =>
    cases hg : garment? h with
    | some g =>
      rw [classify_of_garment hg] at hstep
      cases hstep
      exact .inr ⟨g, rfl, rfl, rfl⟩
    | none =>
      exact absurd (Progress.toOutcome_eq_ok.1 hstep).1 ((failure_of_no_garment hstyle hg).1 property s)

/-- The styled ones of some heads, each with what it became. -/
def styledPairs (hs hs' : List Head) : List (Head × Head) :=
  (hs.zip hs').filter fun p => p.1.style?.isSome

theorem styledPairs_of_none (hnone : h.style? = none) (h' : Head) (hs hs' : List Head) :
    styledPairs (h :: hs) (h' :: hs') = styledPairs hs hs' := by
  simp [styledPairs, hnone]

theorem styledPairs_of_some (hsome : h.style? = some css) (h' : Head) (hs hs' : List Head) :
    styledPairs (h :: hs) (h' :: hs') = (h, h') :: styledPairs hs hs' := by
  simp [styledPairs, hsome]

/-- **The collector over a list of heads**: it only goes through if all styles can be collected, and
the styled heads get the classes of their tags, one by one. -/
theorem of_passList_classify {hs' : List Head} {s s' : Classes}
    (hpass : passList (classify property) s hs = .ok (s', hs')) :
    Legible hs ∧ List.Forall₂ (fun p name => ClassAdded property name p.1.properties p.2.properties)
      (styledPairs hs hs') (numbered "-" s.counts ((hs.filterMap garment?).map Garment.base)) := by
  induction hs generalizing s hs' with
  | nil =>
    cases hpass
    exact ⟨by simp [Legible], .nil⟩
  | cons h hs ih =>
    obtain ⟨⟨s₁, h₁⟩, hstep, hrest⟩ := bind_eq_ok.1 hpass
    obtain ⟨⟨s₂, hs₂⟩, hlater, heq⟩ := map_eq_ok.1 hrest
    cases heq
    obtain ⟨hlegible, hclasses⟩ := ih hlater
    rcases classify_cases hstep with ⟨hnone, rfl, rfl⟩ | ⟨g, hg, hcounts, rfl⟩
    · have hg : garment? h = none := by rw [garment?, hnone, Option.bind_none]
      rw [styledPairs_of_none hnone, List.filterMap_cons_none hg]
      exact ⟨List.forall_mem_cons.2 ⟨by simp [hnone], hlegible⟩, hclasses⟩
    · obtain ⟨css, hcss, -⟩ := Option.bind_eq_some_iff.1 hg
      rw [styledPairs_of_some hcss, List.filterMap_cons_some hg, List.map_cons, numbered_cons,
        ← hcounts]
      exact ⟨List.forall_mem_cons.2 ⟨by simp [hg], hlegible⟩,
        .cons (classAdded_addClass property _ (unstyled h)) hclasses⟩

/-- A node without its style: its name and its other bindings in their order. A node without a style
keeps its properties as well. -/
structure Bared (h h' : Head) : Prop where
  name : h'.name = h.name
  bindings : h'.bindings = h.bindings.filter fun b => !Fields.isKey cssKey b.1
  properties : h.style? = none → h'.properties = h.properties

theorem bared_of_stepsTo (hnodup : (h.bindings.map Prod.fst).Nodup)
    (hstep : Node.StepsTo (classify property) h h') : Bared h h' := by
  obtain ⟨s, s', hstep⟩ := hstep
  have hbindings := Fields.erase_eq_filter cssKey hnodup
  rcases classify_cases hstep with ⟨-, -, rfl⟩ | ⟨g, hg, -, rfl⟩
  · exact ⟨rfl, hbindings, fun _ => rfl⟩
  · refine ⟨rfl, hbindings, fun hnone => ?_⟩
    rw [garment?, hnone, Option.bind_none] at hg
    cases hg

theorem not_legible_iff :
    ¬Legible hs ↔ ∃ h ∈ hs, ∃ css, h.style? = some css ∧ ¬Collectable h css := by
  constructor
  · intro hnot
    simp only [Legible, not_forall] at hnot
    obtain ⟨h, hh, hsome, hnone⟩ := hnot
    obtain ⟨css, hcss⟩ := Option.isSome_iff_exists.1 hsome
    exact ⟨h, hh, css, hcss, fun hcollect => hnone ((isSome_garment?_iff hcss).2 hcollect)⟩
  · rintro ⟨h, hh, css, hcss, hnot⟩ hlegible
    exact hnot ((isSome_garment?_iff hcss).1 (hlegible h hh (by rw [hcss]; rfl)))

/-- The collector fails exactly if a style cannot be read. -/
theorem collectClasses_error_iff (property : String) (c : Component) :
    (∃ e, (collectClasses property c).toOutcome = .error e) ↔ ¬Legible c.heads := by
  cases hcollect : (collectClasses property c).toOutcome with
  | error e =>
    refine iff_of_true ⟨e, rfl⟩ fun hlegible => ?_
    obtain ⟨counts, hpass⟩ := passList_classify property hlegible ⟨[], []⟩
    rw [← Component.passHeads_heads] at hpass
    obtain ⟨r, hr, -⟩ := map_eq_ok.1 hpass
    rw [collectClasses, Progress.toOutcome_map, hr] at hcollect
    cases hcollect
  | ok r =>
    refine iff_of_false (by rintro ⟨e, he⟩; cases he) (not_not_intro ?_)
    obtain ⟨⟨s, c'⟩, hpass, -⟩ := Progress.map_eq_ok.1 hcollect
    exact (of_passList_classify (Component.of_passHeads hpass).2.2).1

/-- **Collecting classes leaves the rest of the tree alone.** If it goes through, only the tree
changes, and the tree keeps its shape; every node keeps its name and its bindings other than the
style, and a node without a style its properties. A styled node gets its class, the one of its tag,
in the given property. It fails exactly if a style with anything in it is no object, or is on a node
whose tag is no text. -/
theorem collectClasses_frame (property : String) {c : Component}
    (hkeys : ∀ h ∈ c.heads, (h.bindings.map Prod.fst).Nodup) :
    (∀ table c', (collectClasses property c).toOutcome = .ok (table, c') →
      c' = { c with children := c'.children } ∧ Node.MatchesAll Bared c.children c'.children ∧
      List.Forall₂ (fun p name => ClassAdded property name p.1.properties p.2.properties)
        (styledPairs c.heads c'.heads) (classesOf c)) ∧
    ((∃ e, (collectClasses property c).toOutcome = .error e) ↔
      ∃ h ∈ c.heads, ∃ css, h.style? = some css ∧ ¬Collectable h css) ∧
    ((∀ h ∈ c.heads, h.name.isText = true) →
      ((∃ e, (collectClasses property c).toOutcome = .error e) ↔
        ∃ h ∈ c.heads, ∃ css, h.style? = some css ∧
          ∀ fields, Json5.read css ≠ .ok (.obj fields))) := by
  have herror := (collectClasses_error_iff property c).trans not_legible_iff
  refine ⟨?_, herror, fun htexts => herror.trans ?_⟩
  · intro table c' hcollect
    obtain ⟨⟨s, c₁⟩, hpass, heq⟩ := Progress.map_eq_ok.1 hcollect
    cases heq
    obtain ⟨hchildren, hmatches, hlist⟩ := Component.of_passHeads hpass
    refine ⟨hchildren, hmatches.imp_of_mem ?_, (of_passList_classify hlist).2⟩
    exact fun h hh h' => bared_of_stepsTo (hkeys h hh)
  · refine exists_congr fun h => and_congr_right fun hh => ?_
    refine exists_congr fun css => and_congr_right fun _ => ?_
    rw [Collectable, htexts h hh]
    simp

/-- A card whose frame has a class and a style, with a styled line and an unstyled one in it. -/
def profileCard : Component :=
  ⟨.str "ProfileCard", [], .null, .null, [],
    [⟨⟨.str "div", [(.str "id", .str "card"), (.str "className", .str " box"),
        (.str "lang", .str "en")],
      [(.str cssKey, .str "\x7bcolor: 'red'\x7d"), (.str "title", .str "name")]⟩,
      [⟨⟨.str "div", [], [(.str cssKey, .str "\x7bcolor: 'blue'\x7d")]⟩, []⟩,
        ⟨⟨.str "p", [(.str "id", .str "text")], [(.str cssKey, .str "\x7b \x7d")]⟩, []⟩]⟩]⟩

theorem collectClasses_frame_profileCard :
    (∀ h ∈ profileCard.heads, (h.bindings.map Prod.fst).Nodup) ∧
      classesOf profileCard = ["div", "div-2"] ∧
      ∃ table c', (collectClasses "className" profileCard).toOutcome = .ok (table, c') ∧
        Node.MatchesAll Bared profileCard.children c'.children ∧
        c'.heads.map (fun h => h.properties.map fun p => (p.1.asText, p.2.asText)) =
          [[("id", "card"), ("className", "box div"), ("lang", "en")], [("className", "div-2")],
            [("id", "text")]] := by
  have hkeys : ∀ h ∈ profileCard.heads, (h.bindings.map Prod.fst).Nodup := by
    simp [profileCard, Component.heads, Node.headsOf, Node.heads, cssKey]
  have hdone : (collectClasses "className" profileCard).failure.isNone = true := by decide +kernel
  have hproperties : (collectClasses "className" profileCard).value.2.heads.map
      (fun h => h.properties.map fun p => (p.1.asText, p.2.asText)) =
        [[("id", "card"), ("className", "box div"), ("lang", "en")], [("className", "div-2")],
          [("id", "text")]] := by
    decide +kernel
  obtain ⟨table, c', hcollect, hworn⟩ := Progress.exists_of_isNone
    (P := fun _ c' => c'.heads.map (fun h => h.properties.map fun p => (p.1.asText, p.2.asText)) =
      [[("id", "card"), ("className", "box div"), ("lang", "en")], [("className", "div-2")],
        [("id", "text")]]) hdone hproperties
  obtain ⟨-, hmatches, -⟩ := (collectClasses_frame "className" hkeys).1 table c' hcollect
  exact ⟨hkeys, by decide +kernel, table, c', hcollect, hmatches, hworn⟩

/-! ## Styled components -/

/-- Whether a text is the declaration for a styled node that got a name: it has that name, wraps the
tag that the node had, and holds the style of the node. -/
def DeclaredFor (p : Head × Head) (text : String) : Prop :=
  ∃ tag css name map, p.1.name = .str tag ∧ p.1.style? = some css ∧
    Json5.read css = .ok (.obj map) ∧ p.2.name = .str name ∧
    text = "const " ++ name ++ " = " ++
      (if isComponentTag tag then "styled(" ++ tag ++ ")" else "styled." ++ tag) ++ "`\n" ++
      Text.indent "  " ("\n".intercalate (body map)) ++ "\n`;"

/-- **The collector over a list of heads**: a declaration for each styled one. -/
theorem declaredFor_of_passList {hs' : List Head} {s s' : Wardrobe}
    (hpass : passList dress s hs = .ok (s', hs')) :
    ∃ made, s'.made = s.made ++ made ∧
      List.Forall₂ DeclaredFor (styledPairs hs hs') (made.map Styled.declaration) := by
  induction hs generalizing s hs' with
  | nil =>
    cases hpass
    exact ⟨[], by simp, .nil⟩
  | cons h hs ih =>
    obtain ⟨⟨s₁, h₁⟩, hstep, hrest⟩ := bind_eq_ok.1 hpass
    obtain ⟨⟨s₂, hs₂⟩, hlater, heq⟩ := map_eq_ok.1 hrest
    cases heq
    obtain ⟨made, hmade, hdeclared⟩ := ih hlater
    rcases dress_cases hstep with ⟨hnone, rfl, rfl⟩ | ⟨g, hg, -, hfirst, rfl⟩
    · rw [styledPairs_of_none hnone]
      exact ⟨made, hmade, hdeclared⟩
    · obtain ⟨css, hcss, hg⟩ := Option.bind_eq_some_iff.1 hg
      split at hg
      · rename_i tag map htag hmap
        cases hg
        rw [styledPairs_of_some hcss]
        refine ⟨_ :: made, by rw [hmade, hfirst, List.append_assoc, List.singleton_append],
          .cons ?_ hdeclared⟩
        exact ⟨tag, css, _, map, htag, hcss, readMap_eq_ok.1 hmap, rfl, rfl⟩
      · cases hg

/-- A node without its style: its properties and its other bindings in their order. A node without a
style keeps its name as well. -/
structure Dressed (h h' : Head) : Prop where
  properties : h'.properties = h.properties
  bindings : h'.bindings = h.bindings.filter fun b => !Fields.isKey cssKey b.1
  name : h.style? = none → h'.name = h.name

theorem dressed_of_stepsTo (hnodup : (h.bindings.map Prod.fst).Nodup)
    (hstep : Node.StepsTo dress h h') : Dressed h h' := by
  obtain ⟨s, s', hstep⟩ := hstep
  have hbindings := Fields.erase_eq_filter cssKey hnodup
  rcases dress_cases hstep with ⟨-, -, rfl⟩ | ⟨g, hg, -, -, rfl⟩
  · exact ⟨rfl, hbindings, fun _ => rfl⟩
  · refine ⟨rfl, hbindings, fun hnone => ?_⟩
    rw [garment?, hnone, Option.bind_none] at hg
    cases hg

/-- **Declarations and styled nodes belong together one by one.** If components can be made for all
styled nodes, there is one declaration for each of them, in the order of the tree: it has the name
that the node has afterwards, wraps the tag that it had before and holds its style. Apart from the
names of the styled nodes, nothing is changed but the styles, which are gone from all nodes. -/
theorem collectStyled_aligned {c c' : Component} {made : List Styled}
    (hkeys : ∀ h ∈ c.heads, (h.bindings.map Prod.fst).Nodup)
    (hcollect : (collectStyled c).toOutcome = .ok (made, c')) :
    c' = { c with children := c'.children } ∧ Node.MatchesAll Dressed c.children c'.children ∧
      List.Forall₂ DeclaredFor (styledPairs c.heads c'.heads) (made.map Styled.declaration) ∧
      styledDeclarations made = "\n\n".intercalate (made.map Styled.declaration) := by
  obtain ⟨⟨s, c₁⟩, hpass, heq⟩ := Progress.map_eq_ok.1 hcollect
  cases heq
  obtain ⟨hchildren, hmatches, hlist⟩ := Component.of_passHeads hpass
  obtain ⟨made, hmade, hdeclared⟩ := declaredFor_of_passList hlist
  rw [List.nil_append] at hmade
  rw [hmade]
  refine ⟨hchildren, hmatches.imp_of_mem ?_, hdeclared, rfl⟩
  exact fun h hh h' => dressed_of_stepsTo (hkeys h hh)

theorem collectStyled_aligned_gallery :
    (∀ h ∈ gallery.heads, (h.bindings.map Prod.fst).Nodup) ∧
      ∃ made c', (collectStyled gallery).toOutcome = .ok (made, c') ∧
        Node.MatchesAll Dressed gallery.children c'.children ∧
        List.Forall₂ DeclaredFor (styledPairs gallery.heads c'.heads)
          ["const Div = styled.div`\n  color: red;\n`;",
            "const StyledCard = styled(Card)`\n  color: blue;\n`;",
            "const Div2 = styled.div`\n  color: green;\n`;"] := by
  have hkeys : ∀ h ∈ gallery.heads, (h.bindings.map Prod.fst).Nodup := by
    simp [gallery, styledElement, Component.heads, Node.headsOf, Node.heads]
  have hdone : (collectStyled gallery).failure.isNone = true := by decide +kernel
  have hmade : (collectStyled gallery).value.1.map Styled.declaration =
      ["const Div = styled.div`\n  color: red;\n`;",
        "const StyledCard = styled(Card)`\n  color: blue;\n`;",
        "const Div2 = styled.div`\n  color: green;\n`;"] := by
    decide +kernel
  obtain ⟨made, c', hcollect, htexts⟩ := Progress.exists_of_isNone
    (P := fun made _ => made.map Styled.declaration =
      ["const Div = styled.div`\n  color: red;\n`;",
        "const StyledCard = styled(Card)`\n  color: blue;\n`;",
        "const Div2 = styled.div`\n  color: green;\n`;"]) hdone hmade
  obtain ⟨-, hmatches, hdeclared, -⟩ := collectStyled_aligned hkeys hcollect
  exact ⟨hkeys, made, c', hcollect, hmatches, htexts ▸ hdeclared⟩

end Style

end ReactWeave
