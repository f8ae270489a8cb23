import Mathlib.Data.List.Perm.Subperm
import ReactWeave.Proofs.Numbering

/-!
# ReactWeave.Proofs.ClassNames

**The classes of styled nodes** and the table of their style maps.

Every styled node gets a class: its tag, or its tag, a dash and a number if the
tag came up before. The table has the style map of each class, so no style is lost
exactly if no two nodes get the same class.

* `nodup_classes_iff`: the classes are distinct exactly if no tag looks like one of
  the numbered ones.
* `collectClasses_lossless_iff`: just then the table has one entry for each node.
-/

namespace ReactWeave.Style

/-! ## Tables -/

section Tables

variable {table : List (String × Map)}

theorem put_of_not_mem {name : String} (map : Map) (h : name ∉ table.map Prod.fst) :
    Classes.put name map table = table ++ [(name, map)] := by
  induction table with
  | nil => rfl
  | cons entry table ih =>
    obtain ⟨k, m⟩ := entry
    rw [List.map_cons, List.mem_cons, not_or] at h
    rw [Classes.put, if_neg (Ne.symm h.1), ih h.2, List.cons_append]

theorem keys_put_of_mem {name : String} (map : Map) (h : name ∈ table.map Prod.fst) :
    (Classes.put name map table).map Prod.fst = table.map Prod.fst := by
  induction table with
  | nil => cases h
  | cons entry table ih =>
    obtain ⟨k, m⟩ := entry
    rw [Classes.put]
    by_cases hk : k = name
    · rw [if_pos hk]
      rfl
    · rw [if_neg hk, List.map_cons, List.map_cons]
      rw [List.map_cons, List.mem_cons] at h
      rw [ih (h.resolve_left (Ne.symm hk))]

/-- Sets the style maps of classes, one after the other. -/
def putAll (table : List (String × Map)) : List (String × Map) → List (String × Map)
  | [] => table
  | (name, map) :: entries => putAll (Classes.put name map table) entries

theorem putAll_of_nodup (table : List (String × Map)) {entries : List (String × Map)}
    (h : ((table ++ entries).map Prod.fst).Nodup) : putAll table entries = table ++ entries := by
  induction entries generalizing table with
  | nil => rw [putAll, List.append_nil]
  | cons entry entries ih =>
    obtain ⟨name, map⟩ := entry
    have hname : name ∉ table.map Prod.fst := by
      rw [List.map_append, List.map_cons] at h
      exact fun hmem => (List.nodup_append.1 h).2.2 name hmem name List.mem_cons_self rfl
    have hassoc : table ++ [(name, map)] ++ entries = table ++ (name, map) :: entries := by simp
    rw [putAll, put_of_not_mem map hname, ih _ (by rwa [hassoc]), hassoc]

/-- A table that is filled keeps its keys distinct, and gets no keys but those of the entries. -/
theorem keys_putAll {table : List (String × Map)} (h : (table.map Prod.fst).Nodup)
    (entries : List (String × Map)) :
    ((putAll table entries).map Prod.fst).Nodup ∧
      (putAll table entries).map Prod.fst ⊆ (table ++ entries).map Prod.fst := by
  induction entries generalizing table with
  | nil => exact ⟨h, by simp [putAll]⟩
  | cons entry entries ih =>
    obtain ⟨name, map⟩ := entry
    rw [putAll]
    by_cases hname : name ∈ table.map Prod.fst
    · have hkeys := keys_put_of_mem map hname
      obtain ⟨hnodup, hsub⟩ := ih (hkeys ▸ h)
      refine ⟨hnodup, fun k hk => ?_⟩
      have hk := hsub hk
      rw [List.map_append, hkeys, List.mem_append] at hk
      rw [List.map_append, List.mem_append, List.map_cons]
      exact hk.imp id (List.mem_cons_of_mem _)
    · have hput := put_of_not_mem map hname
      have hnew : ((Classes.put name map table).map Prod.fst).Nodup := by
        rw [hput, List.map_append]
        refine List.nodup_append.2 ⟨h, List.nodup_singleton _, ?_⟩
        rintro a ha b hb rfl
        obtain rfl := List.mem_singleton.1 hb
        exact hname ha
      have hassoc : Classes.put name map table ++ entries = table ++ (name, map) :: entries := by
        simp [hput]
      obtain ⟨hnodup, hsub⟩ := ih hnew
      rw [hassoc] at hsub
      exact ⟨hnodup, hsub⟩

theorem length_putAll_iff (entries : List (String × Map)) :
    (putAll [] entries).length = entries.length ↔ (entries.map Prod.fst).Nodup := by
  constructor
  · intro hlength
    have hnil : (([] : List (String × Map)).map Prod.fst).Nodup := List.nodup_nil
    obtain ⟨hnodup, hsub⟩ := keys_putAll hnil entries
    have hperm := (List.subperm_of_subset hnodup hsub).perm_of_length_le (by simp [hlength])
    exact hperm.nodup_iff.1 hnodup
  · intro hnodup
    rw [putAll_of_nodup [] hnodup, List.nil_append]

theorem lookup_of_mem_nodup {entries : List (String × Map)} (h : (entries.map Prod.fst).Nodup)
    {e : String × Map} (he : e ∈ entries) : entries.lookup e.1 = some e.2 := by
  obtain ⟨before, rest, rfl⟩ := List.append_of_mem he
  rw [List.map_append, List.nodup_append] at h
  refine List.lookup_eq_some_iff.2 ⟨before, rest, rfl, fun p hp => bne_iff_ne.2 fun heq => ?_⟩
  exact h.2.2 p.1 (List.mem_map_of_mem hp) e.1 (by simp) heq.symm

end Tables

/-! ## Styled nodes -/

/-- A styled node: its tag and its style map. -/
structure Garment where
  tag : String
  map : Map

/-- The spelling of its tag in classes. -/
def Garment.base (g : Garment) : String := Naming.dashCase g.tag

/-- The styled node that a head is, if its tag is a text and its style can be read. -/
def garment? (h : Head) : Option Garment :=
  h.style?.bind fun css =>
    match h.name, readMap css with
    | .str tag, .ok map => some ⟨tag, map⟩
    | _, _ => none

theorem name_of_garment {h : Head} {g : Garment} (hg : garment? h = some g) :
    h.style?.isSome = true ∧ h.name = .str g.tag := by
  obtain ⟨css, hcss, hg⟩ := Option.bind_eq_some_iff.1 hg
  split at hg
  · rename_i tag map htag hmap
    cases hg
    exact ⟨by rw [hcss]; rfl, htag⟩
  · cases hg

/-- Whether all styled heads have texts as tags, and styles that can be read. -/
def Legible (hs : List Head) : Prop := ∀ h ∈ hs, h.style?.isSome = true → (garment? h).isSome = true

instance (hs : List Head) : Decidable (Legible hs) :=
  inferInstanceAs (Decidable (∀ h ∈ hs, h.style?.isSome = true → (garment? h).isSome = true))

/-- The heads without their styles, and with these classes on the styled ones. -/
def outfit (property : String) : List String → List Head → List Head
  | _, [] => []
  | [], h :: hs => unstyled h :: outfit property [] hs
  | name :: names, h :: hs =>
    if h.style?.isSome then addClass property name (unstyled h) :: outfit property names hs
    else unstyled h :: outfit property (name :: names) hs

section Collecting

variable {property : String}

theorem outfit_of_none {h : Head} (hs : List Head) (names : List String) (hnone : h.style? = none) :
    outfit property names (h :: hs) = unstyled h :: outfit property names hs := by
  cases names with
  | nil => rfl
  | cons name names => simp [outfit, hnone]

theorem classify_of_none {h : Head} (hnone : h.style? = none) (s : Classes) :
    classify property s h = .done (s, unstyled h) := by
  simp [classify, hnone]

theorem classify_of_garment {h : Head} {g : Garment} (hg : garment? h = some g) (s : Classes) :
    classify property s h =
      .done (⟨s.counts.add g.base, Classes.put (s.counts.next g.base "-") g.map s.maps⟩,
        addClass property (s.counts.next g.base "-") (unstyled h)) := by
  obtain ⟨css, hcss, hg⟩ := Option.bind_eq_some_iff.1 hg
  split at hg
  · rename_i tag map htag hmap
    cases hg
    simp [classify, hcss, htag, hmap, classBase, Garment.base]
  · cases hg

/-- **What the collector does to a list of heads**: the styled ones get the classes of their tags,
and the table has an entry for each of them. -/
theorem passList_classify (property : String) {hs : List Head} (hlegible : Legible hs)
    (s : Classes) :
    ∃ counts, passList (classify property) s hs =
      .ok (⟨counts, putAll s.maps
          ((numbered "-" s.counts ((hs.filterMap garment?).map Garment.base)).zip
            ((hs.filterMap garment?).map Garment.map))⟩,
        outfit property (numbered "-" s.counts ((hs.filterMap garment?).map Garment.base)) hs) := by
  induction hs generalizing s with
  | nil => exact ⟨s.counts, rfl⟩
  | cons h hs ih =>
    obtain ⟨hh, hrest⟩ := List.forall_mem_cons.1 hlegible
    cases hstyle : h.style? with
    | none =>
      have hg : garment? h = none := by simp [garment?, hstyle]
      obtain ⟨counts, hcounts⟩ := ih hrest s
      refine ⟨counts, ?_⟩
      rw [passList_cons_done (classify_of_none hstyle s), hcounts,
        List.filterMap_cons_none hg, outfit_of_none hs _ hstyle]
      rfl
    | some css =>
      obtain ⟨g, hg⟩ := Option.isSome_iff_exists.1 (hh (by rw [hstyle]; rfl))
      obtain ⟨counts, hcounts⟩ := ih hrest
        ⟨s.counts.add g.base, Classes.put (s.counts.next g.base "-") g.map s.maps⟩
      refine ⟨counts, ?_⟩
      rw [passList_cons_done (classify_of_garment hg s), hcounts,
        List.filterMap_cons_some hg, List.map_cons, List.map_cons, numbered_cons, outfit,
        hstyle]
      rfl

end Collecting

/-! ## Distinct classes -/

/-- Whether no tag looks like a numbered class that another one gets. -/
def Apart (bases : List String) : Prop :=
  ∀ b ∈ bases, ∀ n ≤ bases.count b, 2 ≤ n → nth "-" b n ∉ bases

instance (bases : List String) : Decidable (Apart bases) :=
  inferInstanceAs (Decidable (∀ b ∈ bases, ∀ n ≤ bases.count b, 2 ≤ n → nth "-" b n ∉ bases))

/-- **The classes are distinct** exactly if no tag looks like one of them. -/
theorem nodup_classes_iff (bases : List String) :
    (numbered "-" [] bases).Nodup ↔ Apart bases := by
  rw [nodup_numbered_iff]
  refine and_iff_left fun b n b' n' htwo _ htwo' _ heq => ?_
  rcases dashed_inj heq with hsame | ⟨rfl, -, -⟩ | ⟨rfl, -, -⟩
  · exact hsame
  · omega
  · omega

/-- The styled nodes of a component. -/
def garments (c : Component) : List Garment := c.heads.filterMap garment?

/-- The classes of the styled nodes of a component. -/
def classesOf (c : Component) : List String := numbered "-" [] ((garments c).map Garment.base)

/-- **When no style is lost.** If the styles can be read, the collector goes through, and every
styled node gets its class. The classes are distinct, and the table has one entry for each styled
node, exactly if no tag looks like the numbered class of another. Then the class of each node stands
for its own style map. -/
theorem collectClasses_lossless_iff (property : String) {c : Component}
    (hlegible : Legible c.heads) :
    ∃ table c', (collectClasses property c).toOutcome = .ok (table, c') ∧
      c'.heads = outfit property (classesOf c) c.heads ∧
      (classesOf c).length = (garments c).length ∧
      ((classesOf c).Nodup ↔ Apart ((garments c).map Garment.base)) ∧
      (table.length = (garments c).length ↔ Apart ((garments c).map Garment.base)) ∧
      (Apart ((garments c).map Garment.base) →
        ∀ e ∈ (classesOf c).zip (garments c), table.lookup e.1 = some e.2.map) := by
  let entries := (classesOf c).zip ((garments c).map Garment.map)
  have hlength : (classesOf c).length = (garments c).length := by
    rw [classesOf, length_numbered, List.length_map]
  have hkeys : entries.map Prod.fst = classesOf c := List.map_fst_zip (by simp [hlength])
  have hnodup : (classesOf c).Nodup ↔ Apart ((garments c).map Garment.base) :=
    nodup_classes_iff _
  obtain ⟨counts, hpass⟩ := passList_classify property hlegible ⟨[], []⟩
  rw [← Component.passHeads_heads] at hpass
  obtain ⟨⟨s, c'⟩, hc', heq⟩ := map_eq_ok.1 hpass
  obtain ⟨rfl, hheads⟩ := Prod.mk.inj heq
  have hcollect : (collectClasses property c).toOutcome = .ok (putAll [] entries, c') :=
    Progress.map_eq_ok.2 ⟨_, hc', rfl⟩
  refine ⟨putAll [] entries, c', hcollect, hheads, hlength, hnodup, ?_, ?_⟩
  · have hentries : entries.length = (garments c).length := by simp [entries, hlength]
    rw [← hentries, length_putAll_iff, hkeys, hnodup]
  · intro hapart e he
    have hdistinct : (entries.map Prod.fst).Nodup := by rwa [hkeys, hnodup]
    have hmem : (e.1, e.2.map) ∈ entries := by
      simp only [entries, List.zip_map_right, List.mem_map]
      exact ⟨e, he, rfl⟩
    have hput : putAll [] entries = entries := putAll_of_nodup [] hdistinct
    rw [hput]
    exact lookup_of_mem_nodup hdistinct hmem

/-- A styled element. -/
def styledElement (tag css : String) : Node :=
  ⟨⟨.str tag, [], [(.str cssKey, .str css)]⟩, []⟩

/-- A component with three styled nodes, two of which have the same tag. -/
def panel : Component :=
  ⟨.str "Panel", [], .null, .null, [],
    [styledElement "div" "\x7bcolor: 'red'\x7d", styledElement "div" "\x7bcolor: 'blue'\x7d",
      styledElement "span" "\x7bcolor: 'green'\x7d"]⟩

theorem collectClasses_lossless_iff_panel :
    Legible panel.heads ∧ Apart ((garments panel).map Garment.base) ∧
      classesOf panel = ["div", "div-2", "span"] ∧ (classesOf panel).Nodup ∧
      ∃ table c', (collectClasses "class" panel).toOutcome = .ok (table, c') ∧ table.length = 3 ∧
        ∀ e ∈ (classesOf panel).zip (garments panel), table.lookup e.1 = some e.2.map := by
  have hlegible : Legible panel.heads := by decide +kernel
  have hbases : (garments panel).map Garment.base = ["div", "div", "span"] := by decide +kernel
  have hcount : (garments panel).length = 3 := by
    rw [← List.length_map (f := Garment.base), hbases]
    rfl
  have hapart : Apart ((garments panel).map Garment.base) := by
    rw [hbases]
    decide +kernel
  have hclasses : classesOf panel = ["div", "div-2", "span"] := by
    rw [classesOf, hbases]
    decide +kernel
  obtain ⟨table, c', hcollect, -, -, hnodup, hlength, hown⟩ :=
    collectClasses_lossless_iff "class" hlegible
  exact ⟨hlegible, hapart, hclasses, hnodup.2 hapart, table, c', hcollect,
    (hlength.2 hapart).trans hcount, hown hapart⟩

/-- A component in which the third tag looks like the second class of the first one. -/
def crowd : Component :=
  ⟨.str "Crowd", [], .null, .null, [],
    [styledElement "div" "\x7bcolor: 'red'\x7d", styledElement "div" "\x7bcolor: 'blue'\x7d",
      styledElement "div-2" "\x7bcolor: 'green'\x7d"]⟩

/-- Two nodes get the same class, and the style of the second node is lost. -/
theorem collectClasses_shares_class :
    Legible crowd.heads ∧ classesOf crowd = ["div", "div-2", "div-2"] ∧
      ∃ table c', (collectClasses "class" crowd).toOutcome = .ok (table, c') ∧
        c'.heads.map (fun h => h.properties.map fun p => (p.1.asText, p.2.asText)) =
          [[("class", "div")], [("class", "div-2")], [("class", "div-2")]] ∧
        table.map (fun e => (e.1, declarations e.2)) =
          [("div", ["color: red;"]), ("div-2", ["color: green;"])] := by
  have hlegible : Legible crowd.heads := by decide +kernel
  have hclasses : classesOf crowd = ["div", "div-2", "div-2"] := by decide +kernel
  have hdone : (collectClasses "class" crowd).failure.isNone = true := by decide +kernel
  have hworn : (collectClasses "class" crowd).value.2.heads.map
      (fun h => h.properties.map fun p => (p.1.asText, p.2.asText)) =
        [[("class", "div")], [("class", "div-2")], [("class", "div-2")]] := by
    decide +kernel
  have htable : (collectClasses "class" crowd).value.1.map (fun e => (e.1, declarations e.2)) =
      [("div", ["color: red;"]), ("div-2", ["color: green;"])] := by
    decide +kernel
  exact ⟨hlegible, hclasses, Progress.exists_of_isNone hdone ⟨hworn, htable⟩⟩

end ReactWeave.Style
