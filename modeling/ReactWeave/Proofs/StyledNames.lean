import Mathlib.Data.List.Induction
import ReactWeave.Proofs.ClassNames
import ReactWeave.Proofs.TagSpelling

/-!
# ReactWeave.Proofs.StyledNames

**The names of styled components** and what they may clash with.

Every styled node gets a component. Its name is made from the tag of the node, and
numbered if it was given out before. No mark stands between the name and the
number, so a name that ends in digits may look like the numbered one of another
tag.

* `collectStyled_declares_iff`: when the declarations are those of distinct names
  that nothing else has.
-/

namespace ReactWeave.Style

open Script (isPlainName)

/-! ## Numbers behind names -/

/-- The first digits of a number are a number. -/
theorem exists_toDigits_of_append {ds us : List Char} {n : Nat} (hds : ds ≠ [])
    (h : ds ++ us = Nat.toDigits 10 n) : ∃ m ≤ n, (0 < n → 0 < m) ∧ ds = Nat.toDigits 10 m := by
  -- To take off the last digit is to divide by ten.
  induction us using List.reverseRecOn generalizing n with
  | nil => exact ⟨n, Nat.le_refl n, id, by simpa using h⟩
  | append_singleton us d ih =>
    rw [← List.append_assoc] at h
    by_cases hn : n < 10
    · rw [Nat.toDigits_of_lt_base hn] at h
      have hlength := congrArg List.length h
      have hpos := List.length_pos_iff.2 hds
      simp at hlength
      omega
    · have hlast : Nat.toDigits 10 n = Nat.toDigits 10 (n / 10) ++ Nat.toDigits 10 (n % 10) := by
        rw [Nat.toDigits_append_toDigits (by decide) (by omega) (by omega)]
        congr
        omega
      rw [hlast, Nat.toDigits_of_lt_base (Nat.mod_lt n (by decide))] at h
      obtain ⟨m, hm, hpos, heq⟩ := ih (List.append_inj_left' h rfl)
      exact ⟨m, by omega, fun _ => hpos (by omega), heq⟩

theorem le_of_toDigits_one {n n' : Nat} (h : Nat.toDigits 10 n = '1' :: Nat.toDigits 10 n') :
    n' + 10 ≤ n := by
  have hvalue := congrArg (Nat.ofDigitChars 10 · 0) h
  simp only [Nat.ofDigitChars_cons, Nat.ofDigitChars_ten_toDigits] at hvalue
  rw [Nat.ofDigitChars_eq_ofDigitChars_zero, Nat.ofDigitChars_ten_toDigits] at hvalue
  have hlength : 0 < (Nat.toDigits 10 n').length := List.length_pos_iff.2 Nat.toDigits_ne_nil
  have hpower : 10 ^ 1 ≤ 10 ^ (Nat.toDigits 10 n').length :=
    Nat.pow_le_pow_right (by decide) hlength
  simp only [Char.reduceToNat] at hvalue
  omega

/-- Whether no base is another one with a number behind it that comes up, and none with a one behind
it comes up twice if the other comes up twelve times. -/
def Spread (bases : List String) : Prop :=
  (∀ b ∈ bases, ∀ n ≤ bases.count b, 2 ≤ n → nth "" b n ∉ bases) ∧
    ∀ b ∈ bases, 12 ≤ bases.count b → bases.count (b ++ "1") < 2

instance (bases : List String) : Decidable (Spread bases) :=
  inferInstanceAs (Decidable ((∀ b ∈ bases, ∀ n ≤ bases.count b, 2 ≤ n → nth "" b n ∉ bases) ∧
    ∀ b ∈ bases, 12 ≤ bases.count b → bases.count (b ++ "1") < 2))

/-- Spread bases are numbered apart: no number runs into the digits of another base. -/
theorem Spread.eq_nil {bases : List String} (h : Spread bases) {b b' : String} {n n' : Nat}
    {ds : List Char} (htwo : 2 ≤ n) (hn : n ≤ bases.count b) (htwo' : 2 ≤ n')
    (hn' : n' ≤ bases.count b') (hbase : b'.toList = b.toList ++ ds)
    (hdigits : Nat.toDigits 10 n = ds ++ Nat.toDigits 10 n') : ds = [] := by
  by_contra hds
  have hb : b ∈ bases := List.count_pos_iff.1 (by omega)
  have hb' : b' ∈ bases := List.count_pos_iff.1 (by omega)
  obtain ⟨m, hm, hpos, heq⟩ := exists_toDigits_of_append hds hdigits.symm
  by_cases hone : m = 1
  · -- The longer base has a one more at its end, so the other number is one of twelve and more.
    obtain rfl : ds = ['1'] := by rw [heq, hone]; rfl
    have hmore := le_of_toDigits_one hdigits
    have hname : b' = b ++ "1" := by
      apply String.toList_injective
      rw [hbase, String.toList_append]
      rfl
    have hfew := h.2 b hb (by omega)
    rw [← hname] at hfew
    omega
  · have hname : nth "" b m = b' := by
      apply String.toList_injective
      rw [toList_nth_of_ne b hone, hbase, heq]
    have hpos := hpos (by omega)
    exact h.1 b hb m (by omega) (by omega) (hname ▸ hb')

theorem Spread.joined_inj {bases : List String} (h : Spread bases) {b b' : String} {n n' : Nat}
    (htwo : 2 ≤ n) (hn : n ≤ bases.count b) (htwo' : 2 ≤ n') (hn' : n' ≤ bases.count b')
    (heq : nth "" b n = nth "" b' n') : b = b' ∧ n = n' := by
  have hchars := congrArg String.toList heq
  rw [toList_nth_of_ne b (by omega), toList_nth_of_ne b' (by omega)] at hchars
  -- One of the bases goes on with digits that the number of the other starts with.
  rcases List.append_eq_append_iff.1 hchars with ⟨ds, hbase, hdigits⟩ | ⟨ds, hbase, hdigits⟩
  · obtain rfl := h.eq_nil htwo hn htwo' hn' hbase hdigits
    rw [List.append_nil] at hbase
    exact ⟨(String.toList_injective hbase).symm, toDigits_inj hdigits⟩
  · obtain rfl := h.eq_nil htwo' hn' htwo hn hbase hdigits
    rw [List.append_nil] at hbase
    exact ⟨String.toList_injective hbase, (toDigits_inj hdigits).symm⟩

/-- **The names are distinct** exactly if the bases are spread. -/
theorem nodup_names_iff (bases : List String) :
    (numbered "" [] bases).Nodup ↔ Spread bases := by
  rw [nodup_numbered_iff]
  constructor
  · rintro ⟨hapart, hinj⟩
    refine ⟨hapart, fun b _ htwelve => ?_⟩
    -- The twelfth name of one base is the second one of the other.
    by_contra htwo
    have hsame : nth "" b 12 = nth "" (b ++ "1") 2 := by
      apply String.toList_injective
      rw [toList_nth_of_ne b (by decide), toList_nth_of_ne (b ++ "1") (by decide),
        String.toList_append, List.append_assoc]
      rfl
    have heq := hinj b 12 (b ++ "1") 2 (by decide) htwelve (Nat.le_refl 2) (by omega) hsame
    cases heq.2
  · intro hspread
    exact ⟨hspread.1, fun b n b' n' htwo hn htwo' hn' heq =>
      hspread.joined_inj htwo hn htwo' hn' heq⟩

/-- Whether no node with one of these bases gets the name. -/
def IsFree (bases : List String) (name : String) : Prop :=
  ∀ b ∈ bases, ∀ n ≤ bases.count b, 0 < n → nth "" b n ≠ name

instance (bases : List String) (name : String) : Decidable (IsFree bases name) :=
  inferInstanceAs (Decidable (∀ b ∈ bases, ∀ n ≤ bases.count b, 0 < n → nth "" b n ≠ name))

theorem not_mem_names_iff {bases : List String} {name : String} :
    name ∉ numbered "" [] bases ↔ IsFree bases name := by
  constructor
  · intro hmem b _ n hn hpos heq
    exact hmem (List.mem_map.2 ⟨(b, n), mem_ranked_nil.2 ⟨hpos, hn⟩, heq⟩)
  · intro hfree hmem
    obtain ⟨⟨b, n⟩, hrank, heq⟩ := List.mem_map.1 hmem
    obtain ⟨hpos, hn⟩ := mem_ranked_nil.1 hrank
    exact hfree b (List.count_pos_iff.1 (by omega)) n hn hpos heq

/-! ## Styled nodes -/

/-- Whether all styled heads have tags, and styles that can be read. -/
def Wearable (hs : List Head) : Prop :=
  Legible hs ∧ ∀ g ∈ hs.filterMap garment?, isTagName g.tag = true

instance (hs : List Head) : Decidable (Wearable hs) :=
  inferInstanceAs (Decidable (Legible hs ∧ ∀ g ∈ hs.filterMap garment?, isTagName g.tag = true))

/-- The components for styled nodes, if `counts` names were given out before. -/
def tailored (counts : Counts) : List Garment → List Styled
  | [] => []
  | g :: gs => ⟨counts.next (baseOf g.tag) "", g.tag, targetOf g.tag, g.map⟩ ::
      tailored (counts.add (baseOf g.tag)) gs

theorem map_tag_tailored (counts : Counts) (gs : List Garment) :
    (tailored counts gs).map Styled.tag = gs.map Garment.tag := by
  induction gs generalizing counts with
  | nil => rfl
  | cons g gs ih => rw [tailored, List.map_cons, List.map_cons, ih]

theorem map_name_tailored (counts : Counts) (gs : List Garment) :
    (tailored counts gs).map Styled.name =
      numbered "" counts ((gs.map Garment.tag).map baseOf) := by
  induction gs generalizing counts with
  | nil => rfl
  | cons g gs ih =>
    rw [tailored, List.map_cons, ih]
    rfl

/-- Whether a component has a name and styles an operand, so that its declaration can be read. -/
def Styled.Declares (s : Styled) : Prop :=
  isPlainName s.name.toList = true ∧ IsOperand s.target.toList

theorem declares_tailored_iff (counts : Counts) {gs : List Garment}
    (htags : ∀ g ∈ gs, isTagName g.tag = true) :
    (∀ s ∈ tailored counts gs, s.Declares) ↔ ∀ tag ∈ gs.map Garment.tag, isPlainTag tag = true := by
  induction gs generalizing counts with
  | nil => simp [tailored]
  | cons g gs ih =>
    obtain ⟨htag, hrest⟩ := List.forall_mem_cons.1 htags
    rw [tailored, List.map_cons, List.forall_mem_cons, List.forall_mem_cons, ih _ hrest]
    exact and_congr_left' (declares_iff htag (counts.get (baseOf g.tag) + 1))

theorem dress_of_none {h : Head} (hnone : h.style? = none) (s : Wardrobe) :
    dress s h = .done (s, unstyled h) := by
  simp [dress, hnone]

theorem dress_of_garment {h : Head} {g : Garment} (hg : garment? h = some g) (s : Wardrobe) :
    dress s h =
      .done (⟨s.counts.add (baseOf g.tag), s.made ++
          [⟨s.counts.next (baseOf g.tag) "", g.tag, targetOf g.tag, g.map⟩]⟩,
        { unstyled h with name := .str (s.counts.next (baseOf g.tag) "") }) := by
  obtain ⟨css, hcss, hg⟩ := Option.bind_eq_some_iff.1 hg
  split at hg
  · rename_i tag map htag hmap
    cases hg
    simp [dress, hcss, htag, hmap, styledBase_str, Json.asText]
  · cases hg

/-- A style that is on no text, or that cannot be read, stops both collectors. -/
theorem failure_of_no_garment {h : Head} {css : String} (hcss : h.style? = some css)
    (hg : garment? h = none) :
    (∀ property s, (classify property s h).failure ≠ none) ∧ ∀ s, (dress s h).failure ≠ none := by
  rw [garment?, hcss, Option.bind_some] at hg
  cases hname : h.name with
  | str tag =>
    cases hmap : readMap css with
    | error e => simp [classify, dress, hcss, hname, classBase, styledBase_str, hmap]
    | ok map => simp [hname, hmap] at hg
  | _ => simp [classify, dress, hcss, hname, classBase, styledBase]

/-- **All that happens to one node**: without a style it only loses its binding; with one it takes the
next name of its tag as well, under which its component is made. -/
theorem dress_cases {s s' : Wardrobe} {h h' : Head}
    (hstep : (dress s h).toOutcome = .ok (s', h')) :
    (h.style? = none ∧ s' = s ∧ h' = unstyled h) ∨
      ∃ g, garment? h = some g ∧ s'.counts = s.counts.add (baseOf g.tag) ∧
        s'.made = s.made ++ [⟨s.counts.next (baseOf g.tag) "", g.tag, targetOf g.tag, g.map⟩] ∧
        h' = { unstyled h with name := .str (s.counts.next (baseOf g.tag) "") } := by
  cases hstyle : h.style? with
  | none =>
    rw [dress_of_none hstyle] at hstep
    cases hstep
    exact .inl ⟨rfl, rfl, rfl⟩
  | some css =>
    cases hg : garment? h with
    | some g =>
      rw [dress_of_garment hg] at hstep
      cases hstep
      exact .inr ⟨g, rfl, rfl, rfl, rfl⟩
    | none =>
      exact absurd (Progress.toOutcome_eq_ok.1 hstep).1 ((failure_of_no_garment hstyle hg).2 s)

/-- **What the collector makes for a list of heads**: a component for each styled one. -/
theorem passList_dress {hs : List Head} (hlegible : Legible hs) (s : Wardrobe) :
    ∃ counts hs', passList dress s hs =
      .ok (⟨counts, s.made ++ tailored s.counts (hs.filterMap garment?)⟩, hs') := by
  induction hs generalizing s with
  | nil => exact ⟨s.counts, [], by simp [passList, tailored]⟩
  | cons h hs ih =>
    obtain ⟨hh, hrest⟩ := List.forall_mem_cons.1 hlegible
    cases hstyle : h.style? with
    | none =>
      have hg : garment? h = none := by simp [garment?, hstyle]
      obtain ⟨counts, hs', hpass⟩ := ih hrest s
      refine ⟨counts, unstyled h :: hs', ?_⟩
      rw [passList_cons_done (dress_of_none hstyle s), hpass, List.filterMap_cons_none hg]
      rfl
    | some css =>
      obtain ⟨g, hg⟩ := Option.isSome_iff_exists.1 (hh (by rw [hstyle]; rfl))
      obtain ⟨counts, hs', hpass⟩ := ih hrest ⟨s.counts.add (baseOf g.tag), s.made ++
        [⟨s.counts.next (baseOf g.tag) "", g.tag, targetOf g.tag, g.map⟩]⟩
      refine ⟨counts, { unstyled h with name := .str (s.counts.next (baseOf g.tag) "") } :: hs',
        ?_⟩
      rw [passList_cons_done (dress_of_garment hg s), hpass, List.filterMap_cons_some hg,
        tailored, List.append_assoc]
      rfl

/-! ## Declarations -/

/-- The tags of the styled nodes of a component. -/
def styledTags (c : Component) : List String := (garments c).map Garment.tag

/-- The names that are there besides those of the styled components: that of the component itself,
and those that its import statements bind. -/
def takenNames (c : Component) : List String :=
  c.name.asText :: (c.imports.filter fun i => !i.path.same (.str corePath)).flatMap fun i =>
    i.names.map fun field => field.1.asText

/-- **When the declarations of styled components are sound.** If the styled nodes have tags, and
their styles can be read, every one of them gets a component. All declarations can be read exactly
if the tags are plain; their names are distinct exactly if the bases are spread; and nothing else
has one of the names exactly if the other names are free. -/
theorem collectStyled_declares_iff {c : Component} (hwear : Wearable c.heads) :
    ∃ made c', (collectStyled c).toOutcome = .ok (made, c') ∧
      made.map Styled.tag = styledTags c ∧
      ((∀ s ∈ made, s.Declares) ↔ ∀ tag ∈ styledTags c, isPlainTag tag = true) ∧
      ((made.map Styled.name).Nodup ↔ Spread ((styledTags c).map baseOf)) ∧
      ((∀ name ∈ takenNames c, name ∉ made.map Styled.name) ↔
        ∀ name ∈ takenNames c, IsFree ((styledTags c).map baseOf) name) := by
  let gs := garments c
  obtain ⟨counts, hs', hpass⟩ := passList_dress hwear.1 ⟨[], []⟩
  rw [← Component.passHeads_heads] at hpass
  obtain ⟨⟨s, c'⟩, hc', heq⟩ := map_eq_ok.1 hpass
  obtain ⟨rfl, -⟩ := Prod.mk.inj heq
  have hcollect : (collectStyled c).toOutcome = .ok (tailored [] gs, c') :=
    Progress.map_eq_ok.2 ⟨_, hc', rfl⟩
  have hnames : (tailored [] gs).map Styled.name = numbered "" [] ((styledTags c).map baseOf) :=
    map_name_tailored [] gs
  refine ⟨tailored [] gs, c', hcollect, map_tag_tailored [] gs, declares_tailored_iff [] hwear.2,
    ?_, ?_⟩
  · rw [hnames, nodup_names_iff]
  · simp only [hnames, not_mem_names_iff]

/-- A component with an imported card in it, and with two boxes. -/
def gallery : Component :=
  ⟨.str "Gallery", [], .null, .null,
    [⟨.str "./card", [(.str "Card", .str "default"), (.str "Div3", .str "Third")]⟩],
    [⟨⟨.str "div", [], [(.str cssKey, .str "\x7bcolor: 'red'\x7d")]⟩,
      [styledElement "Card" "\x7bcolor: 'blue'\x7d",
        styledElement "div" "\x7bcolor: 'green'\x7d"]⟩]⟩

theorem collectStyled_declares_iff_gallery :
    Wearable gallery.heads ∧ takenNames gallery = ["Gallery", "Card", "Div3"] ∧
      numbered "" [] ((styledTags gallery).map baseOf) = ["Div", "StyledCard", "Div2"] ∧
      ∃ made c', (collectStyled gallery).toOutcome = .ok (made, c') ∧
        made.map Styled.tag = ["div", "Card", "div"] ∧ (∀ s ∈ made, s.Declares) ∧
        (made.map Styled.name).Nodup ∧
        ∀ name ∈ takenNames gallery, name ∉ made.map Styled.name := by
  have hwear : Wearable gallery.heads := by decide +kernel
  have htags : styledTags gallery = ["div", "Card", "div"] := by decide +kernel
  have htaken : takenNames gallery = ["Gallery", "Card", "Div3"] := by decide +kernel
  have hplain : ∀ tag ∈ styledTags gallery, isPlainTag tag = true := by
    rw [htags]
    decide +kernel
  have hspread : Spread ((styledTags gallery).map baseOf) := by
    rw [htags]
    decide +kernel
  have hfree : ∀ name ∈ takenNames gallery, IsFree ((styledTags gallery).map baseOf) name := by
    rw [htags, htaken]
    decide +kernel
  have hnames :
      numbered "" [] ((styledTags gallery).map baseOf) = ["Div", "StyledCard", "Div2"] := by
    rw [htags]
    decide +kernel
  obtain ⟨made, c', hcollect, hmade, hdeclares, hnodup, hapart⟩ := collectStyled_declares_iff hwear
  exact ⟨hwear, htaken, hnames, made, c', hcollect, hmade.trans htags, hdeclares.2 hplain,
    hnodup.2 hspread, hapart.2 hfree⟩

/-- A component in which the third tag has the number of the second name at its end. -/
def shelf : Component :=
  ⟨.str "Shelf", [], .null, .null, [],
    [styledElement "div" "\x7bcolor: 'red'\x7d", styledElement "div" "\x7bcolor: 'blue'\x7d",
      styledElement "div2" "\x7bcolor: 'green'\x7d"]⟩

/-- Two components are declared with the same name. -/
theorem collectStyled_shares_name :
    Wearable shelf.heads ∧ (∀ tag ∈ styledTags shelf, isPlainTag tag = true) ∧
      ∃ made c', (collectStyled shelf).toOutcome = .ok (made, c') ∧
        made.map Styled.declaration =
          ["const Div = styled.div`\n  color: red;\n`;",
            "const Div2 = styled.div`\n  color: blue;\n`;",
            "const Div2 = styled.div2`\n  color: green;\n`;"] ∧
        ¬(made.map Styled.name).Nodup := by
  have hdone : (collectStyled shelf).failure.isNone = true := by decide +kernel
  have hmade : (collectStyled shelf).value.1.map Styled.declaration =
      ["const Div = styled.div`\n  color: red;\n`;",
        "const Div2 = styled.div`\n  color: blue;\n`;",
        "const Div2 = styled.div2`\n  color: green;\n`;"] := by
    decide +kernel
  have hnames : ¬((collectStyled shelf).value.1.map Styled.name).Nodup := by decide +kernel
  exact ⟨by decide +kernel, by decide +kernel,
    Progress.exists_of_isNone hdone ⟨hmade, hnames⟩⟩

end ReactWeave.Style
