import ReactWeave.Proofs.Shapes
import ReactWeave.State.Setters

/-!
# ReactWeave.Proofs.SetterCalls

**Assignments become calls**, all of them, each once and in order.

The visitor `setterCall` answers for an assignment as a whole and asks for the
text of its right side, so a nested assignment is written by way of the outer
one. That none is lost there is a fact about shapes: besides its right side, an
assignment to a field holds a reference and leaves (`assignment_of_field`).

* `setterCalls_render` is the induction over trees, `useSetters_exact` the
  result for fragments.
-/

namespace ReactWeave.Script

open ReactWeave.Script.Tree

/-! ## Looking up parts -/

theorem Tree.sitesOf_append (start : Nat) (ts us : List Tree) :
    sitesOf start (ts ++ us) = sitesOf start ts ++ sitesOf (start + (textOf ts).length) us := by
  induction ts generalizing start with
  | nil => simp [sitesOf]
  | cons t ts ih => simp [sitesOf, ih, Nat.add_assoc]

namespace Site

theorem listFrom_append (start : Nat) (ts us : List Tree) :
    listFrom start (ts ++ us) = listFrom start ts ++ listFrom (start + (textOf ts).length) us := by
  induction ts generalizing start with
  | nil => simp [listFrom]
  | cons t ts ih => simp [listFrom, ih, Nat.add_assoc]

theorem tree_mem_of_mem_listFrom {p : Site} {start : Nat} {ts : List Tree}
    (h : p ∈ listFrom start ts) : p.tree ∈ ts := by
  induction ts generalizing start with
  | nil => simp [listFrom] at h
  | cons t ts ih =>
    simp only [listFrom, List.mem_cons] at h
    rcases h with rfl | h
    · exact List.mem_cons_self
    · exact List.mem_cons_of_mem _ (ih h)

theorem val_part? (s : Site) (r : Role) :
    (s.part? r).map Subtype.val =
      (listFrom s.start s.tree.parts).find? fun p => p.tree.role? == some r := by
  have hval : s.parts.map Subtype.val = listFrom s.start s.tree.parts := by
    rw [parts, List.map_pmap]
    exact List.pmap_eq_self.2 fun _ _ => rfl
  rw [← hval, List.find?_map]
  rfl

/-- The part with a role is found where it stands. -/
theorem part?_node {start : Nat} {k : Kind} {r : Option Role} {role : Role} {front : List Tree}
    {t : Tree} {back : List Tree} (hfront : ∀ p ∈ front, p.role? ≠ some role)
    (ht : t.role? = some role) :
    ∃ p : (Site.mk start (node k r (front ++ t :: back))).Part,
      p.val = ⟨start + (textOf front).length, t⟩ ∧
      (Site.mk start (node k r (front ++ t :: back))).part? role = some p := by
  have hfind := val_part? ⟨start, node k r (front ++ t :: back)⟩ role
  have hnone : (listFrom start front).find? (fun p => p.tree.role? == some role) = none := by
    rw [List.find?_eq_none]
    intro p hp
    simpa using hfront _ (tree_mem_of_mem_listFrom hp)
  simp only [Tree.parts, listFrom_append, List.find?_append, hnone, Option.none_or, listFrom,
    List.find?_cons, ht, beq_self_eq_true] at hfind
  obtain ⟨p, hp, hval⟩ := Option.map_eq_some_iff.1 hfind
  exact ⟨p, hval, hp⟩

end Site

theorem Tree.part?_node {k : Kind} {r : Option Role} {role : Role} {front : List Tree}
    {t : Tree} {back : List Tree} (hfront : ∀ p ∈ front, p.role? ≠ some role)
    (ht : t.role? = some role) : (node k r (front ++ t :: back)).part? role = some t := by
  have hnone : front.find? (fun p => p.role? == some role) = none := by
    rw [List.find?_eq_none]
    intro p hp
    simpa using hfront p hp
  simp [part?, parts, List.find?_append, hnone, ht]

end ReactWeave.Script

namespace ReactWeave.State

open Script Script.Tree

/-! ## Fields of the state -/

theorem part?_property {r : Option Role} {k : Kind} {object dot : Tree} {gap₁ gap₂ : List Tree}
    (hobject : object.role? = some .object) (hgap₁ : ∀ g ∈ gap₁, PlainTrivia g) (hdot : IsDot dot)
    (hgap₂ : ∀ g ∈ gap₂, PlainTrivia g) (name : List Char) :
    (node .member r (object :: (gap₁ ++ dot :: (gap₂ ++
      [token k (some .property) name])))).part? .property =
      some (token k (some .property) name) := by
  have hparts : object :: (gap₁ ++ dot :: (gap₂ ++ [token k (some .property) name])) =
      (object :: (gap₁ ++ dot :: gap₂)) ++ token k (some .property) name :: [] := by simp
  rw [hparts]
  refine Tree.part?_node ?_ rfl
  simp only [List.forall_mem_cons, List.forall_mem_append]
  refine ⟨by simp [hobject], fun g hg => by simp [(hgap₁ g hg).isTrivia.2], ?_,
    fun g hg => by simp [(hgap₂ g hg).isTrivia.2]⟩
  rcases hdot with rfl | rfl
  · simp [role?]
  · simp [role?]

/-- A field of the state is written as the word, a dot and a name, with gaps between them. -/
theorem member_of_field {t : Tree} {field : List Char} (hw : WellShaped t)
    (h : stateField? t = some field) :
    ∃ r gap₁ dot gap₂, t = node .member r (token .identifier (some .object) "state".toList ::
        (gap₁ ++ dot :: (gap₂ ++ [token .propertyIdentifier (some .property) field]))) ∧
      (∀ g ∈ gap₁, PlainTrivia g) ∧ IsDot dot ∧ (∀ g ∈ gap₂, PlainTrivia g) ∧
      Lexis.Wordlike field := by
  unfold stateField? at h
  split at h
  · rename_i hkind
    cases hw with
    | gap => cases hkind
    | token => simp [Tree.part?, Tree.parts] at h
    | @node k r ps hk hps =>
      have hk' : k = .member := by simpa [isKind, kind?] using hkind
      subst hk'
      obtain ⟨hobject, hgap₁, hdot, hgap₂, hname⟩ := hk.member rfl
      rename_i object dot gap₁ gap₂ k name
      have hfirst : (node .member r (object :: (gap₁ ++ dot :: (gap₂ ++
          [token k (some .property) name])))).part? .object = some object := by
        simp [Tree.part?, Tree.parts, hobject]
      have hlast := part?_property (r := r) (k := k) hobject hgap₁ hdot hgap₂ name
      rw [hfirst, hlast] at h
      split at h
      · rename_i r' o r'' field' heq heq'
        split at h
        · rename_i ho
          cases h
          cases heq
          cases heq'
          cases hobject
          exact ⟨r, gap₁, dot, gap₂, by rw [ho], hgap₁, hdot, hgap₂, hname rfl⟩
        · cases h
      · cases h
  · cases h

/-! ## Assignments to fields -/

/-- The fields that some parts assign to, in the order of the parts. -/
def assignedFields (sites : List Site) : List (List Char) :=
  sites.filterMap fun s => assignedField? s.tree

theorem assignedFields_append (a b : List Site) :
    assignedFields (a ++ b) = assignedFields a ++ assignedFields b := List.filterMap_append

theorem assignedFields_node (start : Nat) (k : Kind) (r : Option Role) (ps : List Tree) :
    assignedFields ((node k r ps).sites start) =
      (assignedField? (node k r ps)).toList ++ assignedFields (sitesOf start ps) := by
  rw [sites, assignedFields, List.filterMap_cons]
  cases assignedField? (node k r ps) <;> rfl

/-- Gaps and tokens. -/
def IsLeaf (t : Tree) : Prop := ∀ k r ps, t ≠ node k r ps

theorem isLeaf_token (k : Kind) (r : Option Role) (t : List Char) : IsLeaf (token k r t) := by
  simp [IsLeaf]

theorem isLeaf_of_isTrivia {t : Tree} (h : t.isTrivia = true) : IsLeaf t := by
  rintro k r ps rfl
  cases h

theorem isLeaf_of_isDot {t : Tree} (h : IsDot t) : IsLeaf t := by
  rcases h with rfl | rfl <;> exact isLeaf_token _ _ _

theorem assignedField?_token (k : Kind) (r : Option Role) (t : List Char) :
    assignedField? (token k r t) = none := by
  simp [assignedField?, Tree.part?, Tree.parts]

theorem assignedFields_leaves {ts : List Tree} (h : ∀ t ∈ ts, IsLeaf t) (start : Nat) :
    assignedFields (sitesOf start ts) = [] := by
  induction ts generalizing start with
  | nil => simp [sitesOf, assignedFields]
  | cons t ts ih =>
    obtain ⟨ht, hts⟩ := List.forall_mem_cons.1 h
    rw [sitesOf, assignedFields_append, ih hts, List.append_nil]
    cases t with
    | gap s => simp [sites, assignedFields]
    | token k r s => simp [sites, assignedFields, assignedField?_token]
    | node k r ps => exact absurd rfl (ht k r ps)

theorem assignedFields_member {t : Tree} {field : List Char} (hw : WellShaped t)
    (h : stateField? t = some field) (start : Nat) : assignedFields (t.sites start) = [] := by
  obtain ⟨r, gap₁, dot, gap₂, rfl, hgap₁, hdot, hgap₂, -⟩ := member_of_field hw h
  refine assignedFields_leaves ?_ start
  simp only [List.forall_mem_cons, List.forall_mem_append]
  exact ⟨isLeaf_token _ _ _, fun g hg => isLeaf_of_isTrivia (hgap₁ g hg).isTrivia.1,
    isLeaf_of_isDot hdot, fun g hg => isLeaf_of_isTrivia (hgap₂ g hg).isTrivia.1,
    isLeaf_token _ _ _, by simp⟩

/-- What an assignment to a field is made of: a reference to the field, leaves without a role, and
the right side. -/
theorem assignment_of_field {t : Tree} {field : List Char} (hw : WellShaped t)
    (h : assignedField? t = some field) :
    ∃ r left mid right, t = node .assignment r (left :: mid ++ [right]) ∧
      WellShaped left ∧ left.role? = some .left ∧ stateField? left = some field ∧
      (∀ p ∈ mid, IsLeaf p ∧ p.role? = none) ∧ right.role? = some .right := by
  unfold assignedField? at h
  split at h
  · rename_i hkind
    cases hw with
    | gap => cases hkind
    | token => simp [Tree.part?, Tree.parts] at h
    | @node k r ps hk hps =>
      have hk' : k = .assignment := by simpa [isKind, kind?] using hkind
      subst hk'
      obtain ⟨hleft, hgap₁, hgap₂, hright⟩ := hk.assignment rfl
      rename_i left right gap₁ gap₂
      refine ⟨r, left, gap₁ ++ token .symbol none ['='] :: gap₂, right, by simp,
        hps left (by simp), hleft, by simpa [Tree.part?, Tree.parts, hleft] using h, ?_, hright⟩
      simp only [List.forall_mem_cons, List.forall_mem_append]
      exact ⟨fun g hg => ⟨isLeaf_of_isTrivia (hgap₁ g hg).1, (hgap₁ g hg).2⟩,
        ⟨isLeaf_token _ _ _, rfl⟩,
        fun g hg => ⟨isLeaf_of_isTrivia (hgap₂ g hg).1, (hgap₂ g hg).2⟩⟩
  · cases h

theorem text_of_field {t : Tree} {field : List Char} (hw : WellShaped t)
    (h : assignedField? t = some field) : ∃ u, t.text = "state".toList ++ u := by
  obtain ⟨r, left, mid, right, rfl, hleft, -, hfield, -, -⟩ := assignment_of_field hw h
  obtain ⟨r', gap₁, dot, gap₂, rfl, -, -, -, -⟩ := member_of_field hleft hfield
  exact ⟨_, rfl⟩

/-! ## Calls of setters -/

/-- `SetterCalls old fields new`: the text `new` is `old` with the text of some assignments to
fields of the state replaced by calls of the setters of `fields`, in this order, to whose arguments
the same may have been done. -/
inductive SetterCalls : List Char → List (List Char) → List Char → Prop where
  | keep (t) : SetterCalls t [] t
  | append {a fields a' b fields' b'} (ha : SetterCalls a fields a')
      (hb : SetterCalls b fields' b') : SetterCalls (a ++ b) (fields ++ fields') (a' ++ b')
  | call {t right field fields new} (ht : assignedField? t = some field)
      (hright : t.part? .right = some right) (h : SetterCalls right.text fields new) :
      SetterCalls t.text (field :: fields) (setterName field ++ '(' :: (new ++ [')']))

/-- The rewriter that replaces assignments to fields of the state. -/
abbrev setters : Rewriter := setterCall.rewriter

/-- An assignment is answered by the call of its setter on the right side. -/
theorem answer?_setters {t : Tree} {field : List Char} (hw : WellShaped t)
    (h : assignedField? t = some field) (start : Nat) :
    ∃ p : (Site.mk start t).Part, (Site.mk start t).part? .right = some p ∧
      t.part? .right = some p.val.tree ∧
      assignedFields (t.sites start) = field :: assignedFields (p.val.tree.sites p.val.start) ∧
      setters.answer? ⟨start, t⟩ =
        some (setterName field ++ '(' :: (p.val.tree.render setters p.val.start ++ [')'])) := by
  obtain ⟨r, left, mid, right, rfl, hleft, hrole, hfield, hmid, hright⟩ :=
    assignment_of_field hw h
  have hfront : ∀ p ∈ left :: mid, p.role? ≠ some .right := by
    refine List.forall_mem_cons.2 ⟨by simp [hrole], fun p hp => by simp [(hmid p hp).2]⟩
  have hnone : assignedFields (sitesOf start (left :: mid)) = [] := by
    rw [sitesOf, assignedFields_append, assignedFields_member hleft hfield,
      assignedFields_leaves fun p hp => (hmid p hp).1, List.append_nil]
  generalize left :: mid = front at h hfront hnone ⊢
  obtain ⟨p, hval, hp⟩ : ∃ p : (Site.mk start (node .assignment r (front ++ [right]))).Part,
      p.val = ⟨start + (textOf front).length, right⟩ ∧
      (Site.mk start (node .assignment r (front ++ [right]))).part? .right = some p :=
    Site.part?_node hfront hright
  refine ⟨p, hp, ?_, ?_, ?_⟩
  · rw [hval]
    exact Tree.part?_node hfront hright
  · rw [assignedFields_node, h, sitesOf_append, assignedFields_append, hnone, hval]
    simp [sitesOf]
  · simp [Rewriter.answer?, Visitor.rewriter, setterCall, h, Piece.assemble, hp]

theorem setterCalls_renderParts {ts : List Tree}
    (h : ∀ t ∈ ts, ∀ start,
      SetterCalls t.text (assignedFields (t.sites start)) (t.render setters start))
    (start : Nat) : SetterCalls (textOf ts) (assignedFields (sitesOf start ts))
      (renderParts setters start ts) := by
  induction ts generalizing start with
  | nil => simpa [sitesOf, assignedFields] using SetterCalls.keep []
  | cons t ts ih =>
    obtain ⟨ht, hts⟩ := List.forall_mem_cons.1 h
    rw [textOf_cons, sitesOf, assignedFields_append, renderParts_cons]
    exact .append (ht start) (ih hts _)

mutual

/-- **Rewriting a tree calls the setters of the fields it assigns to**, in order. -/
theorem setterCalls_render : ∀ {t : Tree}, WellShaped t → ∀ start,
    SetterCalls t.text (assignedFields (t.sites start)) (t.render setters start)
  | .gap t, _, start => by simpa [sites, assignedFields] using SetterCalls.keep t
  | .token k r t, _, start => by
    have hanswer : setters.answer? ⟨start, .token k r t⟩ = none := by
      simp [Rewriter.answer?, Visitor.rewriter, setterCall, assignedField?_token]
    rw [render_token, hanswer]
    simpa [sites, assignedFields, assignedField?_token] using SetterCalls.keep t
  | .node k r ps, hw, start => by
    have hparts := setterCalls_renderAll (wellShaped_node.1 hw).2
    rw [render_node]
    cases hfield : assignedField? (.node k r ps) with
    | none =>
      have hanswer : setters.answer? ⟨start, .node k r ps⟩ = none := by
        simp [Rewriter.answer?, Visitor.rewriter, setterCall, hfield]
      rw [hanswer, assignedFields_node, hfield, text_node]
      exact setterCalls_renderParts hparts start
    | some field =>
      obtain ⟨p, hp, hright, hfields, hanswer⟩ := answer?_setters hw hfield start
      rw [hanswer, hfields]
      exact .call hfield hright (hparts _ (List.mem_of_find?_eq_some hright) _)

theorem setterCalls_renderAll : ∀ {ts : List Tree}, (∀ t ∈ ts, WellShaped t) →
    ∀ t ∈ ts, ∀ start,
      SetterCalls t.text (assignedFields (t.sites start)) (t.render setters start)
  | [], _ => by simp
  | t :: ts, h => by
    obtain ⟨ht, hts⟩ := List.forall_mem_cons.1 h
    exact List.forall_mem_cons.2 ⟨setterCalls_render ht, setterCalls_renderAll hts⟩

end

/-! ## Fragments -/

theorem isSome_answer?_setters (s : Site) :
    (setters.answer? s).isSome = (assignedField? s.tree).isSome := by
  simp [Rewriter.answer?, Visitor.rewriter, setterCall]

mutual

/-- Every assigned field stands in a part that is replaced. -/
theorem assignedFields_replaced (start : Nat) : ∀ t : Tree, assignedFields (t.sites start) =
    assignedFields ((t.replaced setters start).flatMap fun o => o.tree.sites o.start)
  | .gap t => by simp [sites, replaced]
  | .token k r t => by
    rw [replaced]
    simp [isSome_answer?_setters, assignedField?_token, sites, assignedFields]
  | .node k r ps => by
    rw [replaced]
    split
    · simp
    · rename_i hnot
      rw [isSome_answer?_setters, Bool.not_eq_true, Option.isSome_eq_false_iff,
        Option.isNone_iff_eq_none] at hnot
      rw [assignedFields_node, hnot]
      exact assignedFields_replacedOf start ps

theorem assignedFields_replacedOf (start : Nat) : ∀ ts : List Tree,
    assignedFields (sitesOf start ts) =
      assignedFields ((replacedOf setters start ts).flatMap fun o => o.tree.sites o.start)
  | [] => by simp [sitesOf, replacedOf]
  | t :: ts => by
    rw [sitesOf, replacedOf, List.flatMap_append, assignedFields_append, assignedFields_append,
      assignedFields_replaced start t, assignedFields_replacedOf _ ts]

end

theorem render_setters {t : Tree} (h : (assignedField? t).isSome) (start : Nat) :
    t.render setters start = (setters.answer? ⟨start, t⟩).getD [] := by
  have hsome : (setters.answer? ⟨start, t⟩).isSome := by rwa [isSome_answer?_setters]
  obtain ⟨new, hnew⟩ := Option.isSome_iff_exists.1 hsome
  cases t with
  | gap s => cases h
  | token k r s => rw [render_token, hnew, Option.getD_some, Option.getD_some]
  | node k r ps => rw [render_node, hnew, Option.getD_some, Option.getD_some]

/-- The calls in the result are those of the replaced parts, in order. -/
theorem setterCalls_splice {parts : List Site} {pos hi : Nat} {s : List Char}
    (horder : InOrder pos hi (parts.map setters.edit))
    (htext : ∀ p ∈ parts, (s.drop (p.start - pos)).take p.tree.text.length = p.tree.text)
    (hcalls : ∀ p ∈ parts, SetterCalls p.tree.text (assignedFields (p.tree.sites p.start))
      ((setters.answer? p).getD [])) :
    SetterCalls s (assignedFields (parts.flatMap fun p => p.tree.sites p.start))
      (spliceFrom pos s (parts.map setters.edit)) := by
  induction parts generalizing pos s with
  | nil => simpa [assignedFields, spliceFrom] using SetterCalls.keep s
  | cons p parts ih =>
    obtain ⟨hlo, -, hrest⟩ := horder
    obtain ⟨hp, hparts⟩ := List.forall_mem_cons.1 htext
    obtain ⟨hcall, hcalls⟩ := List.forall_mem_cons.1 hcalls
    have hlo : pos ≤ p.start := hlo
    have hstop : p.stop - pos = (p.start - pos) + p.tree.text.length := by
      rw [Site.stop]
      omega
    have hsplit : s.take (p.start - pos) ++ (p.tree.text ++ s.drop (p.stop - pos)) = s := by
      calc s.take (p.start - pos) ++ (p.tree.text ++ s.drop (p.stop - pos))
          = s.take (p.start - pos) ++ ((s.drop (p.start - pos)).take p.tree.text.length ++
              (s.drop (p.start - pos)).drop p.tree.text.length) := by
            rw [hp, hstop, List.drop_drop]
        _ = s := by rw [List.take_append_drop, List.take_append_drop]
    have hlater : ∀ q ∈ parts, ((s.drop (p.stop - pos)).drop (q.start - p.stop)).take
        q.tree.text.length = q.tree.text := by
      intro q hq
      have hle : p.stop ≤ q.start :=
        hrest.start_le (setters.edit q) (List.mem_map.2 ⟨q, hq, rfl⟩)
      have hsum : p.stop - pos + (q.start - p.stop) = q.start - pos := by
        rw [Site.stop] at hle ⊢
        omega
      rw [List.drop_drop, hsum]
      exact hparts q hq
    have hall := SetterCalls.append (.keep (s.take (p.start - pos)))
      (.append hcall (ih hrest hlater hcalls))
    rw [hsplit] at hall
    rw [List.flatMap_cons, assignedFields_append, List.map_cons, spliceFrom, List.append_assoc]
    exact hall

variable {code : List Char} {f : Fragment}

theorem isSome_of_mem_replaced {s : Site} (hs : s ∈ f.replaced setters) :
    s ∈ f.sites ∧ (assignedField? s.tree).isSome := by
  obtain ⟨hmem, hanswer⟩ := mem_sites_of_mem_replaced hs
  exact ⟨hmem, by rwa [isSome_answer?_setters] at hanswer⟩

theorem owns_of_mem_replaced
    (hown : ∀ s ∈ f.sites, (assignedField? s.tree).isSome → f.Owns code s) :
    ∀ s ∈ f.replaced setters, f.Owns code s := fun s hs =>
  hown s (isSome_of_mem_replaced hs).1 (isSome_of_mem_replaced hs).2

theorem setterCalls_edits (hf : Fragment.parse? code = some f)
    (hown : ∀ s ∈ f.sites, (assignedField? s.tree).isSome → f.Owns code s) :
    SetterCalls code (assignedFields f.sites) (splice code (f.edits setters)) := by
  have howns := owns_of_mem_replaced hown
  rw [Fragment.splice_edits howns, Fragment.sites, assignedFields_replaced]
  refine setterCalls_splice (Fragment.inOrder_replaced howns) ?_ ?_
  · intro p hp
    exact Fragment.text_of_owns hf (isSome_of_mem_replaced hp).1 (howns p hp)
  · intro p hp
    obtain ⟨hmem, hfield⟩ := isSome_of_mem_replaced hp
    rw [← render_setters hfield]
    exact setterCalls_render (Fragment.wellShaped_of_mem_sites hf hmem) p.start

/-- **Assignments to fields of the state become calls of their setters, and nothing else changes.**
In a fragment that can be read and in which these assignments lie in the fragment's own text,
exactly the stretches of the outermost of them are replaced. Each of them, at whatever depth,
becomes the call of the setter of its field with its right side, in which the outermost assignments
are replaced in the same way; and the calls in the result are those of the setters of all the
fields that are assigned to, as often and in the order in which the fragment assigns to them,
outer assignments first. -/
theorem useSetters_exact {code : String} {f : Fragment} (hf : Code.parse (.str code) = .ok f)
    (hown : ∀ s ∈ f.sites, (assignedField? s.tree).isSome → f.Owns code.toList s) :
    useSetters (.str code) = .ok (String.ofList (splice code.toList (f.edits setters))) ∧
      SetterCalls code.toList (assignedFields f.sites) (splice code.toList (f.edits setters)) ∧
      (∀ s ∈ f.sites, ∀ field, assignedField? s.tree = some field → ∃ right : s.Part,
        s.part? .right = some right ∧
        setters.edit s = ⟨s.start, s.stop, setterName field ++ '(' ::
          (spliceFrom right.val.start right.val.tree.text
            ((right.val.tree.replaced setters right.val.start).map setters.edit) ++ [')'])⟩) ∧
      (∀ s ∈ f.replaced setters, s ∈ f.sites ∧ (assignedField? s.tree).isSome) ∧
      (∀ s ∈ f.sites, (assignedField? s.tree).isSome →
        ∃ o ∈ f.replaced setters, s ∈ o.tree.sites o.start) ∧
      (f.replaced setters).Pairwise fun a b => a.stop ≤ b.start := by
  have hparse := Code.parse_str_eq_ok.1 hf
  refine ⟨?_, setterCalls_edits hparse hown, ?_, fun s hs => isSome_of_mem_replaced hs, ?_, ?_⟩
  · rw [useSetters, Code.replace, Code.rewrite_of_parse hf,
      Fragment.rewrite_eq_splice hparse (owns_of_mem_replaced hown)]
  · intro s hs field hfield
    obtain ⟨p, hp, -, -, hanswer⟩ :=
      answer?_setters (Fragment.wellShaped_of_mem_sites hparse hs) hfield s.start
    refine ⟨p, hp, ?_⟩
    rw [Rewriter.edit, hanswer, ← render_eq_splice]
    rfl
  · intro s hs hfield
    exact mem_replaced_of_answer (by rwa [isSome_answer?_setters]) hs
  · exact List.pairwise_map.1 (Tree.inOrder_replaced _ f.root).pairwise

/-- An assignment in the right side of another one, and assignments that are left alone. -/
def nestedCode : String :=
  "\x7b a: state.x = b => state.y = state.z += 1, c: state.x.w = 2 \x7d"

/-- What `nestedCode` is read as. -/
def nested : Fragment := (Fragment.parse? nestedCode.toList).getD ⟨⟨"", ""⟩, [], .gap []⟩

theorem useSetters_exact_nested :
    Code.parse (.str nestedCode) = .ok nested ∧
      (∀ s ∈ nested.sites, (assignedField? s.tree).isSome → nested.Owns nestedCode.toList s) ∧
      assignedFields nested.sites = [['x'], ['y']] ∧
      useSetters (.str nestedCode) =
        .ok "\x7b a: setX(b => setY(state.z += 1)), c: state.x.w = 2 \x7d" := by
  have hsome : (Fragment.parse? nestedCode.toList).isSome = true := by decide +kernel
  have hparse : Code.parse (.str nestedCode) = .ok nested := Code.parse_of_isSome hsome _
  have hrest : (∀ s ∈ nested.sites, (assignedField? s.tree).isSome →
        nested.Owns nestedCode.toList s) ∧
      assignedFields nested.sites = [['x'], ['y']] ∧
      splice nestedCode.toList (nested.edits setters) =
        "\x7b a: setX(b => setY(state.z += 1)), c: state.x.w = 2 \x7d".toList := by
    decide +kernel
  refine ⟨hparse, hrest.1, hrest.2.1, ?_⟩
  rw [(useSetters_exact hparse hrest.1).1, hrest.2.2, String.ofList_toList]

end ReactWeave.State
