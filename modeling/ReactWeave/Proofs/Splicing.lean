import ReactWeave.Code
import ReactWeave.Proofs.Lossless

/-!
# ReactWeave.Proofs.Splicing

**Rewriting is splicing.** A tree is written again part by part; what comes out
is nevertheless the old text with some stretches of it exchanged, namely those
of the outermost parts that the rewriter answers for.

* `Code.rewrite_exact` says it of whole fragments, where the wrapper that a
  fragment was read in has to come off again.
-/

namespace ReactWeave.Script

open ReactWeave.Script.Tree (textOf)

/-! ## Edits -/

/-- A change to a text: what stands from `start` up to `stop` becomes `text`. -/
structure Edit where
  start : Nat
  stop : Nat
  text : List Char
  deriving DecidableEq, Repr

/-- Makes edits, given in order, in a text whose first character has the number `pos`. -/
def spliceFrom (pos : Nat) (s : List Char) : List Edit → List Char
  | [] => s
  | e :: es => s.take (e.start - pos) ++ e.text ++ spliceFrom e.stop (s.drop (e.stop - pos)) es

/-- Makes edits, given in order, in a text. -/
def splice (s : List Char) (es : List Edit) : List Char := spliceFrom 0 s es

/-- An edit as it is in a text that starts `n` characters later. -/
def Edit.back (n : Nat) (e : Edit) : Edit := ⟨e.start - n, e.stop - n, e.text⟩

/-- Edits that stand in order between two places and do not overlap. -/
def InOrder (lo hi : Nat) : List Edit → Prop
  | [] => lo ≤ hi
  | e :: es => lo ≤ e.start ∧ e.start ≤ e.stop ∧ InOrder e.stop hi es

variable {lo hi : Nat} {es fs : List Edit}

theorem InOrder.le (h : InOrder lo hi es) : lo ≤ hi := by
  induction es generalizing lo with
  | nil => exact h
  | cons e es ih =>
    have := ih h.2.2
    have := h.1
    have := h.2.1
    omega

theorem InOrder.start_le (h : InOrder lo hi es) : ∀ e ∈ es, lo ≤ e.start := by
  induction es generalizing lo with
  | nil => simp
  | cons e es ih =>
    obtain ⟨hlo, hle, hrest⟩ := h
    intro e' he'
    rcases List.mem_cons.1 he' with rfl | he'
    · exact hlo
    · exact Nat.le_trans hlo (Nat.le_trans hle (ih hrest e' he'))

theorem InOrder.pairwise (h : InOrder lo hi es) : es.Pairwise fun a b => a.stop ≤ b.start := by
  induction es generalizing lo with
  | nil => exact .nil
  | cons e es ih => exact .cons h.2.2.start_le (ih h.2.2)

theorem InOrder.narrow {lo' hi' : Nat} (h : InOrder lo hi es)
    (hes : ∀ e ∈ es, lo' ≤ e.start ∧ e.stop ≤ hi') (hle : lo' ≤ hi') : InOrder lo' hi' es := by
  induction es generalizing lo lo' with
  | nil => exact hle
  | cons e es ih =>
    obtain ⟨he, hes⟩ := List.forall_mem_cons.1 hes
    refine ⟨he.1, h.2.1, ih h.2.2 (fun e' he' => ⟨?_, (hes e' he').2⟩) he.2⟩
    exact h.2.2.start_le e' he'

theorem InOrder.append {mid : Nat} (he : InOrder lo mid es) (hf : InOrder mid hi fs) :
    InOrder lo hi (es ++ fs) := by
  induction es generalizing lo with
  | nil =>
    cases fs with
    | nil => exact Nat.le_trans he hf
    | cons f fs => exact ⟨Nat.le_trans he hf.1, hf.2⟩
  | cons e es ih => exact ⟨he.1, he.2.1, ih he.2.2⟩

/-- Edits behind a text leave it alone. -/
theorem spliceFrom_append_right {pos : Nat} {a b : List Char}
    (hf : InOrder (pos + a.length) hi fs) :
    spliceFrom pos (a ++ b) fs = a ++ spliceFrom (pos + a.length) b fs := by
  cases fs with
  | nil => rfl
  | cons f fs =>
    have hstart : f.start - pos = a.length + (f.start - (pos + a.length)) := by
      have := hf.1
      omega
    have hstop : f.stop - pos = a.length + (f.stop - (pos + a.length)) := by
      have := hf.1
      have := hf.2.1
      omega
    simp only [spliceFrom, hstart, hstop, List.take_length_add_append,
      List.drop_length_add_append, List.append_assoc]

/-- **Edits in neighbouring texts can be made in each text by itself.** -/
theorem spliceFrom_append {pos : Nat} {a b : List Char} (he : InOrder pos (pos + a.length) es)
    (hf : InOrder (pos + a.length) hi fs) :
    spliceFrom pos (a ++ b) (es ++ fs) =
      spliceFrom pos a es ++ spliceFrom (pos + a.length) b fs := by
  induction es generalizing pos a with
  | nil => exact spliceFrom_append_right hf
  | cons e es ih =>
    obtain ⟨hlo, hle, hrest⟩ := he
    have hhi := hrest.le
    have hlen : e.stop + (a.drop (e.stop - pos)).length = pos + a.length := by
      rw [List.length_drop]
      omega
    have htake : (a ++ b).take (e.start - pos) = a.take (e.start - pos) :=
      List.take_append_of_le_length (by omega)
    have hdrop : (a ++ b).drop (e.stop - pos) = a.drop (e.stop - pos) ++ b :=
      List.drop_append_of_le_length (by omega)
    rw [← hlen] at hrest hf
    simp only [List.cons_append, spliceFrom, htake, hdrop, ih hrest hf, hlen, List.append_assoc]

theorem spliceFrom_back {n pos : Nat} {s : List Char} (hn : n ≤ pos) (he : InOrder pos hi es) :
    spliceFrom (pos - n) s (es.map (Edit.back n)) = spliceFrom pos s es := by
  induction es generalizing pos s with
  | nil => rfl
  | cons e es ih =>
    obtain ⟨hlo, hle, hrest⟩ := he
    have hstart : e.start - n - (pos - n) = e.start - pos := by omega
    have hstop : e.stop - n - (pos - n) = e.stop - pos := by omega
    simp only [List.map_cons, spliceFrom, Edit.back, hstart, hstop]
    rw [ih (by omega) hrest]

/-! ## Parts and their places -/

namespace Tree

mutual

/-- The parts of a tree that starts at `start`, the tree itself included, parents first. Gaps are
no parts. -/
def sites (start : Nat) : Tree → List Site
  | gap _ => []
  | token k r t => [⟨start, token k r t⟩]
  | node k r ps => ⟨start, node k r ps⟩ :: sitesOf start ps

/-- The parts of neighbouring trees. -/
def sitesOf (start : Nat) : List Tree → List Site
  | [] => []
  | t :: ts => sites start t ++ sitesOf (start + t.text.length) ts

end

end Tree

/-- What a rewriter answers for a part, when it is told what the parts inside become. -/
def Rewriter.answer? (v : Rewriter) (s : Site) : Option (List Char) :=
  v s fun p => p.val.tree.render v p.val.start

/-- The edit that a rewriter makes of a part. -/
def Rewriter.edit (v : Rewriter) (s : Site) : Edit := ⟨s.start, s.stop, (v.answer? s).getD []⟩

namespace Tree

mutual

/-- The outermost parts that a rewriter replaces, in order. -/
def replaced (v : Rewriter) (start : Nat) : Tree → List Site
  | gap _ => []
  | token k r t => if (v.answer? ⟨start, token k r t⟩).isSome then [⟨start, token k r t⟩] else []
  | node k r ps =>
    if (v.answer? ⟨start, node k r ps⟩).isSome then [⟨start, node k r ps⟩]
    else replacedOf v start ps

/-- The same for neighbouring trees. -/
def replacedOf (v : Rewriter) (start : Nat) : List Tree → List Site
  | [] => []
  | t :: ts => replaced v start t ++ replacedOf v (start + t.text.length) ts

end

variable {v : Rewriter}

@[simp] theorem render_gap (start : Nat) (t : List Char) : (gap t).render v start = t := by
  rw [render]

theorem render_token (start : Nat) (k : Kind) (r : Option Role) (t : List Char) :
    (token k r t).render v start = (v.answer? ⟨start, token k r t⟩).getD t := by
  rw [render, Rewriter.answer?]
  split <;> rename_i h <;> rw [h] <;> rfl

theorem render_node (start : Nat) (k : Kind) (r : Option Role) (ps : List Tree) :
    (node k r ps).render v start =
      (v.answer? ⟨start, node k r ps⟩).getD (renderParts v start ps) := by
  rw [render, Rewriter.answer?]
  split <;> rename_i h <;> rw [h] <;> rfl

@[simp] theorem renderParts_nil (start : Nat) : renderParts v start [] = [] := by
  rw [renderParts]

@[simp] theorem renderParts_cons (start : Nat) (t : Tree) (ts : List Tree) :
    renderParts v start (t :: ts) =
      t.render v start ++ renderParts v (start + t.text.length) ts := by
  rw [renderParts]

theorem splice_whole (start : Nat) (t : Tree) :
    spliceFrom start t.text [v.edit ⟨start, t⟩] = (v.answer? ⟨start, t⟩).getD [] := by
  simp [spliceFrom, Rewriter.edit, Site.stop]

theorem inOrder_whole (start : Nat) (t : Tree) :
    InOrder start (start + t.text.length) [v.edit ⟨start, t⟩] := by
  simp [InOrder, Rewriter.edit, Site.stop]

mutual

/-- The edits of a tree are in order and do not overlap. -/
theorem inOrder_replaced (start : Nat) : ∀ t : Tree,
    InOrder start (start + t.text.length) ((t.replaced v start).map v.edit)
  | gap t => by simp [replaced, InOrder]
  | token k r t => by
    rw [replaced]
    split
    · exact inOrder_whole start (token k r t)
    · simp [InOrder]
  | node k r ps => by
    rw [replaced]
    split
    · exact inOrder_whole start (node k r ps)
    · rw [text_node]
      exact inOrder_replacedOf start ps

theorem inOrder_replacedOf (start : Nat) : ∀ ts : List Tree,
    InOrder start (start + (textOf ts).length) ((replacedOf v start ts).map v.edit)
  | [] => by simp [replacedOf, InOrder]
  | t :: ts => by
    rw [replacedOf, List.map_append, textOf_cons, List.length_append, ← Nat.add_assoc]
    exact (inOrder_replaced start t).append (inOrder_replacedOf _ ts)

end

mutual

/-- **Writing a tree again is splicing its text** at the outermost parts that are replaced. -/
theorem render_eq_splice (start : Nat) : ∀ t : Tree,
    t.render v start = spliceFrom start t.text ((t.replaced v start).map v.edit)
  | gap t => by simp [replaced, spliceFrom]
  | token k r t => by
    rw [render_token, replaced]
    cases h : v.answer? ⟨start, token k r t⟩ with
    | none => simp [spliceFrom]
    | some new =>
      have := splice_whole (v := v) start (token k r t)
      simpa [h] using this.symm
  | node k r ps => by
    rw [render_node, replaced]
    cases h : v.answer? ⟨start, node k r ps⟩ with
    | none => simpa using renderParts_eq_splice start ps
    | some new =>
      have := splice_whole (v := v) start (node k r ps)
      simpa [h] using this.symm

theorem renderParts_eq_splice (start : Nat) : ∀ ts : List Tree,
    renderParts v start ts =
      spliceFrom start (textOf ts) ((replacedOf v start ts).map v.edit)
  | [] => by simp [replacedOf, spliceFrom]
  | t :: ts => by
    rw [renderParts_cons, replacedOf, List.map_append, textOf_cons,
      spliceFrom_append (inOrder_replaced start t) (inOrder_replacedOf _ ts),
      render_eq_splice start t, renderParts_eq_splice _ ts]

end

mutual

/-- The text of a site stands where the site says. -/
theorem text_of_mem_sites {s : Site} {start : Nat} : ∀ {t : Tree}, s ∈ t.sites start →
    ∃ a b, t.text = a ++ s.tree.text ++ b ∧ s.start = start + a.length
  | gap t, h => by simp [sites] at h
  | token k r t, h => by
    simp only [sites, List.mem_singleton] at h
    subst h
    exact ⟨[], [], by simp, by simp⟩
  | node k r ps, h => by
    rw [sites] at h
    rcases List.mem_cons.1 h with rfl | h
    · exact ⟨[], [], by simp, by simp⟩
    · rw [text_node]
      exact text_of_mem_sitesOf h

theorem text_of_mem_sitesOf {s : Site} {start : Nat} : ∀ {ts : List Tree}, s ∈ sitesOf start ts →
    ∃ a b, textOf ts = a ++ s.tree.text ++ b ∧ s.start = start + a.length
  | [], h => by simp [sitesOf] at h
  | t :: ts, h => by
    rw [sitesOf] at h
    rcases List.mem_append.1 h with h | h
    · obtain ⟨a, b, htext, hstart⟩ := text_of_mem_sites h
      exact ⟨a, b ++ textOf ts, by simp [htext], hstart⟩
    · obtain ⟨a, b, htext, hstart⟩ := text_of_mem_sitesOf h
      exact ⟨t.text ++ a, b, by simp [htext], by rw [hstart, List.length_append, Nat.add_assoc]⟩

end

mutual

/-- Only sites with an answer are replaced. -/
theorem mem_sites_of_mem_replaced {s : Site} {start : Nat} : ∀ {t : Tree},
    s ∈ t.replaced v start → s ∈ t.sites start ∧ (v.answer? s).isSome
  | gap t, h => by simp [replaced] at h
  | token k r t, h => by
    rw [replaced] at h
    split at h
    · rename_i hs
      simp only [List.mem_singleton] at h
      subst h
      exact ⟨by simp [sites], hs⟩
    · simp at h
  | node k r ps, h => by
    rw [replaced] at h
    split at h
    · rename_i hs
      simp only [List.mem_singleton] at h
      subst h
      exact ⟨by simp [sites], hs⟩
    · obtain ⟨hmem, hs⟩ := mem_sitesOf_of_mem_replacedOf h
      exact ⟨by rw [sites]; exact List.mem_cons_of_mem _ hmem, hs⟩

theorem mem_sitesOf_of_mem_replacedOf {s : Site} {start : Nat} : ∀ {ts : List Tree},
    s ∈ replacedOf v start ts → s ∈ sitesOf start ts ∧ (v.answer? s).isSome
  | [], h => by simp [replacedOf] at h
  | t :: ts, h => by
    rw [replacedOf] at h
    rw [sitesOf]
    rcases List.mem_append.1 h with h | h
    · obtain ⟨hmem, hs⟩ := mem_sites_of_mem_replaced h
      exact ⟨List.mem_append_left _ hmem, hs⟩
    · obtain ⟨hmem, hs⟩ := mem_sitesOf_of_mem_replacedOf h
      exact ⟨List.mem_append_right _ hmem, hs⟩

end

mutual

/-- Every site with an answer is replaced, or lies in one that is. -/
theorem mem_replaced_of_answer {s : Site} (hs : (v.answer? s).isSome) {start : Nat} :
    ∀ {t : Tree}, s ∈ t.sites start → ∃ o ∈ t.replaced v start, s ∈ o.tree.sites o.start
  | gap t, h => by simp [sites] at h
  | token k r t, h => by
    have heq : s = ⟨start, token k r t⟩ := by simpa [sites] using h
    subst heq
    exact ⟨_, by rw [replaced, if_pos hs]; exact List.mem_singleton_self _, by simp [sites]⟩
  | node k r ps, h => by
    rw [replaced]
    split
    · exact ⟨_, List.mem_singleton_self _, h⟩
    · rename_i hnot
      rw [sites] at h
      rcases List.mem_cons.1 h with rfl | h
      · exact absurd hs hnot
      · exact mem_replacedOf_of_answer hs h

theorem mem_replacedOf_of_answer {s : Site} (hs : (v.answer? s).isSome) {start : Nat} :
    ∀ {ts : List Tree}, s ∈ sitesOf start ts →
      ∃ o ∈ replacedOf v start ts, s ∈ o.tree.sites o.start
  | [], h => by simp [sitesOf] at h
  | t :: ts, h => by
    rw [sitesOf] at h
    rw [replacedOf]
    rcases List.mem_append.1 h with h | h
    · obtain ⟨o, ho, hso⟩ := mem_replaced_of_answer hs h
      exact ⟨o, List.mem_append_left _ ho, hso⟩
    · obtain ⟨o, ho, hso⟩ := mem_replacedOf_of_answer hs h
      exact ⟨o, List.mem_append_right _ ho, hso⟩

end

end Tree

/-! ## Fragments -/

namespace Fragment

/-- The parts of a fragment in its wrapper, parents first. -/
def sites (f : Fragment) : List Site := f.root.sites f.lead.length

/-- The outermost parts that a rewriter replaces, in order. -/
def replaced (v : Rewriter) (f : Fragment) : List Site := f.root.replaced v f.lead.length

/-- The edits that a rewriter makes in the text of a fragment without its wrapper. -/
def edits (v : Rewriter) (f : Fragment) : List Edit :=
  ((f.replaced v).map v.edit).map (Edit.back f.wrapper.opening.length)

/-- Whether a part lies in the text `code` of the fragment itself, and not in the wrapper. -/
def Owns (f : Fragment) (code : List Char) (s : Site) : Prop :=
  f.wrapper.opening.length ≤ s.start ∧ s.stop ≤ f.wrapper.opening.length + code.length

instance (f : Fragment) (code : List Char) (s : Site) : Decidable (f.Owns code s) :=
  inferInstanceAs (Decidable (_ ∧ _))

variable {code : List Char} {f : Fragment} {v : Rewriter}

theorem unwrap_wrapped (w : Wrapper) (s : List Char) :
    unwrap w (w.opening.toList ++ s ++ w.closing.toList) = s := by
  have hlen : (w.opening.toList ++ s ++ w.closing.toList).length - w.closing.length =
      (w.opening.toList ++ s).length := by
    rw [List.length_append, String.length_toList, Nat.add_sub_cancel]
  rw [unwrap, hlen, List.take_left, ← String.length_toList, List.drop_left]

theorem text_of_owns (hf : parse? code = some f) {s : Site} (hs : s ∈ f.sites)
    (how : f.Owns code s) :
    (code.drop (s.start - f.wrapper.opening.length)).take s.tree.text.length = s.tree.text := by
  obtain ⟨a, b, htext, hstart⟩ := Tree.text_of_mem_sites hs
  have hcode : f.wrapper.opening.toList ++ code ++ f.wrapper.closing.toList =
      f.lead ++ a ++ (s.tree.text ++ b) := by
    rw [← text_of_parse? hf, htext]
    simp
  have hlead : s.start = (f.lead ++ a).length := by rw [hstart, List.length_append]
  have hdrop := congrArg (fun l => (l.drop s.start).take s.tree.text.length) hcode
  obtain ⟨hlo, hhi⟩ := how
  rw [Site.stop] at hhi
  simp only [hlead, List.drop_left, List.take_left] at hdrop
  rw [← hlead, List.append_assoc, List.drop_append, String.length_toList,
    List.drop_eq_nil_of_le (by rwa [String.length_toList]), List.nil_append,
    List.drop_append_of_le_length (by omega),
    List.take_append_of_le_length (by rw [List.length_drop]; omega)] at hdrop
  exact hdrop

theorem inOrder_replaced (hown : ∀ s ∈ f.replaced v, f.Owns code s) :
    InOrder f.wrapper.opening.length (f.wrapper.opening.length + code.length)
      ((f.replaced v).map v.edit) := by
  refine (Tree.inOrder_replaced _ f.root).narrow ?_ (Nat.le_add_right _ _)
  intro e he
  obtain ⟨s, hs, rfl⟩ := List.mem_map.1 he
  exact hown s hs

theorem splice_edits (hown : ∀ s ∈ f.replaced v, f.Owns code s) :
    splice code (f.edits v) =
      spliceFrom f.wrapper.opening.length code ((f.replaced v).map v.edit) := by
  rw [splice, edits, ← spliceFrom_back (Nat.le_refl f.wrapper.opening.length)
    (inOrder_replaced hown), Nat.sub_self]

theorem renderAll_eq_spliceFrom (hf : parse? code = some f) : f.renderAll v =
    spliceFrom 0 (f.wrapper.opening.toList ++ (code ++ f.wrapper.closing.toList))
      ((f.replaced v).map v.edit) := by
  have hlead : InOrder (0 + f.lead.length) (f.lead.length + f.root.text.length)
      ((f.replaced v).map v.edit) := by
    rw [Nat.zero_add]
    exact Tree.inOrder_replaced _ f.root
  rw [← List.append_assoc, ← text_of_parse? hf, spliceFrom_append_right hlead, Nat.zero_add,
    renderAll, Tree.render_eq_splice]
  rfl

/-- **Rewriting is splicing**, between the brackets of the wrapper. -/
theorem renderAll_eq (hf : parse? code = some f) (hown : ∀ s ∈ f.replaced v, f.Owns code s) :
    f.renderAll v = f.wrapper.opening.toList ++ splice code (f.edits v) ++
      f.wrapper.closing.toList := by
  have hlen : f.wrapper.opening.toList.length = f.wrapper.opening.length := String.length_toList
  have horder : InOrder (0 + f.wrapper.opening.toList.length)
      (f.wrapper.opening.length + code.length) ((f.replaced v).map v.edit) := by
    rw [Nat.zero_add, hlen]
    exact inOrder_replaced hown
  have hclosing : InOrder (f.wrapper.opening.length + code.length)
      (f.wrapper.opening.length + code.length) [] := Nat.le_refl _
  calc f.renderAll v
      = f.wrapper.opening.toList ++ spliceFrom f.wrapper.opening.length
          (code ++ f.wrapper.closing.toList) ((f.replaced v).map v.edit ++ []) := by
        rw [renderAll_eq_spliceFrom hf, spliceFrom_append_right horder, Nat.zero_add, hlen,
          List.append_nil]
    _ = _ := by
        rw [spliceFrom_append (inOrder_replaced hown) hclosing, splice_edits hown,
          ← List.append_assoc]
        rfl

/-- **Rewriting a fragment is splicing it**, if what is replaced lies in its own text. -/
theorem rewrite_eq_splice (hf : parse? code = some f) (hown : ∀ s ∈ f.replaced v, f.Owns code s) :
    f.rewrite v = splice code (f.edits v) := by
  rw [rewrite, renderAll_eq hf hown, unwrap_wrapped]

end Fragment

end ReactWeave.Script

namespace ReactWeave.Code

open Script

variable {f : Fragment} {code : String}

theorem parse_eq_ok {code : Json} :
    parse code = .ok f ↔ Fragment.parse? code.asText.toList = some f := by
  unfold parse
  cases Fragment.parse? code.asText.toList <;> simp

theorem parse_str_eq_ok : parse (.str code) = .ok f ↔ Fragment.parse? code.toList = some f := by
  rw [parse_eq_ok, Json.asText]

theorem parse_of_isSome (h : (Fragment.parse? code.toList).isSome = true) (f : Fragment) :
    parse (.str code) = .ok ((Fragment.parse? code.toList).getD f) := by
  rw [parse_str_eq_ok, Option.getD_of_ne_none (Option.isSome_iff_ne_none.1 h)]

theorem rewrite_of_parse {v : Rewriter} {code : Json} (hf : parse code = .ok f) :
    rewrite v code = .ok (String.ofList (f.rewrite v)) := by
  unfold rewrite
  rw [hf]

theorem rewrite_of_unreadable {v : Rewriter} (h : Fragment.parse? code.toList = none) :
    rewrite v (.str code) = .error (.unparsable (.str code)) := by
  unfold rewrite parse
  rw [Json.asText, h]

/-- **Rewriting is an exact splice.** Whatever the rewriter, a fragment that can be read becomes
the same text with just the stretches of the outermost parts that the rewriter answers for replaced
by its answers, provided that these parts lie in the fragment itself. They stand in order and do
not overlap, each of them reads in the fragment what it does in the tree, and every part that is
answered for lies in one of them. A rewriter that never answers changes nothing. -/
theorem rewrite_exact (v : Rewriter) {code : String} {f : Fragment}
    (hf : parse (.str code) = .ok f) (hown : ∀ s ∈ f.replaced v, f.Owns code.toList s) :
    rewrite v (.str code) = .ok (String.ofList (splice code.toList (f.edits v))) ∧
      (f.replaced v).Pairwise (fun a b => a.stop ≤ b.start) ∧
      (∀ s ∈ f.replaced v, s ∈ f.sites ∧ (v.answer? s).isSome ∧
        (code.toList.drop (s.start - f.wrapper.opening.length)).take s.tree.text.length =
          s.tree.text) ∧
      (∀ s ∈ f.sites, (v.answer? s).isSome → ∃ o ∈ f.replaced v, s ∈ o.tree.sites o.start) ∧
      ((∀ s ∈ f.sites, v.answer? s = none) → rewrite v (.str code) = .ok code) := by
  have hparse := parse_str_eq_ok.1 hf
  have hsplice : rewrite v (.str code) = .ok (String.ofList (splice code.toList (f.edits v))) := by
    rw [rewrite_of_parse hf, Fragment.rewrite_eq_splice hparse hown]
  refine ⟨hsplice, ?_, ?_, ?_, ?_⟩
  · exact List.pairwise_map.1 (Tree.inOrder_replaced _ f.root).pairwise
  · intro s hs
    obtain ⟨hmem, hanswer⟩ := Tree.mem_sites_of_mem_replaced hs
    exact ⟨hmem, hanswer, Fragment.text_of_owns hparse hmem (hown s hs)⟩
  · intro s hs hanswer
    exact Tree.mem_replaced_of_answer hanswer hs
  · intro hnone
    have hnil : f.replaced v = [] := by
      rw [List.eq_nil_iff_forall_not_mem]
      intro s hs
      obtain ⟨hmem, hanswer⟩ := Tree.mem_sites_of_mem_replaced hs
      simp [hnone s hmem] at hanswer
    rw [hsplice]
    simp [Fragment.edits, hnil, splice, spliceFrom]

/-- A fragment with a lone name in an object, which is read in parentheses. -/
def accented : Fragment :=
  (Fragment.parse? "\x7b é \x7d.é // ü".toList).getD ⟨⟨"", ""⟩, [], .gap []⟩

/-- The rewriter that replaces the variable `é` by `z`. -/
def renameAccented : Rewriter := (renameVariables [['é']] fun _ => ['z']).rewriter

theorem rewrite_exact_accented :
    parse (.str "\x7b é \x7d.é // ü") = .ok accented ∧ accented.wrapper = ⟨"(", "\n)"⟩ ∧
      (∀ s ∈ accented.replaced renameAccented, accented.Owns "\x7b é \x7d.é // ü".toList s) ∧
      rewrite renameAccented (.str "\x7b é \x7d.é // ü") = .ok "\x7b é: z \x7d.é // ü" := by
  have hsome : (Fragment.parse? "\x7b é \x7d.é // ü".toList).isSome = true := by decide +kernel
  have hparse : parse (.str "\x7b é \x7d.é // ü") = .ok accented := parse_of_isSome hsome _
  have hrest : accented.wrapper = ⟨"(", "\n)"⟩ ∧
      (∀ s ∈ accented.replaced renameAccented, accented.Owns "\x7b é \x7d.é // ü".toList s) ∧
      splice "\x7b é \x7d.é // ü".toList (accented.edits renameAccented) =
        "\x7b é: z \x7d.é // ü".toList := by
    decide +kernel
  refine ⟨hparse, hrest.1, hrest.2.1, ?_⟩
  rw [(rewrite_exact renameAccented hparse hrest.2.1).1, hrest.2.2, String.ofList_toList]

end ReactWeave.Code
