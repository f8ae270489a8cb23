import ReactWeave.Proofs.Renaming
import ReactWeave.Proofs.SetterCalls

/-!
# ReactWeave.Proofs.Wrapping

**What becomes of the brackets** that a fragment is read in.

A fragment may close the brackets around it itself and open others, as in
`a) + (b`. The brackets are taken off again by their length, so it matters whether
they are still there after rewriting.

* Renaming variables leaves them alone. It does so also where it could have
  returned the text at once (`Code.rename_eq_replace`).
* Calling setters does so exactly if no assignment that is replaced reaches into
  the closing brackets (`Code.brackets_left_iff`): the call ends with a
  parenthesis of its own, and the closing brackets with at most one.
-/

namespace ReactWeave.Script

/-! ## The end of a spliced text -/

variable {pos hi : Nat} {s : List Char} {es : List Edit} {e : Edit}

theorem InOrder.start_le_stop (h : InOrder pos hi es) : ∀ e ∈ es, e.start ≤ e.stop := by
  induction es generalizing pos with
  | nil => simp
  | cons e es ih => exact List.forall_mem_cons.2 ⟨h.2.1, ih h.2.2⟩

theorem spliceFrom_concat (h : InOrder pos hi (es ++ [e])) :
    ∃ x, spliceFrom pos s (es ++ [e]) = x ++ (e.text ++ s.drop (e.stop - pos)) := by
  induction es generalizing pos s with
  | nil => exact ⟨s.take (e.start - pos), by simp [spliceFrom]⟩
  | cons d es ih =>
    obtain ⟨hlo, hle, hrest⟩ := h
    obtain ⟨x, hx⟩ := ih (s := s.drop (d.stop - pos)) hrest
    have hmem : e ∈ es ++ [e] := by simp
    have hsum : d.stop - pos + (e.stop - d.stop) = e.stop - pos := by
      have := hrest.start_le e hmem
      have := hrest.start_le_stop e hmem
      omega
    rw [List.drop_drop, hsum] at hx
    exact ⟨s.take (d.start - pos) ++ d.text ++ x, by simp [spliceFrom, hx]⟩

/-- If the last edit takes the first `n` characters of the end of a text, and the end comes out
nevertheless, what was put in ends like them. -/
theorem exists_of_splice_end {n : Nat} {front rest close : List Char} {lo : Nat}
    (h : InOrder lo hi (es ++ [e])) (hstop : e.stop = front.length + n)
    (hclose : spliceFrom 0 (front ++ close) (es ++ [e]) = rest ++ close) :
    ∃ x, x ++ e.text = rest ++ close.take n := by
  have hzero : InOrder 0 hi (es ++ [e]) := by
    cases es with
    | nil => exact ⟨Nat.zero_le _, h.2⟩
    | cons d es => exact ⟨Nat.zero_le _, h.2⟩
  obtain ⟨x, hx⟩ := spliceFrom_concat (s := front ++ close) hzero
  have hend : x ++ e.text ++ close.drop n = rest ++ close.take n ++ close.drop n := by
    rw [List.append_assoc, List.append_assoc, List.take_append_drop, ← hclose, hx, hstop,
      Nat.sub_zero, List.drop_length_add_append]
  exact ⟨x, List.append_cancel_right hend⟩

/-- Whether a text ends with a closing parenthesis, if it has an end. -/
def EndsClosed (s : List Char) : Prop := ∀ c ∈ s.getLast?, c = ')'

theorem EndsClosed.drop (h : EndsClosed s) (n : Nat) : EndsClosed (s.drop n) := by
  intro c hc
  rw [List.getLast?_drop] at hc
  split at hc
  · cases hc
  · exact h c hc

/-- Edits that end with a parenthesis leave a text that ends with one. -/
theorem EndsClosed.splice (hs : EndsClosed s) (hes : ∀ e ∈ es, e.text.getLast? = some ')') :
    EndsClosed (spliceFrom pos s es) := by
  induction es generalizing pos s with
  | nil => exact hs
  | cons e es ih =>
    obtain ⟨he, hes⟩ := List.forall_mem_cons.1 hes
    intro c hc
    rw [spliceFrom, List.getLast?_append, List.getLast?_append, he] at hc
    cases hlast : (spliceFrom e.stop (s.drop (e.stop - pos)) es).getLast? with
    | none => simpa [hlast] using hc.symm
    | some d =>
      obtain rfl : d = c := by simpa [hlast] using hc
      exact ih (hs.drop _) hes d hlast

/-- No part of the closing brackets from their start ends like a call, and all of them do only after
something that no call has there. -/
theorem closing_apart : ∀ w ∈ wrappers, ∀ n ≤ w.closing.toList.length,
    (w.closing.toList.take n).getLast? = some ')' → n = w.closing.toList.length ∧
      (w.closing.toList.dropLast.getLast? = some '\n' ∨
        w.closing.toList.dropLast.getLast? = some '\x7d') := by
  decide +kernel

end ReactWeave.Script

namespace ReactWeave.State

open Script Script.Tree

variable {code : List Char} {f : Fragment}

theorem answer?_setters_eq {s : Site} {new : List Char} (h : setters.answer? s = some new) :
    ∃ x y, new = x ++ '(' :: (y ++ [')']) := by
  simp only [Rewriter.answer?, Visitor.rewriter, setterCall, Option.map_eq_some_iff] at h
  obtain ⟨-, ⟨field, -, rfl⟩, rfl⟩ := h
  exact ⟨setterName field,
    ((s.part? .right).map fun p => p.val.tree.render setters p.val.start).getD [],
    by simp [Piece.assemble]⟩

theorem getLast?_edit_setters {t : Tree} {start : Nat} :
    ∀ e ∈ (t.replaced setters start).map setters.edit, e.text.getLast? = some ')' := by
  intro e he
  obtain ⟨s, hs, rfl⟩ := List.mem_map.1 he
  obtain ⟨new, hnew⟩ := Option.isSome_iff_exists.1 (mem_sites_of_mem_replaced hs).2
  obtain ⟨x, y, rfl⟩ := answer?_setters_eq hnew
  simp [Rewriter.edit, hnew, List.getLast?_cons]

/-- No assignment starts in the wrapper. -/
theorem opening_le_of_assigned (hf : Fragment.parse? code = some f) {s : Site} (hs : s ∈ f.sites)
    (hfield : (assignedField? s.tree).isSome) : f.wrapper.opening.length ≤ s.start := by
  obtain ⟨field, hfield⟩ := Option.isSome_iff_exists.1 hfield
  obtain ⟨u, hu⟩ := text_of_field (Fragment.wellShaped_of_mem_sites hf hs) hfield
  obtain ⟨a, b, htext, hstart⟩ := text_of_mem_sites hs
  have hopen : 's' ∉ f.wrapper.opening.toList := by
    intro hmem
    have := (wrappers_apart _ (Fragment.parseIn_eq_some hf).1).1 's' (List.mem_append_left _ hmem)
    cases this
  obtain ⟨x, hx⟩ := @behind_opening f.wrapper.opening.toList (code ++ f.wrapper.closing.toList)
    (f.lead ++ a) ("tate".toList ++ u ++ b) 's' (by
      rw [← List.append_assoc, ← Fragment.text_of_parse? hf, htext, hu]
      simp) hopen
  have hlen := congrArg List.length hx
  rw [List.length_append, List.length_append, String.length_toList] at hlen
  omega

/-- The call for an assignment that ends with a parenthesis ends with two, or with an empty list of
arguments. -/
theorem exists_of_answer_closed {s : Site} (hw : WellShaped s.tree) {field : List Char}
    (hfield : assignedField? s.tree = some field) (hend : s.tree.text.getLast? = some ')') :
    ∃ x c, setters.answer? s = some (x ++ [c, ')']) ∧ (c = '(' ∨ c = ')') := by
  obtain ⟨r, left, mid, right, htree, -, hrole, -, hmid, hright⟩ := assignment_of_field hw hfield
  obtain ⟨p, hp, hpart, -, hanswer⟩ := answer?_setters hw hfield s.start
  have hfront : ∀ p ∈ left :: mid, p.role? ≠ some .right :=
    List.forall_mem_cons.2 ⟨by simp [hrole], fun p hp => by simp [(hmid p hp).2]⟩
  have hvalue : s.tree.part? .right = some right := by
    rw [htree]
    exact Tree.part?_node hfront hright
  rw [Option.some.inj (hpart.symm.trans hvalue)] at hanswer
  have hclosed : EndsClosed right.text := by
    intro c hc
    have htext : s.tree.text = textOf (left :: mid) ++ right.text := by simp [htree, textOf_append]
    simpa [htext, List.getLast?_append, Option.mem_def.1 hc] using hend
  have hrender : EndsClosed (right.render setters p.val.start) := by
    rw [render_eq_splice]
    exact hclosed.splice getLast?_edit_setters
  cases hlast : (right.render setters p.val.start).getLast? with
  | none =>
    rw [List.getLast?_eq_none_iff.1 hlast] at hanswer
    exact ⟨setterName field, '(', hanswer, .inl rfl⟩
  | some c =>
    obtain ⟨x, hx⟩ := List.getLast?_eq_some_iff.1 hlast
    refine ⟨setterName field ++ '(' :: x, c, ?_, .inr (hrender c hlast)⟩
    rw [hanswer, hx]
    simp

/-- A fragment in which an assignment to a field reaches into the closing brackets does not keep
them. -/
theorem owns_of_brackets_left (hf : Fragment.parse? code = some f) {rest : List Char}
    (hleft : f.renderAll setters = rest ++ f.wrapper.closing.toList) :
    ∀ s ∈ f.replaced setters, f.Owns code s := by
  have horder := Tree.inOrder_replaced (v := setters) f.lead.length f.root
  -- It is enough to look at the last assignment, which reaches the furthest.
  rcases List.eq_nil_or_concat (f.replaced setters) with hnil | ⟨front, last, hconcat⟩
  · simp [hnil]
  have hmem : last ∈ f.replaced setters := by simp [hconcat]
  obtain ⟨hsite, hfield⟩ := isSome_of_mem_replaced hmem
  have hle : ∀ s ∈ f.replaced setters, s.stop ≤ last.stop := by
    intro s hs
    have hpairwise := List.pairwise_map.1 horder.pairwise
    change (f.replaced setters).Pairwise (fun a b => a.stop ≤ b.start) at hpairwise
    rw [hconcat, List.concat_eq_append] at hs hpairwise
    rcases List.mem_append.1 hs with hs | hs
    · have hstart := (List.pairwise_append.1 hpairwise).2.2 s hs last (by simp)
      exact Nat.le_trans hstart (Nat.le_add_right _ _)
    · exact Nat.le_of_eq (congrArg Site.stop (List.mem_singleton.1 hs))
  suffices hstop : last.stop ≤ f.wrapper.opening.length + code.length by
    intro s hs
    obtain ⟨hsite, hfield⟩ := isSome_of_mem_replaced hs
    exact ⟨opening_le_of_assigned hf hsite hfield, Nat.le_trans (hle s hs) hstop⟩
  by_contra hlong
  obtain ⟨field, hfield⟩ := Option.isSome_iff_exists.1 hfield
  obtain ⟨new, hnew⟩ := Option.isSome_iff_exists.1 (mem_sites_of_mem_replaced hmem).2
  obtain ⟨n, hn⟩ := Nat.exists_eq_add_of_lt (Nat.lt_of_not_le hlong)
  obtain ⟨a, b, htext, hstart⟩ := text_of_mem_sites hsite
  have hwhole : (f.wrapper.opening.toList ++ code) ++ f.wrapper.closing.toList =
      (f.lead ++ a) ++ (last.tree.text ++ b) := by
    rw [← Fragment.text_of_parse? hf, htext]
    simp
  have hlength := congrArg List.length hwhole
  simp only [List.length_append, String.length_toList] at hlength
  have hstop : last.stop = f.lead.length + a.length + last.tree.text.length := by
    rw [Site.stop, hstart]
  -- The call ends with the first characters of the closing brackets.
  obtain ⟨x, hx⟩ : ∃ x, x ++ new = rest ++ f.wrapper.closing.toList.take (n + 1) := by
    have hedits : (f.replaced setters).map setters.edit =
        front.map setters.edit ++ [setters.edit last] := by
      rw [hconcat, List.concat_eq_append, List.map_append, List.map_singleton]
    have htext : (setters.edit last).text = new := by simp [Rewriter.edit, hnew]
    rw [Fragment.renderAll_eq_spliceFrom hf, hedits, ← List.append_assoc] at hleft
    rw [← htext]
    refine exists_of_splice_end (hedits ▸ horder) ?_ hleft
    rw [List.length_append, String.length_toList]
    exact hn
  have hlong : (f.wrapper.closing.toList.take (n + 1)) ≠ [] := by
    rw [Ne, List.take_eq_nil_iff, ← List.length_eq_zero_iff, String.length_toList]
    omega
  have hend : (f.wrapper.closing.toList.take (n + 1)).getLast? = some ')' := by
    obtain ⟨y, z, rfl⟩ := answer?_setters_eq hnew
    rw [← List.getLast?_append_of_ne_nil rest hlong, ← hx]
    simp [List.getLast?_cons]
  -- So these are all of them, and the assignment ends with a parenthesis too.
  obtain ⟨hall, hbefore⟩ := closing_apart _ (Fragment.parseIn_eq_some hf).1 (n + 1)
    (by rw [String.length_toList]; omega) hend
  rw [hall, List.take_length] at hlong hend hx
  rw [String.length_toList] at hall
  have hb : b = [] := List.length_eq_zero_iff.1 (by omega)
  have hw := Fragment.wellShaped_of_mem_sites hf hsite
  obtain ⟨u, hu⟩ := text_of_field hw hfield
  have hclosed : last.tree.text.getLast? = some ')' := by
    rw [hb, List.append_nil] at hwhole
    rw [← List.getLast?_append_of_ne_nil (f.lead ++ a) (by simp [hu]), ← hwhole,
      List.getLast?_append_of_ne_nil _ hlong, hend]
  obtain ⟨y, c, hanswer, hc⟩ := exists_of_answer_closed hw hfield hclosed
  obtain rfl := Option.some.inj (hnew.symm.trans hanswer)
  have hlast := congrArg (fun l => l.dropLast.getLast?) hx
  simp only [List.dropLast_append_of_ne_nil hlong] at hlast
  rcases hbefore with hbefore | hbefore <;> rcases hc with rfl | rfl <;>
    simp [hbefore, List.getLast?_append] at hlast

end ReactWeave.State

namespace ReactWeave.Code

open Script

/-- **Looking for the names first changes nothing.** A fragment that can be read and mentions none
of the names is what renaming makes of it, whatever the names become. So renaming is replacing the
variables, for all names. -/
theorem rename_eq_replace {code : String} {f : Fragment} (hf : parse (.str code) = .ok f)
    (names : List String) (mapper : String → String) :
    ((∀ name ∈ names, Text.occursIn name code = false) →
        replace (renameVariables (names.map String.toList) fun name =>
          (mapper (String.ofList name)).toList) (.str code) = .ok code) ∧
      rename names mapper (.str code) =
        (replace (renameVariables (names.map String.toList) fun name =>
          (mapper (String.ofList name)).toList) (.str code)).map .str := by
  have hreplace : replace (renameVariables (names.map String.toList) fun name =>
      (mapper (String.ofList name)).toList) (.str code) =
        .ok (String.ofList (f.rewrite (renamer names mapper))) := rewrite_of_parse hf
  have hparse := parse_str_eq_ok.1 hf
  constructor
  · intro habsent
    rw [hreplace, rewrite_renamer_of_absent hparse (by simpa using habsent), String.ofList_toList]
  · rw [rename_eq_rewrite hparse, hreplace]
    rfl

/-- Members of an object, one of which is an assignment. -/
def membersCode : String := "a: state.x = y, b: 2"

/-- What `membersCode` is read as. -/
def members : Fragment := (Fragment.parse? membersCode.toList).getD ⟨⟨"", ""⟩, [], .gap []⟩

theorem parse_membersCode : parse (.str membersCode) = .ok members :=
  parse_of_isSome (by decide +kernel) _

theorem rename_eq_replace_members :
    parse (.str membersCode) = .ok members ∧ Text.occursIn "ay" membersCode = false ∧
      replace (renameVariables ["ay".toList] fun _ => ['z']) (.str membersCode) =
        .ok membersCode := by
  have habsent : Text.occursIn "ay" membersCode = false := by decide +kernel
  exact ⟨parse_membersCode, habsent,
    (rename_eq_replace parse_membersCode ["ay"] fun _ => "z").1 (by simpa using habsent)⟩

/-- **When the brackets around a fragment are left alone.** Renaming always leaves them: the text
that is written from the tree is the result in the brackets. Calling setters does so exactly if the
assignments that are replaced lie in the fragment itself. -/
theorem brackets_left_iff {code : String} {f : Fragment} (hf : parse (.str code) = .ok f) :
    (∀ names mapper, ∃ result : String, rename names mapper (.str code) = .ok (.str result) ∧
        f.renderAll (renamer names mapper) =
          f.wrapper.opening.toList ++ result.toList ++ f.wrapper.closing.toList) ∧
      ∃ result : String, State.useSetters (.str code) = .ok result ∧
        (f.renderAll State.setters =
            f.wrapper.opening.toList ++ result.toList ++ f.wrapper.closing.toList ↔
          ∀ s ∈ f.replaced State.setters, f.Owns code.toList s) := by
  have hparse := parse_str_eq_ok.1 hf
  refine ⟨fun names mapper => ⟨_, rename_eq_rewrite hparse names mapper, ?_⟩,
    _, rewrite_of_parse hf, fun hleft => State.owns_of_brackets_left hparse hleft, fun hown => ?_⟩
  · have hown : ∀ s ∈ f.replaced (renamer names mapper), f.Owns code.toList s :=
      Fragment.owns_of_renamed hparse
    rw [String.toList_ofList, Fragment.rewrite_eq_splice hparse hown,
      Fragment.renderAll_eq hparse hown]
  · rw [String.toList_ofList, Fragment.rewrite_eq_splice hparse hown,
      Fragment.renderAll_eq hparse hown]

theorem brackets_left_iff_members :
    parse (.str membersCode) = .ok members ∧ members.wrapper = ⟨"(\x7b", "\n\x7d)"⟩ ∧
      ∃ result : String, State.useSetters (.str membersCode) = .ok result ∧
        members.renderAll State.setters =
          "(\x7b".toList ++ result.toList ++ "\n\x7d)".toList := by
  have hrest : members.wrapper = ⟨"(\x7b", "\n\x7d)"⟩ ∧
      ∀ s ∈ members.replaced State.setters, members.Owns membersCode.toList s := by
    decide +kernel
  obtain ⟨result, hresult, hleft⟩ := (brackets_left_iff parse_membersCode).2
  rw [hrest.1] at hleft
  exact ⟨parse_membersCode, hrest.1, result, hresult, hleft.2 hrest.2⟩

/-- A fragment that closes the brackets around it and opens others is read. In its tree the first
bracket of the wrapper is closed by one of the fragment, and what is taken off the end of the result
is not the brackets. -/
theorem brackets_cut :
    ∃ f, parse (.str "\x7d), state.a = (\x7b") = .ok f ∧ f.wrapper = ⟨"(\x7b", "\n\x7d)"⟩ ∧
      (f.root.sites 0).any (fun s => s.tree.isKind .parenthesized && s.start == 0 &&
        s.tree.text == "(\x7b\x7d)".toList) = true ∧
      f.renderAll State.setters = "(\x7b\x7d), setA((\x7b\n\x7d))".toList ∧
      State.useSetters (.str "\x7d), state.a = (\x7b") = .ok "\x7d), setA((\x7b\n" := by
  have hsome : (Fragment.parse? "\x7d), state.a = (\x7b".toList).isSome = true := by decide +kernel
  obtain ⟨f, hf⟩ := Option.isSome_iff_exists.1 hsome
  have hrest : (Fragment.parse? "\x7d), state.a = (\x7b".toList).all (fun f =>
      f.wrapper == ⟨"(\x7b", "\n\x7d)"⟩ &&
      (f.root.sites 0).any (fun s => s.tree.isKind .parenthesized && s.start == 0 &&
        s.tree.text == "(\x7b\x7d)".toList) &&
      f.renderAll State.setters == "(\x7b\x7d), setA((\x7b\n\x7d))".toList &&
      f.rewrite State.setters == "\x7d), setA((\x7b\n".toList) = true := by
    decide +kernel
  rw [hf, Option.all_some, Bool.and_eq_true, Bool.and_eq_true, Bool.and_eq_true, beq_iff_eq,
    beq_iff_eq, beq_iff_eq] at hrest
  refine ⟨f, parse_str_eq_ok.2 hf, hrest.1.1.1, hrest.1.1.2, hrest.1.2, ?_⟩
  rw [State.useSetters, replace, rewrite_of_parse (parse_str_eq_ok.2 hf)]
  exact congrArg (fun t => Except.ok (String.ofList t)) hrest.2

end ReactWeave.Code
