import ReactWeave.Proofs.StyleAttributes

/-!
# ReactWeave.Proofs.Indentation

**Indented texts** and what becomes of their pieces.

Indentation puts a margin in front of every line that is more than white space. It
knows nothing of what it indents: a piece that spans lines gets the margin in front
of all its lines but the first.

* `Parts.hang_infix_assemble`, `Parts.hang_infix_markup`: pieces of the body and of the
  markup, as they stand in a source.
-/

namespace ReactWeave.Text

/-- Whether the line at the start of a text is more than white space. -/
def startsSolid : List Char → Bool
  | [] => false
  | c :: s => !isBlank c || (!isLineEnd c && startsSolid s)

/-- Whether a character ends a line in front of a text: a break of two characters ends with the
second one. -/
def endsLine (c : Char) (s : List Char) : Bool :=
  isLineEnd c && !(c == '\r' && s.head? == some '\n')

/-- A text with a margin in front of its lines; `fresh` says whether a line starts here. -/
def indentFrom (margin : List Char) : Bool → List Char → List Char
  | _, [] => []
  | fresh, c :: s =>
    (if fresh && startsSolid (c :: s) then margin else []) ++
      c :: indentFrom margin (endsLine c s) s

/-- A piece of a text, as it stands after an indentation. -/
def hang (margin : List Char) : List Char → List Char := indentFrom margin false

section Indentation

variable {margin s t x : List Char} {c : Char}

theorem isBlank_of_isLineEnd (h : isLineEnd c = true) : isBlank c = true := by
  simp only [isLineEnd, isBlank, Bool.or_eq_true, Bool.and_eq_true, decide_eq_true_eq,
    beq_iff_eq] at h ⊢
  omega

theorem endsLine_of_solid (h : isBlank c = false) (s : List Char) : endsLine c s = false := by
  have hend : isLineEnd c = false := by
    rw [Bool.eq_false_iff]
    intro hc
    rw [isBlank_of_isLineEnd hc] at h
    cases h
  simp [endsLine, hend]

theorem indentFrom_true (margin s : List Char) :
    indentFrom margin true s = (if startsSolid s then margin else []) ++ hang margin s := by
  cases s <;> simp [indentFrom, hang, startsSolid]

/-- Indenting line by line puts the margin behind every line end that something follows. -/
theorem flatMap_linesFrom (margin current s : List Char) :
    ((linesFrom current s).flatMap fun line =>
        if isBlankText line then line else margin ++ line) =
      (if !isBlankText current || startsSolid s then margin else []) ++
        (current.reverse ++ hang margin s) := by
  have hline (current : List Char) : (if isBlankText current.reverse then current.reverse
      else margin ++ current.reverse) =
      (if !isBlankText current then margin else []) ++ current.reverse := by
    have hreverse : isBlankText current.reverse = isBlankText current := List.all_reverse
    rw [hreverse]
    cases isBlankText current <;> rfl
  fun_induction linesFrom current s with
  | case1 current hempty => simp_all [hang, indentFrom, isBlankText, startsSolid]
  | case2 current hempty =>
    rw [List.flatMap_singleton, hline]
    simp [hang, indentFrom, startsSolid]
  | case3 current s ih =>
    have hsolid : startsSolid ('\r' :: '\n' :: s) = false := rfl
    have hblank : isBlankText ('\n' :: '\r' :: current) = isBlankText current := rfl
    have hhang : hang margin ('\r' :: '\n' :: s) = '\r' :: '\n' :: indentFrom margin true s := rfl
    rw [List.flatMap_cons, ih.trans (indentFrom_true margin s).symm, hline]
    simp [hsolid, hblank, hhang]
  | case4 current c s hbreak hend ih =>
    have hends : endsLine c s = true := by
      cases s with
      | nil => simp [endsLine, hend]
      | cons d s =>
        have hne : c ≠ '\r' ∨ d ≠ '\n' :=
          Decidable.not_and_iff_or_not.1 fun h => hbreak s h.1 (by rw [h.2])
        simpa [endsLine, hend] using hne
    rw [List.flatMap_cons, ih.trans (indentFrom_true margin s).symm, hline]
    simp [hang, indentFrom, hends, startsSolid, isBlankText, hend, isBlank_of_isLineEnd hend]
  | case5 current c s hbreak hend ih =>
    rw [ih]
    cases hc : isBlank c <;> simp [hang, indentFrom, endsLine, startsSolid, isBlankText, hend, hc]

theorem indentChars_eq (margin s : List Char) : indentChars margin s = indentFrom margin true s := by
  rw [indentChars, linesOf, flatMap_linesFrom, indentFrom_true]
  simp [isBlankText]

/-! ## Pieces -/

/-- Whether a text starts and ends with something else than white space. -/
structure Firm (x : List Char) : Prop where
  head : ∃ c ∈ x.head?, isBlank c = false
  last : ∃ c ∈ x.getLast?, isBlank c = false

theorem firm_between {before behind : List Char} (hhead : ∃ c ∈ before.head?, isBlank c = false)
    (hlast : ∃ c ∈ behind.getLast?, isBlank c = false) (s : List Char) :
    Firm (before ++ (s ++ behind)) := by
  obtain ⟨c, hc, hsolid⟩ := hhead
  obtain ⟨d, hd, hsolid'⟩ := hlast
  refine ⟨⟨c, ?_, hsolid⟩, ⟨d, ?_, hsolid'⟩⟩
  · rw [List.head?_append, Option.mem_def.1 hc]
    rfl
  · rw [List.getLast?_append, List.getLast?_append, Option.mem_def.1 hd]
    rfl

theorem startsSolid_append (hx : ∃ c ∈ x.getLast?, isBlank c = false) (t : List Char) :
    startsSolid (x ++ t) = startsSolid x := by
  induction x with
  | nil => simp at hx
  | cons c x ih =>
    cases x with
    | nil =>
      have hc : isBlank c = false := by simpa using hx
      simp [startsSolid, hc]
    | cons d x =>
      rw [List.cons_append, startsSolid, ih (by simpa using hx)]
      rfl

/-- A text behind one that ends solid hangs on it. -/
theorem indentFrom_append (fresh : Bool) (hx : ∃ c ∈ x.getLast?, isBlank c = false)
    (t : List Char) :
    indentFrom margin fresh (x ++ t) = indentFrom margin fresh x ++ hang margin t := by
  induction x generalizing fresh with
  | nil => simp at hx
  | cons c x ih =>
    have hsolid := startsSolid_append hx t
    cases x with
    | nil =>
      have hc : isBlank c = false := by simpa using hx
      simp [indentFrom, startsSolid, hc, endsLine_of_solid hc, hang]
    | cons d x =>
      have hends : endsLine c (d :: x ++ t) = endsLine c (d :: x) := rfl
      rw [List.cons_append, indentFrom, ← List.cons_append, hsolid, hends, indentFrom,
        ih _ (by simpa using hx)]
      simp

/-- **A firm piece of a text stands in the indented text, with the margin in front of its
lines.** -/
theorem hang_infix_indentFrom (fresh : Bool) (hx : Firm x) (h : x <:+: s) :
    hang margin x <:+: indentFrom margin fresh s := by
  obtain ⟨before, behind, rfl⟩ := h
  rw [List.append_assoc]
  induction before generalizing fresh with
  | nil =>
    have hstart : indentFrom margin fresh x = (if fresh then margin else []) ++ hang margin x := by
      obtain ⟨c, hc, hsolid⟩ := hx.head
      cases x with
      | nil => simp at hc
      | cons d x =>
        obtain rfl : d = c := by simpa using hc
        cases fresh <;> simp [indentFrom, hang, startsSolid, hsolid]
    rw [List.nil_append, indentFrom_append fresh hx.last, hstart]
    exact List.infix_append _ _ _
  | cons c before ih =>
    rw [List.cons_append, indentFrom]
    exact ((ih _).trans (List.suffix_cons _ _).isInfix).trans (List.suffix_append _ _).isInfix

theorem hang_infix_indentChars (margin : List Char) (hx : Firm x) (h : x <:+: s) :
    hang margin x <:+: indentChars margin s :=
  indentChars_eq margin s ▸ hang_infix_indentFrom true hx h

theorem getLast?_indentFrom (margin : List Char) (fresh : Bool) (s : List Char) :
    (indentFrom margin fresh s).getLast? = s.getLast? := by
  induction s generalizing fresh with
  | nil => rfl
  | cons c s ih =>
    rw [indentFrom, List.getLast?_append]
    cases s with
    | nil => simp [indentFrom]
    | cons d s =>
      have hne : indentFrom margin (endsLine c (d :: s)) (d :: s) ≠ [] := by simp [indentFrom]
      rw [List.getLast?_cons_of_ne_nil hne, ih]
      simp [List.getLast?_cons]

/-- A text that starts and ends solid does so under a margin. -/
theorem Firm.hang (hx : Firm x) (margin : List Char) : Firm (hang margin x) := by
  refine ⟨?_, ?_⟩
  · obtain ⟨c, hc, hsolid⟩ := hx.head
    cases x with
    | nil => simp at hc
    | cons d x => exact ⟨c, by simpa [Text.hang, indentFrom] using hc, hsolid⟩
  · rw [Text.hang, getLast?_indentFrom]
    exact hx.last

/-! ## Pieces that stay as they are -/

theorem length_le_indentFrom (margin : List Char) (fresh : Bool) (s : List Char) :
    s.length ≤ (indentFrom margin fresh s).length := by
  induction s generalizing fresh with
  | nil => simp
  | cons c s ih =>
    have hrest := ih (endsLine c s)
    simp only [indentFrom, List.length_append, List.length_cons]
    omega

theorem startsSolid_of_last (hlast : ∃ c ∈ s.getLast?, isBlank c = false)
    (hends : s.any isLineEnd = false) : startsSolid s = true := by
  induction s with
  | nil => simp at hlast
  | cons c s ih =>
    obtain ⟨hc, hs⟩ : isLineEnd c = false ∧ s.any isLineEnd = false := by
      simpa only [List.any_cons, Bool.or_eq_false_iff] using hends
    cases s with
    | nil =>
      have hsolid : isBlank c = false := by simpa using hlast
      simp [startsSolid, hsolid]
    | cons d s =>
      rw [startsSolid, hc, ih (by simpa using hlast) hs]
      exact Bool.or_true _

/-- A margin makes every text longer that has a line end or starts a line. -/
theorem length_lt_indentFrom (hmargin : margin ≠ []) (hlast : ∃ c ∈ s.getLast?, isBlank c = false)
    (fresh : Bool) (h : fresh = true ∨ s.any isLineEnd = true) :
    s.length < (indentFrom margin fresh s).length := by
  induction s generalizing fresh with
  | nil => simp at hlast
  | cons c s ih =>
    have hle := length_le_indentFrom margin (endsLine c s) s
    have hpos := List.length_pos_iff.2 hmargin
    simp only [indentFrom, List.length_append, List.length_cons]
    by_cases hfirst : (fresh && startsSolid (c :: s)) = true
    · rw [if_pos hfirst]
      omega
    · -- The margin stands further behind: a line starts there, or ends before the last one.
      have hmore : endsLine c s = true ∨ s.any isLineEnd = true := by
        by_contra hnone
        obtain ⟨hends, hs⟩ : endsLine c s = false ∧ s.any isLineEnd = false := by
          simpa only [not_or, Bool.not_eq_true] using hnone
        have hhead : (s.head? == some '\n') = false := by
          cases s with
          | nil => rfl
          | cons d s =>
            rw [beq_eq_false_iff_ne]
            intro hd
            obtain rfl := Option.some.inj hd
            cases hs
        have hc : isLineEnd c = false := by simpa [endsLine, hhead] using hends
        have hall : (c :: s).any isLineEnd = false := by rw [List.any_cons, hc, hs]; rfl
        rcases h with rfl | h
        · exact hfirst (by rw [startsSolid_of_last hlast hall]; rfl)
        · rw [hall] at h
          cases h
      cases s with
      | nil =>
        have hc : isBlank c = false := by simpa using hlast
        rw [endsLine_of_solid hc] at hmore
        simp at hmore
      | cons d s =>
        have hlt := ih (by simpa using hlast) _ hmore
        omega

theorem length_le_foldr_hang (margins : List (List Char)) (x : List Char) :
    x.length ≤ (margins.foldr hang x).length := by
  induction margins with
  | nil => exact Nat.le_refl _
  | cons margin margins ih => exact Nat.le_trans ih (length_le_indentFrom margin false _)

/-- A text on one line is kept. -/
theorem hang_eq_self (margin : List Char) (h : ∀ c ∈ x, isLineEnd c = false) :
    hang margin x = x := by
  induction x with
  | nil => rfl
  | cons c x ih =>
    obtain ⟨hc, hx⟩ := List.forall_mem_cons.1 h
    have hnone : endsLine c x = false := by simp [endsLine, hc]
    simpa [hang, indentFrom, hnone] using ih hx

/-- **However often a text is indented, a piece stays as it is exactly if no line ends in it.** -/
theorem foldr_hang_eq_self_iff {margins : List (List Char)} (hne : margins ≠ [])
    (hmargins : ∀ margin ∈ margins, margin ≠ []) (hx : Firm x) :
    margins.foldr hang x = x ↔ ∀ c ∈ x, isLineEnd c = false := by
  constructor
  · intro hself
    by_contra hends
    have hany : x.any isLineEnd = true := by simpa using hends
    -- The innermost margin makes the piece longer, and the others never make it shorter.
    have hlt := length_lt_indentFrom (hmargins _ (List.getLast_mem hne)) hx.last false (.inr hany)
    have hle := length_le_foldr_hang margins.dropLast (hang (margins.getLast hne) x)
    rw [← List.foldr_concat, List.dropLast_append_getLast, hself] at hle
    exact absurd hle (Nat.not_le.2 hlt)
  · intro hends
    clear hne hmargins hx
    induction margins with
    | nil => rfl
    | cons margin margins ih => rw [List.foldr_cons, ih, hang_eq_self margin hends]

end Indentation

end ReactWeave.Text

namespace ReactWeave.Parts

open Text (Firm hang)

/-! ## Sources -/

variable {parts : Parts} {x : List Char} {text : String}

theorem toList_indent (margin s : String) :
    (Text.indent margin s).toList = Text.indentChars margin.toList s.toList :=
  String.toList_ofList

/-- What stands in a part of the source stands in the source, under the margin of the body. -/
theorem hang_infix_assemble (hx : Firm x) (hmem : text ∈ [parts.state, parts.refs, parts.init,
    parts.mount, parts.returnStatement]) (h : x <:+: text.toList) :
    hang "  ".toList x <:+: parts.assemble.toList := by
  have hbody := Text.hang_infix_indentChars "  ".toList hx (h.trans (infix_joinFilled "\n\n" hmem))
  rw [← toList_indent] at hbody
  have hfunction : hang "  ".toList x <:+: parts.function.toList := hbody.trans (infix_between _ _ _)
  rw [assemble, String.toList_append]
  exact (hfunction.trans (infix_joinFilled "\n\n" (by simp))).trans (List.prefix_append _ _).isInfix

theorem hang_infix_markup (hx : Firm x) (hmem : text ∈ [parts.style, parts.markup])
    (h : x <:+: text.toList) :
    hang "  ".toList (hang "    ".toList x) <:+: parts.assemble.toList := by
  have hmarkup := Text.hang_infix_indentChars "    ".toList hx
    (h.trans (infix_joinFilled "\n" hmem))
  rw [← toList_indent] at hmarkup
  have hreturn : hang "    ".toList x <:+: parts.returnStatement.toList :=
    hmarkup.trans (infix_between _ _ _)
  exact hang_infix_assemble (hx.hang _) (by simp) hreturn

end ReactWeave.Parts
