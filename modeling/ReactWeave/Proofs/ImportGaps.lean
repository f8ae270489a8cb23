import ReactWeave.Formatter
import ReactWeave.Proofs.Tokens

/-!
# ReactWeave.Proofs.ImportGaps

**Closing the gaps between imports is complete and stable.**

* `GapsClosed` relates a text to what is left of it, one character or one gap at a
  time, and `gapsClosed_collapseFrom` says that this is what closing does.
* `GapsClosed.not_startsGap`: no gap is left, and none has come up. What follows a
  semicolon in the result up to an `import` has no semicolon itself, so it was
  there before (`GapsClosed.exists_of_append`).
-/

namespace ReactWeave

/-- Whether a text starts with a gap: a semicolon, an empty line, and an import. -/
def startsGap (s : List Char) : Bool :=
  Text.startsWith gapStart s && (s.drop gapStart.length).head?.any Text.isBlank

/-- A text with its gaps closed. In each, one of the two line ends goes, and the white space behind
`import` becomes a space. -/
inductive GapsClosed : List Char → List Char → Prop where
  | nil : GapsClosed [] []
  | keep {c : Char} {s t : List Char} (hc : startsGap (c :: s) = false) (h : GapsClosed s t) :
      GapsClosed (c :: s) (c :: t)
  | gap {w : Char} {s t : List Char} (hw : Text.isBlank w = true) (h : GapsClosed s t) :
      GapsClosed (gapStart ++ w :: s) (";\nimport ".toList ++ t)

variable {s t : List Char} {w : Char}

theorem gapStart_eq : gapStart = ';' :: "\n\nimport".toList := by decide

theorem startsGap_iff : startsGap s = true ↔
    ∃ w r, Text.isBlank w = true ∧ s = gapStart ++ w :: r := by
  rw [startsGap, Bool.and_eq_true, Text.startsWith_iff]
  constructor
  · rintro ⟨⟨r, rfl⟩, hblank⟩
    rw [List.drop_left] at hblank
    cases r with
    | nil => cases hblank
    | cons w r => exact ⟨w, r, hblank, rfl⟩
  · rintro ⟨w, r, hblank, rfl⟩
    exact ⟨⟨w :: r, rfl⟩, by simpa using hblank⟩

theorem gapsClosed_collapseFrom (skip : Nat) (s : List Char) :
    GapsClosed (s.drop skip) (collapseFrom skip s) := by
  fun_induction collapseFrom skip s with
  | case1 skip => simpa using GapsClosed.nil
  | case2 skip c s ih => exact ih
  | case3 c s h ih =>
    obtain ⟨w, r, hw, hgap⟩ := startsGap_iff.1 (show startsGap (c :: s) = true from h)
    have hrest : s.drop gapStart.length = r := congrArg (List.drop 10) hgap
    rw [List.drop_zero, hgap]
    rw [hrest] at ih
    exact .gap hw ih
  | case4 c s h ih => exact .keep (Bool.eq_false_iff.2 h) ih

/-- Up to the first semicolon nothing was closed. -/
theorem GapsClosed.exists_of_append {u : List Char} (hu : ';' ∉ u) (h : GapsClosed s (u ++ t)) :
    ∃ r, s = u ++ r := by
  induction u generalizing s with
  | nil => exact ⟨s, rfl⟩
  | cons c u ih =>
    obtain ⟨hc, hu⟩ := not_or.1 (mt List.mem_cons.2 hu)
    rw [List.cons_append] at h
    generalize hresult : c :: (u ++ t) = result at h
    cases h with
    | nil => cases hresult
    | keep _ h =>
      obtain ⟨rfl, rfl⟩ := List.cons.inj hresult
      obtain ⟨r, rfl⟩ := ih hu h
      exact ⟨r, rfl⟩
    | gap _ _ => exact absurd (List.cons.inj hresult).1.symm hc

/-- **No gap is left**, not even one that closing another has made. -/
theorem GapsClosed.not_startsGap (h : GapsClosed s t) :
    ∀ u, u <:+ t → startsGap u = false := by
  induction h with
  | nil =>
    intro u hu
    rw [List.suffix_nil.1 hu]
    rfl
  | @keep c s t hc h ih =>
    intro u hu
    rcases List.suffix_cons_iff.1 hu with rfl | hu
    · refine Bool.eq_false_iff.2 fun hgap => ?_
      obtain ⟨w, r, hw, hgap⟩ := startsGap_iff.1 hgap
      rw [gapStart_eq, List.cons_append, List.cons.injEq] at hgap
      obtain ⟨rfl, rfl⟩ := hgap
      -- The semicolon was kept, and so was all that makes it a gap.
      have hplain : ';' ∉ "\n\nimport".toList ++ [w] := by
        intro hmem
        rcases List.mem_append.1 hmem with hmem | hmem
        · exact absurd hmem (by decide)
        · rw [← List.mem_singleton.1 hmem] at hw
          cases hw
      rw [List.append_cons] at h
      obtain ⟨r', rfl⟩ := exists_of_append hplain h
      rw [startsGap_iff.2 ⟨w, r', hw, by rw [gapStart_eq, List.append_assoc]; rfl⟩] at hc
      cases hc
    · exact ih u hu
  | @gap w s t hw h ih =>
    intro u hu
    simp only [String.reduceToList, List.cons_append, List.nil_append, List.suffix_cons_iff] at hu
    rcases hu with rfl | rfl | rfl | rfl | rfl | rfl | rfl | rfl | rfl | hu
    iterate 9 rfl
    exact ih u hu

theorem collapseFrom_of_not_startsGap (h : ∀ u, u <:+ s → startsGap u = false) :
    collapseFrom 0 s = s := by
  induction s with
  | nil => rfl
  | cons c s ih =>
    have hc : startsGap (c :: s) = false := h _ (List.suffix_refl _)
    rw [collapseFrom, if_neg (by rw [← Bool.not_eq_true] at hc; exact hc),
      ih fun u hu => h u (hu.trans (List.suffix_cons c s))]

/-- **Closing gaps is complete and stable**: it closes every gap and changes nothing else, the result
has no gap, and so it is closed already. -/
theorem collapseImportGaps_exact (source : String) :
    GapsClosed source.toList (collapseImportGaps source).toList ∧
      (∀ before after w, Text.isBlank w = true →
        (collapseImportGaps source).toList ≠ before ++ (gapStart ++ w :: after)) ∧
      collapseImportGaps (collapseImportGaps source) = collapseImportGaps source := by
  have hclosed : GapsClosed source.toList (collapseImportGaps source).toList := by
    rw [collapseImportGaps, String.toList_ofList]
    exact gapsClosed_collapseFrom 0 _
  refine ⟨hclosed, fun before after w hw heq => ?_, ?_⟩
  · have hnone := hclosed.not_startsGap _ ⟨before, heq.symm⟩
    rw [startsGap_iff.2 ⟨w, after, hw, rfl⟩] at hnone
    cases hnone
  · rw [collapseImportGaps, collapseFrom_of_not_startsGap hclosed.not_startsGap,
      String.ofList_toList]

example : collapseImportGaps "a;\n\nimport\tb;\n\nimport\n\nc;\n\n\nimport d" =
    "a;\nimport b;\nimport \nc;\n\n\nimport d" := by
  decide +kernel

end ReactWeave
