import ReactWeave.Proofs.SheetReading

/-!
# ReactWeave.Proofs.DashedNames

**Names of style properties, in camel case and with dashes.**

* `Naming.dashCaseChars_of_lower`: a name in lower case only loses the dashes in
  front. So `Style.declaration_as_written_iff` tells which names are declared as
  they are written.
* `Naming.wordsFrom_dashed`: the words between the dashes are what the capitals
  of the name start, so that nothing is lost (`Naming.dashCase_keeps_apart`).
-/

namespace ReactWeave

variable {s : List Char} {c : Char}

/-! ## Lower case -/

namespace Text

/-- No capital is left in lower case. -/
theorem isCapital_of_mem_lowerFrom {before : List Char} (h : c ∈ lowerFrom before s) :
    Naming.isCapital c = false := by
  induction s generalizing before with
  | nil => cases h
  | cons d s ih =>
    rw [lowerFrom, List.mem_append] at h
    rcases h with h | h
    · split at h
      · obtain rfl := List.mem_singleton.1 h
        split <;> decide
      · rcases Style.lowerChar_cases d with ⟨hd, hcapital⟩ | ⟨-, hd⟩
        · rw [hd, List.mem_singleton] at h
          rwa [h]
        · have hsettled := hd c h
          simp only [Style.isSettled, Bool.and_eq_true, Bool.not_eq_true'] at hsettled
          exact hsettled.2
    · exact ih h

/-- Lower case puts no dash at the start. -/
theorem head?_lower_ne (h : s.head? ≠ some '-') : (lower s).head? ≠ some '-' := by
  cases s with
  | nil => simp [lower, lowerFrom]
  | cons c s =>
    rw [lower, lowerFrom]
    split
    · split <;> simp only [List.singleton_append, List.head?_cons] <;> decide
    · rcases Style.lowerChar_cases c with ⟨hc, -⟩ | ⟨hne, hc⟩
      · rw [hc]
        exact h
      · obtain ⟨d, u, hu⟩ := List.exists_cons_of_ne_nil hne
        have hsettled := hc d (hu ▸ List.mem_cons_self)
        simp only [Style.isSettled, Bool.and_eq_true, bne_iff_ne] at hsettled
        simp [hu, hsettled.1.2]

end Text

namespace Naming

theorem dropWhile_dash_eq_self : s.dropWhile (· == '-') = s ↔ s.head? ≠ some '-' := by
  cases s <;> simp [List.dropWhile_eq_self_iff]

theorem flatMap_dash_of_lower (h : ∀ c ∈ s, isCapital c = false) :
    (s.flatMap fun c => if isCapital c then ['-', c] else [c]) = s := by
  conv => rhs; rw [← List.flatMap_singleton' s]
  exact List.flatMap_congr fun c hc => by rw [h c hc]; rfl

/-- **A name in lower case loses the dashes in front**, and nothing else. -/
theorem dashCaseChars_of_lower (h : Text.lower s = s) :
    dashCaseChars s = s.dropWhile (· == '-') := by
  rw [dashCaseChars, flatMap_dash_of_lower, h]
  intro c hc
  rw [← h] at hc
  exact Text.isCapital_of_mem_lowerFrom hc

/-- A name is its own dashed form exactly if it is in lower case and does not start with a dash. -/
theorem dashCaseChars_eq_self_iff :
    dashCaseChars s = s ↔ Text.lower s = s ∧ s.head? ≠ some '-' := by
  constructor
  · intro h
    have hcapital : ∀ c ∈ s, isCapital c = false := by
      intro c hc
      rw [← h] at hc
      exact Text.isCapital_of_mem_lowerFrom ((List.dropWhile_sublist _).subset hc)
    rw [dashCaseChars, flatMap_dash_of_lower hcapital] at h
    have hhead : s.head? ≠ some '-' := by
      intro hdash
      have hnot := List.head?_dropWhile_not (· == '-') (Text.lower s)
      rw [h, hdash] at hnot
      cases hnot
    exact ⟨by rwa [dropWhile_dash_eq_self.2 (Text.head?_lower_ne hhead)] at h, hhead⟩
  · rintro ⟨h, hhead⟩
    rw [dashCaseChars_of_lower h, dropWhile_dash_eq_self.2 hhead]

end Naming

namespace Style

/-- **Which properties are declared as written**: those in lower case that do not start with a dash.
Of all others in lower case, such as custom and prefixed properties, the dashes in front are
lost. -/
theorem declaration_as_written_iff (before after : Map) (key value : String) :
    declarations (before ++ (key, .str value) :: after) =
        declarations before ++ declaration key value :: declarations after ∧
      (declaration key value = key ++ ": " ++ value ++ ";" ↔
        Text.lower key.toList = key.toList ∧ key.toList.head? ≠ some '-') ∧
      (Text.lower key.toList = key.toList →
        declaration key value =
          String.ofList (key.toList.dropWhile (· == '-')) ++ ": " ++ value ++ ";") := by
  refine ⟨by simp [declarations, List.filterMap_append], ?_, fun h => ?_⟩
  · rw [declaration, String.append_assoc, String.append_assoc, String.append_assoc,
      String.append_assoc, String.append_left_inj, ← Naming.dashCaseChars_eq_self_iff,
      ← String.toList_inj, Naming.dashCase, String.toList_ofList]
  · rw [declaration, Naming.dashCase, Naming.dashCaseChars_of_lower h]

/-- A custom property is not declared as written. -/
theorem declaration_custom :
    Text.lower "--main".toList = "--main".toList ∧
      declarations [("--main", .str "red")] = ["main: red;"] := by
  decide +kernel

end Style

/-! ## Camel case -/

namespace Naming

/-- Whether a name has letters and digits only, and starts with a small letter. -/
def isCamel (s : List Char) : Bool := s.head?.any Char.isLower && s.all Char.isAlphanum

/-- A character of a name as it is spelled with dashes. -/
def dashed (c : Char) : List Char :=
  (if isCapital c then ['-', c] else [c]).flatMap Text.lowerChar

/-- A letter or digit stays as it is, or becomes a dash and a letter that it is the capital of. -/
theorem dashed_cases (h : c.isAlphanum = true) :
    ':' ∉ dashed c ∧ ((dashed c = [c] ∧ isSeparator c = false) ∨
      (c.isLower = false ∧
        ∃ d, dashed c = ['-', d] ∧ isSeparator d = false ∧ Text.upperChar d = [c])) := by
  have hall : ∀ n < 123, (Char.ofNat n).isAlphanum = true →
      ':' ∉ dashed (Char.ofNat n) ∧
      ((dashed (Char.ofNat n) = [Char.ofNat n] ∧ isSeparator (Char.ofNat n) = false) ∨
        ((Char.ofNat n).isLower = false ∧ dashed (Char.ofNat n) = ['-', Char.ofNat (n + 32)] ∧
          isSeparator (Char.ofNat (n + 32)) = false ∧
          Text.upperChar (Char.ofNat (n + 32)) = [Char.ofNat n])) := by
    decide +kernel
  have hlt : c.toNat < 123 := by
    delta Char.isAlphanum Char.isAlpha Char.isUpper Char.isLower Char.isDigit at h
    simp only [Bool.or_eq_true, Bool.and_eq_true, decide_eq_true_eq, UInt32.le_iff_toNat_le] at h
    rcases h with (⟨-, h⟩ | ⟨-, h⟩) | ⟨-, h⟩
    all_goals exact Nat.lt_of_le_of_lt h (by decide)
  have hc := hall c.toNat hlt
  rw [Char.ofNat_toNat] at hc
  exact ⟨(hc h).1, (hc h).2.imp_right fun hcapital => ⟨hcapital.1, _, hcapital.2⟩⟩

theorem lowerFrom_eq_flatMap (h : Text.capitalSigma ∉ s) (before : List Char) :
    Text.lowerFrom before s = s.flatMap Text.lowerChar := by
  induction s generalizing before with
  | nil => rfl
  | cons c s ih =>
    obtain ⟨hc, hs⟩ := not_or.1 (mt List.mem_cons.2 h)
    rw [Text.lowerFrom, if_neg (by simpa using Ne.symm hc), ih hs, List.flatMap_cons]

/-- For a camel-case name the dashes are put in letter by letter. -/
theorem dashCaseChars_of_camel (h : isCamel s = true) : dashCaseChars s = s.flatMap dashed := by
  obtain ⟨hhead, hall⟩ := Bool.and_eq_true_iff.1 h
  rw [List.all_eq_true] at hall
  have hsigma : Text.capitalSigma ∉ s.flatMap fun c => if isCapital c then ['-', c] else [c] := by
    intro hmem
    obtain ⟨c, hc, hmem⟩ := List.mem_flatMap.1 hmem
    have hne : Text.capitalSigma ≠ c := by
      rintro rfl
      exact absurd (hall _ hc) (by decide)
    split at hmem <;> simp [hne] at hmem
    exact absurd hmem (by decide)
  rw [dashCaseChars, Text.lower, lowerFrom_eq_flatMap hsigma, List.flatMap_assoc]
  refine dropWhile_dash_eq_self.2 ?_
  cases s with
  | nil => simp
  | cons c s =>
    have hlower : c.isLower = true := by simpa using hhead
    rcases (dashed_cases (hall c List.mem_cons_self)).2 with ⟨hc, hsep⟩ | ⟨hc, -⟩
    · rw [dashed] at hc
      rw [List.flatMap_cons, hc]
      rintro heq
      obtain rfl : c = '-' := by simpa using heq
      cases hsep
    · rw [hlower] at hc
      cases hc

/-- **The words of a dashed name are what its capitals start.** The word that is being read goes on
up to the first of them. -/
theorem wordsFrom_dashed (hs : ∀ c ∈ s, c.isAlphanum = true) {current : List Char}
    (hcurrent : current ≠ []) :
    ∃ w ws, wordsFrom current (s.flatMap dashed) = (current.reverse ++ w) :: ws ∧
      w ++ ws.flatMap capitalizeChars = s := by
  induction s generalizing current with
  | nil => exact ⟨[], [], by simp [wordsFrom, hcurrent]⟩
  | cons c s ih =>
    obtain ⟨hc, hs⟩ := List.forall_mem_cons.1 hs
    rcases (dashed_cases hc).2 with ⟨hself, hsep⟩ | ⟨-, d, hdash, hsep, hupper⟩
    · obtain ⟨w, ws, hwords, hjoin⟩ := ih hs (List.cons_ne_nil c current)
      refine ⟨c :: w, ws, ?_, by rw [List.cons_append, hjoin]⟩
      simp [List.flatMap_cons, hself, wordsFrom, hsep, hwords]
    · obtain ⟨w, ws, hwords, hjoin⟩ := ih hs (List.cons_ne_nil d [])
      refine ⟨[], (d :: w) :: ws, ?_, ?_⟩
      · have hmark : isSeparator '-' = true := rfl
        simpa [List.flatMap_cons, hdash, wordsFrom, hsep, hmark, hcurrent] using hwords
      · simp [capitalizeChars, Text.upper, hupper, hjoin]

/-- **Camel case undoes dashes.** -/
theorem camelCase_dashCase {name : String} (h : isCamel name.toList = true) :
    camelCase (dashCase name) = name := by
  obtain ⟨hhead, hall⟩ := Bool.and_eq_true_iff.1 h
  rw [camelCase, dashCase, String.toList_ofList, dashCaseChars_of_camel h, camelCaseChars,
    ← String.toList_inj, String.toList_ofList]
  generalize name.toList = s at hhead hall
  cases s with
  | nil => cases hhead
  | cons c s =>
    obtain ⟨hc, hs⟩ := List.forall_mem_cons.1 (List.all_eq_true.1 hall)
    rcases (dashed_cases hc).2 with ⟨hself, hsep⟩ | ⟨hlower, -⟩
    · obtain ⟨w, ws, hwords, hjoin⟩ := wordsFrom_dashed hs (List.cons_ne_nil c [])
      simp [List.flatMap_cons, hself, wordsFrom, hsep, hwords, hjoin]
    · have hupper : c.isLower = true := by simpa using hhead
      rw [hupper] at hlower
      cases hlower

end Naming

namespace Style

/-- The name in a declaration. -/
def declaredName (line : String) : List Char := line.toList.takeWhile (· != ':')

theorem declaredName_declaration {key : String} (h : Naming.isCamel key.toList = true)
    (value : String) : declaredName (declaration key value) = (Naming.dashCase key).toList := by
  have hall := List.all_eq_true.1 (Bool.and_eq_true_iff.1 h).2
  have hcolon : ∀ c ∈ (Naming.dashCase key).toList, (c != ':') = true := by
    rw [Naming.dashCase, String.toList_ofList, Naming.dashCaseChars_of_camel h]
    rintro c hc
    obtain ⟨d, hd, hc⟩ := List.mem_flatMap.1 hc
    rw [bne_iff_ne]
    rintro rfl
    exact (Naming.dashed_cases (hall d hd)).1 hc
  simp only [declaredName, declaration, String.toList_append, List.append_assoc]
  rw [List.takeWhile_append_of_pos hcolon]
  simp

end Style

/-- **Spelling with dashes loses nothing**: camel case undoes it. So the properties of a style map
are declared under as many names. -/
theorem Naming.dashCase_keeps_apart :
    (∀ name : String, isCamel name.toList = true → camelCase (dashCase name) = name) ∧
      (∀ name other : String, isCamel name.toList = true → isCamel other.toList = true →
        dashCase name = dashCase other → name = other) ∧
      ∀ map : Style.Map, (map.map Prod.fst).Nodup →
        (∀ key value, (key, .str value) ∈ map → isCamel key.toList = true) →
        ((Style.declarations map).map Style.declaredName).Nodup := by
  have hinj : ∀ name other : String, isCamel name.toList = true → isCamel other.toList = true →
      dashCase name = dashCase other → name = other := by
    intro name other hname hother heq
    rw [← camelCase_dashCase hname, heq, camelCase_dashCase hother]
  refine ⟨fun name => camelCase_dashCase, hinj, fun map hkeys hcamel => ?_⟩
  rw [List.Nodup, List.pairwise_map] at hkeys ⊢
  rw [Style.declarations, List.pairwise_filterMap]
  refine hkeys.imp_of_mem ?_
  rintro ⟨key, value⟩ ⟨other, value'⟩ hmem hmem' hne line hline line' hline' heq
  cases value <;> simp only [reduceCtorEq, Option.some.injEq] at hline
  cases value' <;> simp only [reduceCtorEq, Option.some.injEq] at hline'
  rw [← hline, ← hline', Style.declaredName_declaration (hcamel _ _ hmem),
    Style.declaredName_declaration (hcamel _ _ hmem'), String.toList_inj] at heq
  exact hne (hinj _ _ (hcamel _ _ hmem) (hcamel _ _ hmem') heq)

theorem Naming.dashCase_keeps_apart_capitals :
    isCamel "mozOSXFontSmoothing2".toList = true ∧
      camelCase (dashCase "mozOSXFontSmoothing2") = "mozOSXFontSmoothing2" ∧
      ((Style.declarations [("aB", .str "1"), ("ab", .str "2")]).map Style.declaredName).Nodup := by
  refine ⟨by decide, dashCase_keeps_apart.1 _ (by decide), dashCase_keeps_apart.2.2 _ (by decide) ?_⟩
  intro key value h
  simp only [List.mem_cons, Prod.mk.injEq, List.not_mem_nil, or_false] at h
  rcases h with ⟨rfl, -⟩ | ⟨rfl, -⟩ <;> decide

end ReactWeave
