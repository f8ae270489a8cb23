import ReactWeave.Proofs.GetterCalls
import ReactWeave.Proofs.Indentation
import ReactWeave.Proofs.NestedRules

/-!
# ReactWeave.Proofs.SheetReading

**A style sheet is read back as the style map it was written from.**

A sheet is read line by line. White space around a line and lines of nothing else do
not count. A line that ends in an opening brace starts a rule, a closing brace ends
it, and a line that ends in a semicolon is a declaration; no other line is allowed,
and rules have to be closed.

* `readSheet_rules` puts these together.
-/

namespace ReactWeave

namespace Style

/-! ## Plain texts -/

/-- Whether a character ends what a line of a sheet says. -/
def isMark (c : Char) : Bool := c == '\x7b' || c == '\x7d' || c == ';'

/-- Whether a character has no meaning of its own in a sheet. -/
def isPlainChar (c : Char) : Bool := !isMark c && !Text.isLineEnd c

/-- Whether a text has no brace, no semicolon and no line end. -/
def isUnmarked (s : String) : Bool := s.toList.all isPlainChar

section Plain

open Text

/-- Whether a character is plain, no dash and none of the letters from A to Z. -/
def isSettled (c : Char) : Bool := isPlainChar c && c != '-' && !Naming.isCapital c

theorem lowerShifts_settled :
    (lowerShifts.all fun r => (List.range r.count).all fun i =>
      isSettled (Char.ofNat ((r.first + i * r.step : Int) + r.difference).toNat)) = true := by
  rw [lowerShifts, decodeShifts, toLowerRuns]
  repeat rw [flatMap_toList_cons]
  decide +kernel

theorem lowerExpansions_settled :
    (lowerExpansions.all fun entry => !entry.2.isEmpty && entry.2.all isSettled) = true := by
  rw [lowerExpansions, decodeExpansions, toLowerExpansions]
  repeat rw [flatMap_toList_cons]
  decide +kernel

/-- Lower case keeps a character that is no capital, or gives settled ones. -/
theorem lowerChar_cases (c : Char) :
    (lowerChar c = [c] ∧ Naming.isCapital c = false) ∨
      (lowerChar c ≠ [] ∧ ∀ d ∈ lowerChar c, isSettled d = true) := by
  rw [lowerChar]
  split
  · split
    · rename_i hupper
      have hletter : ∀ k, k < 123 → 97 ≤ k → isSettled (Char.ofNat k) = true := by decide
      simp only [Bool.and_eq_true, decide_eq_true_eq] at hupper
      exact .inr ⟨List.cons_ne_nil _ _,
        List.forall_mem_singleton.2 (hletter _ (by omega) (by omega))⟩
    · rename_i hupper
      exact .inl ⟨rfl, Bool.eq_false_of_not_eq_true hupper⟩
  · rename_i hlarge
    refine (mapByTable_cases lowerShifts_settled lowerExpansions_settled c).imp_left
      fun h => ⟨h, ?_⟩
    rw [Naming.isCapital, Bool.and_eq_false_iff]
    exact .inr (decide_eq_false (by omega))

theorem isPlainChar_of_mem_lowerChar {c d : Char} (hc : isPlainChar c = true)
    (hd : d ∈ lowerChar c) : isPlainChar d = true := by
  rcases lowerChar_cases c with ⟨h, -⟩ | ⟨-, h⟩
  · rw [h, List.mem_singleton] at hd
    rwa [hd]
  · have hsettled := h d hd
    simp only [isSettled, Bool.and_eq_true] at hsettled
    exact hsettled.1.1

theorem all_lowerFrom {s : List Char} (hs : s.all isPlainChar = true) (before : List Char) :
    (lowerFrom before s).all isPlainChar = true := by
  induction s generalizing before with
  | nil => rfl
  | cons c s ih =>
    rw [List.all_cons, Bool.and_eq_true] at hs
    rw [lowerFrom, List.all_append, ih hs.2, Bool.and_true, List.all_eq_true]
    intro d hd
    split at hd
    · obtain rfl := List.mem_singleton.1 hd
      split <;> decide
    · exact isPlainChar_of_mem_lowerChar hs.1 hd

theorem isUnmarked_dashCase {name : String} (h : isUnmarked name = true) :
    isUnmarked (Naming.dashCase name) = true := by
  rw [isUnmarked, Naming.dashCase, String.toList_ofList, Naming.dashCaseChars]
  have hdashed : (name.toList.flatMap fun c => if Naming.isCapital c then ['-', c] else [c]).all
      isPlainChar = true := by
    rw [List.all_flatMap, List.all_eq_true]
    intro c hc
    have hplain := List.all_eq_true.1 h c hc
    split
    · simpa [hplain] using (by decide : isPlainChar '-' = true)
    · simpa using hplain
  have hlower := List.all_eq_true.1 (all_lowerFrom hdashed [])
  exact List.all_eq_true.2 fun d hd => hlower d ((List.dropWhile_sublist _).subset hd)

theorem isUnmarked_append {s t : String} :
    isUnmarked (s ++ t) = true ↔ isUnmarked s = true ∧ isUnmarked t = true := by
  rw [isUnmarked, String.toList_append, List.all_append, Bool.and_eq_true]
  rfl

theorem isUnmarked_nestedSelector {selector key : String} (hselector : isUnmarked selector = true)
    (hkey : isUnmarked key = true) : isUnmarked (nestedSelector selector key) = true := by
  unfold nestedSelector
  split
  · rw [← fill, isUnmarked, toList_fill, List.all_flatMap, List.all_eq_true]
    intro c hc
    split
    · exact hselector
    · simpa using List.all_eq_true.1 hkey c hc
  · split
    · exact isUnmarked_append.2 ⟨hselector, hkey⟩
    · exact isUnmarked_append.2 ⟨isUnmarked_append.2 ⟨hselector, by decide⟩, hkey⟩

end Plain

/-! ## Reading sheets -/

/-- What a line of a sheet says. -/
inductive Line where
  | opens (head : String)
  | declares (text : String)
  | closes

/-- What a line says that has no white space around it. There is one mark, at its end. -/
def lineOf? (line : List Char) : Option Line :=
  if line.dropLast.any isMark then none
  else
    match line.getLast? with
    | some '\x7b' => some (.opens (String.ofList (Text.trim line.dropLast)))
    | some ';' => some (.declares (String.ofList line))
    | some '\x7d' => if line.dropLast.isEmpty then some .closes else none
    | _ => none

/-- The lines of a text without the white space around them. Lines of nothing else are left out. -/
def solidLines (s : List Char) : List (List Char) :=
  ((s.splitOnP Text.isLineEnd).map Text.trim).filter fun line => !line.isEmpty

/-- The parts of a sheet whose lines say this. `stack` has the heads of the rules that are open, each
with the parts in front of it, and `done` the parts of the innermost one so far. -/
def assemble : List (String × List Block) → List Block → List Line → Option (List Block)
  | [], done, [] => some done
  | _ :: _, _, [] => none
  | stack, done, .declares text :: lines => assemble stack (done ++ [.line text]) lines
  | stack, done, .opens head :: lines => assemble ((head, done) :: stack) [] lines
  | (head, outer) :: stack, done, .closes :: lines =>
    assemble stack (outer ++ [.rule head done]) lines
  | [], _, .closes :: _ => none

/-- ReadsLines a style sheet line by line. -/
def readSheet (sheet : String) : Option (List Block) :=
  ((solidLines sheet.toList).mapM lineOf?).bind (assemble [] [])

/-! ## Lines -/

section Lines

variable {s t : List Char}

theorem solidLines_append {c : Char} (hc : Text.isLineEnd c = true) (s t : List Char) :
    solidLines (s ++ c :: t) = solidLines s ++ solidLines t := by
  rw [solidLines, List.splitOnP_append_cons s t hc, List.map_append, List.filter_append]
  rfl

theorem solidLines_of_line (hs : ∀ c ∈ s, Text.isLineEnd c = false) :
    solidLines s = [Text.trim s].filter fun line => !line.isEmpty := by
  rw [solidLines, List.splitOnP_eq_singleton hs]
  rfl

theorem trim_append {w : List Char} (hw : ∀ c ∈ w, Text.isBlank c = true) (s : List Char) :
    Text.trim (w ++ s) = Text.trim s := by
  rw [Text.trim, State.trimStart_append hw, Text.trim]

theorem trim_append_of_blank (s : List Char) {w : List Char}
    (hw : ∀ c ∈ w, Text.isBlank c = true) : Text.trim (s ++ w) = Text.trim s := by
  rw [Text.trim, Text.trimStart, List.dropWhile_append]
  split
  · rename_i hnil
    have hnone : w.dropWhile Text.isBlank = [] := List.dropWhile_eq_nil_iff.2 hw
    rw [Text.trim, Text.trimStart, hnone, List.isEmpty_iff.1 hnil]
  · exact State.trimEnd_append_of_blank _ hw

/-- Whether a text is a margin: blanks that end no line. -/
def IsMargin (margin : List Char) : Prop :=
  ∀ c ∈ margin, Text.isBlank c = true ∧ Text.isLineEnd c = false

variable {margin : List Char}

/-- A margin is no line. -/
theorem solidLines_margin (hmargin : IsMargin margin) (s : List Char) :
    solidLines (margin ++ s) = solidLines s := by
  induction margin with
  | nil => rfl
  | cons c margin ih =>
    obtain ⟨⟨hblank, hend⟩, hmargin⟩ := List.forall_mem_cons.1 hmargin
    rw [← ih hmargin, List.cons_append, solidLines, List.splitOnP_cons_eq_if_modifyHead, hend,
      solidLines]
    congr 1
    cases (margin ++ s).splitOnP Text.isLineEnd with
    | nil => rfl
    | cons line lines =>
      have htrim : Text.trim (c :: line) = Text.trim line :=
        trim_append (w := [c]) (by simpa using hblank) line
      exact congrArg (· :: lines.map Text.trim) htrim

/-- **Indenting is not seen.** -/
theorem solidLines_indent (hmargin : IsMargin margin) (s : List Char) :
    solidLines (Text.indentChars margin s) = solidLines s := by
  have hline (line t : List Char) :
      solidLines ((if Text.isBlankText line then line else margin ++ line) ++ t) =
        solidLines (line ++ t) := by
    split
    · rfl
    · rw [List.append_assoc, solidLines_margin hmargin]
  -- Each line that is read is followed by what the later ones become.
  have hfrom (current s : List Char) :
      solidLines ((Text.linesFrom current s).flatMap fun line =>
        if Text.isBlankText line then line else margin ++ line) =
          solidLines (current.reverse ++ s) := by
    fun_induction Text.linesFrom current s with
    | case1 current hnil =>
      rw [List.isEmpty_iff.1 hnil]
      rfl
    | case2 current hsome =>
      rw [List.flatMap_cons, hline]
      rfl
    | case3 current s ih =>
      rw [List.flatMap_cons, hline, List.reverse_cons, List.reverse_cons, List.append_assoc,
        List.append_assoc]
      have hreturn : Text.isLineEnd '\r' = true := by decide
      have hbreak : Text.isLineEnd '\n' = true := by decide
      have hsplit (t : List Char) : solidLines (current.reverse ++ '\r' :: '\n' :: t) =
          solidLines current.reverse ++ solidLines t := by
        rw [solidLines_append hreturn]
        exact congrArg _ (solidLines_append hbreak [] t)
      exact (hsplit _).trans ((congrArg _ ih).trans (hsplit s).symm)
    | case4 current c s _ hend ih =>
      rw [List.flatMap_cons, hline, List.reverse_cons, List.append_assoc, List.singleton_append,
        solidLines_append hend, ih, solidLines_append hend]
      rfl
    | case5 current c s _ hend ih =>
      rw [ih, List.reverse_cons, List.append_assoc, List.singleton_append]
  exact hfrom [] s

/-- Whether the lines of a text say this. -/
def ReadsLines (s : List Char) (lines : List Line) : Prop := (solidLines s).mapM lineOf? = some lines

theorem ReadsLines.append {s t : List Char} {ls ms : List Line} (hs : ReadsLines s ls)
    (ht : ReadsLines t ms) :
    ReadsLines (s ++ '\n' :: t) (ls ++ ms) := by
  rw [ReadsLines, solidLines_append (by decide), List.mapM_append, hs, ht]
  rfl

theorem reads_nil : ReadsLines [] [] := rfl

theorem ReadsLines.indent {s : List Char} {ls : List Line} (hs : ReadsLines s ls) :
    ReadsLines (Text.indentChars "  ".toList s) ls := by
  have hmargin : IsMargin "  ".toList := by
    intro c hc
    obtain rfl : c = ' ' := by simpa using hc
    decide
  rw [ReadsLines, solidLines_indent hmargin]
  exact hs

theorem trim_marked (s : List Char) {c : Char} (hc : isMark c = true) :
    Text.trim (s ++ [c]) = Text.trimStart s ++ [c] := by
  have hsolid : Text.isBlank c = false := by
    simp only [isMark, Bool.or_eq_true, beq_iff_eq] at hc
    rcases hc with (rfl | rfl) | rfl <;> decide
  have hstart : Text.trimStart (s ++ [c]) = Text.trimStart s ++ [c] := by
    rw [Text.trimStart, List.dropWhile_append]
    split
    · rename_i hnil
      rw [Text.trimStart, List.isEmpty_iff.1 hnil]
      simp [hsolid]
    · rfl
  have hend : Text.trimEnd [c] = [c] := by simp [Text.trimEnd, hsolid]
  rw [Text.trim, hstart, State.trimEnd_append _ (by simp [Text.trimStart, hsolid]), hend]

/-- A line that ends with a mark is read as what it is. -/
theorem reads_marked {s : List Char} (hs : s.all isPlainChar = true) {c : Char}
    (hc : isMark c = true) {line : Line}
    (hline : lineOf? (Text.trimStart s ++ [c]) = some line) : ReadsLines (s ++ [c]) [line] := by
  have hends : ∀ d ∈ s ++ [c], Text.isLineEnd d = false := by
    intro d hd
    rcases List.mem_append.1 hd with hd | hd
    · have hplain := List.all_eq_true.1 hs d hd
      simp only [isPlainChar, Bool.and_eq_true, Bool.not_eq_true'] at hplain
      exact hplain.2
    · obtain rfl := List.mem_singleton.1 hd
      simp only [isMark, Bool.or_eq_true, beq_iff_eq] at hc
      rcases hc with (rfl | rfl) | rfl <;> decide
  rw [ReadsLines, solidLines_of_line hends, trim_marked s hc]
  simp [hline]

theorem any_isMark_trimStart {s : List Char} (hs : s.all isPlainChar = true) :
    (Text.trimStart s).any isMark = false := by
  rw [List.any_eq_false]
  intro c hc
  have hplain := List.all_eq_true.1 hs c ((List.dropWhile_sublist _).subset hc)
  simp only [isPlainChar, Bool.and_eq_true, Bool.not_eq_true'] at hplain
  simp [hplain.1]

theorem reads_declaration {s : String} (hs : isUnmarked s = true) :
    ReadsLines (s ++ ";").toList [.declares (Text.trimmed (s ++ ";"))] := by
  have hlist : (s ++ ";").toList = s.toList ++ [';'] := String.toList_append
  rw [Text.trimmed, hlist, trim_marked _ (by decide)]
  refine reads_marked hs (by decide) ?_
  simp [lineOf?, any_isMark_trimStart hs]

theorem reads_head {head : String} (hs : isUnmarked head = true) :
    ReadsLines (head.toList ++ [' ', '\x7b']) [.opens (Text.trimmed head)] := by
  have hspace : (head.toList ++ [' ']).all isPlainChar = true := by
    rw [List.all_append, Bool.and_eq_true]
    exact ⟨hs, by decide⟩
  have hlist : head.toList ++ [' ', '\x7b'] = (head.toList ++ [' ']) ++ ['\x7b'] := by simp
  have htrim : Text.trim (Text.trimStart (head.toList ++ [' '])) = Text.trim head.toList := by
    rw [Text.trim, State.trimStart_trimStart, ← Text.trim, trim_append_of_blank _ (by decide)]
  rw [hlist]
  refine reads_marked hspace (by decide) ?_
  simp [lineOf?, any_isMark_trimStart hspace, htrim, Text.trimmed]

theorem reads_closing : ReadsLines ['\x7d'] [.closes] := rfl

end Lines

/-! ## Rules -/

namespace Block

mutual

/-- The lines of a part of a sheet. -/
def script : Block → List Line
  | line t => [.declares (Text.trimmed t)]
  | rule head content => .opens (Text.trimmed head) :: (scriptAll content ++ [.closes])

/-- The lines of neighbouring parts. -/
def scriptAll : List Block → List Line
  | [] => []
  | b :: bs => script b ++ scriptAll bs

end

mutual

/-- A part of a sheet without the white space around its heads and declarations. -/
def trimmed : Block → Block
  | line t => line (Text.trimmed t)
  | rule head content => rule (Text.trimmed head) (trimmedAll content)

/-- The same of neighbouring parts. -/
def trimmedAll : List Block → List Block
  | [] => []
  | b :: bs => trimmed b :: trimmedAll bs

end

mutual

/-- Whether a part is made of plain texts: heads of rules, and declarations up to their semicolon. -/
def Plain : Block → Prop
  | line t => ∃ s : String, isUnmarked s = true ∧ t = s ++ ";"
  | rule head content => isUnmarked head = true ∧ PlainAll content

/-- The same of neighbouring parts. -/
def PlainAll : List Block → Prop
  | [] => True
  | b :: bs => Plain b ∧ PlainAll bs

end

theorem plainAll_append {as bs : List Block} : PlainAll (as ++ bs) ↔ PlainAll as ∧ PlainAll bs := by
  induction as with
  | nil => simp [PlainAll]
  | cons a as ih => simp only [List.cons_append, PlainAll, ih, and_assoc]

end Block

open Block

theorem toList_rule (head : String) (lines : List String) :
    (rule head lines).toList = (head.toList ++ [' ', '\x7b']) ++ '\n' ::
      (Text.indentChars "  ".toList ("\n".intercalate lines).toList ++ '\n' :: ['\x7d']) := by
  simp [rule, Text.indent]

theorem toList_intercalate_lines (first second : String) (rest : List String) :
    ("\n".intercalate (first :: second :: rest)).toList =
      first.toList ++ '\n' :: ("\n".intercalate (second :: rest)).toList := by
  simp

mutual

/-- **The text of a part is read line by line.** -/
theorem reads_text : ∀ {b : Block}, b.Plain → ReadsLines b.text.toList b.script
  | .line t, h => by
    obtain ⟨s, hs, rfl⟩ := h
    rw [text, script]
    exact reads_declaration hs
  | .rule head content, h => by
    rw [Plain] at h
    rw [text, script, toList_rule]
    exact (reads_head h.1).append ((reads_texts h.2).indent.append reads_closing)

/-- **Blocks are read back from their lines.** -/
theorem reads_texts : ∀ {bs : List Block}, PlainAll bs →
    ReadsLines ("\n".intercalate (texts bs)).toList (scriptAll bs)
  | [], _ => by
    rw [texts, scriptAll]
    exact reads_nil
  | [b], h => by
    rw [PlainAll] at h
    rw [texts, texts, String.intercalate_singleton, scriptAll, scriptAll, List.append_nil]
    exact reads_text h.1
  | b :: b' :: bs, h => by
    rw [PlainAll] at h
    have hrest := reads_texts h.2
    rw [texts] at hrest
    rw [texts, texts, toList_intercalate_lines, scriptAll]
    exact (reads_text h.1).append hrest

end

mutual

/-- **The lines of a part are put together to that part.** -/
theorem assemble_script : ∀ (b : Block) (stack : List (String × List Block)) (done : List Block)
    (lines : List Line), assemble stack done (b.script ++ lines) =
      assemble stack (done ++ [b.trimmed]) lines
  | .line t, stack, done, lines => by
    rw [script, trimmed, List.singleton_append]
    cases stack <;> rw [assemble]
  | .rule head content, stack, done, lines => by
    rw [script, trimmed, List.cons_append, List.append_assoc]
    have hopen : assemble stack done
        (.opens (Text.trimmed head) :: (scriptAll content ++ ([.closes] ++ lines))) =
          assemble ((Text.trimmed head, done) :: stack) []
            (scriptAll content ++ ([.closes] ++ lines)) := by
      cases stack <;> rw [assemble]
    rw [hopen, assemble_scriptAll content, List.nil_append, List.singleton_append, assemble]

theorem assemble_scriptAll : ∀ (bs : List Block) (stack : List (String × List Block))
    (done : List Block) (lines : List Line), assemble stack done (scriptAll bs ++ lines) =
      assemble stack (done ++ trimmedAll bs) lines
  | [], stack, done, lines => by
    rw [scriptAll, trimmedAll, List.nil_append, List.append_nil]
  | b :: bs, stack, done, lines => by
    rw [scriptAll, trimmedAll, List.append_assoc, assemble_script b, assemble_scriptAll bs,
      List.append_assoc, List.singleton_append]

end

/-- **A sheet of plain rules is read back.** -/
theorem readSheet_texts {bs : List Block} (h : PlainAll bs) :
    readSheet ("\n".intercalate (texts bs)) = some (trimmedAll bs) := by
  have hread := reads_texts h
  have hbuild := assemble_scriptAll bs [] [] []
  rw [List.append_nil, List.nil_append] at hbuild
  rw [readSheet, hread]
  exact hbuild.trans (by rw [assemble])

/-! ## Style maps -/

mutual

/-- Whether all keys and texts of a value are plain, in the maps that it holds as well. -/
def isPlainValue : Json → Bool
  | .str s => isUnmarked s
  | .obj fields => isPlainMap fields
  | _ => true

/-- The same of the keys and values of a map. -/
def isPlainMap : List (String × Json) → Bool
  | [] => true
  | (key, value) :: rest => isUnmarked key && isPlainValue value && isPlainMap rest

end

theorem plain_declaration {key value : String} (hkey : isUnmarked key = true)
    (hvalue : isUnmarked value = true) : (Block.line (declaration key value)).Plain := by
  refine ⟨Naming.dashCase key ++ ": " ++ value, ?_, rfl⟩
  exact isUnmarked_append.2 ⟨isUnmarked_append.2 ⟨isUnmarked_dashCase hkey, by decide⟩, hvalue⟩

theorem plain_declarations {fields : List (String × Json)} (h : isPlainMap fields = true) :
    PlainAll ((declarations fields).map .line) := by
  induction fields with
  | nil => simp [declarations, PlainAll]
  | cons field fields ih =>
    obtain ⟨key, value⟩ := field
    simp only [isPlainMap, Bool.and_eq_true] at h
    have hrest := ih h.2
    cases value with
    | str s => exact ⟨plain_declaration h.1.1 h.1.2, hrest⟩
    | _ => exact hrest

theorem plain_ownBlock {selector : String} (hselector : isUnmarked selector = true)
    {fields : List (String × Json)} (h : isPlainMap fields = true) :
    PlainAll (ownBlock selector fields) := by
  unfold ownBlock
  split
  · simp [PlainAll]
  · exact ⟨⟨hselector, plain_declarations h⟩, trivial⟩

mutual

/-- **The rules of a plain map are plain.** -/
theorem plain_flatOf : ∀ (j : Json) {selector : String}, isUnmarked selector = true →
    isPlainValue j = true → PlainAll (flatOf selector j)
  | .obj fields, selector, hselector, h => by
    rw [isPlainValue] at h
    rw [flatOf, plainAll_append]
    exact ⟨plain_ownBlock hselector h, plain_flatIn fields hselector h⟩
  | .null, _, _, _ | .bool _, _, _, _ | .int _, _, _, _ | .real _, _, _, _ | .str _, _, _, _
  | .arr _, _, _, _ => by simp [flatOf, PlainAll]

/-- The rules of a plain map are plain. -/
theorem plain_flatIn : ∀ (fields : List (String × Json)) {selector : String},
    isUnmarked selector = true → isPlainMap fields = true → PlainAll (flatIn selector fields)
  | [], _, _, _ => by simp [flatIn, PlainAll]
  | (key, .obj fields) :: rest, selector, hselector, h => by
    simp only [isPlainMap, Bool.and_eq_true] at h
    rw [flatIn, plainAll_append]
    refine ⟨?_, plain_flatIn rest hselector h.2⟩
    split
    · exact ⟨⟨h.1.1, plain_flatOf (.obj fields) hselector h.1.2⟩, trivial⟩
    · exact plain_flatOf (.obj fields) (isUnmarked_nestedSelector hselector h.1.1) h.1.2
  | (key, .null) :: rest, selector, hselector, h | (key, .bool _) :: rest, selector, hselector, h
  | (key, .int _) :: rest, selector, hselector, h | (key, .real _) :: rest, selector, hselector, h
  | (key, .str _) :: rest, selector, hselector, h
  | (key, .arr _) :: rest, selector, hselector, h => by
    simp only [isPlainMap, Bool.and_eq_true] at h
    simpa only [flatIn] using plain_flatIn rest hselector h.2

end

/-! ## Leaves -/

namespace Block

mutual

/-- The declarations of a part and of all parts in it. -/
def declared : Block → List String
  | line t => [t]
  | rule _ content => declaredAll content

/-- The same of neighbouring parts. -/
def declaredAll : List Block → List String
  | [] => []
  | b :: bs => declared b ++ declaredAll bs

end

theorem declaredAll_append (as bs : List Block) :
    declaredAll (as ++ bs) = declaredAll as ++ declaredAll bs := by
  induction as with
  | nil => simp [declaredAll]
  | cons a as ih => simp [declaredAll, ih]

theorem declaredAll_map_line (lines : List String) : declaredAll (lines.map line) = lines := by
  induction lines with
  | nil => simp [declaredAll]
  | cons l lines ih => simp [declaredAll, declared, ih]

mutual

theorem declared_trimmed : ∀ b : Block, b.trimmed.declared = b.declared.map Text.trimmed
  | line t => by simp [trimmed, declared]
  | rule head content => by
    rw [trimmed, declared, declared, declaredAll_trimmedAll content]

theorem declaredAll_trimmedAll : ∀ bs : List Block,
    declaredAll (trimmedAll bs) = (declaredAll bs).map Text.trimmed
  | [] => by simp [trimmedAll, declaredAll]
  | b :: bs => by
    rw [trimmedAll, declaredAll, declaredAll, List.map_append, declared_trimmed b,
      declaredAll_trimmedAll bs]

end

end Block

mutual

/-- The texts in a value that is a map, with their keys, as they stand. -/
def leavesOf : Json → List (String × String)
  | .obj fields => leaves fields
  | _ => []

/-- The texts in a map and in all maps in it, with their keys, as they stand. -/
def leaves : List (String × Json) → List (String × String)
  | [] => []
  | (key, .str s) :: rest => (key, s) :: leaves rest
  | (_, .obj fields) :: rest => leavesOf (.obj fields) ++ leaves rest
  | _ :: rest => leaves rest

end

/-- The declaration that a text in a map stands for. -/
def leafText (leaf : String × String) : String := declaration leaf.1 leaf.2

theorem declared_ownBlock (selector : String) (fields : List (String × Json)) :
    declaredAll (ownBlock selector fields) = declarations fields := by
  unfold ownBlock
  split
  · rename_i hnil
    rw [List.isEmpty_iff.1 hnil, declaredAll]
  · simp [declaredAll, declared, declaredAll_map_line]

mutual

/-- **The rules of a map declare each of its texts once, and nothing else.** -/
theorem perm_declared : ∀ (j : Json) (selector : String),
    (declaredAll (flatOf selector j)).Perm ((leavesOf j).map leafText)
  | .obj fields, selector => by
    rw [flatOf, declaredAll_append, declared_ownBlock, leavesOf]
    exact perm_declaredIn fields selector
  | .null, _ | .bool _, _ | .int _, _ | .real _, _ | .str _, _ | .arr _, _ => by
    simp [flatOf, declaredAll, leavesOf]

/-- Every leaf of a map is declared once. -/
theorem perm_declaredIn : ∀ (fields : List (String × Json)) (selector : String),
    (declarations fields ++ declaredAll (flatIn selector fields)).Perm
      ((leaves fields).map leafText)
  | [], _ => by simp [declarations, flatIn, declaredAll, leaves]
  | (key, .str s) :: rest, selector => by
    simp only [flatIn, leaves]
    exact (perm_declaredIn rest selector).cons _
  | (key, .obj fields) :: rest, selector => by
    -- The rules of the map in it come behind the declarations of the later fields.
    have hinner : (declaredAll (if isAtRule key then [Block.rule key (flatOf selector (.obj fields))]
        else flatOf (nestedSelector selector key) (.obj fields))).Perm
          ((leavesOf (.obj fields)).map leafText) := by
      split
      · rw [declaredAll, declared, declaredAll, List.append_nil]
        exact perm_declared (.obj fields) selector
      · exact perm_declared (.obj fields) _
    rw [flatIn, leaves, declaredAll_append, List.map_append]
    refine List.Perm.trans ?_ (hinner.append (perm_declaredIn rest selector))
    exact List.perm_append_comm_assoc _ _ _
  | (key, .null) :: rest, selector | (key, .bool _) :: rest, selector
  | (key, .int _) :: rest, selector | (key, .real _) :: rest, selector
  | (key, .arr _) :: rest, selector => by
    simp only [flatIn, leaves]
    exact perm_declaredIn rest selector

end

/-- **The rules of a style map are read back.** If the selector, the keys and the texts are plain,
the text of the rules is read as: a rule with the declarations of the map under the selector, if
there are any, and then the rules of the maps in it in their order, each under its own selector, or
in a block of its own if it is an at-rule. In them every text of the map is declared once, and
nothing else is. -/
theorem readSheet_rules {selector : String} {map : Map} (hselector : isUnmarked selector = true)
    (hmap : isPlainMap map = true) :
    readSheet ("\n".intercalate (rules selector map)) =
        some (trimmedAll (flatBlocks selector map)) ∧
      (declaredAll (trimmedAll (flatBlocks selector map))).Perm
        ((leaves map).map fun leaf => Text.trimmed (leafText leaf)) := by
  constructor
  · rw [← texts_flatBlocks]
    exact readSheet_texts (plain_flatOf (.obj map) hselector hmap)
  · have hperm := (perm_declared (.obj map) selector).map Text.trimmed
    rw [leavesOf, List.map_map] at hperm
    rw [declaredAll_trimmedAll]
    exact hperm

/-- The style of a button, with a number that is no declaration. -/
def buttonStyle : Map :=
  [("color", .str "red"), ("zIndex", .int 3),
    (":hover", .obj [("@media print", .obj [("fontSize", .str "9pt"),
      ("b &", .obj [("color", .str "black")])]), ("color", .str "blue")]),
    ("@media screen", .obj [])]

theorem readSheet_rules_buttonStyle :
    isUnmarked ".button" = true ∧ isPlainMap buttonStyle = true ∧
      readSheet ("\n".intercalate (rules ".button" buttonStyle)) =
        some [.rule ".button" [.line "color: red;"], .rule ".button:hover" [.line "color: blue;"],
          .rule "@media print" [.rule ".button:hover" [.line "font-size: 9pt;"],
            .rule "b .button:hover" [.line "color: black;"]],
          .rule "@media screen" []] ∧
      (leaves buttonStyle).length = 4 := by
  have hselector : isUnmarked ".button" = true := by decide
  have hmap : isPlainMap buttonStyle = true := by decide
  have hblocks : trimmedAll (flatBlocks ".button" buttonStyle) =
      [.rule ".button" [.line "color: red;"], .rule ".button:hover" [.line "color: blue;"],
        .rule "@media print" [.rule ".button:hover" [.line "font-size: 9pt;"],
          .rule "b .button:hover" [.line "color: black;"]],
        .rule "@media screen" []] := by
    rfl
  exact ⟨hselector, hmap, hblocks ▸ (readSheet_rules hselector hmap).1, rfl⟩

end Style

end ReactWeave
