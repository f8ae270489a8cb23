import ReactWeave.Style.Collect

/-!
# ReactWeave.Proofs.NestedRules

**Flat and nested rules of a style map.**

A style map is written in two ways. A style sheet has one flat rule for every map
with declarations, under a selector that is put together on the way down. The body
of a styled component keeps the maps nested, and the reader of the sheet puts the
selectors together, by the ampersands in the heads.

* `outline_eq`: both say the same declarations in the same at-rules, in one order.
* `expandBody_eq_gatherAll_iff`: the selectors agree too exactly if every key with
  declarations below it is an at-rule, starts with a colon or has an ampersand.
-/

namespace ReactWeave

/-! ## Ampersands -/

namespace Text

theorem occurs_singleton (a : Char) (s : List Char) : occurs [a] s = true ↔ a ∈ s := by
  induction s with
  | nil => simp [occurs]
  | cons c s ih => simp [occurs, startsWith, ih]

theorem replaceAll_singleton (a : Char) (by_ s : List Char) :
    replaceAll [a] by_ s = s.flatMap fun c => if c = a then by_ else [c] := by
  have hfrom : ∀ s : List Char,
      replaceFrom [a] by_ 0 s = s.flatMap fun c => if c = a then by_ else [c] := by
    intro s
    induction s with
    | nil => rfl
    | cons c s ih =>
      by_cases hc : c = a
      · simp [replaceFrom, startsWith, hc, ih]
      · simp [replaceFrom, startsWith, hc, Ne.symm hc, ih]
  exact hfrom s

end Text

namespace Style

/-- A head whose ampersands stand for a selector. -/
def fill (selector head : String) : String := Text.replace "&" selector head

theorem toList_fill (selector head : String) : (fill selector head).toList =
    head.toList.flatMap fun c => if c = '&' then selector.toList else [c] := by
  rw [fill, Text.replace, String.toList_ofList]
  exact Text.replaceAll_singleton '&' selector.toList head.toList

theorem occursIn_ampersand (key : String) : Text.occursIn "&" key = true ↔ '&' ∈ key.toList :=
  Text.occurs_singleton '&' key.toList

theorem flatMap_of_not_mem (u : List Char) {s : List Char} (h : '&' ∉ s) :
    (s.flatMap fun c => if c = '&' then u else [c]) = s := by
  induction s with
  | nil => rfl
  | cons c s ih =>
    rw [List.mem_cons, not_or] at h
    rw [List.flatMap_cons, ih h.2, if_neg (Ne.symm h.1), List.singleton_append]

theorem length_flatMap_le {u v : List Char} (h : v.length ≤ u.length) (s : List Char) :
    (s.flatMap fun c => if c = '&' then v else [c]).length ≤
      (s.flatMap fun c => if c = '&' then u else [c]).length := by
  induction s with
  | nil => exact Nat.le_refl _
  | cons c s ih =>
    simp only [List.flatMap_cons, List.length_append]
    by_cases hc : c = '&'
    · simp only [hc, if_true]
      omega
    · simp only [hc, if_false]
      omega

theorem length_flatMap_lt {u v s : List Char} (h : v.length < u.length) (hs : '&' ∈ s) :
    (s.flatMap fun c => if c = '&' then v else [c]).length <
      (s.flatMap fun c => if c = '&' then u else [c]).length := by
  obtain ⟨before, behind, rfl⟩ := List.append_of_mem hs
  have hbefore := length_flatMap_le (Nat.le_of_lt h) before
  have hbehind := length_flatMap_le (Nat.le_of_lt h) behind
  simp only [List.flatMap_append, List.flatMap_cons, List.length_append, if_true]
  omega

/-! ## Selectors -/

/-- Whether both ways of writing give a nested rule the same selector: at-rules have none, and
ampersands and pseudo classes say where the selector around them goes. -/
def isJoined (key : String) : Bool :=
  isAtRule key || Text.occursIn "&" key || Text.hasStart ":" key

section Selectors

variable {key selector : String}

theorem isAtRule_iff : isAtRule key = true ↔ key.toList.head? = some '@' := by
  rw [isAtRule, Text.hasStart]
  cases key.toList with
  | nil => simp [Text.startsWith]
  | cons c s =>
    change ('@' == c && true) = true ↔ some c = some '@'
    rw [Bool.and_true, beq_iff_eq, Option.some.injEq, eq_comm]

theorem isAtRule_nestedHead : isAtRule (nestedHead key) = isAtRule key := by
  unfold nestedHead
  split
  · rfl
  · rename_i h
    rw [Bool.or_eq_true, not_or] at h
    rw [Bool.eq_false_iff.2 h.1, Bool.eq_false_iff, ne_eq, isAtRule_iff, String.toList_append]
    simp

theorem nestedHead_of_isAtRule (h : isAtRule key = true) : nestedHead key = key := by
  simp [nestedHead, h]

theorem ampersand_mem_nestedHead (h : isAtRule key = false) : '&' ∈ (nestedHead key).toList := by
  unfold nestedHead
  rw [h, Bool.false_or]
  split
  · rename_i hkey
    exact (occursIn_ampersand key).1 hkey
  · rw [String.toList_append]
    exact List.mem_append_left _ (by simp)

theorem fill_ampersand (h : Text.occursIn "&" key = false) :
    fill selector ("&" ++ key) = selector ++ key := by
  have hkey : '&' ∉ key.toList := by
    rw [← occursIn_ampersand, h]
    exact Bool.false_ne_true
  apply String.toList_injective
  rw [toList_fill, String.toList_append, String.toList_append]
  simp [flatMap_of_not_mem _ hkey]

theorem fill_nestedHead (hrule : isAtRule key = false) (hkey : isJoined key = true) :
    fill selector (nestedHead key) = nestedSelector selector key := by
  rw [isJoined, hrule, Bool.false_or] at hkey
  unfold nestedHead nestedSelector
  cases hampersand : Text.occursIn "&" key with
  | true => simp [fill]
  | false =>
    rw [hampersand, Bool.false_or] at hkey
    simp [hrule, hkey, fill_ampersand hampersand]

theorem selectors_of_not_isJoined (selector : String) (hkey : isJoined key = false) :
    fill selector (nestedHead key) = selector ++ key ∧
      nestedSelector selector key = selector ++ " " ++ key := by
  simp only [isJoined, Bool.or_eq_false_iff] at hkey
  obtain ⟨⟨hrule, hampersand⟩, hpseudo⟩ := hkey
  exact ⟨by simp [nestedHead, hrule, hampersand, fill_ampersand hampersand],
    by simp [nestedSelector, hampersand, hpseudo]⟩

/-- Whether one selector is longer than another. -/
def Longer (u v : String) : Prop := v.toList.length < u.toList.length

theorem longer_of_not_isJoined (hkey : isJoined key = false) :
    Longer (nestedSelector selector key) (fill selector (nestedHead key)) := by
  obtain ⟨hnested, hflat⟩ := selectors_of_not_isJoined selector hkey
  rw [hnested, hflat, Longer]
  simp only [String.toList_append, List.length_append]
  have hspace : " ".toList.length = 1 := rfl
  omega

theorem Longer.ne {u v : String} (h : Longer u v) : u ≠ v := by
  rintro rfl
  exact Nat.lt_irrefl _ h

/-- Once a selector is longer, those below it are. -/
theorem Longer.nested {u v : String} (h : Longer u v) (hrule : isAtRule key = false) :
    Longer (nestedSelector u key) (fill v (nestedHead key)) := by
  have hfill : Longer (fill u (nestedHead key)) (fill v (nestedHead key)) := by
    rw [Longer, toList_fill, toList_fill]
    exact length_flatMap_lt h (ampersand_mem_nestedHead hrule)
  cases hkey : isJoined key with
  | true => rwa [← fill_nestedHead hrule hkey]
  | false => exact Nat.lt_trans hfill (longer_of_not_isJoined hkey)

/-- Whether a selector starts with something that is no at-rule. -/
def IsSelector (selector : String) : Prop := ∃ c s, selector.toList = c :: s ∧ c ≠ '@'

theorem IsSelector.isAtRule (h : IsSelector selector) : isAtRule selector = false := by
  obtain ⟨c, s, hs, hc⟩ := h
  rw [Bool.eq_false_iff, ne_eq, isAtRule_iff, hs]
  simpa using hc

theorem isSelector_class (name : String) : IsSelector ("." ++ name) :=
  ⟨'.', name.toList, by simp, by decide⟩

/-- A selector under a selector is one. -/
theorem IsSelector.nested (h : IsSelector selector) (hrule : Style.isAtRule key = false) :
    IsSelector (nestedSelector selector key) := by
  obtain ⟨c, s, hs, hc⟩ := h
  unfold nestedSelector
  split
  · rename_i hampersand
    rw [occursIn_ampersand] at hampersand
    rw [Bool.eq_false_iff, ne_eq, isAtRule_iff] at hrule
    cases hkey : key.toList with
    | nil => simp [hkey] at hampersand
    | cons d t =>
      -- The selector itself starts what is filled in, or the key does.
      by_cases hd : d = '&'
      · refine ⟨c, s ++ t.flatMap fun c => if c = '&' then selector.toList else [c], ?_, hc⟩
        rw [← fill, toList_fill, hkey, List.flatMap_cons, if_pos hd, hs, List.cons_append]
      · refine ⟨d, t.flatMap fun c => if c = '&' then selector.toList else [c], ?_, ?_⟩
        · rw [← fill, toList_fill, hkey, List.flatMap_cons, if_neg hd, List.singleton_append]
        · rintro rfl
          exact hrule (by rw [hkey]; rfl)
  · split
    · exact ⟨c, s ++ key.toList, by simp [hs], hc⟩
    · exact ⟨c, s ++ ' ' :: key.toList, by simp [hs], hc⟩

end Selectors

/-! ## Sheets as trees -/

/-- A part of a style sheet: a declaration, or a rule with more parts in it. -/
inductive Block where
  | line (text : String)
  | rule (head : String) (content : List Block)

namespace Block

mutual

/-- What a part is written as. -/
def text : Block → String
  | line t => t
  | rule head content => Style.rule head (texts content)

/-- What neighbouring parts are written as. -/
def texts : List Block → List String
  | [] => []
  | b :: bs => text b :: texts bs

end

theorem texts_append (as bs : List Block) : texts (as ++ bs) = texts as ++ texts bs := by
  induction as with
  | nil => simp [texts]
  | cons a as ih => simp [texts, ih]

theorem texts_map_line (lines : List String) : texts (lines.map line) = lines := by
  induction lines with
  | nil => simp [texts]
  | cons l lines ih => simp [texts, text, ih]

/-- The declaration that a part is. -/
def line? : Block → Option String
  | line t => some t
  | rule _ _ => none

/-- The declarations among neighbouring parts. -/
def lines (bs : List Block) : List String := bs.filterMap line?

theorem lines_append (as bs : List Block) : lines (as ++ bs) = lines as ++ lines bs :=
  List.filterMap_append

theorem lines_map_line (ls : List String) : lines (ls.map line) = ls := by
  rw [lines, List.filterMap_map]
  exact List.filterMap_some

end Block

/-- The rule of the declarations of a map, if there are any. -/
def ownBlock (selector : String) (map : Map) : List Block :=
  if (declarations map).isEmpty then []
  else [.rule selector ((declarations map).map .line)]

mutual

/-- The flat rules of a value that is a map. -/
def flatOf (selector : String) : Json → List Block
  | .obj fields => ownBlock selector fields ++ flatIn selector fields
  | _ => []

/-- The flat rules of the maps in a map. -/
def flatIn (selector : String) : List (String × Json) → List Block
  | [] => []
  | (key, .obj fields) :: rest =>
    (if isAtRule key then [.rule key (flatOf selector (.obj fields))]
     else flatOf (nestedSelector selector key) (.obj fields)) ++ flatIn selector rest
  | _ :: rest => flatIn selector rest

end

/-- The flat rules of a map under a selector. -/
def flatBlocks (selector : String) (map : Map) : List Block := flatOf selector (.obj map)

mutual

/-- The parts of a value that is a map. -/
def nestedOf : Json → List Block
  | .obj fields => (declarations fields).map .line ++ nestedIn fields
  | _ => []

/-- The nested rules of the maps in a map. -/
def nestedIn : List (String × Json) → List Block
  | [] => []
  | (key, .obj fields) :: rest =>
    .rule (nestedHead key) (nestedOf (.obj fields)) :: nestedIn rest
  | _ :: rest => nestedIn rest

end

/-- The parts of the body of a styled component. -/
def nestedBlocks (map : Map) : List Block := nestedOf (.obj map)

section Written

theorem texts_ownBlock (selector : String) (map : Map) :
    Block.texts (ownBlock selector map) = ownRule selector map := by
  unfold ownBlock ownRule
  split <;> simp [Block.texts, Block.text, Block.texts_map_line, *]

mutual

theorem texts_flatOf : ∀ (selector : String) (j : Json),
    Block.texts (flatOf selector j) = rulesOf selector j
  | selector, .obj fields => by
    rw [flatOf, rulesOf, Block.texts_append, texts_ownBlock, texts_flatIn selector fields]
  | selector, .null | selector, .bool _ | selector, .int _ | selector, .real _ | selector, .str _
  | selector, .arr _ => by simp [flatOf, rulesOf, Block.texts]

theorem texts_flatIn : ∀ (selector : String) (fields : List (String × Json)),
    Block.texts (flatIn selector fields) = nestedRules selector fields
  | selector, [] => by simp [flatIn, nestedRules, Block.texts]
  | selector, (key, .obj fields) :: rest => by
    rw [flatIn, nestedRules, Block.texts_append, texts_flatIn selector rest]
    split
    · simp only [Block.texts, Block.text, texts_flatOf selector (.obj fields)]
    · rw [texts_flatOf _ (.obj fields)]
  | selector, (key, .null) :: rest | selector, (key, .bool _) :: rest
  | selector, (key, .int _) :: rest | selector, (key, .real _) :: rest
  | selector, (key, .str _) :: rest | selector, (key, .arr _) :: rest => by
    simpa only [flatIn, nestedRules] using texts_flatIn selector rest

end

mutual

theorem texts_nestedOf : ∀ j : Json, Block.texts (nestedOf j) = bodyOf j
  | .obj fields => by
    rw [nestedOf, bodyOf, Block.texts_append, Block.texts_map_line, texts_nestedIn fields]
  | .null | .bool _ | .int _ | .real _ | .str _ | .arr _ => by
    simp [nestedOf, bodyOf, Block.texts]

theorem texts_nestedIn : ∀ fields : List (String × Json),
    Block.texts (nestedIn fields) = nestedBodies fields
  | [] => by simp [nestedIn, nestedBodies, Block.texts]
  | (key, .obj fields) :: rest => by
    rw [nestedIn, nestedBodies, Block.texts, Block.text, texts_nestedOf (.obj fields),
      texts_nestedIn rest]
  | (key, .null) :: rest | (key, .bool _) :: rest | (key, .int _) :: rest
  | (key, .real _) :: rest | (key, .str _) :: rest | (key, .arr _) :: rest => by
    simpa only [nestedIn, nestedBodies] using texts_nestedIn rest

end

theorem texts_flatBlocks (selector : String) (map : Map) :
    Block.texts (flatBlocks selector map) = rules selector map :=
  texts_flatOf selector (.obj map)

theorem texts_nestedBlocks (map : Map) : Block.texts (nestedBlocks map) = body map :=
  texts_nestedOf (.obj map)

end Written

/-! ## What sheets say -/

/-- What a rule with declarations says: the at-rules around it, its selector, its declarations. -/
structure Entry where
  around : List String
  selector : String
  declarations : List String
  deriving DecidableEq, Repr

/-- What some declarations say; nothing if there are none. -/
def Entry.ofLines (around : List String) (selector : String) (lines : List String) : List Entry :=
  if lines.isEmpty then [] else [⟨around, selector, lines⟩]

mutual

/-- What a part of a flat sheet says. Selectors stand for themselves. -/
def gather (around : List String) : Block → List Entry
  | .line _ => []
  | .rule head content =>
    if isAtRule head then gatherAll (around ++ [head]) content
    else Entry.ofLines around head (Block.lines content) ++ gatherAll around content

/-- What neighbouring parts of a flat sheet say. -/
def gatherAll (around : List String) : List Block → List Entry
  | [] => []
  | b :: bs => gather around b ++ gatherAll around bs

end

mutual

/-- What a nested rule says under a selector. The ampersands of its head stand for the selector. -/
def expand (around : List String) (selector : String) : Block → List Entry
  | .line _ => []
  | .rule head content =>
    if isAtRule head then
      Entry.ofLines (around ++ [head]) selector (Block.lines content) ++
        expandAll (around ++ [head]) selector content
    else
      Entry.ofLines around (fill selector head) (Block.lines content) ++
        expandAll around (fill selector head) content

/-- What neighbouring nested rules say under a selector. -/
def expandAll (around : List String) (selector : String) : List Block → List Entry
  | [] => []
  | b :: bs => expand around selector b ++ expandAll around selector bs

end

/-- What the body of a styled component says under the selector of the component. -/
def expandBody (around : List String) (selector : String) (parts : List Block) : List Entry :=
  Entry.ofLines around selector (Block.lines parts) ++ expandAll around selector parts

section Equations

variable {around : List String} {u v : String}

theorem gatherAll_append (as bs : List Block) :
    gatherAll around (as ++ bs) = gatherAll around as ++ gatherAll around bs := by
  induction as with
  | nil => simp [gatherAll]
  | cons a as ih => simp [gatherAll, ih]

theorem gatherAll_lines (ls : List String) : gatherAll around (ls.map .line) = [] := by
  induction ls with
  | nil => simp [gatherAll]
  | cons l ls ih => simp [gatherAll, gather, ih]

theorem expandAll_append (as bs : List Block) :
    expandAll around v (as ++ bs) = expandAll around v as ++ expandAll around v bs := by
  induction as with
  | nil => simp [expandAll]
  | cons a as ih => simp [expandAll, ih]

theorem expandAll_lines (ls : List String) : expandAll around v (ls.map .line) = [] := by
  induction ls with
  | nil => simp [expandAll]
  | cons l ls ih => simp [expandAll, expand, ih]

theorem lines_nestedIn : ∀ fields : List (String × Json), Block.lines (nestedIn fields) = []
  | [] => by simp [nestedIn, Block.lines]
  | (key, .obj fields) :: rest => by
    simpa [nestedIn, Block.lines, Block.line?] using lines_nestedIn rest
  | (key, .null) :: rest | (key, .bool _) :: rest | (key, .int _) :: rest
  | (key, .real _) :: rest | (key, .str _) :: rest | (key, .arr _) :: rest => by
    simpa only [nestedIn] using lines_nestedIn rest

/-- What the flat rules of a value say. -/
def flat (around : List String) (u : String) (j : Json) : List Entry :=
  gatherAll around (flatOf u j)

/-- What the nested rules of a value say. -/
def nest (around : List String) (v : String) (j : Json) : List Entry :=
  expandBody around v (nestedOf j)

theorem flat_obj (hu : IsSelector u) (fields : List (String × Json)) :
    flat around u (.obj fields) =
      Entry.ofLines around u (declarations fields) ++ gatherAll around (flatIn u fields) := by
  rw [flat, flatOf, gatherAll_append]
  congr 1
  unfold ownBlock Entry.ofLines
  split
  · simp [gatherAll]
  · simp [gatherAll, gather, hu.isAtRule, Block.lines_map_line, gatherAll_lines, Entry.ofLines, *]

theorem nest_obj (fields : List (String × Json)) :
    nest around v (.obj fields) =
      Entry.ofLines around v (declarations fields) ++ expandAll around v (nestedIn fields) := by
  rw [nest, expandBody, nestedOf, Block.lines_append, Block.lines_map_line, lines_nestedIn,
    List.append_nil, expandAll_append, expandAll_lines, List.nil_append]

variable {key : String} {value : Json} {rest : List (String × Json)}

theorem flatIn_of_isAtRule (hrule : isAtRule key = true) :
    gatherAll around (flatIn u ((key, value) :: rest)) =
      flat (around ++ [key]) u value ++ gatherAll around (flatIn u rest) := by
  cases value with
  | obj => simp [flatIn, flat, gatherAll, gather, hrule]
  | _ => simp [flatIn, flat, flatOf, gatherAll]

theorem flatIn_of_not_isAtRule (hrule : isAtRule key = false) :
    gatherAll around (flatIn u ((key, value) :: rest)) =
      flat around (nestedSelector u key) value ++ gatherAll around (flatIn u rest) := by
  cases value with
  | obj => simp [flatIn, gatherAll_append, flat, hrule]
  | _ => simp [flatIn, flat, flatOf, gatherAll]

theorem nest_of_not_obj (h : ∀ fields, value ≠ .obj fields) : nest around v value = [] := by
  simp [nest, nestedOf, expandBody, Block.lines, Entry.ofLines, expandAll]

theorem nestedIn_of_isAtRule (hrule : isAtRule key = true) :
    expandAll around v (nestedIn ((key, value) :: rest)) =
      nest (around ++ [key]) v value ++ expandAll around v (nestedIn rest) := by
  cases value with
  | obj =>
    rw [nestedIn, expandAll, expand, isAtRule_nestedHead, if_pos hrule, nestedHead_of_isAtRule hrule]
    rfl
  | _ => simp [nestedIn, nest_of_not_obj]

theorem nestedIn_of_not_isAtRule (hrule : isAtRule key = false) :
    expandAll around v (nestedIn ((key, value) :: rest)) =
      nest around (fill v (nestedHead key)) value ++ expandAll around v (nestedIn rest) := by
  cases value with
  | obj =>
    rw [nestedIn, expandAll, expand, isAtRule_nestedHead, hrule]
    rfl
  | _ => simp [nestedIn, nest_of_not_obj]

end Equations

/-! ## Comparing both -/

/-- An entry without its selector. -/
def Entry.outline (e : Entry) : List String × List String := (e.around, e.declarations)

theorem outline_ofLines (around : List String) (u v : String) (lines : List String) :
    (Entry.ofLines around u lines).map Entry.outline =
      (Entry.ofLines around v lines).map Entry.outline := by
  unfold Entry.ofLines
  split <;> rfl

mutual

/-- **Up to selectors, both ways of writing say the same**, whatever the selectors above are. -/
theorem outline_eq : ∀ (j : Json) (around : List String) (u v : String), IsSelector u →
    (flat around u j).map Entry.outline = (nest around v j).map Entry.outline
  | .obj fields, around, u, v, hu => by
    rw [flat_obj hu, nest_obj, List.map_append, List.map_append, outline_ofLines around u v,
      outlineIn_eq fields around u v hu]
  | .null, _, _, _, _ | .bool _, _, _, _, _ | .int _, _, _, _, _ | .real _, _, _, _, _
  | .str _, _, _, _, _ | .arr _, _, _, _, _ => by
    simp [flat, flatOf, gatherAll, nest_of_not_obj]

theorem outlineIn_eq : ∀ (fields : List (String × Json)) (around : List String) (u v : String),
    IsSelector u → (gatherAll around (flatIn u fields)).map Entry.outline =
      (expandAll around v (nestedIn fields)).map Entry.outline
  | [], _, _, _, _ => by simp [flatIn, nestedIn, gatherAll, expandAll]
  | (key, value) :: rest, around, u, v, hu => by
    have hrest := outlineIn_eq rest around u v hu
    cases hrule : isAtRule key with
    | true =>
      rw [flatIn_of_isAtRule hrule, nestedIn_of_isAtRule hrule, List.map_append,
        List.map_append, hrest, outline_eq value _ u v hu]
    | false =>
      rw [flatIn_of_not_isAtRule hrule, nestedIn_of_not_isAtRule hrule, List.map_append,
        List.map_append, hrest, outline_eq value around _ _ (hu.nested hrule)]

end

theorem length_eq (j : Json) (around : List String) {u : String} (v : String) (hu : IsSelector u) :
    (flat around u j).length = (nest around v j).length := by
  simpa using congrArg List.length (outline_eq j around u v hu)

mutual

/-- Whether no map in a value has a declaration. -/
def isSilent : Json → Bool
  | .obj fields => (declarations fields).isEmpty && isSilentIn fields
  | _ => true

/-- The same of the values in a map. -/
def isSilentIn : List (String × Json) → Bool
  | [] => true
  | (_, value) :: rest => isSilent value && isSilentIn rest

end

mutual

/-- Whether the keys in a value are all joined, those apart below which there is no declaration. -/
def isRooted : Json → Bool
  | .obj fields => isRootedIn fields
  | _ => true

/-- The same of the keys and values in a map. -/
def isRootedIn : List (String × Json) → Bool
  | [] => true
  | (key, value) :: rest =>
    (if isJoined key then isRooted value else isSilent value) && isRootedIn rest

end

section Comparing

theorem ofLines_eq_iff {around lines : List String} {u v : String} (h : Longer u v) :
    Entry.ofLines around u lines = Entry.ofLines around v lines ↔ lines.isEmpty = true := by
  unfold Entry.ofLines
  split
  · simp [*]
  · simp [*, h.ne]

mutual

/-- Under a longer selector both ways of writing agree only where there is nothing to write. -/
theorem flat_eq_nest_of_longer : ∀ (j : Json) (around : List String) {u v : String},
    IsSelector u → Longer u v → (flat around u j = nest around v j ↔ isSilent j = true)
  | .obj fields, around, u, v, hu, hlonger => by
    rw [flat_obj hu, nest_obj, isSilent, Bool.and_eq_true, ← ofLines_eq_iff hlonger,
      ← flatIn_eq_of_longer fields around hu hlonger]
    -- The own entries are as many on both sides, so the lists are compared in two parts.
    refine List.append_eq_append_iff_of_size_eq_left ?_
    simpa using congrArg List.length (outline_ofLines around u v (declarations fields))
  | .null, _, _, _, _, _ | .bool _, _, _, _, _, _ | .int _, _, _, _, _, _ | .real _, _, _, _, _, _
  | .str _, _, _, _, _, _ | .arr _, _, _, _, _, _ => by
    simp [flat, flatOf, gatherAll, nest_of_not_obj, isSilent]

theorem flatIn_eq_of_longer : ∀ (fields : List (String × Json)) (around : List String)
    {u v : String}, IsSelector u → Longer u v →
    (gatherAll around (flatIn u fields) = expandAll around v (nestedIn fields) ↔
      isSilentIn fields = true)
  | [], _, _, _, _, _ => by simp [flatIn, nestedIn, gatherAll, expandAll, isSilentIn]
  | (key, value) :: rest, around, u, v, hu, hlonger => by
    rw [isSilentIn, Bool.and_eq_true, ← flatIn_eq_of_longer rest around hu hlonger]
    cases hrule : isAtRule key with
    | true =>
      rw [flatIn_of_isAtRule hrule, nestedIn_of_isAtRule hrule,
        ← flat_eq_nest_of_longer value (around ++ [key]) hu hlonger]
      exact List.append_eq_append_iff_of_size_eq_left (length_eq _ _ _ hu)
    | false =>
      rw [flatIn_of_not_isAtRule hrule, nestedIn_of_not_isAtRule hrule,
        ← flat_eq_nest_of_longer value around (hu.nested hrule) (hlonger.nested hrule)]
      exact List.append_eq_append_iff_of_size_eq_left (length_eq _ _ _ (hu.nested hrule))

end

mutual

/-- **Under the same selector, both ways of writing say the same** exactly if the keys are
joined. -/
theorem flat_eq_nest_iff : ∀ (j : Json) (around : List String) {u : String}, IsSelector u →
    (flat around u j = nest around u j ↔ isRooted j = true)
  | .obj fields, around, u, hu => by
    rw [flat_obj hu, nest_obj, isRooted, ← flatIn_eq_iff fields around hu]
    exact List.append_right_inj _
  | .null, _, _, _ | .bool _, _, _, _ | .int _, _, _, _ | .real _, _, _, _ | .str _, _, _, _
  | .arr _, _, _, _ => by
    simp [flat, flatOf, gatherAll, nest_of_not_obj, isRooted]

theorem flatIn_eq_iff : ∀ (fields : List (String × Json)) (around : List String) {u : String},
    IsSelector u → (gatherAll around (flatIn u fields) = expandAll around u (nestedIn fields) ↔
      isRootedIn fields = true)
  | [], _, _, _ => by simp [flatIn, nestedIn, gatherAll, expandAll, isRootedIn]
  | (key, value) :: rest, around, u, hu => by
    rw [isRootedIn, Bool.and_eq_true, ← flatIn_eq_iff rest around hu]
    cases hrule : isAtRule key with
    | true =>
      have hkey : isJoined key = true := by simp [isJoined, hrule]
      rw [flatIn_of_isAtRule hrule, nestedIn_of_isAtRule hrule, if_pos hkey,
        ← flat_eq_nest_iff value (around ++ [key]) hu]
      exact List.append_eq_append_iff_of_size_eq_left (length_eq _ _ _ hu)
    | false =>
      have hnested := hu.nested hrule
      rw [flatIn_of_not_isAtRule hrule, nestedIn_of_not_isAtRule hrule]
      cases hkey : isJoined key with
      | true =>
        rw [fill_nestedHead hrule hkey, if_pos rfl,
          ← flat_eq_nest_iff value around hnested]
        exact List.append_eq_append_iff_of_size_eq_left (length_eq _ _ _ hnested)
      | false =>
        -- From here on the selectors differ, and go on to differ below.
        rw [if_neg Bool.false_ne_true, ← flat_eq_nest_of_longer value around hnested
          (longer_of_not_isJoined hkey)]
        exact List.append_eq_append_iff_of_size_eq_left (length_eq _ _ _ hnested)

end

end Comparing

/-- **Flat and nested rules say the same up to selectors**: the same declarations in the same
at-rules, in the same order. The selectors are the same as well exactly if every key is an at-rule,
starts with a colon, or has an ampersand in it, keys apart below which there is no declaration. -/
theorem expandBody_eq_gatherAll_iff (name : String) (map : Map) :
    Block.texts (nestedBlocks map) = body map ∧
      Block.texts (flatBlocks ("." ++ name) map) = rules ("." ++ name) map ∧
      (expandBody [] ("." ++ name) (nestedBlocks map)).map Entry.outline =
        (gatherAll [] (flatBlocks ("." ++ name) map)).map Entry.outline ∧
      (expandBody [] ("." ++ name) (nestedBlocks map) = gatherAll [] (flatBlocks ("." ++ name) map) ↔
        isRootedIn map = true) := by
  have hselector := isSelector_class name
  refine ⟨texts_nestedBlocks map, texts_flatBlocks _ map, ?_, ?_⟩
  · exact (outline_eq (.obj map) [] _ _ hselector).symm
  · rw [eq_comm]
    exact flat_eq_nest_iff (.obj map) [] hselector

/-- The style of a list whose items have a style of their own. -/
def itemStyle : Map := [("margin", .str "0"), ("li", .obj [("color", .str "red")])]

/-- The key of the items is glued to the selector of the list. -/
theorem expandBody_glues_key :
    isRootedIn itemStyle = false ∧
      expandBody [] ".ul" (nestedBlocks itemStyle) =
        [⟨[], ".ul", ["margin: 0;"]⟩, ⟨[], ".ulli", ["color: red;"]⟩] ∧
      gatherAll [] (flatBlocks ".ul" itemStyle) =
        [⟨[], ".ul", ["margin: 0;"]⟩, ⟨[], ".ul li", ["color: red;"]⟩] := by
  decide +kernel

end Style

end ReactWeave
