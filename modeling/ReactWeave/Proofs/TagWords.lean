import ReactWeave.Proofs.Literals
import ReactWeave.Proofs.NestedRules
import ReactWeave.Proofs.SetterCoverage

/-!
# ReactWeave.Proofs.TagWords

**The tags of markup** and the tree they stand for.

Markup is text: attributes, handlers and loops stand between the tags, and some of
them have closing brackets of their own. What opens a tag is nothing else, though,
if no name, key or value of the tree has an opening bracket in it. Reading every
opening bracket as the start of a tag then gives the tags of the tree.

* `node_tags` puts this together.
-/

namespace ReactWeave.Markup

/-! ## Tags -/

/-- A tag in a text: the start of an opening one, `<name`, or a closing one, `</name>`. Fragments
have no name. -/
inductive Tag where
  | opens (name : List Char)
  | closes (name : List Char)
  deriving DecidableEq, Repr

/-- Characters that the name of a tag does not have. -/
def endsTag (c : Char) : Bool := Text.isBlank c || c == '<' || c == '>' || c == '/'

/-- The characters up to the first one that the name of a tag does not have. -/
def tagName (s : List Char) : List Char := s.takeWhile fun c => !endsTag c

/-- The tag that an opening bracket in front of a text starts. A closing tag is closed right behind
its name, and so is an opening tag without a name. -/
def tagBehind? : List Char → Option Tag
  | '/' :: s =>
    if (s.drop (tagName s).length).head? = some '>' then some (.closes (tagName s)) else none
  | s => if tagName s = [] ∧ s.head? ≠ some '>' then none else some (.opens (tagName s))

/-- ReadsTags every opening bracket of a text as the start of a tag. -/
def readTags : List Char → Option (List Tag)
  | [] => some []
  | c :: s =>
    if c = '<' then (tagBehind? s).bind fun t => (readTags s).map (t :: ·) else readTags s

/-! ## Words -/

/-- A word in a pair of tags. -/
def enclosed (name : List Char) (w : List Tag) : List Tag := .opens name :: (w ++ [.closes name])

mutual

/-- The tags of a tree. -/
def word : Node → List Tag
  | ⟨head, children⟩ =>
    match head.kind with
    | .ok .fragment => enclosed [] (wordOf false children)
    | .ok .loop => enclosed [] (wordOf true children)
    | .ok .condition => enclosed [] (wordOf true children)
    | .ok .element =>
      if isVoid head.name then [.opens head.name.asText.toList]
      else enclosed head.name.asText.toList (wordOf false children)
    | _ => []

/-- The tags of neighbouring trees; `skip` says whether empty texts are left out. -/
def wordOf (skip : Bool) : List Node → List Tag
  | [] => []
  | ⟨head, children⟩ :: rest =>
    if skip && head.isEmptyText then wordOf skip rest
    else word ⟨head, children⟩ ++ wordOf skip rest

end

/-- Whether the tags of a word are closed in order, and with them those of the names on the stack.
Elements without content are not closed. -/
def closesAll : List (List Char) → List Tag → Bool
  | stack, [] => stack.isEmpty
  | stack, .opens name :: w =>
    closesAll (if voidTags.contains (String.ofList name) then stack else name :: stack) w
  | [], .closes _ :: _ => false
  | top :: stack, .closes name :: w => top == name && closesAll stack w

/-! ## Reading -/

/-- Whether a text is read as a word, whatever stands behind it. -/
def ReadsTags (s : List Char) (w : List Tag) : Prop :=
  ∀ rest, readTags (s ++ rest) = (readTags rest).map (w ++ ·)

theorem ReadsTags.nil : ReadsTags [] [] := by
  intro rest
  cases h : readTags rest <;> simp [h]

variable {s name : List Char} {w : List Tag} {c : Char} {value : Json} {texts : List String}
  {text : String}

theorem ReadsTags.append {t : List Char} {v : List Tag} (hs : ReadsTags s v) (ht : ReadsTags t w) :
    ReadsTags (s ++ t) (v ++ w) := by
  intro rest
  rw [List.append_assoc, hs, ht, Option.map_map]
  simp [Function.comp_def]

theorem reads_of_not_mem (hs : '<' ∉ s) : ReadsTags s [] := by
  induction s with
  | nil => exact .nil
  | cons c s ih =>
    rw [List.mem_cons, not_or] at hs
    intro rest
    rw [List.cons_append, readTags, if_neg (Ne.symm hs.1)]
    exact ih hs.2 rest

theorem tagName_append (hname : ∀ c ∈ name, endsTag c = false) (hc : endsTag c = true)
    (s : List Char) : tagName (name ++ c :: s) = name := by
  rw [tagName, List.takeWhile_append_of_pos (by simpa using hname), List.takeWhile_cons_of_neg]
  · exact List.append_nil name
  · simp [hc]

theorem not_mem_of_endsTag (hname : ∀ c ∈ name, endsTag c = false) : '<' ∉ name := by
  intro hmem
  have hends := hname '<' hmem
  simp [endsTag] at hends

/-- A name behind an angle bracket opens a tag. -/
theorem tagBehind?_opens (hname : ∀ c ∈ name, endsTag c = false) (hc : endsTag c = true)
    (hempty : name = [] → c = '>') (s : List Char) :
    tagBehind? (name ++ c :: s) = some (.opens name) := by
  have hname' := tagName_append hname hc s
  unfold tagBehind?
  split
  · -- No name starts with a slash, and no slash stands for a missing name.
    rename_i t hslash
    cases name with
    | nil =>
      obtain rfl := hempty rfl
      cases hslash
    | cons d name =>
      obtain ⟨rfl, -⟩ := List.cons.inj hslash
      have hends := hname '/' List.mem_cons_self
      simp [endsTag] at hends
  · rw [hname', if_neg]
    rintro ⟨rfl, hhead⟩
    exact hhead (by simp [hempty rfl])

/-- The tag is read off, and the rest is read on. -/
theorem ReadsTags.opens (hname : ∀ c ∈ name, endsTag c = false) (hc : endsTag c = true)
    (hempty : name = [] → c = '>') (hs : ReadsTags (c :: s) w) :
    ReadsTags ('<' :: (name ++ c :: s)) (.opens name :: w) := by
  intro rest
  have hrest : readTags (name ++ c :: (s ++ rest)) = (readTags rest).map (w ++ ·) := by
    rw [reads_of_not_mem (not_mem_of_endsTag hname), ← List.cons_append, hs]
    simp [Function.comp_def]
  simp only [List.cons_append, List.append_assoc]
  rw [readTags, if_pos rfl, tagBehind?_opens hname hc hempty, Option.bind_some, hrest,
    Option.map_map]
  rfl

theorem ReadsTags.closes (hname : ∀ c ∈ name, endsTag c = false) :
    ReadsTags ('<' :: '/' :: (name ++ ['>'])) [.closes name] := by
  intro rest
  have hbehind : tagBehind? ('/' :: (name ++ '>' :: rest)) = some (.closes name) := by
    rw [tagBehind?, tagName_append hname (by decide)]
    simp
  have hfree : '<' ∉ '/' :: (name ++ ['>']) := by
    simp [not_mem_of_endsTag hname]
  have hrest := reads_of_not_mem hfree rest
  simp only [List.cons_append, List.append_assoc, List.nil_append] at hrest ⊢
  rw [readTags, if_pos rfl, hbehind, Option.bind_some, hrest, Option.map_map]
  rfl

theorem ReadsTags.enclosed {t : List Char} (hname : ∀ c ∈ name, endsTag c = false)
    (hc : endsTag c = true) (hempty : name = [] → c = '>') (hfree : '<' ∉ c :: s) (ht : ReadsTags t w) :
    ReadsTags ('<' :: (name ++ c :: (s ++ (t ++ '<' :: '/' :: (name ++ ['>'])))))
      (enclosed name w) := by
  refine .opens hname hc hempty ?_
  exact (reads_of_not_mem hfree).append (ht.append (.closes hname))

theorem ReadsTags.fragment {content : String} (h : ReadsTags content.toList w) :
    ReadsTags (fragment content).toList (Markup.enclosed [] w) := by
  have hpair : ReadsTags ('<' :: ([] ++ '>' :: ([] ++ (content.toList ++ '<' :: '/' :: ([] ++ ['>'])))))
      (Markup.enclosed [] w) := .enclosed (by simp) (by decide) (fun _ => rfl) (by decide) h
  simpa [Markup.fragment] using hpair

theorem ReadsTags.lines {first : String} {rest : List String} {v : List Tag}
    (hfirst : ReadsTags first.toList v) (hrest : ReadsTags ("\n".intercalate rest).toList w) :
    ReadsTags ("\n".intercalate (first :: rest)).toList (v ++ w) := by
  cases rest with
  | nil =>
    have happend := hfirst.append hrest
    simpa using happend
  | cons second rest =>
    rw [String.intercalate_cons_cons, String.toList_append, String.toList_append]
    have hbreak : ReadsTags (first.toList ++ "\n".toList) (v ++ []) :=
      hfirst.append (reads_of_not_mem (by decide))
    rw [List.append_nil] at hbreak
    exact hbreak.append hrest

/-! ## Texts without opening brackets -/

/-- Whether a value is a text that can be the name of a tag. -/
def isTagText : Json → Bool
  | .str s => !s.isEmpty && s.toList.all fun c => !endsTag c
  | _ => false

/-- Whether a value is a text without opening brackets. -/
def isFree : Json → Bool
  | .str s => !s.toList.contains '<'
  | _ => false

/-- Whether a node has the name of a tag, and no opening brackets in its properties and bindings. -/
structure IsFreeHead (h : Head) : Prop where
  name : isTagText h.name = true
  properties : ∀ p ∈ h.properties, isFree p.1 = true ∧ isFree p.2 = true
  bindings : ∀ b ∈ h.bindings, isFree b.1 = true ∧ isFree b.2 = true

instance (h : Head) : Decidable (IsFreeHead h) :=
  decidable_of_iff (isTagText h.name = true ∧
      (∀ p ∈ h.properties, isFree p.1 = true ∧ isFree p.2 = true) ∧
      ∀ b ∈ h.bindings, isFree b.1 = true ∧ isFree b.2 = true)
    ⟨fun hh => ⟨hh.1, hh.2.1, hh.2.2⟩, fun hh => ⟨hh.name, hh.properties, hh.bindings⟩⟩

variable {strategy : StateStrategy} {h : Head}

theorem isFree_str {s : String} : isFree (.str s) = true ↔ '<' ∉ s.toList := by
  simp [isFree]

theorem not_mem_asText {j : Json} (hj : isFree j = true) : '<' ∉ j.asText.toList := by
  cases j with
  | str s => exact isFree_str.1 hj
  | null | bool _ | int _ | real _ | arr _ | obj _ => cases hj

theorem IsFreeHead.exists_name (hh : IsFreeHead h) : ∃ name : String, h.name = .str name := by
  have hname := hh.name
  cases hj : h.name with
  | str s => exact ⟨s, rfl⟩
  | null | bool _ | int _ | real _ | arr _ | obj _ =>
    rw [hj] at hname
    cases hname

theorem IsFreeHead.endsTag (hh : IsFreeHead h) :
    h.name.asText.toList ≠ [] ∧ ∀ c ∈ h.name.asText.toList, endsTag c = false := by
  have hname := hh.name
  obtain ⟨s, hs⟩ := hh.exists_name
  rw [hs] at hname ⊢
  simpa [isTagText, Json.asText] using hname

/-- Processing brings in no angle bracket. -/
theorem isFree_of_processed {code new : Json} (hcode : isFree code = true)
    (hnew : State.processed strategy code = .ok new) : isFree new = true := by
  cases code with
  | str s =>
    cases strategy with
    | useState =>
      obtain rfl := Except.ok.inj hnew
      rw [isFree_str] at hcode ⊢
      rw [State.strip, String.toList_ofList]
      exact fun hmem => hcode ((State.stripFrom_sublist _ _ _ _).subset hmem)
    | _ =>
      obtain rfl := Except.ok.inj hnew
      exact hcode
  | null | bool _ | int _ | real _ | arr _ | obj _ => cases hcode

theorem not_mem_property {key : Json} (hkey : isFree key = true) (hvalue : isFree value = true) :
    '<' ∉ (property key value).toList := by
  have hescaped : '<' ∉ (escapeAttribute value).toList := by
    rw [escapeAttribute, Text.replace, String.toList_ofList]
    change '<' ∉ Text.replaceAll ['"'] "&quot;".toList value.asText.toList
    rw [Text.replaceAll_singleton, List.mem_flatMap]
    rintro ⟨c, hc, hmem⟩
    split at hmem
    · exact absurd hmem (by decide)
    · obtain rfl := List.mem_singleton.1 hmem
      exact not_mem_asText hvalue hc
  simp [property, not_mem_asText hkey, hescaped]

theorem not_mem_bindingText {key : String} {code : Json} (hkey : '<' ∉ key.toList)
    (hcode : isFree code = true) : '<' ∉ (bindingText key code).toList := by
  have htext := not_mem_asText hcode
  unfold bindingText
  split
  · simp [braced, hkey, htext]
  · split <;> simp [braced, hkey, htext]

theorem binding_cases {name : String} {first : Option String}
    (hbinding : binding strategy (.str name) value = .ok first) :
    first = none ∨ ∃ code, State.processed strategy value = .ok code ∧
      first = some (bindingText name code) := by
  unfold binding at hbinding
  split at hbinding
  · exact .inl (Except.ok.inj hbinding).symm
  · obtain ⟨code, hcode, hbinding⟩ := bind_eq_ok.1 hbinding
    dsimp only at hbinding
    split at hbinding
    · obtain ⟨isEmpty, -, hbinding⟩ := bind_eq_ok.1 hbinding
      split at hbinding
      · exact .inl (Except.ok.inj hbinding).symm
      · exact .inr ⟨code, hcode, (Except.ok.inj hbinding).symm⟩
    · exact .inr ⟨code, hcode, (Except.ok.inj hbinding).symm⟩

/-- Attributes have no angle bracket. -/
theorem not_mem_bindingsOf {fields : Fields}
    (hfields : ∀ b ∈ fields, isFree b.1 = true ∧ isFree b.2 = true)
    (htexts : bindingsOf strategy fields = .ok texts) : ∀ text ∈ texts, '<' ∉ text.toList := by
  induction fields generalizing texts with
  | nil =>
    obtain rfl := Except.ok.inj htexts
    simp
  | cons field fields ih =>
    obtain ⟨⟨hkey, hvalue⟩, hrest⟩ := List.forall_mem_cons.1 hfields
    obtain ⟨key, value⟩ := field
    obtain ⟨first, hfirst, htexts⟩ := bind_eq_ok.1 htexts
    obtain ⟨more, hmore, htexts⟩ := bind_eq_ok.1 htexts
    obtain rfl := Except.ok.inj htexts
    intro text htext
    rcases List.mem_append.1 htext with htext | htext
    · cases key with
      | str name =>
        rcases binding_cases hfirst with rfl | ⟨code, hcode, rfl⟩
        · cases htext
        · obtain rfl : text = bindingText name code := by simpa using htext
          exact not_mem_bindingText (isFree_str.1 hkey) (isFree_of_processed hvalue hcode)
      | null | bool _ | int _ | real _ | arr _ | obj _ => cases hkey
    · exact ih hrest hmore text htext

theorem not_mem_spread {fields : Fields}
    (hfields : ∀ b ∈ fields, isFree b.1 = true ∧ isFree b.2 = true)
    (htexts : spread strategy fields = .ok texts) : ∀ text ∈ texts, '<' ∉ text.toList := by
  unfold spread at htexts
  split at htexts
  · obtain rfl := Except.ok.inj htexts
    simp
  · rename_i value hvalue
    obtain ⟨code, hcode, htexts⟩ := bind_eq_ok.1 htexts
    obtain rfl := Except.ok.inj htexts
    have hfree := isFree_of_processed (hfields _ (Fields.mem_of_get? hvalue)).2 hcode
    simp [braced, not_mem_asText hfree]

theorem intercalate_blank_cases (first : String) (htexts : ∀ text ∈ texts, '<' ∉ text.toList) :
    ∃ rest, (" ".intercalate (first :: texts)).toList = first.toList ++ rest ∧ '<' ∉ rest ∧
      (rest = [] ∨ ∃ more, rest = ' ' :: more) := by
  induction texts generalizing first with
  | nil => exact ⟨[], by simp, by simp, .inl rfl⟩
  | cons text texts ih =>
    obtain ⟨htext, hmore⟩ := List.forall_mem_cons.1 htexts
    obtain ⟨rest, hrest, hfree, -⟩ := ih text hmore
    refine ⟨' ' :: (text.toList ++ rest), ?_, by simp [htext, hfree], .inr ⟨_, rfl⟩⟩
    rw [String.intercalate_cons_cons, String.toList_append, String.toList_append, hrest,
      List.append_assoc]
    rfl

/-- **An opening tag** is a bracket, the name, and attributes without opening brackets. -/
theorem opening_cases (hh : IsFreeHead h) (htext : opening strategy h = .ok text) :
    ∃ rest, text.toList = '<' :: (h.name.asText.toList ++ rest) ∧ '<' ∉ rest ∧
      (rest = [] ∨ ∃ more, rest = ' ' :: more) := by
  obtain ⟨spread, hspread, htext⟩ := bind_eq_ok.1 htext
  obtain ⟨bindings, hbindings, htext⟩ := bind_eq_ok.1 htext
  obtain rfl := Except.ok.inj htext
  have hattributes : ∀ text ∈ (h.properties.map fun p => property p.1 p.2) ++ spread ++ bindings,
      '<' ∉ text.toList := by
    intro text hmem
    rcases List.mem_append.1 hmem with hmem | hmem
    · rcases List.mem_append.1 hmem with hmem | hmem
      · obtain ⟨p, hp, rfl⟩ := List.mem_map.1 hmem
        exact not_mem_property (hh.properties p hp).1 (hh.properties p hp).2
      · exact not_mem_spread hh.bindings hspread text hmem
    · exact not_mem_bindingsOf hh.bindings hbindings text hmem
  obtain ⟨rest, hrest, hfree, hcases⟩ := intercalate_blank_cases ("<" ++ h.name.asText) hattributes
  refine ⟨rest, ?_, hfree, hcases⟩
  rw [String.toList_append] at hrest
  exact hrest

theorem isFree_of_required (hh : IsFreeHead h) {key : String}
    (hvalue : required h key = .ok value) : isFree value = true := by
  unfold required at hvalue
  split at hvalue
  · rename_i code hcode
    split at hvalue
    · cases hvalue
    · obtain rfl := Except.ok.inj hvalue
      exact (hh.bindings _ (Fields.mem_of_get? hcode)).2
  · cases hvalue

theorem not_mem_loopHead (hh : IsFreeHead h) (htext : loopHead strategy h = .ok text) :
    '<' ∉ text.toList := by
  obtain ⟨each, heach, htext⟩ := bind_eq_ok.1 htext
  obtain ⟨code, hcode, htext⟩ := bind_eq_ok.1 htext
  obtain ⟨name, hname, htext⟩ := bind_eq_ok.1 htext
  obtain rfl := Except.ok.inj htext
  have hfirst := not_mem_asText (isFree_of_processed (isFree_of_required hh heach) hcode)
  simp [hfirst, not_mem_asText (isFree_of_required hh hname)]

theorem not_mem_conditionHead (hh : IsFreeHead h) (htext : conditionHead strategy h = .ok text) :
    '<' ∉ text.toList := by
  obtain ⟨condition, hcondition, htext⟩ := bind_eq_ok.1 htext
  obtain ⟨code, hcode, htext⟩ := bind_eq_ok.1 htext
  obtain rfl := Except.ok.inj htext
  simp [not_mem_asText (isFree_of_processed (isFree_of_required hh hcondition) hcode)]

theorem not_mem_textContent (hh : IsFreeHead h) (htext : textContent strategy h = .ok text) :
    '<' ∉ text.toList := by
  unfold textContent at htext
  split at htext
  · rename_i value hvalue
    obtain rfl := Except.ok.inj htext
    exact not_mem_asText (hh.properties _ (Fields.mem_of_get? hvalue)).2
  · obtain ⟨code, hcode, htext⟩ := bind_eq_ok.1 htext
    obtain rfl := Except.ok.inj htext
    have hfree : '<' ∉ code.asText.toList := by
      cases hvalue : h.bindings.get? textKey with
      | some value =>
        rw [hvalue] at hcode
        exact not_mem_asText
          (isFree_of_processed (hh.bindings _ (Fields.mem_of_get? hvalue)).2 hcode)
      | none =>
        rw [hvalue] at hcode
        cases strategy with
        | useState => cases hcode
        | _ =>
          obtain rfl := Except.ok.inj hcode
          decide
    simp [braced, hfree]

/-! ## Trees -/

theorem ReadsTags.guarded {before behind content : String} (hbefore : '<' ∉ before.toList)
    (hbehind : '<' ∉ behind.toList) (h : ReadsTags content.toList w) :
    ReadsTags (braced (before ++ Markup.fragment content ++ behind)).toList (Markup.enclosed [] w) := by
  have hleft : '<' ∉ '{' :: before.toList := by simp [hbefore]
  have hright : '<' ∉ behind.toList ++ ['}'] := by simp [hbehind]
  have hall := (reads_of_not_mem hleft).append (h.fragment.append (reads_of_not_mem hright))
  simpa [braced] using hall

mutual

/-- **The tags in the text of a node are its word.** -/
theorem reads_node : ∀ {n : Node} {text : String}, (∀ h ∈ n.heads, IsFreeHead h) →
    node strategy n = .ok text → ReadsTags text.toList (word n)
  | ⟨head, children⟩, text, hfree, hnode => by
    rw [Node.heads, List.forall_mem_cons] at hfree
    obtain ⟨hhead, hchildren⟩ := hfree
    rw [node] at hnode
    obtain ⟨kind, hkind, hnode⟩ := bind_eq_ok.1 hnode
    rw [word, hkind]
    cases kind with
    | text => exact reads_of_not_mem (not_mem_textContent hhead hnode)
    | fragment =>
      obtain ⟨parts, hparts, hnode⟩ := bind_eq_ok.1 hnode
      obtain rfl := Except.ok.inj hnode
      exact (reads_nodes hchildren hparts).fragment
    | loop =>
      obtain ⟨opening, hopening, hnode⟩ := bind_eq_ok.1 hnode
      obtain ⟨parts, hparts, hnode⟩ := bind_eq_ok.1 hnode
      obtain rfl := Except.ok.inj hnode
      exact (reads_nodes hchildren hparts).guarded (not_mem_loopHead hhead hopening) (by decide)
    | condition =>
      obtain ⟨opening, hopening, hnode⟩ := bind_eq_ok.1 hnode
      obtain ⟨parts, hparts, hnode⟩ := bind_eq_ok.1 hnode
      obtain rfl := Except.ok.inj hnode
      exact (reads_nodes hchildren hparts).guarded (not_mem_conditionHead hhead hopening)
        (by decide)
    | element =>
      obtain ⟨opening, hopening, hnode⟩ := bind_eq_ok.1 hnode
      obtain ⟨rest, htext, hrest, hblank⟩ := opening_cases hhead hopening
      obtain ⟨hne, hname⟩ := hhead.endsTag
      by_cases hvoid : isVoid head.name = true
      · simp only [hvoid, if_true] at hnode ⊢
        obtain rfl := Except.ok.inj hnode
        have hclosed : ReadsTags (rest ++ " />".toList) [] := reads_of_not_mem (by simp [hrest])
        rw [String.toList_append, htext, List.cons_append, List.append_assoc]
        rcases hblank with rfl | ⟨more, rfl⟩
        · exact .opens hname (by decide) (absurd · hne) hclosed
        · exact .opens hname (by decide) (absurd · hne) hclosed
      · simp only [hvoid] at hnode ⊢
        obtain ⟨parts, hparts, hnode⟩ := bind_eq_ok.1 hnode
        obtain rfl := Except.ok.inj hnode
        have hinner := reads_nodes hchildren hparts
        have hall : (opening ++ ">" ++ "\n".intercalate parts ++ "</" ++ head.name.asText ++
            ">").toList = '<' :: (head.name.asText.toList ++ (rest ++ '>' ::
              (("\n".intercalate parts).toList ++
                '<' :: '/' :: (head.name.asText.toList ++ ['>'])))) := by
          simp [htext]
        rw [hall]
        rcases hblank with rfl | ⟨more, rfl⟩
        · exact .enclosed hname (by decide) (absurd · hne) (s := []) (by decide) hinner
        · have hfree : '<' ∉ ' ' :: (more ++ ['>']) := by simpa using hrest
          have hpair := ReadsTags.enclosed hname (c := ' ') (by decide) (absurd · hne) hfree hinner
          simpa using hpair

theorem reads_nodes : ∀ {ns : List Node} {skip : Bool} {texts : List String},
    (∀ h ∈ Node.headsOf ns, IsFreeHead h) → nodes strategy skip ns = .ok texts →
      ReadsTags ("\n".intercalate texts).toList (wordOf skip ns)
  | [], _, texts, _, hnodes => by
    rw [nodes] at hnodes
    obtain rfl := Except.ok.inj hnodes
    rw [wordOf]
    exact .nil
  | ⟨head, children⟩ :: rest, skip, texts, hfree, hnodes => by
    rw [Node.headsOf, List.forall_mem_append] at hfree
    rw [nodes] at hnodes
    rw [wordOf]
    split at hnodes
    · rename_i hskip
      rw [if_pos hskip]
      exact reads_nodes hfree.2 hnodes
    · rename_i hskip
      rw [if_neg hskip]
      obtain ⟨first, hfirst, hnodes⟩ := bind_eq_ok.1 hnodes
      obtain ⟨more, hmore, hnodes⟩ := bind_eq_ok.1 hnodes
      obtain rfl := Except.ok.inj hnodes
      exact (reads_node hfree.1 hfirst).lines (reads_nodes hfree.2 hmore)

end

/-! ## Stacks -/

/-- Whether a word can be read on any stack, and leaves the stack as it was. -/
def Neutral (w : List Tag) : Prop := ∀ stack v, closesAll stack (w ++ v) = closesAll stack v

theorem Neutral.enclosed (hw : Neutral w) (hname : voidTags.contains (String.ofList name) = false) :
    Neutral (enclosed name w) := by
  intro stack v
  rw [Markup.enclosed, List.cons_append, List.append_assoc, closesAll, hname, hw]
  simp [closesAll]

mutual

/-- The tags of a node close in order. -/
theorem neutral_word : ∀ {n : Node}, (∀ h ∈ n.heads, IsFreeHead h) → Neutral (word n)
  | ⟨head, children⟩, hfree => by
    rw [Node.heads, List.forall_mem_cons] at hfree
    obtain ⟨hhead, hchildren⟩ := hfree
    rw [word]
    split
    · exact (neutral_wordOf hchildren).enclosed (by decide)
    · exact (neutral_wordOf hchildren).enclosed (by decide)
    · exact (neutral_wordOf hchildren).enclosed (by decide)
    · obtain ⟨name, hname⟩ := hhead.exists_name
      have hvoid : isVoid head.name =
          voidTags.contains (String.ofList head.name.asText.toList) := by
        rw [hname, Json.asText, String.ofList_toList]
        rfl
      split
      · rename_i hcontains
        intro stack v
        rw [List.singleton_append, closesAll, ← hvoid, if_pos hcontains]
      · rename_i hno
        exact (neutral_wordOf hchildren).enclosed (by rw [← hvoid]; simpa using hno)
    · exact fun _ _ => rfl

theorem neutral_wordOf : ∀ {ns : List Node} {skip : Bool}, (∀ h ∈ Node.headsOf ns, IsFreeHead h) →
    Neutral (wordOf skip ns)
  | [], _, _ => by
    rw [wordOf]
    exact fun _ _ => rfl
  | ⟨head, children⟩ :: rest, skip, hfree => by
    rw [Node.headsOf, List.forall_mem_append] at hfree
    rw [wordOf]
    split
    · exact neutral_wordOf hfree.2
    · intro stack v
      rw [List.append_assoc, neutral_word hfree.1, neutral_wordOf hfree.2]

end

/-- A void tag is never closed. -/
theorem not_mem_of_closesAll {stack : List (List Char)}
    (hstack : ∀ name ∈ stack, voidTags.contains (String.ofList name) = false)
    (hw : closesAll stack w = true) (hname : voidTags.contains (String.ofList name) = true) :
    .closes name ∉ w := by
  induction w generalizing stack with
  | nil => simp
  | cons tag w ih =>
    cases tag with
    | opens other =>
      rw [List.mem_cons, not_or]
      refine ⟨by simp, ih ?_ hw⟩
      split
      · exact hstack
      · rename_i hother
        exact List.forall_mem_cons.2 ⟨by simpa using hother, hstack⟩
    | closes other =>
      cases stack with
      | nil => cases hw
      | cons top stack =>
        obtain ⟨htop, hstack⟩ := List.forall_mem_cons.1 hstack
        rw [closesAll, Bool.and_eq_true, beq_iff_eq] at hw
        obtain ⟨rfl, hw⟩ := hw
        rw [List.mem_cons, not_or]
        refine ⟨?_, ih hstack hw⟩
        -- The tag on the stack is that of an element with content.
        intro heq
        cases heq
        rw [hname] at htop
        cases htop

/-- **The tags of markup are those of the tree.** If all names are names of tags, and no key or
value has an opening bracket in it, reading every opening bracket of the markup as the start of a
tag gives the tags of the tree in order. They are closed in order, each by its own name, but for
those of elements without content, which are never closed. -/
theorem node_tags (strategy : StateStrategy) {n : Node} {text : String}
    (hfree : ∀ h ∈ n.heads, IsFreeHead h) (htext : node strategy n = .ok text) :
    readTags text.toList = some (word n) ∧ closesAll [] (word n) = true ∧
      ∀ name ∈ voidTags, .closes name.toList ∉ word n := by
  have hread : readTags text.toList = some (word n) := by
    have hreads := reads_node hfree htext []
    simpa [readTags] using hreads
  have hclosed : closesAll [] (word n) = true := by
    have hneutral := neutral_word hfree [] []
    simpa [closesAll] using hneutral
  refine ⟨hread, hclosed, fun name hname => ?_⟩
  refine not_mem_of_closesAll (by simp) hclosed ?_
  rw [String.ofList_toList, List.contains_iff_mem]
  exact hname

/-- A list with a handler, a loop over its rows with a picture and a bound text in each, and an
empty text between. -/
def albumList : Node :=
  ⟨⟨.str "ul", [(.str "class", .str "a > \"b\"")], [(.str "onClick", .str "x => state.n > 1")]⟩,
    [⟨⟨.str "For", [], [(.str "each", .str "state.rows"), (.str forNameKey, .str "row")]⟩,
      [⟨⟨.str "div", [(.str textKey, .str " ")], []⟩, []⟩,
       ⟨⟨.str "li", [], []⟩,
        [⟨⟨.str "img", [], [(.str "src", .str "row.url")]⟩, [⟨⟨.str "p", [], []⟩, []⟩]⟩,
         ⟨⟨.str "div", [], [(.str textKey, .str "row.name")]⟩, []⟩]⟩]⟩,
     ⟨⟨.str "Fragment", [], []⟩, [⟨⟨.str "hr", [], []⟩, []⟩]⟩]⟩

/-- The tags of the list. -/
def albumTags : List Tag :=
  [.opens "ul".toList, .opens [], .opens "li".toList, .opens "img".toList, .closes "li".toList,
   .closes [], .opens [], .opens "hr".toList, .closes [], .closes "ul".toList]

theorem node_tags_albumList :
    (∀ h ∈ albumList.heads, IsFreeHead h) ∧ word albumList = albumTags ∧
      ∃ text, node .useState albumList = .ok text ∧ readTags text.toList = some albumTags ∧
        closesAll [] albumTags = true := by
  have hfree : ∀ h ∈ albumList.heads, IsFreeHead h := by decide
  have hword : word albumList = albumTags := by decide
  have hwritten : (node .useState albumList).toOption.isSome = true := by decide +kernel
  obtain ⟨text, htext⟩ := Option.isSome_iff_exists.1 hwritten
  have hok : node .useState albumList = .ok text := State.ok_of_toOption htext
  obtain ⟨hread, hclosed, -⟩ := node_tags .useState hfree hok
  rw [hword] at hread hclosed
  exact ⟨hfree, hword, text, hok, hread, hclosed⟩

end ReactWeave.Markup
