import ReactWeave.Proofs.BodyNames
import ReactWeave.Proofs.Methods

/-!
# ReactWeave.Proofs.MethodFunctions

**Methods of the state as functions.**

With a hook for each field, a method of the state becomes a function: the word
`function` is put in front of it, and `get` with one space behind it is dropped.
Nothing else of the head is looked at. Whether the line declares a function with
the name of the method depends on the head alone, and on whether the name is an
identifier (`Method.Declarable`); the accesses to the state are removed from the
parameters and the body only.
-/

namespace ReactWeave.Script

namespace Method

/-- What stands in front of the parameters. -/
def front (m : Method) : List Char := m.head.text ++ (m.name ++ m.spacing.text)

theorem text_eq (m : Method) : m.text = m.front ++ '(' :: m.rest := by
  simp [text, front, behindName]

/-- Whether the line that a method becomes declares a function with its name. -/
def Declarable (m : Method) : Prop :=
  Lexis.isIdentifier m.name = true ∧
    match m.head with
    | .plain => ¬ (m.name = "get".toList ∧ m.spacing.text.head? = some ' ')
    | .getter w _ => w.text.head? = some ' '
    | .generator _ => True
    | .async _ _ | .asyncGenerator _ _ => False

end Method

end ReactWeave.Script

namespace ReactWeave.State

open Script

/-! ## The line of a method -/

/-- In front of its parameters a method loses nothing. -/
theorem stripChars_front {front : List Char} (hfront : '.' ∉ front) (rest : List Char) :
    stripChars stateWord (front ++ '(' :: rest) = front ++ '(' :: stripChars stateWord rest := by
  have hfrom : ∀ before, stripFrom stateWord before 0 (front ++ '(' :: rest) =
      front ++ '(' :: stripFrom stateWord none 0 rest := by
    intro before
    induction front generalizing before with
    | nil =>
      have hnone : behindDot? stateWord ('(' :: rest) = none :=
        behindDot?_of_opens (by decide) hfront ⟨rest, rfl⟩
      have hstart : stripFrom stateWord (some '(') 0 rest = stripFrom stateWord none 0 rest := by
        cases rest with
        | nil => rfl
        | cons c rest =>
          have hsame : startsName (some '(') = startsName none := by decide
          rw [stripFrom, stripFrom, hsame]
      simp only [List.nil_append, stripFrom, accessLength?, hnone, Option.map_none, ite_self,
        hstart]
    | cons c front ih =>
      have hnone : behindDot? stateWord (c :: (front ++ '(' :: rest)) = none :=
        behindDot?_of_opens (by decide) hfront ⟨rest, rfl⟩
      have hfront : '.' ∉ front := fun h => hfront (List.mem_cons_of_mem _ h)
      simp only [List.cons_append, stripFrom, accessLength?, hnone, Option.map_none, ite_self,
        ih hfront]
  exact hfrom none

/-- The front of the function that a method with this front becomes. -/
def functionFront (front : List Char) : List Char :=
  if Text.startsWith "get ".toList front then front.drop 4 else front

/-- The line of a method, if its parameters go on with `rest`. -/
def functionLine (front rest : List Char) : List Char :=
  "function".toList ++ (Gap.space.text ++ (functionFront front ++ '(' :: rest))

theorem functionLine_eq {front rest s : List Char}
    (h : Gap.space.text ++ (functionFront front ++ '(' :: rest) = s) :
    functionLine front rest = "function".toList ++ s :=
  congrArg ("function".toList ++ ·) h

theorem functionWord_eq (s : List Char) :
    "function ".toList ++ s = "function".toList ++ (Gap.space.text ++ s) := rfl

theorem functionLine_eq_append (front rest : List Char) :
    functionLine front rest = "function ".toList ++ functionFront front ++ '(' :: rest :=
  (functionWord_eq _).symm.trans (List.append_assoc _ _ _).symm

/-- The line of a function depends on what stands in front of the first parenthesis. -/
theorem toList_functionOf {text : String} {front rest : List Char}
    (h : text.toList = front ++ '(' :: rest) :
    (functionOf text).toList = functionLine front rest := by
  have hstart : Text.hasStart "get " text = Text.startsWith "get ".toList front := by
    rw [Bool.eq_iff_iff, Text.hasStart]
    constructor
    · intro hget
      obtain ⟨after, hafter⟩ := Opens.exists_append (by decide) ⟨rest, h⟩ hget
      exact Text.startsWith_iff.2 ⟨after, hafter⟩
    · intro hget
      obtain ⟨after, rfl⟩ := Text.startsWith_iff.1 hget
      exact Text.startsWith_iff.2 ⟨after ++ '(' :: rest, by rw [h, List.append_assoc]⟩
  have hmethod : (if Text.hasStart "get " text then Text.dropChars 4 text else text).toList =
      functionFront front ++ '(' :: rest := by
    rw [hstart, functionFront]
    split
    · rename_i hget
      obtain ⟨after, rfl⟩ := Text.startsWith_iff.1 hget
      rw [Text.dropChars, h, List.append_assoc, List.drop_left' (by decide),
        List.drop_left' (by decide), String.toList_ofList]
    · exact h
  rw [functionOf, String.toList_append, hmethod]
  exact functionWord_eq _

/-! ## Heads -/

section Heads

variable {name front rest : List Char} {w w₀ : Spacing} {ts : List Script.Tree}

theorem getWord_eq (u : List Char) : "get".toList ++ ' ' :: u = "get ".toList ++ u := by
  have hword : "get ".toList = "get".toList ++ [' '] := by decide
  rw [hword, List.append_assoc, List.singleton_append]

theorem functionFront_get (u : List Char) : functionFront ("get".toList ++ ' ' :: u) = u := by
  rw [getWord_eq, functionFront, if_pos (Text.startsWith_iff.2 ⟨u, rfl⟩),
    List.drop_left' (by decide)]

theorem functionFront_of_ne (h : ∀ u, front ≠ "get".toList ++ ' ' :: u) :
    functionFront front = front := by
  rw [functionFront, if_neg]
  intro hget
  obtain ⟨u, hu⟩ := Text.startsWith_iff.1 hget
  exact h u (by rw [getWord_eq, hu])

theorem get_of_name {u : List Char} (hname : isName name = true)
    (h : name ++ w.text = "get".toList ++ ' ' :: u) : name = "get".toList ∧ w.text = ' ' :: u := by
  have hends : ∀ c ∈ w.text.head?, endsWord c = true := fun c hc =>
    endsWord_of_isBlank (.inl (w.blank c (List.mem_of_mem_head? hc)))
  have hlength : name.length = "get".toList.length := by
    rw [← nameLength_of_endsWord hname hends, h]
    exact nameLength_of_endsWord (by decide) (by simp; decide)
  exact List.append_inj h hlength

theorem functionLine_get (h : w₀.text.head? = some ' ') :
    functionLine ("get".toList ++ w₀.text) rest = "function".toList ++ behindName w₀ rest := by
  obtain ⟨u, hu⟩ := List.head?_eq_some_iff.1 h
  refine functionLine_eq ?_
  rw [behindName, hu, functionFront_get]
  rfl

theorem functionLine_kept {v : List Char}
    (h : ∀ u, v ++ (name ++ w₀.text) ≠ "get".toList ++ ' ' :: u) :
    functionLine (v ++ (name ++ w₀.text)) rest =
      "function".toList ++ (Gap.space.text ++ (v ++ (name ++ behindName w₀ rest))) := by
  refine functionLine_eq ?_
  rw [functionFront_of_ne h, behindName, List.append_assoc, List.append_assoc]

theorem name_ne_get (hname : isName name = true)
    (h : ¬ (name = "get".toList ∧ w₀.text.head? = some ' ')) (u : List Char) :
    name ++ w₀.text ≠ "get".toList ++ ' ' :: u := by
  intro hu
  obtain ⟨hget, hw⟩ := get_of_name hname hu
  exact h ⟨hget, by rw [hw, List.head?_cons]⟩

theorem getter_ne_get (h : w.text.head? ≠ some ' ') (apart : w.text ≠ []) (u : List Char) :
    "get".toList ++ w.text ++ (name ++ w₀.text) ≠ "get".toList ++ ' ' :: u := by
  intro hu
  rw [List.append_assoc, List.append_cancel_left_eq] at hu
  obtain ⟨c, v, hv⟩ := List.exists_cons_of_ne_nil apart
  rw [hv, List.cons_append, List.cons.injEq] at hu
  exact h (by rw [hv, hu.1, List.head?_cons])

theorem functionLine_getter (h : w.text.head? = some ' ') :
    functionLine ("get".toList ++ w.text ++ (name ++ w₀.text)) rest =
      "function".toList ++ (w.gap.text ++ (name ++ behindName w₀ rest)) := by
  obtain ⟨u, hu⟩ := List.head?_eq_some_iff.1 h
  refine functionLine_eq ?_
  rw [hu, List.append_assoc, List.cons_append, functionFront_get, behindName, w.text_gap, hu]
  simp [Gap.space, Gap.ofBlanks]

/-- **A method becomes a declaration exactly if its head allows it.** -/
theorem declaresFunction_functionLine_iff {m : Method}
    (h : readWhole .functionRest (behindName m.spacing rest) = some ts) :
    DeclaresFunction m.head.declaredKind (functionLine m.front rest) m.name ts ↔
      m.Declarable := by
  obtain ⟨head, name, w₀, rest₀, hname⟩ := m
  have h : readWhole .functionRest (behindName w₀ rest) = some ts := h
  have hspace : Gap.space.text ≠ [] := by decide
  have hkind := head.not_noFunction
  -- a word with the name behind it is followed by no parameters
  have hword {v : List Char} {w : Spacing} (hv : isName v = true) (apart : w.text ≠ []) :
      ¬ DeclaresFunction head.declaredKind ("function".toList ++ (Gap.space.text ++
        (v ++ w.text ++ (name ++ behindName w₀ rest)))) name ts :=
    not_declaresFunction_word hkind hspace hv (List.append_assoc _ _ _) (endsWord_spacing apart _)
      (w.gap.head?_name_ne hname _ (by decide))
  rw [Method.front]
  cases head with
  | plain =>
    by_cases hget : name = "get".toList ∧ w₀.text.head? = some ' '
    · obtain ⟨rfl, hhead⟩ := hget
      refine iff_of_false ?_ fun hd => hd.2 ⟨rfl, hhead⟩
      rw [MethodHead.text_plain, List.nil_append, functionLine_get hhead]
      exact not_declaresFunction_behindName hkind w₀ rest
    · rw [MethodHead.text_plain, functionLine_kept (name_ne_get hname hget)]
      refine (declaresFunction_name_iff hspace hname h).trans ?_
      exact ⟨fun hid => ⟨hid, hget⟩, fun hd => hd.1⟩
  | getter w apart =>
    by_cases hw : w.text.head? = some ' '
    · rw [MethodHead.text_getter, functionLine_getter hw]
      refine (declaresFunction_name_iff apart hname h).trans ?_
      exact ⟨fun hid => ⟨hid, hw⟩, fun hd => hd.1⟩
    · rw [MethodHead.text_getter, functionLine_kept (getter_ne_get hw apart)]
      exact iff_of_false (hword (by decide) apart) fun hd => hw hd.2
  | async w apart =>
    rw [MethodHead.text_async, functionLine_kept (by simp)]
    exact iff_of_false (hword (by decide) apart) fun hd => hd.2
  | generator w =>
    rw [MethodHead.text_generator, functionLine_kept (by simp)]
    refine (declaresFunction_star_iff w.gap hspace hname h).trans ?_
    exact ⟨fun hid => ⟨hid, trivial⟩, fun hd => hd.1⟩
  | asyncGenerator w w' =>
    have hstar : w.text ++ '*' :: w'.text ++ (name ++ behindName w₀ rest) =
        w.gap.text ++ '*' :: (w'.text ++ (name ++ behindName w₀ rest)) :=
      List.append_assoc _ _ _
    rw [MethodHead.text_asyncGenerator, functionLine_kept (by simp)]
    refine iff_of_false (not_declaresFunction_word hkind hspace (by decide)
      ((List.append_assoc _ _ _).trans (congrArg _ hstar)) (endsWord_star w _) ?_) fun hd => hd.2
    rw [w.gap.behindGap (u := '*' :: (w'.text ++ (name ++ behindName w₀ rest))) rfl]
    simp

end Heads

/-! ## Declarations -/

theorem dot_not_mem_front (m : Method) : '.' ∉ m.front := by
  have hspacing (w : Spacing) : '.' ∉ w.text := fun h => absurd (w.blank _ h) (by decide)
  have hname := dot_not_mem_of_isName m.named
  have hhead : '.' ∉ m.head.text := by
    cases m.head with
    | plain => exact List.not_mem_nil
    | getter w _ => simp [hspacing]
    | async w _ => simp [hspacing]
    | generator w => simp [hspacing]
    | asyncGenerator w w' => simp [hspacing]
  simp [Method.front, hhead, hname, hspacing]

theorem stripChars_functionLine (m : Method) (rest : List Char) :
    stripChars stateWord (functionLine m.front rest) =
      functionLine m.front (stripChars stateWord rest) := by
  have hfront : '.' ∉ functionFront m.front := by
    rw [functionFront]
    split
    · exact fun h => dot_not_mem_front m (List.mem_of_mem_drop h)
    · exact dot_not_mem_front m
  have hall : '.' ∉ "function ".toList ++ functionFront m.front := by
    have hword : '.' ∉ "function ".toList := by decide
    rw [List.mem_append]
    exact not_or_intro hword hfront
  rw [functionLine_eq_append, stripChars_front hall rest, functionLine_eq_append]

/-- **Methods become functions.** A method of the state, written with any blanks, is read as a method
with the name of its field. The line that it becomes is the declaration of one function with this
name, and with the parameters and the body of the method without accesses to the state, exactly if
the head of the method allows it and, without the accesses, they are still parameters and a body. -/
theorem fieldDeclaration_method_iff {key code : String} {value : Json} {m : Method}
    {us : List Script.Tree} (hvalue : Value.ofJson value = .code .method code)
    (hcode : (Text.trimmed code).toList = m.text) (hkey : m.name = key.toList)
    (hbody : readWhole .functionRest (behindName m.spacing m.rest) = some us) :
    readWhole .method (Text.trimmed code).toList = some [m.tree us] ∧
      ∃ line : String, fieldDeclaration (.str key) value = .ok line ∧
        ((∃ ts, readWhole .functionRest
            (behindName m.spacing (stripChars stateWord m.rest)) = some ts ∧
            DeclaresFunction m.head.declaredKind line.toList key.toList ts) ↔
          m.Declarable ∧ (readWhole .functionRest
            (behindName m.spacing (stripChars stateWord m.rest))).isSome = true) := by
  refine ⟨by rw [hcode, m.readWhole_text hbody], _, by rw [fieldDeclaration, hvalue], ?_⟩
  have hline : (strip "state" (functionOf (Text.trimmed code))).toList =
      functionLine m.front (stripChars stateWord m.rest) := by
    rw [strip, String.toList_ofList, toList_functionOf (hcode.trans m.text_eq)]
    exact stripChars_functionLine m m.rest
  rw [hline, ← hkey]
  constructor
  · rintro ⟨ts, hts, hdeclares⟩
    exact ⟨(declaresFunction_functionLine_iff hts).1 hdeclares, by rw [hts, Option.isSome_some]⟩
  · rintro ⟨hdeclarable, hsome⟩
    obtain ⟨ts, hts⟩ := Option.isSome_iff_exists.1 hsome
    exact ⟨ts, hts, (declaresFunction_functionLine_iff hts).2 hdeclarable⟩

/-- A getter with blanks around its name. -/
def fullName : Method where
  head := .getter ⟨"  ".toList, by decide⟩ (by decide)
  name := "full".toList
  spacing := ⟨"\n".toList, by decide⟩
  rest := ") \x7b return state.first + state.last \x7d".toList
  named := by decide

/-- The value of the state that holds it. -/
def fullNameValue : String :=
  "@jsx-lite/method: get  full\n() \x7b return state.first + state.last \x7d"

theorem fieldDeclaration_method_iff_fullName :
    fieldDeclaration (.str "full") (.str fullNameValue) =
        .ok "function  full\n() \x7b return first + last \x7d" ∧
      ∃ ts, readWhole .functionRest "\n() \x7b return first + last \x7d".toList = some ts ∧
        DeclaresFunction .functionDeclaration
          "function  full\n() \x7b return first + last \x7d".toList "full".toList ts := by
  have hbody : (readWhole .functionRest (behindName fullName.spacing fullName.rest)).isSome =
      true := by decide +kernel
  obtain ⟨us, hus⟩ := Option.isSome_iff_exists.1 hbody
  have hvalue : Value.ofJson (.str fullNameValue) =
      .code .method " get  full\n() \x7b return state.first + state.last \x7d" := by rfl
  have hrest : behindName fullName.spacing (stripChars stateWord fullName.rest) =
      "\n() \x7b return first + last \x7d".toList := by decide +kernel
  have hline : fieldDeclaration (.str "full") (.str fullNameValue) =
      .ok "function  full\n() \x7b return first + last \x7d" := by rfl
  obtain ⟨-, line, hline', hiff⟩ :=
    @fieldDeclaration_method_iff "full" _ _ fullName us hvalue (by decide +kernel) rfl hus
  rw [hrest] at hiff
  obtain rfl := Except.ok.inj (hline.symm.trans hline')
  exact ⟨hline, hiff.2 ⟨⟨by decide, rfl⟩, by decide +kernel⟩⟩

/-- A method that says that it is asynchronous becomes no declaration: the word is put behind
`function`, and the name behind it is one too many. -/
theorem fieldDeclaration_async :
    (readWhole .method "async load() \x7b \x7d".toList).isSome = true ∧
      fieldDeclaration (.str "load") (.str "@jsx-lite/method:async load() \x7b \x7d") =
        .ok "function async load() \x7b \x7d" ∧
      readProgram "function async load() \x7b \x7d".toList = none := by
  refine ⟨by decide +kernel, by rfl, ?_⟩
  have hnone : (readProgram "function async load() \x7b \x7d".toList).isNone = true := by
    decide +kernel
  exact Option.isNone_iff_eq_none.1 hnone

end ReactWeave.State
