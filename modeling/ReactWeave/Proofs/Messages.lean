import ReactWeave.Proofs.FailureKinds

/-!
# ReactWeave.Proofs.Messages

**Messages are single lines.**

A message puts fixed words around numbers and around values of the input, and it
shows these in quotes, with their line breaks escaped. Three messages repeat a text
as it is: those that name the command of a formatter or say what it complained
of, and the one that shows the character at which a style cannot be read.

* `Failure.isLine_format` says that the message of every other failure of a run is a
  line.
-/

namespace ReactWeave

/-! ## Lines -/

namespace Text

/-- Whether a text has no line break. -/
def IsLine (s : String) : Prop := '\n' ∉ s.toList

instance (s : String) : Decidable (IsLine s) := inferInstanceAs (Decidable ('\n' ∉ s.toList))

theorem isLine_append {s t : String} : IsLine (s ++ t) ↔ IsLine s ∧ IsLine t := by
  simp [IsLine]

theorem IsLine.append {s t : String} (hs : IsLine s) (ht : IsLine t) : IsLine (s ++ t) :=
  isLine_append.2 ⟨hs, ht⟩

theorem isLine_ofList {cs : List Char} : IsLine (String.ofList cs) ↔ '\n' ∉ cs := by
  simp [IsLine]

/-- Lines joined by a line are a line. -/
theorem IsLine.intercalate {separator : String} {texts : List String} (hs : IsLine separator)
    (h : ∀ t ∈ texts, IsLine t) : IsLine (separator.intercalate texts) := by
  induction texts with
  | nil => simp [IsLine]
  | cons first rest ih =>
    rw [List.forall_mem_cons] at h
    cases rest with
    | nil => exact String.intercalate_singleton ▸ h.1
    | cons second rest =>
      rw [String.intercalate_cons_cons, isLine_append, isLine_append]
      exact ⟨⟨h.1, hs⟩, ih h.2⟩

/-! ## Numbers -/

theorem break_not_mem_toDigits (base : Nat) (hbase : 1 < base) (n : Nat) :
    '\n' ∉ Nat.toDigits base n := by
  induction n using Nat.strongRecOn with
  | ind n ih =>
    by_cases hn : n < base
    · rw [Nat.toDigits_of_lt_base hn]
      simp
    · have hrest := ih (n / base) (Nat.div_lt_self (by omega) hbase)
      rw [Nat.toDigits_of_base_le hbase (by omega)]
      simp [hrest]

theorem isLine_toString (n : Nat) : IsLine (toString n) := by
  rw [IsLine, Style.toList_toString]
  exact break_not_mem_toDigits 10 (by decide) n

theorem isLine_toString_int : ∀ n : Int, IsLine (toString n)
  | .ofNat n => isLine_toString n
  | .negSucc n => isLine_append.2 ⟨by decide, isLine_toString (n + 1)⟩

theorem break_not_mem_hexDigits (width n : Nat) : '\n' ∉ hexDigits width n := by
  rw [hexDigits, List.mem_append, List.mem_replicate, not_or]
  exact ⟨by simp, break_not_mem_toDigits 16 (by decide) n⟩

/-! ## Quoted texts -/

/-- A quoted text has no line break. -/
theorem break_not_mem_quoteChar {quote : Char} (hquote : quote ≠ '\n') (c : Char) :
    '\n' ∉ quoteChar quote c := by
  have hhex := break_not_mem_hexDigits
  unfold quoteChar
  split
  · rename_i hc
    rw [Bool.or_eq_true, beq_iff_eq, beq_iff_eq] at hc
    rcases hc with rfl | rfl
    · simpa using hquote.symm
    · decide
  · split
    · decide
    · split
      · decide
      · split
        · decide
        · rename_i hbreak _
          split
          · rw [List.mem_singleton]
            rintro rfl
            exact hbreak rfl
          · dsimp only
            split
            · simp [hhex]
            · split <;> simp [hhex]

theorem isLine_quoted (s : String) : IsLine (quoted s) := by
  have hquote : quoteFor s.toList ≠ '\n' := by
    unfold quoteFor
    split <;> decide
  have hchars : '\n' ∉ s.toList.flatMap (quoteChar (quoteFor s.toList)) := by
    intro h
    obtain ⟨c, -, hc⟩ := List.mem_flatMap.1 h
    exact break_not_mem_quoteChar hquote c hc
  rw [quoted, isLine_ofList]
  simp [hchars, hquote.symm]

end Text

/-! ## Values -/

namespace Number.Binary64

/-- Digits with a point have no line break. -/
theorem break_not_mem_placePoint {digits : List Char} (h : '\n' ∉ digits) (point : Int) :
    '\n' ∉ placePoint digits point := by
  have htake : ∀ n, '\n' ∉ digits.take n := fun n hn => h (List.mem_of_mem_take hn)
  have hdrop : ∀ n, '\n' ∉ digits.drop n := fun n hn => h (List.mem_of_mem_drop hn)
  have hexponent : '\n' ∉ writeExponent (point - 1) := by
    have hdigits := Text.break_not_mem_toDigits 10 (by decide) (point - 1).natAbs
    unfold writeExponent
    dsimp only
    split <;> split <;> simp [hdigits]
  unfold placePoint
  split
  · split
    · simp [h]
    · dsimp only
      split
      · simp [h]
      · simp [htake, hdrop]
  · split
    · exact h
    · split <;> simp_all

theorem isLine_write {sp : Spelling} (hnan : Text.IsLine sp.nan)
    (hinfinity : Text.IsLine sp.infinity) (x : Binary64) : Text.IsLine (x.write sp) := by
  cases x with
  | nan => exact hnan
  | infinite negative =>
    rw [write]
    split
    · exact Text.isLine_append.2 ⟨by decide, hinfinity⟩
    · exact hinfinity
  | finite negative mantissa exponent =>
    have hsign : '\n' ∉ if negative then ['-'] else [] := by cases negative <;> decide
    rw [write, Text.isLine_ofList]
    unfold writeFinite
    dsimp only
    split
    · simp [hsign]
    · rw [List.mem_append, not_or]
      refine ⟨hsign, break_not_mem_placePoint (fun h => ?_) _⟩
      exact Text.break_not_mem_toDigits 10 (by decide) _ (List.mem_of_mem_take h)

end Number.Binary64

namespace Json

theorem isLine_displayScalar (j : Json) : Text.IsLine j.displayScalar := by
  cases j with
  | null => decide
  | bool b => cases b <;> decide
  | int n => exact Text.isLine_toString_int n
  | real x => exact x.isLine_write (by decide) (by decide)
  | str s => exact Text.isLine_quoted s
  | arr items => exact (by decide : Text.IsLine "[]")
  | obj fields => exact (by decide : Text.IsLine "\x7b\x7d")

mutual

/-- **A value is shown on one line.** -/
theorem isLine_display : ∀ j : Json, Text.IsLine j.display
  | .arr items => by
    rw [display, Text.isLine_append, Text.isLine_append]
    exact ⟨⟨by decide, .intercalate (by decide) (isLine_displayItems items)⟩, by decide⟩
  | .obj fields => by
    rw [display, Text.isLine_append, Text.isLine_append]
    exact ⟨⟨by decide, .intercalate (by decide) (isLine_displayFields fields)⟩, by decide⟩
  | .null | .bool _ | .int _ | .real _ | .str _ => isLine_displayScalar _

theorem isLine_displayItems : ∀ items : List Json, ∀ t ∈ displayItems items, Text.IsLine t
  | [] => by
    rw [displayItems]
    exact List.forall_mem_nil _
  | j :: js => by
    rw [displayItems, List.forall_mem_cons]
    exact ⟨isLine_display j, isLine_displayItems js⟩

theorem isLine_displayFields :
    ∀ fields : List (String × Json), ∀ t ∈ displayFields fields, Text.IsLine t
  | [] => by
    rw [displayFields]
    exact List.forall_mem_nil _
  | (k, v) :: rest => by
    rw [displayFields, List.forall_mem_cons, Text.isLine_append, Text.isLine_append]
    exact ⟨⟨⟨Text.isLine_quoted k, by decide⟩, isLine_display v⟩, isLine_displayFields rest⟩

end

theorem isLine_asText {j : Json} (h : j.str?.isNone = true) : Text.IsLine j.asText := by
  cases j with
  | str s => cases h
  | _ => exact isLine_display _

theorem isLine_of_isControl {name : Json} (h : name.isControl = true) :
    Text.IsLine name.asText := by
  cases name with
  | str s =>
    have hname : s = "For" ∨ s = "Show" := by
      by_contra hother
      rw [not_or] at hother
      simp only [isControl, NodeKind.ofJson, Fields.isScalar, NodeKind.ofName, beq_iff_eq,
        hother] at h
      by_cases hfragment : s = "Fragment" <;> simp [hfragment] at h
    rcases hname with rfl | rfl <;> simp [asText, Text.IsLine]
  | _ => exact isLine_display _

end Json

/-! ## Messages -/

/-- Whether a message repeats a text that may have line breaks: the name of a command, the complaint
of a formatter, or a line break inside a style. -/
def Failure.isVerbatim : Failure → Bool
  | .formatterNotFound _ | .formatRefused .. => true
  | .badStyle (.unexpected c ..) => c == '\n'
  | _ => false

section Messages

open Text (IsLine isLine_append isLine_quoted isLine_toString)

theorem Json.ReadError.isLine_message (error : Json.ReadError) : IsLine error.message := by
  cases error with
  | fault what position line column =>
    have hwording : IsLine what.wording := by cases what <;> decide +kernel
    exact .append (.append (.append (.append (.append (.append (.append hwording
      (by simp [IsLine])) (isLine_toString line)) (by simp [IsLine])) (isLine_toString column))
      (by simp [IsLine])) (isLine_toString position)) (by simp [IsLine])
  | tooManyDigits count =>
    exact .append (.append (.append (.append (by simp [IsLine]) (isLine_toString _))
      (by simp [IsLine])) (isLine_toString count)) (by simp [IsLine])
  | overlong => decide +kernel
  | unpaired unit =>
    exact .append (.append (by simp [IsLine])
      (Text.isLine_ofList.2 (Text.break_not_mem_hexDigits 4 unit))) (by simp [IsLine])

theorem Json5.ReadError.isLine_message {error : Json5.ReadError}
    (h : (Failure.badStyle error).isVerbatim = false) : IsLine error.message := by
  cases error with
  | empty => decide +kernel
  | endOfText line column =>
    exact .append (.append (.append (by simp [IsLine]) (isLine_toString line))
      (by simp [IsLine])) (isLine_toString column)
  | unexpected c line column =>
    have hc : IsLine (String.singleton c) := by
      rw [IsLine, String.toList_singleton, List.mem_singleton]
      exact fun heq => ne_of_beq_false h heq.symm
    exact .append (.append (.append (.append (.append (by simp [IsLine]) (isLine_toString line))
      (by simp [IsLine])) hc) (by simp [IsLine])) (isLine_toString column)
  | unpaired unit => exact (Json.ReadError.unpaired unit).isLine_message

theorem Failure.isLine_undecodableBytes (first count position : Nat) :
    IsLine (undecodableBytes first count position) := by
  have hfirst : IsLine (String.ofList (Text.hexDigits 2 first)) :=
    Text.isLine_ofList.2 (Text.break_not_mem_hexDigits 2 first)
  unfold undecodableBytes
  split
  · simp only [isLine_append, isLine_toString, hfirst]
    simp [IsLine]
  · simp only [isLine_append, isLine_toString]
    simp [IsLine]

/-- **The message of a failure is one line**, unless it repeats a text as it is. -/
theorem Failure.isLine_message {e : Failure} (hown : e.isOwn = true)
    (hplain : e.isVerbatim = false) : IsLine e.message := by
  cases e with
  | unparsable code => exact .append (by simp [IsLine]) code.isLine_display
  | missingBinding node binding =>
    exact .append (.append (.append (by simp [IsLine]) (Json.isLine_of_isControl hown))
      (by simp [IsLine])) (isLine_quoted binding)
  | unnamedNode data => exact .append (by simp [IsLine]) data.isLine_display
  | badName name =>
    exact .append (.append (by simp [IsLine]) name.isLine_display) (by simp [IsLine])
  | formatterTimedOut seconds =>
    exact .append (.append (by simp [IsLine]) (Json.isLine_asText hown)) (by simp [IsLine])
  | formatterStatus status => exact .append (by simp [IsLine]) (Text.isLine_toString_int status)
  | styleNotObject code => exact .append (by simp [IsLine]) (isLine_quoted code)
  | badStyle error => exact Json5.ReadError.isLine_message hplain
  | badJson error => exact error.isLine_message
  | pairLength index length =>
    exact .append (.append (.append (.append (by simp [IsLine]) (isLine_toString index))
      (by simp [IsLine])) (isLine_toString length)) (by simp [IsLine])
  | file fault path =>
    have hwords : IsLine fault.words.2 := by cases fault <;> decide +kernel
    exact .append (.append (.append (.append (.append (by simp [IsLine]) (isLine_toString _))
      (by simp [IsLine])) hwords) (by simp [IsLine])) (isLine_quoted path)
  | undecodable fault first count position =>
    have hwords : IsLine fault.words := by cases fault <;> decide +kernel
    exact .append (.append (.append (by simp [IsLine])
      (isLine_undecodableBytes first count position)) (by simp [IsLine])) hwords
  | raised message =>
    obtain rfl : message = depthMessage := by simpa using hown
    decide +kernel
  | unknownChoice | unknownOptions | hookReply => cases hown
  | formatterNotFound | formatRefused => cases hplain
  | unnamedComponent | unclosedQuote | nothingEscaped | badTemplate | unknownGroup
  | notApplicable | noSuchOperation | missingKey | indexOutOfRange => decide +kernel

/-- **The message of a failure of a run is a line**, with the hint behind it, unless it repeats a
text as it is. -/
theorem Failure.isLine_format {e : Failure} (hown : e.isOwn = true)
    (hplain : e.isVerbatim = false) : IsLine e.format := by
  have hmessage := isLine_message hown hplain
  unfold format
  split
  · rename_i hint hhint
    split
    · exact hmessage
    · refine .append (.append hmessage (by simp [IsLine])) ?_
      cases e with
      | unparsable code =>
        cases hhint
        simp [IsLine]
      | unknownChoice => cases hown
      | formatterNotFound | formatRefused => cases hplain
      | _ => cases hhint
  · exact hmessage

end Messages

end ReactWeave
