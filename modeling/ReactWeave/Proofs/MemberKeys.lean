import ReactWeave.Proofs.Literals

/-!
# ReactWeave.Proofs.MemberKeys

**The object of the state denotes the state** exactly as long as its keys are names.

The values of the object are JSON5 text, but its keys stand as they are, without quotes
or escapes. A key that is no name may still be read, as another key, as a comment or as
several members, so it is not enough to look at the first character that is out of place.

* `read_objectText_of_bare`: with names for keys the object reads back as the state.
* `isBareKey_of_read_zero`: a key that reads back as itself is a name, since nothing
  in a key can stand for more than it has written (`cost_of_readKey`).
* `State.objectText_denotes_iff`: the object denotes the state exactly if its keys are
  names.
-/

namespace ReactWeave.Json5

open Json (put allStrings allStringsIn Blanks)

/-! ## What is left of a text -/

/-- Skipping blanks and comments leaves an end of the text, unless a comment is not closed. -/
theorem skipFrom_suffix (state : SpaceState) (opened s : List Char) :
    skipFrom state opened s <:+ s ∨ state = .block ∧ skipFrom state opened s = opened := by
  fun_induction skipFrom state opened s with
  | case1 => exact .inl List.suffix_rfl
  | case2 opened s ih =>
    refine .inl ((ih.resolve_right (by simp)).trans ?_)
    exact (List.suffix_cons _ _).trans (List.suffix_cons _ _)
  | case3 opened s ih =>
    rcases ih with ih | ⟨-, ih⟩
    · exact .inl (ih.trans ((List.suffix_cons _ _).trans (List.suffix_cons _ _)))
    · rw [ih]
      exact .inl List.suffix_rfl
  | case4 opened c s _ _ hc ih =>
    exact .inl ((ih.resolve_right (by simp)).trans (List.suffix_cons _ _))
  | case5 => exact .inl List.suffix_rfl
  | case6 => exact .inl List.suffix_rfl
  | case7 opened c s hc ih => exact .inl ((ih.resolve_right (by simp)).trans (List.suffix_cons _ _))
  | case8 opened c s hc ih => exact .inl ((ih.resolve_right (by simp)).trans (List.suffix_cons _ _))
  | case9 => exact .inr ⟨rfl, rfl⟩
  | case10 opened s ih =>
    refine .inl ((ih.resolve_right (by simp)).trans ?_)
    exact (List.suffix_cons _ _).trans (List.suffix_cons _ _)
  | case11 opened c s _ ih =>
    rcases ih with ih | ⟨-, ih⟩
    · exact .inl (ih.trans (List.suffix_cons _ _))
    · exact .inr ⟨rfl, ih⟩

theorem skip_suffix (s : List Char) : skip s <:+ s :=
  (skipFrom_suffix .between [] s).resolve_right (by simp)

/-! ## Weights -/

/-- The weight of a character: what a key can be spelled with otherwise than as it is weighs
something. -/
def charWeight (c : Char) : Nat :=
  if c = '\\' then 2 else if c = '\x22' ∨ c = '\x27' ∨ c = 'u' then 1 else 0

/-- The weight of a text. -/
def weight (s : List Char) : Nat := (s.map charWeight).sum

@[simp] theorem weight_nil : weight [] = 0 := rfl

@[simp] theorem weight_cons (c : Char) (s : List Char) :
    weight (c :: s) = charWeight c + weight s := by
  simp [weight]

@[simp] theorem weight_append (s t : List Char) : weight (s ++ t) = weight s + weight t := by
  simp [weight]

@[simp] theorem weight_reverse (s : List Char) : weight s.reverse = weight s := by
  simp [weight, List.sum_reverse]

variable {s rest : List Char} {used : Nat} {k : String}

theorem weight_le_of_suffix {t : List Char} (h : s <:+ t) : weight s ≤ weight t := by
  obtain ⟨u, rfl⟩ := h
  rw [weight_append]
  omega

theorem charWeight_le (c : Char) : charWeight c ≤ 2 := by
  unfold charWeight
  split
  · omega
  · split <;> omega

theorem charWeight_of_wide {c : Char} (h : c.toNat = 0 ∨ 128 ≤ c.toNat) : charWeight c = 0 := by
  have hne : ∀ d : Char, d.toNat ≠ 0 → d.toNat < 128 → c ≠ d := by
    rintro d hd hlow rfl
    omega
  simp [charWeight, hne '\\' (by decide) (by decide), hne '\x22' (by decide) (by decide),
    hne '\x27' (by decide) (by decide), hne 'u' (by decide) (by decide)]

/-- The weight of code units. -/
def unitsWeight (units : List Nat) : Nat := weight (units.map Char.ofNat)

theorem charWeight_joinSurrogates (a b : Nat) : charWeight (Json.joinSurrogates a b) = 0 := by
  refine charWeight_of_wide ?_
  rw [Json.joinSurrogates]
  generalize hn : 0x10000 + (a - 0xD800) * 0x400 + (b - 0xDC00) = n
  by_cases hvalid : n.isValidChar
  · rw [Char.ofNat, dif_pos hvalid]
    refine .inr ?_
    show 128 ≤ n
    omega
  · rw [Char.ofNat, dif_neg hvalid]
    exact .inl rfl

/-- Code units become characters of no greater weight. -/
theorem weight_joinUnits (units : List Nat) : weight (joinUnits units) ≤ unitsWeight units := by
  fun_induction joinUnits units with
  | case1 => exact Nat.le_refl _
  | case2 n => exact Nat.le_refl _
  | case3 a b rest _ ih =>
    have hrest : unitsWeight (a :: b :: rest) = charWeight (Char.ofNat a) +
        (charWeight (Char.ofNat b) + unitsWeight rest) := by
      simp [unitsWeight]
    rw [weight_cons, charWeight_joinSurrogates, hrest]
    omega
  | case4 a b rest _ ih =>
    have hrest : unitsWeight (a :: b :: rest) = charWeight (Char.ofNat a) +
        unitsWeight (b :: rest) := by
      simp [unitsWeight]
    rw [weight_cons, hrest]
    omega

/-! ## Spellings of a key -/

/-- An escape takes at least one character and stands for at most one code unit. -/
theorem escape?_bounds {units : List Nat} {n : Nat} (h : escape? s = some (units, n)) :
    units.length ≤ 1 ∧ 1 ≤ n := by
  unfold escape? at h
  split at h
  case h_7 a b _ =>
    cases ha : Json.hexDigit? a <;> cases hb : Json.hexDigit? b <;> simp [ha, hb] at h
    simp [← h.1, ← h.2]
  case h_8 => cases h
  case h_9 s =>
    cases hs : Json.hexFour? s <;> simp [hs] at h
    simp [← h.1, ← h.2]
  case h_11 s =>
    split at h
    · cases h
    · cases h
      simp
  case h_12 =>
    split at h
    · cases h
      simp
    · split at h
      · cases h
      · cases h
        simp
  case h_13 => cases h
  all_goals
    cases h
    simp

theorem unitsWeight_escape {units : List Nat} {n : Nat} (h : escape? s = some (units, n)) :
    unitsWeight units.reverse ≤ 2 := by
  have hlength := (escape?_bounds h).1
  cases units with
  | nil => exact Nat.zero_le _
  | cons n rest =>
    obtain rfl : rest = [] := by simpa using hlength
    exact charWeight_le _

theorem unitsWeight_append (a b : List Nat) :
    unitsWeight (a ++ b) = unitsWeight a + unitsWeight b := by
  simp [unitsWeight]

theorem unitsWeight_reverse (a : List Nat) : unitsWeight a.reverse = unitsWeight a := by
  rw [unitsWeight, List.map_reverse, weight_reverse, unitsWeight]

theorem unitsWeight_cons_char (c : Char) (units : List Nat) :
    unitsWeight (c.toNat :: units) = charWeight c + unitsWeight units := by
  rw [unitsWeight, List.map_cons, weight_cons, Char.ofNat_toNat]
  rfl

/-- **A string weighs less than its spelling**, by at least one of its quotes. -/
theorem weight_of_stringFrom {quote : Char} (hquote : charWeight quote = 1) {acc : List Nat}
    {t : String} (h : stringFrom quote acc used s = .ok (t, rest)) :
    weight t.toList + 1 + weight rest ≤ unitsWeight acc + weight (s.drop used) := by
  fun_induction stringFrom quote acc used s with
  | case1 => cases h
  | case2 acc used c s ih => exact ih h
  | case3 => cases h
  | case4 acc c s hc _ =>
    cases h
    have hunits := weight_joinUnits acc.reverse
    rw [unitsWeight_reverse] at hunits
    rw [List.drop_zero, weight_cons, beq_iff_eq.1 hc, hquote, String.toList_ofList]
    omega
  | case5 acc c s _ hc units n hescape ih =>
    have hunits := unitsWeight_escape hescape
    have hdrop := weight_le_of_suffix (List.drop_suffix n s)
    have hrest := ih h
    rw [unitsWeight_append] at hrest
    rw [List.drop_zero, weight_cons, beq_iff_eq.1 hc]
    have hback : charWeight '\\' = 2 := rfl
    omega
  | case6 => cases h
  | case7 => cases h
  | case8 acc c s _ _ _ ih =>
    have hrest := ih h
    rw [unitsWeight_cons_char, List.drop_zero] at hrest
    rw [List.drop_zero, weight_cons]
    omega

theorem weight_unicodeEscape {d : Char} (h : unicodeEscape? s = some d) :
    weight (s.drop 5) + 1 ≤ weight s := by
  unfold unicodeEscape? at h
  split at h
  · rename_i s
    have hdrop := weight_le_of_suffix (List.drop_suffix 4 s)
    rw [List.drop_succ_cons, weight_cons]
    have hletter : charWeight 'u' = 1 := rfl
    omega
  · cases h

/-- A name is its own text, or weighs less than what spells it. -/
theorem weight_of_nameFrom {acc : List Char} {name : List Char}
    (h : nameFrom acc used s = (name, rest)) :
    (∃ own, s.drop used = own ++ rest ∧ name = acc.reverse ++ own ∧ own.all isBarePart = true) ∨
      weight name + 1 + weight rest ≤ weight acc + weight (s.drop used) := by
  fun_induction nameFrom acc used s with
  | case1 acc used =>
    cases h
    exact .inl ⟨[], by simp, by simp, rfl⟩
  | case2 acc used c s ih => exact ih h
  | case3 acc c s hc ih =>
    rcases ih h with ⟨own, hown, rfl, hall⟩ | hrest
    · refine .inl ⟨c :: own, by simpa using hown, by simp, ?_⟩
      rw [List.all_cons, hall, Bool.and_true]
      exact hc
    · rw [weight_cons, List.drop_zero] at hrest
      rw [List.drop_zero, weight_cons]
      omega
  | case4 acc c s _ hc d hescape ih =>
    have hdrop := weight_unicodeEscape hescape
    have hd := charWeight_le d
    have hback : charWeight '\\' = 2 := rfl
    rw [List.drop_zero, weight_cons, beq_iff_eq.1 hc]
    rcases ih h with ⟨own, hown, rfl, -⟩ | hrest
    · have hsum := congrArg weight hown
      simp only [weight_append, weight_reverse, weight_cons] at hsum ⊢
      omega
    · rw [weight_cons] at hrest
      omega
  | case5 acc c s _ hc hescape =>
    cases h
    exact .inl ⟨[], rfl, by simp, rfl⟩
  | case6 acc c s _ hc =>
    cases h
    exact .inl ⟨[], rfl, by simp, rfl⟩

theorem weight_le_of_nameFrom {acc : List Char} {name : List Char}
    (h : nameFrom acc used s = (name, rest)) :
    weight name + weight rest ≤ weight acc + weight (s.drop used) := by
  rcases weight_of_nameFrom h with ⟨own, hown, rfl, -⟩ | hrest
  · simp only [hown, weight_append, weight_reverse]
    omega
  · omega

/-- What it takes to spell a key: its own weight, and something more if it cannot stand as it is. -/
def cost (k : String) : Nat := weight k.toList + if isBareKey k.toList then 0 else 1

theorem cost_le (k : String) : cost k ≤ weight k.toList + 1 := by
  unfold cost
  split <;> omega

/-- **A key costs no more than the text it was read from.** -/
theorem cost_of_readName (h : readName s = .ok (k, rest)) : cost k + weight rest ≤ weight s := by
  unfold readName at h
  split at h
  · cases h
  · rename_i c r
    split at h
    · rename_i hstart
      cases hname : nameFrom [] 0 (c :: r) with
      | mk name behind =>
        rw [hname] at h
        dsimp only at h
        split at h
        · cases h
        cases h
        have hcost := cost_le (String.ofList name)
        rw [String.toList_ofList] at hcost
        rw [Bool.or_eq_true, Bool.and_eq_true, beq_iff_eq] at hstart
        rw [weight_cons]
        rcases hstart with hc | ⟨rfl, hescape⟩
        · have hpart : (Text.isLiteralNamePart c || c.toNat == 0x200C || c.toNat == 0x200D) =
              true := isBarePart_of_start hc
          rw [nameFrom, if_pos hpart] at hname
          rcases weight_of_nameFrom hname with ⟨own, hown, rfl, hall⟩ | hrest
          · -- The name is spelled by its own characters, so nothing is added to its weight.
            have hbare : isBareKey (String.ofList ([c].reverse ++ own)).toList = true := by
              rw [String.toList_ofList]
              exact Bool.and_eq_true_iff.2 ⟨hc, hall⟩
            have hsum := congrArg weight hown
            rw [cost, if_pos hbare, String.toList_ofList]
            simp only [List.drop_zero, weight_append, weight_cons, weight_nil,
              List.reverse_singleton] at hsum ⊢
            omega
          · simp only [List.drop_zero, weight_cons, weight_nil] at hrest
            omega
        · obtain ⟨d, hd⟩ := Option.isSome_iff_exists.1 hescape
          have hpart : (Text.isLiteralNamePart '\\' || ('\\').toNat == 0x200C ||
              ('\\').toNat == 0x200D) = false := by decide +kernel
          rw [nameFrom, if_neg (by rw [hpart]; simp), if_pos (by decide)] at hname
          simp only [hd] at hname
          have hrest := weight_le_of_nameFrom hname
          have hdrop := weight_unicodeEscape hd
          have hchar := charWeight_le d
          have hback : charWeight '\\' = 2 := rfl
          simp only [weight_cons, weight_nil] at hrest
          omega
    · cases h

/-- **No key is spelled for less than its cost.** -/
theorem cost_of_readKey (h : readKey s = .ok (k, rest)) : cost k + weight rest ≤ weight s := by
  have hcost := cost_le k
  have hquoted : ∀ {quote : Char} {r : List Char}, charWeight quote = 1 →
      stringFrom quote [] 0 r = .ok (k, rest) → cost k + weight rest ≤ weight (quote :: r) := by
    intro quote r hquote hr
    have hstring := weight_of_stringFrom hquote hr
    simp only [unitsWeight, List.map_nil, weight_nil, List.drop_zero] at hstring
    rw [weight_cons]
    omega
  unfold readKey at h
  split at h
  · exact hquoted rfl h
  · exact hquoted rfl h
  · exact cost_of_readName h

/-! ## Objects -/

theorem mem_put_of_mem {key : String} {value : Json} {fields : List (String × Json)}
    (h : k ∈ fields.map Prod.fst) : k ∈ (put key value fields).map Prod.fst := by
  fun_induction put key value fields with
  | case1 => cases h
  | case2 v rest => exact h
  | case3 k' v rest _ ih =>
    rcases List.mem_cons.1 h with h | h
    · exact List.mem_cons.2 (.inl h)
    · exact List.mem_cons_of_mem _ (ih h)

theorem mem_put_self (key : String) (value : Json) (fields : List (String × Json)) :
    key ∈ (put key value fields).map Prod.fst := by
  fun_induction put key value fields with
  | case1 => simp
  | case2 v rest => simp
  | case3 k' v rest _ ih => exact List.mem_cons_of_mem _ ih

/-- Fields that were read stay. -/
theorem mem_of_endField {depth : Nat} {done fields : List (String × Json)}
    (hk : k ∈ done.map Prod.fst) (h : endField depth done s = .ok (fields, rest)) :
    k ∈ fields.map Prod.fst := by
  induction depth generalizing done s with
  | zero =>
    unfold endField at h
    repeat' split at h
    all_goals first
      | (cases h; exact hk)
      | (rw [readFields] at h; cases h)
      | cases h
  | succ depth ih =>
    have hfields : ∀ {r : List Char}, readFields (depth + 1) done r = .ok (fields, rest) →
        k ∈ fields.map Prod.fst := by
      intro r hr
      rw [readFields_succ] at hr
      repeat' split at hr
      all_goals first
        | exact ih (mem_put_of_mem hk) hr
        | cases hr
    unfold endField at h
    repeat' split at h
    all_goals first
      | (cases h; exact hk)
      | exact hfields h
      | cases h

/-- An object with one field was read by its key. -/
theorem readKey_of_readValue {depth : Nat} {f : String × Json}
    (h : readValue depth ('{' :: s) = .ok (.obj [f], rest)) :
    ∃ behind, readKey (skip s) = .ok (f.1, behind) := by
  obtain ⟨depth, rfl⟩ : ∃ d, depth = d + 1 := by
    cases depth with
    | zero => rw [readValue] at h; cases h
    | succ d => exact ⟨d, rfl⟩
  rw [readValue] at h
  split at h
  · cases h
  · cases hread : readFields depth [] (skip s) with
    | error e => rw [hread] at h; cases h
    | ok p =>
      obtain ⟨fields, behind⟩ := p
      rw [hread] at h
      cases h
      cases depth with
      | zero => rw [readFields] at hread; cases hread
      | succ depth =>
        rw [readFields_succ] at hread
        split at hread
        · cases hread
        · rename_i key behind hkey
          split at hread
          · split at hread
            · cases hread
            · have hmem := mem_of_endField (mem_put_self _ _ _) hread
              obtain rfl : key = f.1 := by simpa using hmem
              exact ⟨_, hkey⟩
          · cases hread

theorem readText_of_read {text : String} {j : Json} (h : read text = .ok j) :
    readText text.toList = .ok j := by
  unfold read at h
  dsimp only at h
  split at h
  · cases h
  · cases hread : readText text.toList with
    | ok i =>
      rw [hread] at h
      cases h
      rfl
    | error e =>
      rw [hread] at h
      cases e with
      | unpaired unit => cases h
      | fault rest =>
        dsimp only at h
        split at h <;> cases h

theorem readValue_of_read {text : String} {r : List Char} {j : Json}
    (htext : text.toList = '{' :: r) (h : read text = .ok j) :
    ∃ depth rest, readValue depth ('{' :: r) = .ok (j, rest) := by
  have h := readText_of_read h
  unfold readText at h
  rw [htext, skip_cons rfl (by decide), ← htext] at h
  cases hread : readValue (Json.depthFor text.toList.length) text.toList with
  | error e =>
    rw [hread] at h
    cases h
  | ok p =>
    obtain ⟨i, rest⟩ := p
    rw [hread] at h
    dsimp only at h
    split at h
    · cases h
      exact ⟨_, rest, htext ▸ hread⟩
    · cases h

end ReactWeave.Json5

namespace ReactWeave.State

open Json5 (isBareKey)

/-- Data that is no code, and that its own JSON5 text gives back. -/
structure IsPlainData (v : Json) : Prop where
  proper : v.isProper = true
  data : Value.ofJson v = .data v
  readable : Json5.read (Json5.write v) = .ok v

/-- The members of an object, with their keys as they are, and what closes the object. -/
def membersText : List (String × Json) → List Char
  | [] => []
  | [(k, v)] => k.toList ++ ':' :: ' ' :: ((Json5.write v).toList ++ ([' '] ++ ['}']))
  | (k, v) :: f :: fs =>
    k.toList ++ ':' :: ' ' :: ((Json5.write v).toList ++ ',' :: ([' '] ++ membersText (f :: fs)))

variable {fields : List (String × Json)}

/-- The object of a state that is data has its fields as members. -/
theorem toList_objectText (hne : fields ≠ []) (hdata : ∀ f ∈ fields, Value.ofJson f.2 = .data f.2) :
    (objectText (Fields.ofObject fields)).toList = '{' :: ([' '] ++ membersText fields) := by
  have hmember {k : String} {v : Json} (h : Value.ofJson v = .data v) :
      member (.str k) v = k ++ ": " ++ Json5.write v := by
    rw [member, h]
    rfl
  have hmembers : (", ".intercalate ((Fields.ofObject fields).map fun f => member f.1 f.2) ++
      " \x7d").toList = membersText fields := by
    induction fields with
    | nil => exact absurd rfl hne
    | cons f fields ih =>
      obtain ⟨k, v⟩ := f
      obtain ⟨(hv : Value.ofJson v = .data v), hdata⟩ := List.forall_mem_cons.1 hdata
      cases fields with
      | nil => simp [Fields.ofObject, membersText, hmember hv]
      | cons g fields =>
        have ih := ih (by simp) hdata
        simp only [Fields.ofObject, List.map_cons] at ih ⊢
        rw [String.intercalate_cons_cons, membersText, hmember hv, ← ih]
        simp
  have hfields : (Fields.ofObject fields).isEmpty = false := by
    cases fields with
    | nil => exact absurd rfl hne
    | cons => rfl
  rw [objectText, hfields, if_neg (by simp), String.append_assoc, String.toList_append]
  exact congrArg ("\x7b ".toList ++ ·) hmembers

/-- Members with bare keys are read back. -/
theorem fieldsReadBack_membersText (hne : fields ≠ [])
    (hbare : ∀ f ∈ fields, isBareKey f.1.toList = true) :
    Json5.reader.FieldsReadBack (Json5.faultsUnless (Json.allStringsIn Json5.readable fields)) fields
      (membersText fields) := by
  induction fields with
  | nil => exact absurd rfl hne
  | cons f fields ih =>
    obtain ⟨k, v⟩ := f
    obtain ⟨hk, hbare⟩ := List.forall_mem_cons.1 hbare
    have hkey := Json5.spellsKey_bare hk
    have hv := Json5.readsBack_of_spelled (Json5.spelled_write v)
    cases fields with
    | nil =>
      rw [Json.allStringsIn, Json.allStringsIn, Bool.and_true, Json5.faultsUnless_and]
      exact Json.Reader.fieldsReadBack_last hkey hv Json.blanks_space
    | cons g fields =>
      rw [Json.allStringsIn, Json5.faultsUnless_and, Json5.faultsUnless_and]
      exact Json.Reader.fieldsReadBack_cons hkey hv Json.blanks_space (ih (by simp) hbare)

theorem proper_and_readable (hdata : ∀ f ∈ fields, IsPlainData f.2)
    (hbare : ∀ f ∈ fields, isBareKey f.1.toList = true) :
    Json.allProperIn fields = true ∧ Json.allStringsIn Json5.readable fields = true := by
  induction fields with
  | nil => exact ⟨rfl, rfl⟩
  | cons f fields ih =>
    obtain ⟨k, v⟩ := f
    obtain ⟨(hv : IsPlainData v), hdata⟩ := List.forall_mem_cons.1 hdata
    obtain ⟨(hk : isBareKey k.toList = true), hbare⟩ := List.forall_mem_cons.1 hbare
    have hvalue := (Json5.read_write hv.proper).1 hv.readable
    simp [Json.allProperIn, Json.allStringsIn, hv.proper, hvalue, Json5.readable_bare hk,
      ih hdata hbare]

/-- An object with bare keys is read as the state. -/
theorem read_objectText_of_bare (hkeys : (fields.map Prod.fst).Nodup)
    (hdata : ∀ f ∈ fields, IsPlainData f.2) (hbare : ∀ f ∈ fields, isBareKey f.1.toList = true) :
    Json5.read (objectText (Fields.ofObject fields)) = .ok (.obj fields) := by
  by_cases hne : fields = []
  · subst hne
    rfl
  obtain ⟨hproper, hreadable⟩ := proper_and_readable hdata hbare
  have hobject : Json.isProper (.obj fields) = true := by simp [Json.isProper, hkeys, hproper]
  refine (Json5.read_iff ?_ hobject).2 hreadable
  rw [toList_objectText hne fun f hf => (hdata f hf).data]
  exact Json.Reader.readsBack_obj Json.blanks_space (fieldsReadBack_membersText hne hbare)

/-- A lone key with a value of no weight is only read back if it is bare: its text has nothing to
spell it otherwise. -/
theorem isBareKey_of_read_zero {k : String}
    (h : Json5.read (objectText (Fields.ofObject [(k, .int 0)])) = .ok (.obj [(k, .int 0)])) :
    isBareKey k.toList = true := by
  have htext : (objectText (Fields.ofObject [(k, .int 0)])).toList =
      '{' :: ' ' :: (k.toList ++ [':', ' ', '0', ' ', '}']) :=
    toList_objectText (List.cons_ne_nil _ _) fun f hf => by
      obtain rfl := List.mem_singleton.1 hf
      rfl
  obtain ⟨depth, rest, hread⟩ := Json5.readValue_of_read htext h
  obtain ⟨behind, hkey⟩ := Json5.readKey_of_readValue hread
  have hcost : Json5.cost k + Json5.weight behind ≤ _ := Json5.cost_of_readKey hkey
  have hskip := Json5.weight_le_of_suffix
    (Json5.skip_suffix (' ' :: (k.toList ++ [':', ' ', '0', ' ', '}'])))
  have hspace : Json5.charWeight ' ' = 0 := rfl
  have hend : Json5.weight [':', ' ', '0', ' ', '}'] = 0 := rfl
  rw [Json5.weight_cons, Json5.weight_append, hend] at hskip
  by_contra hbare
  have hmore : Json5.cost k = Json5.weight k.toList + 1 := by rw [Json5.cost, if_neg hbare]
  omega

theorem isPlainData_zero : IsPlainData (.int 0) := ⟨rfl, rfl, rfl⟩

/-- **The object of a state denotes the state** exactly as long as the keys can stand bare: all
states over some keys are read back, with the same keys in the same order, if each of the keys is a
name, and a key of any other form spoils a state. -/
theorem objectText_denotes_iff (keys : List String) :
    (∀ fields : List (String × Json), (fields.map Prod.fst).Nodup →
      (∀ f ∈ fields, f.1 ∈ keys ∧ IsPlainData f.2) →
        Json5.read (objectText (Fields.ofObject fields)) = .ok (.obj fields)) ↔
      ∀ k ∈ keys, isBareKey k.toList = true := by
  constructor
  · intro hread k hk
    refine isBareKey_of_read_zero (hread [(k, .int 0)] (List.nodup_singleton k) ?_)
    intro f hf
    obtain rfl := List.mem_singleton.1 hf
    exact ⟨hk, isPlainData_zero⟩
  · intro hbare fields hnodup hfields
    exact read_objectText_of_bare hnodup (fun f hf => (hfields f hf).2)
      fun f hf => hbare f.1 (hfields f hf).1

/-- A key with a dash stands in the text as it is, and ends where its dash is. -/
theorem objectText_dashed_unreadable :
    objectText (Fields.ofObject [("my-key", .int 1)]) = "\x7b my-key: 1 \x7d" ∧
      (Json5.read (objectText (Fields.ofObject [("my-key", .int 1)]))).toOption = none := by
  decide +kernel

end ReactWeave.State
