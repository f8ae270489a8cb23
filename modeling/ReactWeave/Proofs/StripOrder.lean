import ReactWeave.Proofs.GetterCalls

/-!
# ReactWeave.Proofs.StripOrder

**Removing the accesses to two words, one word after the other.**

A pass over the text removes the accesses to one word, and changes what stands in
front of the text behind them. So the next pass may find accesses that were none:
`state` in `props.state.x`, once `props.` is gone. Where no access is followed by
such a one or by a dot, both orders remove what the words remove alone.

* `stripBoth_of_apart`: the order does not matter, and members are no accesses.
-/

namespace ReactWeave.State

/-! ## Words -/

/-- The word for the properties. -/
abbrev propsWord : List Char := ['p', 'r', 'o', 'p', 's']

/-- Texts that are one word. -/
structure IsWord (w : List Char) : Prop where
  ne_nil : w ≠ []
  parts : ∀ c ∈ w, isNamePart c = true

variable {v w a r s x y : List Char} {c : Char} {before before' : Option Char}

theorem startsName_namePart (hc : isNamePart c = true) : startsName (some c) = false := by
  simp [startsName, hc]

theorem accessLength?_eq_none_iff :
    accessLength? w s = none ↔
      ∀ gap z, (∀ c ∈ gap, Text.isBlank c = true) → s ≠ w ++ (gap ++ '.' :: z) := by
  rw [accessLength?, Option.map_eq_none_iff, Option.eq_none_iff_forall_ne_some]
  simp only [ne_eq, behindDot?_eq_some, not_exists, not_and]
  exact ⟨fun h gap z hgap hs => h z gap hs hgap, fun h z gap hs hgap => h gap z hgap hs⟩

theorem accessAt?_quiet (hw : IsWord w)
    (h : isNamePart c = true → startsName before = false) : accessAt? w before (c :: s) = none := by
  unfold accessAt?
  split
  · rename_i hstart
    refine accessLength?_eq_none_iff.2 fun gap z _ hs => ?_
    obtain ⟨d, w', rfl⟩ := List.exists_cons_of_ne_nil hw.ne_nil
    obtain ⟨rfl, -⟩ := List.cons.inj hs
    rw [h (hw.parts c List.mem_cons_self)] at hstart
    cases hstart
  · rfl

theorem staysFrom_quiet (hw : IsWord w) {b : Bool} (hx : ∀ c ∈ x, isNamePart c = b)
    (hb : b = true → startsName before = false) :
    staysFrom w before 0 (x ++ r) =
      List.replicate x.length true ++ staysFrom w (x.getLast?.or before) 0 r := by
  induction x generalizing before with
  | nil => rfl
  | cons c x ih =>
    obtain ⟨hc, hx⟩ := List.forall_mem_cons.1 hx
    rw [List.cons_append, staysFrom, accessAt?_quiet hw fun h => hb (hc.symm.trans h),
      ih hx fun h => startsName_namePart (hc.trans h), getLast?_cons_or]
    rfl

theorem IsAccess.getLast?_or (h : IsAccess w a) (before : Option Char) :
    a.getLast?.or before = a.getLast? := by
  cases hlast : a.getLast? with
  | none => exact absurd (List.getLast?_eq_none_iff.1 hlast) h.ne_nil
  | some c => rfl

theorem IsAccess.length_lt (h : IsAccess w a) (r : List Char) : r.length < (a ++ r).length := by
  have := List.length_pos_of_ne_nil h.ne_nil
  rw [List.length_append]
  omega

theorem IsAccess.exists_link (h : IsAccess w a) :
    ∃ link, a = w ++ link ∧ link ≠ [] ∧ ∀ c ∈ link, isNamePart c = false := by
  obtain ⟨w₁, w₂, rfl, hw₁, hw₂⟩ := h
  refine ⟨_, rfl, by simp, ?_⟩
  simp only [List.forall_mem_append, List.forall_mem_cons]
  exact ⟨fun c h => isNamePart_of_isBlank (hw₁ c h), by decide,
    fun c h => isNamePart_of_isBlank (hw₂ c h)⟩

/-- An access to one word has no access to another one in it. -/
theorem staysFrom_other (hv : IsWord v) (hw : IsWord w) (hne : v ≠ w) (ha : IsAccess v a) :
    staysFrom w before 0 (a ++ r) =
      List.replicate a.length true ++ staysFrom w a.getLast? 0 r := by
  rw [← ha.getLast?_or before]
  obtain ⟨link, rfl, hnil, hlink⟩ := ha.exists_link
  obtain ⟨c, v', rfl⟩ := List.exists_cons_of_ne_nil hv.ne_nil
  obtain ⟨hc, hv'⟩ := List.forall_mem_cons.1 hv.parts
  have hnone : accessAt? w before (c :: (v' ++ (link ++ r))) = none := by
    unfold accessAt?
    split
    · refine accessLength?_eq_none_iff.2 fun gap z hgap hs => hne ?_
      refine (name_unique hv.parts hw.parts (fun d hd => hlink d ?_) (isNamePart_behind hgap z) hs).1
      rw [List.head?_append_of_ne_nil _ hnil] at hd
      exact List.mem_of_head? hd
    · rfl
  rw [List.getLast?_append, Option.or_assoc, getLast?_cons_or, List.append_assoc,
    List.cons_append, staysFrom, hnone, staysFrom_quiet hw hv' fun _ => startsName_namePart hc,
    staysFrom_quiet hw hlink (by simp), List.length_append, List.length_cons, Nat.add_right_comm,
    List.replicate_succ, List.replicate_add, List.cons_append, List.append_assoc]

/-! ## What stays of a text -/

theorem chosen_replicate (b : Bool) (m : List Bool) :
    chosen (a ++ r) (List.replicate a.length b ++ m) = (if b then a else []) ++ chosen r m := by
  induction a with
  | nil => cases b <;> rfl
  | cons c a ih =>
    cases b <;> simpa [chosen, List.replicate_succ] using ih

theorem zipWith_replicate (b b' : Bool) (n : Nat) (m m' : List Bool) :
    List.zipWith and (List.replicate n b ++ m) (List.replicate n b' ++ m') =
      List.replicate n (b && b') ++ List.zipWith and m m' := by
  rw [List.zipWith_append (by simp), List.zipWith_replicate']

theorem stripFrom_access (ha : IsAccess v a) (hbefore : startsName before = true)
    (hr : Text.trimStart r = r) : stripFrom v before 0 (a ++ r) = stripFrom v a.getLast? 0 r := by
  rw [stripFrom_eq_chosen, staysFrom_access hbefore ha hr, chosen_replicate, stripFrom_eq_chosen]
  rfl

theorem stripFrom_none (h : accessAt? v before (c :: s) = none) :
    stripFrom v before 0 (c :: s) = c :: stripFrom v (some c) 0 s := by
  rw [accessAt?] at h
  rw [stripFrom, h]

/-! ## References that stay apart -/

/-- Whether no access to `v` in a text is followed by a dot, nor, where no name could start, by an
access to `w`. -/
def apartFrom (v w : List Char) (before : Option Char) : List Char → Bool
  | [] => true
  | c :: s =>
    ((accessAt? v before (c :: s)).all fun n =>
      ((c :: s).drop n).head? != some '.' &&
        (startsName ((c :: s).take n).getLast? || (accessLength? w ((c :: s).drop n)).isNone)) &&
      apartFrom v w (some c) s

theorem apartFrom_append (h : apartFrom v w before (a ++ r) = true) :
    apartFrom v w (a.getLast?.or before) r = true := by
  induction a generalizing before with
  | nil => exact h
  | cons c a ih =>
    rw [getLast?_cons_or]
    exact ih (Bool.and_eq_true_iff.1 h).2

/-- Whether a text starts with neither white space nor a dot. -/
def Firm (s : List Char) : Prop := ∀ c ∈ s.head?, Text.isBlank c = false ∧ c ≠ '.'

theorem Firm.trimStart (h : Firm s) : Text.trimStart s = s := by
  cases s with
  | nil => rfl
  | cons c s => exact List.dropWhile_cons_of_neg (by simp [(h c rfl).1])

/-- Behind an access to one word the rest stands apart, and no access to the other comes up. -/
theorem apartFrom_access (ha : IsAccess v a) (hbefore : startsName before = true)
    (hr : Text.trimStart r = r) (h : apartFrom v w before (a ++ r) = true) :
    apartFrom v w a.getLast? r = true ∧ Firm r ∧
      (startsName a.getLast? = false → accessLength? w r = none) := by
  obtain ⟨c, a, rfl⟩ := List.exists_cons_of_ne_nil ha.ne_nil
  have hat : accessAt? v before (c :: (a ++ r)) = some (c :: a).length := by
    rw [accessAt?, if_pos hbefore]
    exact accessLength?_eq_some.2 ⟨_, r, rfl, ha, hr, rfl⟩
  have hrest := apartFrom_append h
  rw [List.cons_append, apartFrom, hat, Option.all_some, ← List.cons_append, List.drop_left,
    List.take_left, Bool.and_eq_true, Bool.and_eq_true] at h
  obtain ⟨⟨hdot, happart⟩, -⟩ := h
  refine ⟨by rwa [List.getLast?_cons] at hrest ⊢, fun d hd => ⟨?_, ?_⟩, fun hlast => ?_⟩
  · have hblank := List.head?_dropWhile_not Text.isBlank r
    rw [← Text.trimStart, hr, hd] at hblank
    simpa using hblank
  · rintro rfl
    rw [hd] at hdot
    cases hdot
  · simpa [hlast] using happart

/-- Removing accesses that stand apart leaves no blank at the start. -/
theorem firm_stripFrom (hs : Firm s) (h : apartFrom v w before s = true) :
    Firm (stripFrom v before 0 s) := by
  induction hn : s.length using Nat.strong_induction_on generalizing before s with
  | _ n ih =>
    cases s with
    | nil => exact hs
    | cons c s =>
      cases hat : accessAt? v before (c :: s) with
      | none =>
        rw [stripFrom_none hat]
        exact hs
      | some m =>
        obtain ⟨hbefore, a, r, heq, ha, hr, -⟩ := accessAt?_eq_some hat
        rw [heq] at h hn ⊢
        obtain ⟨hapart, hfirm, -⟩ := apartFrom_access ha hbefore hr h
        rw [stripFrom_access ha hbefore hr]
        exact ih r.length (hn ▸ ha.length_lt r) hfirm hapart rfl

/-! ## One word after the other -/

theorem exists_of_stripFrom_name (hv : IsWord v) (hx : ∀ c ∈ x, isNamePart c = true)
    (hbefore : startsName before = false) (h : stripFrom v before 0 s = x ++ y) :
    ∃ t, s = x ++ t ∧ stripFrom v (x.getLast?.or before) 0 t = y := by
  induction x generalizing before s with
  | nil => exact ⟨s, rfl, h⟩
  | cons c x ih =>
    rw [List.forall_mem_cons] at hx
    cases s with
    | nil => cases h
    | cons d s =>
      rw [stripFrom_none (accessAt?_quiet hv fun _ => hbefore)] at h
      obtain ⟨rfl, htail⟩ := List.cons.inj h
      obtain ⟨t, rfl, ht⟩ := ih hx.2 (startsName_namePart hx.1) htail
      exact ⟨t, rfl, by rw [getLast?_cons_or]; exact ht⟩

/-- Where only a gap and a dot are left, there was nothing else before: what stands behind a removed
access is neither. -/
theorem exists_of_stripFrom_gap (hx : ∀ c ∈ x, Text.isBlank c = true)
    (hnone : accessAt? v before s = none) (hapart : apartFrom v w before s = true)
    (h : stripFrom v before 0 s = x ++ '.' :: y) :
    ∃ gap z, s = gap ++ '.' :: z ∧ ∀ c ∈ gap, Text.isBlank c = true := by
  induction x generalizing before s with
  | nil =>
    cases s with
    | nil => cases h
    | cons d s =>
      rw [stripFrom_none hnone] at h
      obtain ⟨rfl, -⟩ := List.cons.inj h
      exact ⟨[], s, rfl, by simp⟩
  | cons c x ih =>
    rw [List.forall_mem_cons] at hx
    cases s with
    | nil => cases h
    | cons d s =>
      rw [stripFrom_none hnone] at h
      obtain ⟨rfl, htail⟩ := List.cons.inj h
      have hrest : apartFrom v w (some d) s = true := (Bool.and_eq_true_iff.1 hapart).2
      cases hat : accessAt? v (some d) s with
      | none =>
        obtain ⟨gap, z, rfl, hgap⟩ := ih hx.2 hat hrest htail
        exact ⟨d :: gap, z, rfl, List.forall_mem_cons.2 ⟨hx.1, hgap⟩⟩
      | some m =>
        obtain ⟨hbefore, a, r, rfl, ha, hr, -⟩ := accessAt?_eq_some hat
        obtain ⟨hrest, hfirm, -⟩ := apartFrom_access ha hbefore hr hrest
        have hstays := firm_stripFrom hfirm hrest
        rw [← stripFrom_access ha hbefore hr, htail] at hstays
        cases x with
        | nil => exact absurd rfl (hstays '.' rfl).2
        | cons e x => exact absurd (hstays e rfl).1 (by simp [hx.2 e List.mem_cons_self])

/-- Removing one word makes no access to the other. -/
theorem accessLength?_stripFrom (hv : IsWord v) (hw : IsWord w)
    (hapart : apartFrom v w before (c :: s) = true) (h : accessLength? w (c :: s) = none) :
    accessLength? w (c :: stripFrom v (some c) 0 s) = none := by
  rw [accessLength?_eq_none_iff] at h ⊢
  intro gap z hgap hs
  obtain ⟨d, w', rfl⟩ := List.exists_cons_of_ne_nil hw.ne_nil
  obtain ⟨rfl, htail⟩ := List.cons.inj hs
  obtain ⟨hc, hw'⟩ := List.forall_mem_cons.1 hw.parts
  obtain ⟨t, rfl, ht⟩ := exists_of_stripFrom_name hv hw' (startsName_namePart hc) htail
  have hlast : startsName (w'.getLast?.or (some c)) = false := by
    cases hw'last : w'.getLast? with
    | none => exact startsName_namePart hc
    | some d => exact startsName_namePart (hw' d (List.mem_of_getLast? hw'last))
  have hrest : apartFrom v (c :: w') (w'.getLast?.or (some c)) t = true :=
    apartFrom_append (Bool.and_eq_true_iff.1 hapart).2
  obtain ⟨gap, z, rfl, hgap⟩ :=
    exists_of_stripFrom_gap hgap (by rw [accessAt?, hlast]; rfl) hrest ht
  exact h gap z hgap rfl

/-- **Removing two words keeps what neither of them removes**, if their accesses stand apart. -/
theorem stripFrom_stripFrom (hv : IsWord v) (hw : IsWord w) (hne : v ≠ w)
    (hvw : apartFrom v w before s = true) (hwv : apartFrom w v before s = true)
    (hsame : accessAt? w before' s = accessAt? w before s)
    (hbefore : startsName before = true → startsName before' = true) :
    stripFrom w before' 0 (stripFrom v before 0 s) =
      chosen s (List.zipWith and (staysFrom v before 0 s) (staysFrom w before 0 s)) := by
  induction hn : s.length using Nat.strong_induction_on generalizing before before' s with
  | _ n ih =>
    cases hatv : accessAt? v before s with
    | some m =>
      obtain ⟨hstart, a, r, rfl, ha, hr, -⟩ := accessAt?_eq_some hatv
      obtain ⟨hvw, -, hnone⟩ := apartFrom_access ha hstart hr hvw
      have hwv : apartFrom w v a.getLast? r = true := by
        simpa [ha.getLast?_or] using apartFrom_append hwv
      rw [stripFrom_access ha hstart hr, staysFrom_access hstart ha hr, staysFrom_other hv hw hne ha,
        zipWith_replicate, chosen_replicate]
      refine ih r.length (hn ▸ ha.length_lt r) hvw hwv ?_ (fun _ => hbefore hstart) rfl
      · rw [accessAt?, accessAt?, if_pos (hbefore hstart)]
        split
        · rfl
        · exact hnone (Bool.eq_false_iff.2 ‹_›)
    | none =>
      cases hatw : accessAt? w before s with
      | some m =>
        obtain ⟨hstart, a, r, rfl, ha, hr, -⟩ := accessAt?_eq_some hatw
        obtain ⟨hwv, hfirm, -⟩ := apartFrom_access ha hstart hr hwv
        have hvw : apartFrom v w a.getLast? r = true := by
          simpa [ha.getLast?_or] using apartFrom_append hvw
        have hstrip : stripFrom v before 0 (a ++ r) = a ++ stripFrom v a.getLast? 0 r := by
          rw [stripFrom_eq_chosen, staysFrom_other hw hv hne.symm ha, chosen_replicate,
            stripFrom_eq_chosen]
          rfl
        rw [hstrip, stripFrom_access ha (hbefore hstart) (firm_stripFrom hfirm hvw).trimStart,
          staysFrom_access hstart ha hr, staysFrom_other hw hv hne.symm ha, zipWith_replicate,
          chosen_replicate]
        exact ih r.length (hn ▸ ha.length_lt r) hvw hwv rfl id rfl
      | none =>
        cases s with
        | nil => rfl
        | cons c s =>
          have hleft : accessAt? w before' (c :: stripFrom v (some c) 0 s) = none := by
            rw [hatw] at hsame
            rw [accessAt?] at hsame ⊢
            split
            · rename_i hstart
              rw [if_pos hstart] at hsame
              exact accessLength?_stripFrom hv hw hvw hsame
            · rfl
          rw [stripFrom_none hatv, stripFrom_none hleft, staysFrom, hatv, staysFrom, hatw]
          refine congrArg (c :: ·) (ih s.length ?_ ?_ ?_ rfl id rfl)
          · rw [← hn, List.length_cons]
            exact Nat.lt_succ_self _
          · exact (Bool.and_eq_true_iff.1 hvw).2
          · exact (Bool.and_eq_true_iff.1 hwv).2

theorem strip_strip {v w code : String} (hv : IsWord v.toList) (hw : IsWord w.toList)
    (hne : v.toList ≠ w.toList) (hvw : apartFrom v.toList w.toList none code.toList = true)
    (hwv : apartFrom w.toList v.toList none code.toList = true) :
    strip w (strip v code) = String.ofList (chosen code.toList
      (List.zipWith and (stays v.toList code.toList) (stays w.toList code.toList))) := by
  rw [strip, strip, String.toList_ofList, stripChars, stripChars,
    stripFrom_stripFrom hv hw hne hvw hwv rfl id]
  rfl

/-! ## Members -/

theorem IsAccess.isNamePart_behind_dot (hw : IsWord w) (h : IsAccess w a) {k : Nat}
    (hdot : a[k]? = some '.') (hc : a[k + 1]? = some c) : isNamePart c = false := by
  obtain ⟨link, rfl, -, hlink⟩ := h.exists_link
  rcases Nat.lt_or_ge k w.length with hlt | hle
  · rw [List.getElem?_append_left hlt] at hdot
    exact absurd (hw.parts '.' (List.mem_of_getElem? hdot)) (by decide)
  · rw [List.getElem?_append_right (by omega)] at hc
    exact hlink c (List.mem_of_getElem? hc)

/-- A member behind a dot stays. -/
theorem staysFrom_member {skip : Nat} {u : List Char} (hw : IsWord w) (hx : IsWord x)
    (hskip : skip ≤ u.length + 1) :
    ((staysFrom w before skip (u ++ '.' :: (x ++ r))).drop (u.length + 1)).take x.length =
      List.replicate x.length true := by
  induction u generalizing before skip with
  | nil =>
    have hname : (staysFrom w (some '.') 0 (x ++ r)).take x.length =
        List.replicate x.length true := by
      rw [staysFrom_quiet hw hx.parts fun _ => rfl, List.take_append_of_le_length (by simp)]
      simp
    obtain rfl | rfl : skip = 0 ∨ skip = 1 := by
      rw [List.length_nil] at hskip
      omega
    · rw [List.nil_append, staysFrom, accessAt?_quiet hw fun h => absurd h (by decide)]
      exact hname
    · exact hname
  | cons c u ih =>
    cases skip with
    | succ skip => exact ih (Nat.le_of_succ_le_succ hskip)
    | zero =>
      rw [List.cons_append, staysFrom]
      cases hat : accessAt? w before (c :: (u ++ '.' :: (x ++ r))) with
      | none => exact ih (Nat.zero_le _)
      | some n =>
        refine ih ?_
        obtain ⟨-, a, rest, heq, ha, -, rfl⟩ := accessAt?_eq_some hat
        by_contra hlong
        obtain ⟨d, x, rfl⟩ := List.exists_cons_of_ne_nil hx.ne_nil
        have hget (k : Nat) (hk : k ≤ u.length + 2) :
            a[k]? = (c :: (u ++ '.' :: (d :: x ++ r)))[k]? := by
          rw [heq, List.getElem?_append_left (by omega)]
        have hd := ha.isNamePart_behind_dot hw (k := u.length + 1) (c := d)
          (by rw [hget _ (by omega)]; simp) (by rw [hget _ (by omega)]; simp)
        rw [hx.parts d List.mem_cons_self] at hd
        cases hd

/-! ## Accesses to the state and the properties -/

/-- **The order of the passes does not matter** where accesses stand apart: both orders leave what
each pass alone leaves. And no pass takes the name of a member for an access. -/
theorem stripBoth_of_apart (code : String) :
    (apartFrom propsWord stateWord none code.toList = true →
      apartFrom stateWord propsWord none code.toList = true →
        stripBoth true true code = strip "props" (strip "state" code) ∧
          stripBoth true true code = String.ofList (chosen code.toList
            (List.zipWith and (stays propsWord code.toList) (stays stateWord code.toList)))) ∧
      stripBoth false true code = String.ofList (chosen code.toList (stays propsWord code.toList)) ∧
      stripBoth true false code = String.ofList (chosen code.toList (stays stateWord code.toList)) ∧
      ∀ word ∈ [propsWord, stateWord], ∀ u x r, code.toList = u ++ '.' :: (x ++ r) → IsWord x →
        ((stays word code.toList).drop (u.length + 1)).take x.length =
          List.replicate x.length true := by
  have hprops : IsWord propsWord := ⟨by decide, by decide⟩
  have hstate : IsWord stateWord := ⟨by decide, by decide⟩
  refine ⟨fun hps hsp => ?_, strip_eq_chosen .., strip_eq_chosen .., ?_⟩
  · have hfirst := strip_strip (v := "props") (w := "state") hprops hstate (by decide) hps hsp
    have hsecond := strip_strip (v := "state") (w := "props") hstate hprops (by decide) hsp hps
    rw [List.zipWith_comm_of_comm Bool.and_comm] at hsecond
    exact ⟨hfirst.trans hsecond.symm, hfirst⟩
  · intro word hword u x r hcode hx
    rw [hcode]
    refine staysFrom_member ?_ hx (Nat.zero_le _)
    rcases List.mem_pair.1 hword with rfl | rfl <;> assumption

theorem stripBoth_of_apart_sum :
    stripBoth true true "props.a + obj.state.b - state . props.c" =
      strip "props" (strip "state" "props.a + obj.state.b - state . props.c") :=
  ((stripBoth_of_apart _).1 (by decide) (by decide)).1

theorem stripBoth_state_of_props :
    stripBoth true true "props.state.x" = "x" ∧
      strip "props" (strip "state" "props.state.x") = "state.x" := by
  decide

end ReactWeave.State
