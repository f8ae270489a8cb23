import ReactWeave.Proofs.Reading
import ReactWeave.Script.Rules

/-!
# ReactWeave.Proofs.Depth

**The bound on the depth of reading plays no part.** `Grammar.run` goes at most
so many levels deep and fails below; `readProgram` allows 256 levels for each
character. Here it is shown that no text comes near this: from some depth on,
a grammar gives one and the same answer.

A grammar goes deeper only for two reasons: it has read something, so that less
text is left, or it is on its way to the first thing it reads. A `Ranking` says
how long this way is for each rule, and which rules always read something; that
it is right for the rules of the language is a computation.

* `Gives`: what a grammar gives at every depth that is large enough, with one
  rule for each step of reading.
-/

namespace ReactWeave.Script

/-! ## Tokens are not empty -/

/-- Whether a recogniser never gives an empty token. -/
def Eats (scan : Scan) : Prop := ∀ s n, scan s = some n → 0 < n ∧ s ≠ []

namespace Lexis

theorem eats_name (test : List Char → Bool) : Eats (name test) := by
  intro s n h
  simp only [name] at h
  split at h
  · cases h
  · rename_i hn
    split at h
    · cases h
      exact ⟨Nat.pos_of_ne_zero hn, fun hs => hn (by rw [hs, nameLength])⟩
    · cases h

theorem eats_keyword (w : List Char) : Eats (keyword w) := eats_name _

theorem eats_mark {w : List Char} (hw : w ≠ []) (stop : List Char) : Eats (mark w stop) := by
  intro s n h
  obtain ⟨a, w, rfl⟩ := List.exists_cons_of_ne_nil hw
  have hs : s ≠ [] := by
    rintro rfl
    simp [mark, Text.startsWith] at h
  have hn : n = (a :: w).length := by
    simp only [mark] at h
    split at h
    · split at h
      · split at h <;> simp_all
      · simp_all
    · cases h
  exact ⟨by simp [hn], hs⟩

theorem eats_privateName : Eats privateName := by
  intro s n h
  simp only [privateName] at h
  split at h
  · split at h
    · cases h
    · cases h
      exact ⟨by omega, by simp⟩
  · cases h

theorem eats_dashedName : Eats dashedName := by
  intro s n h
  simp only [dashedName] at h
  split at h
  · cases h
  · rename_i hn
    have hs : s ≠ [] := fun hs => hn (by rw [hs, nameLength])
    split at h
    all_goals
      cases h
      exact ⟨by omega, hs⟩

theorem eats_runOf (test : Char → Bool) : Eats (runOf test) := by
  intro s n h
  simp only [runOf] at h
  split at h
  · cases h
  · rename_i hn
    cases h
    exact ⟨Nat.pos_of_ne_zero hn, fun hs => hn (by simp [hs])⟩

theorem eats_stringFragment (quote : Char) : Eats (stringFragment quote) := eats_runOf _

theorem eats_radixNumber (isD : Char → Bool) : Eats (radixNumber isD) := by
  intro s n h
  simp only [radixNumber] at h
  split at h
  · cases h
  · rename_i hn
    cases h
    exact ⟨by omega, fun hs => hn (by simp [hs, digits])⟩

theorem withBigMark_pos {n : Nat} (hn : n ≠ 0) (s : List Char) : 0 < withBigMark n s := by
  unfold withBigMark
  split <;> omega

/-- A number is at least one character: there is a digit in front of the point or behind it. -/
theorem eats_decimalNumber : Eats decimalNumber := by
  intro s n h
  have hs : s ≠ [] := by
    rintro rfl
    simp [decimalNumber, digits] at h
  refine ⟨?_, hs⟩
  simp only [decimalNumber] at h
  split at h
  · split at h
    · split at h
      · cases h
      · cases h
        omega
    · cases h
  · rename_i hn
    have hmark := withBigMark_pos hn s
    split at h
    · split at h
      · cases h
        omega
      · split at h <;> cases h <;> omega
    · cases h
      exact hmark

theorem eats_number : Eats number := by
  intro s n h
  simp only [number] at h
  split at h
  · rename_i m hm
    cases h
    split at hm
    case h_7 => cases hm
    all_goals exact ⟨(eats_radixNumber _ _ _ hm).1, by simp⟩
  · exact eats_decimalNumber _ _ h

theorem eats_escapeSequence : Eats escapeSequence := by
  intro s n h
  unfold escapeSequence at h
  split at h
  · split at h <;> cases h
    exact ⟨by omega, by simp⟩
  · cases h
  · obtain ⟨m, -, rfl⟩ := Option.map_eq_some_iff.1 h
    exact ⟨by omega, by simp⟩
  · refine ⟨?_, by simp⟩
    split at h
    · cases h
      omega
    · split at h
      · split at h
        · split at h <;> cases h <;> omega
        · cases h
          omega
      · cases h
        omega
  · cases h

theorem eats_templateFragment : Eats templateFragment := by
  intro s n h
  simp only [templateFragment] at h
  split at h
  · rename_i m hm
    cases h
    exact ⟨by omega, fun hs => by simp [hs, templateChars] at hm⟩
  · cases h

theorem eats_regexPattern : Eats regexPattern := by
  intro s n h
  simp only [regexPattern] at h
  split at h
  · rename_i m hm
    cases h
    exact ⟨by omega, fun hs => by simp [hs, regexFrom] at hm⟩
  · cases h

theorem eats_jsxText : Eats jsxText := by
  intro s n h
  simp only [jsxText] at h
  split at h
  · rename_i m hm
    cases h
    cases s with
    | nil => simp [markupText] at hm
    | cons c s =>
      refine ⟨?_, by simp⟩
      simp only [markupText] at hm
      split at hm
      · cases hm
      · have hn := congrArg Prod.fst hm
        omega
  · cases h

theorem eats_characterReference : Eats characterReference := by
  intro s n h
  unfold characterReference at h
  split at h
  · refine ⟨?_, by simp⟩
    dsimp only at h
    split at h
    · split at h
      all_goals
        split at h
        · exact Option.some.inj h ▸ Nat.succ_pos _
        · cases h
    · cases h
  · refine ⟨?_, by simp⟩
    dsimp only at h
    split at h
    · split at h <;> cases h
      omega
    · cases h
  · cases h

theorem eats_attributeString : Eats attributeString := by
  intro s n h
  unfold attributeString at h
  split at h
  · split at h
    · obtain ⟨m, -, rfl⟩ := Option.map_eq_some_iff.1 h
      exact ⟨by omega, by simp⟩
    · cases h
  · cases h

/-- A text that starts with a word whose first character passes a test starts with a run of such
characters. -/
theorem length_takeWhile_pos {p : Char → Bool} {a : Char} {w s : List Char} (ha : p a = true)
    (h : Text.startsWith (a :: w) s = true) : 0 < (s.takeWhile p).length ∧ s ≠ [] := by
  cases s with
  | nil => simp [Text.startsWith] at h
  | cons c s =>
    simp only [Text.startsWith, Bool.and_eq_true, beq_iff_eq] at h
    simp [← h.1, ha]

theorem eats_markupComment : Eats markupComment := by
  intro s n h
  simp only [markupComment] at h
  split at h
  · rename_i hs
    cases h
    rcases Bool.or_eq_true_iff.1 hs with hs | hs
    · exact length_takeWhile_pos (by decide) hs
    · exact length_takeWhile_pos (by decide) hs
  · cases h

theorem eats_hashBang : Eats hashBang := by
  intro s n h
  simp only [hashBang] at h
  split at h
  · rename_i hs
    cases h
    exact length_takeWhile_pos (by decide) hs
  · cases h

end Lexis

namespace Grammar

variable {R : Type}

/-! ## Rankings -/

/-- What is claimed of the rules of a grammar. -/
structure Ranking (R : Type) where
  /-- Which rules never succeed without reading something. -/
  eats : R → Bool
  /-- How deep a rule goes before it has read something. -/
  height : R → Nat

namespace Ranking

/-- Whether a grammar never succeeds without reading something. -/
def consumes (k : Ranking R) : Grammar R → Bool
  | token _ _ | glued _ _ => true
  | rule r => k.eats r
  | seq a b => k.consumes a || k.consumes b
  | alt a b => k.consumes a && k.consumes b
  | node _ a | field _ a | reshape _ a | grow a _ _ => k.consumes a
  | empty | gap | check _ | many _ | absent _ | extend _ _ _ => false

mutual

/-- How deep a grammar goes before it has read something. -/
def depth (k : Ranking R) : Grammar R → Nat
  | empty | token _ _ | glued _ _ | gap | check _ => 1
  | rule r => k.height r + 1
  | seq a b => max (k.depth a) (if k.consumes a then 0 else k.depth b) + 1
  | alt a b => max (k.depth a) (k.depth b) + 1
  | many a | node _ a | field _ a | absent a | reshape _ a | grow a _ _ => k.depth a + 1
  | extend _ _ ways => k.depthOfWays ways + 1

/-- The same for ways to go on. -/
def depthOfWays (k : Ranking R) : List (Continuation × Grammar R) → Nat
  | [] => 0
  | way :: ways => max (k.depthOfWay way) (k.depthOfWays ways)

/-- The same for one way to go on. -/
def depthOfWay (k : Ranking R) : Continuation × Grammar R → Nat
  | (_, g) => k.depth g

end

mutual

/-- Whether a grammar repeats only what reads something, and whether nothing behind something that
was read goes deeper than `most` before it reads something itself. -/
def fits (k : Ranking R) (most : Nat) : Grammar R → Bool
  | empty | token _ _ | glued _ _ | gap | check _ | rule _ => true
  | seq a b => k.fits most a && k.fits most b && k.depth b ≤ most
  | alt a b => k.fits most a && k.fits most b
  | many a => k.fits most a && k.consumes a && k.depth a < most
  | node _ a | field _ a | absent a | reshape _ a => k.fits most a
  | grow a _ ways =>
    k.fits most a && k.consumes a && k.fitsWays most ways && k.depthOfWays ways < most
  | extend _ _ ways => k.fitsWays most ways && k.depthOfWays ways < most

/-- The same for ways to go on, each of which has to read something. -/
def fitsWays (k : Ranking R) (most : Nat) : List (Continuation × Grammar R) → Bool
  | [] => true
  | way :: ways => k.fitsWay most way && k.fitsWays most ways

/-- The same for one way to go on. -/
def fitsWay (k : Ranking R) (most : Nat) : Continuation × Grammar R → Bool
  | (_, g) => k.fits most g && k.consumes g

end

end Ranking

mutual

/-- Whether no token that a grammar reads, or looks out for, is empty. -/
def Eating : Grammar R → Prop
  | empty | gap | check _ | rule _ => True
  | token _ scan | glued _ scan => Eats scan
  | seq a b | alt a b => Eating a ∧ Eating b
  | many a | node _ a | field _ a | absent a | reshape _ a => Eating a
  | grow a _ ways => Eating a ∧ EatingWays ways
  | extend _ _ ways => EatingWays ways

/-- The same for ways to go on. -/
def EatingWays : List (Continuation × Grammar R) → Prop
  | [] => True
  | way :: ways => EatingWay way ∧ EatingWays ways

/-- The same for one way to go on. -/
def EatingWay : Continuation × Grammar R → Prop
  | (_, g) => Eating g

end

theorem EatingWays.of_mem {c : Continuation} {g : Grammar R} :
    ∀ {ways : List (Continuation × Grammar R)}, EatingWays ways → (c, g) ∈ ways → Eating g
  | [], _, hmem => by simp at hmem
  | way :: ways, h, hmem => by
    rw [EatingWays] at h
    rcases List.mem_cons.1 hmem with rfl | hmem
    · simpa only [EatingWay] using h.1
    · exact h.2.of_mem hmem

/-- A ranking is right for the rules of a grammar. -/
structure Ranking.Right (k : Ranking R) (most : Nat) (rules : R → Grammar R) : Prop where
  eats (r) : k.eats r = true → k.consumes (rules r) = true
  height (r) : k.depth (rules r) ≤ k.height r
  fits (r) : k.fits most (rules r) = true
  eating (r) : Eating (rules r)

variable {lex : Lexicon} {rules : R → Grammar R} {k : Ranking R} {most : Nat}

/-! ## Reading takes text away -/

theorem readGlued_rest {kind : Kind} {scan : Scan} {s rest : List Char} {ts : List Tree}
    (h : readGlued kind scan s = some (ts, rest)) : ∃ n, scan s = some n ∧ rest = s.drop n := by
  unfold readGlued at h
  split at h
  · rename_i n hn
    cases h
    exact ⟨n, hn, rfl⟩
  · cases h

theorem readToken_rest {kind : Kind} {scan : Scan} {s rest : List Char} {ts : List Tree}
    (h : readToken lex kind scan s = some (ts, rest)) :
    ∃ m n, scan (s.drop m) = some n ∧ rest = (s.drop m).drop n := by
  simp only [readToken] at h
  split at h
  · rename_i n hn
    cases h
    exact ⟨_, n, hn, rfl⟩
  · cases h

/-- What is left behind a reading is an end of the text. -/
theorem Reads.isSuffix {g : Grammar R} {s rest : List Char} {ts : List Tree}
    (h : Reads lex rules g s ts rest) : rest <:+ s := by
  induction h with
  | empty | check | manyNil | absent | stay => exact List.suffix_rfl
  | token h =>
    obtain ⟨m, n, -, rfl⟩ := readToken_rest h
    exact (List.drop_suffix _ _).trans (List.drop_suffix _ _)
  | glued h =>
    obtain ⟨n, -, rfl⟩ := readGlued_rest h
    exact List.drop_suffix _ _
  | gap => exact List.drop_suffix _ _
  | rule _ ih | altLeft _ ih | altRight _ ih | node _ ih | field _ _ ih | reshape _ _ ih => exact ih
  | seq _ _ iha ihb | manyCons _ _ iha ihb | grow _ _ iha ihb => exact ihb.trans iha
  | goOn _ _ _ _ ihg ihe => exact ihe.trans ihg

theorem Reads.length_le {g : Grammar R} {s rest : List Char} {ts : List Tree}
    (h : Reads lex rules g s ts rest) : rest.length ≤ s.length :=
  h.isSuffix.length_le

theorem Eats.length_drop_lt {scan : Scan} (h : Eats scan) {s : List Char} {n : Nat}
    (hn : scan s = some n) : (s.drop n).length < s.length := by
  obtain ⟨hpos, hs⟩ := h s n hn
  have := List.length_pos_iff.2 hs
  rw [List.length_drop]
  omega

/-- **A grammar that has to take something does**, so the text that is left is shorter. -/
theorem Reads.length_lt (hk : k.Right most rules) {g : Grammar R} {s rest : List Char}
    {ts : List Tree} (h : Reads lex rules g s ts rest) (hg : Eating g)
    (hc : k.consumes g = true) : rest.length < s.length := by
  induction h with
  | empty | gap | check | manyNil | manyCons | absent | stay | goOn =>
    simp [Ranking.consumes] at hc
  | token h =>
    obtain ⟨m, n, hn, rfl⟩ := readToken_rest h
    have := Eats.length_drop_lt (by simpa only [Eating] using hg) hn
    simp only [List.length_drop] at this ⊢
    omega
  | glued h =>
    obtain ⟨n, hn, rfl⟩ := readGlued_rest h
    exact Eats.length_drop_lt (by simpa only [Eating] using hg) hn
  | rule h ih => exact ih (hk.eating _) (hk.eats _ hc)
  | seq ha hb iha ihb =>
    rw [Ranking.consumes, Bool.or_eq_true] at hc
    rcases hc with hc | hc
    · exact Nat.lt_of_le_of_lt hb.length_le (iha hg.1 hc)
    · exact Nat.lt_of_lt_of_le (ihb hg.2 hc) ha.length_le
  | altLeft h ih =>
    rw [Ranking.consumes, Bool.and_eq_true] at hc
    exact ih hg.1 hc.1
  | altRight h ih =>
    rw [Ranking.consumes, Bool.and_eq_true] at hc
    exact ih hg.2 hc.2
  | node h ih | field h _ ih | reshape h _ ih =>
    exact ih hg hc
  | grow hb he ihb =>
    exact Nat.lt_of_le_of_lt he.length_le (ihb hg.1 hc)

/-! ## Any sufficient depth gives the same answer -/

/-- A depth that suffices for reading a text by a grammar. -/
def Ranking.enough (k : Ranking R) (most : Nat) (g : Grammar R) (s : List Char) : Nat :=
  most * s.length + k.depth g

theorem Ranking.depth_pos (k : Ranking R) (g : Grammar R) : 0 < k.depth g := by
  cases g <;> simp [Ranking.depth]

theorem Ranking.depth_le_depthOfWays {c : Continuation} {g : Grammar R} :
    ∀ {ways : List (Continuation × Grammar R)}, (c, g) ∈ ways → k.depth g ≤ k.depthOfWays ways
  | [], h => by simp at h
  | way :: ways, h => by
    rw [Ranking.depthOfWays]
    rcases List.mem_cons.1 h with rfl | h
    · rw [Ranking.depthOfWay]
      exact Nat.le_max_left _ _
    · exact Nat.le_trans (depth_le_depthOfWays h) (Nat.le_max_right _ _)

theorem Ranking.fits_of_mem {c : Continuation} {g : Grammar R} :
    ∀ {ways : List (Continuation × Grammar R)}, k.fitsWays most ways = true → (c, g) ∈ ways →
      k.fits most g = true ∧ k.consumes g = true
  | [], _, h => by simp at h
  | way :: ways, hfits, h => by
    rw [Ranking.fitsWays, Bool.and_eq_true] at hfits
    rcases List.mem_cons.1 h with rfl | h
    · simpa [Ranking.fitsWay] using hfits.1
    · exact fits_of_mem hfits.2 h

theorem firstWay_congr {read read' : Grammar R → List Char → Reading} {body : List Tree}
    {s : List Char} : ∀ {ways : List (Continuation × Grammar R)},
      (∀ c g, (c, g) ∈ ways → read g s = read' g s) →
        firstWay read body s ways = firstWay read' body s ways
  | [], _ => by rw [firstWay, firstWay]
  | (c, g) :: ways, h => by
    have ih : firstWay read body s ways = firstWay read' body s ways :=
      firstWay_congr fun c' g' hmem => h c' g' (List.mem_cons_of_mem _ hmem)
    rw [firstWay, firstWay, h c g List.mem_cons_self, ih]

/-- A shorter text leaves enough depth for every construct that may start there. -/
theorem enough_le_of_lt {n m d depth : Nat} (hlt : n < m) (hdepth : depth ≤ most)
    (hd : most * m < d + 1) : most * n + depth ≤ d := by
  have : most * n + most ≤ most * m := by
    exact Nat.mul_le_mul_left _ hlt
  omega

/-- **Any two sufficient depths give the same answer.** -/
theorem Ranking.Right.run_eq (hk : k.Right most rules) {g : Grammar R} {s : List Char} {d d' : Nat}
    (hfits : k.fits most g = true) (heat : Eating g) (hd : k.enough most g s ≤ d)
    (hd' : k.enough most g s ≤ d') : run lex rules d g s = run lex rules d' g s := by
  induction d generalizing g s d' with
  | zero =>
    have := k.depth_pos g
    simp only [Ranking.enough] at hd
    omega
  | succ d ih =>
    have hpos := k.depth_pos g
    obtain _ | d' := d'
    · simp only [Ranking.enough] at hd'
      omega
    simp only [Ranking.enough] at hd hd' ih
    cases g with
    | empty | token | glued | gap | check => rfl
    | rule r =>
      rw [Ranking.depth] at hd hd'
      have := hk.height r
      simpa only [run] using ih (hk.fits r) (hk.eating r) (by omega) (by omega)
    | seq a b =>
      simp only [Ranking.fits, Bool.and_eq_true, decide_eq_true_eq] at hfits
      rw [Ranking.depth] at hd hd'
      have ha : run lex rules d a s = run lex rules d' a s :=
        ih hfits.1.1 heat.1 (by omega) (by omega)
      simp only [run, ← ha]
      cases hread : run lex rules d a s with
      | none => rfl
      | some r =>
        obtain ⟨ts, rest⟩ := r
        have hreads := reads_of_run hread
        have hb : run lex rules d b rest = run lex rules d' b rest := by
          by_cases hc : k.consumes a = true
          · have hlt := hreads.length_lt hk heat.1 hc
            exact ih hfits.1.2 heat.2 (enough_le_of_lt hlt hfits.2 (by omega))
              (enough_le_of_lt hlt hfits.2 (by omega))
          · have hle := Nat.mul_le_mul_left most hreads.length_le
            rw [if_neg hc] at hd hd'
            exact ih hfits.1.2 heat.2 (by omega) (by omega)
        simp only [hb]
    | alt a b =>
      simp only [Ranking.fits, Bool.and_eq_true] at hfits
      rw [Ranking.depth] at hd hd'
      have ha : run lex rules d a s = run lex rules d' a s :=
        ih hfits.1 heat.1 (by omega) (by omega)
      have hb : run lex rules d b s = run lex rules d' b s :=
        ih hfits.2 heat.2 (by omega) (by omega)
      simp only [run, ha, hb]
    | many a =>
      have hmany := heat
      have hfitsMany := hfits
      simp only [Ranking.fits, Bool.and_eq_true, decide_eq_true_eq] at hfits
      rw [Ranking.depth] at hd hd'
      have ha : run lex rules d a s = run lex rules d' a s :=
        ih hfits.1.1 heat (by omega) (by omega)
      simp only [run, ← ha]
      cases hread : run lex rules d a s with
      | none => rfl
      | some r =>
        obtain ⟨ts, rest⟩ := r
        have hlt := (reads_of_run hread).length_lt hk heat hfits.1.2
        have hb : run lex rules d (many a) rest = run lex rules d' (many a) rest :=
          ih hfitsMany hmany
            (enough_le_of_lt hlt (by rw [Ranking.depth]; omega) (by omega))
            (enough_le_of_lt hlt (by rw [Ranking.depth]; omega) (by omega))
        simp only [hb]
    | node kind a | field role a | absent a | reshape form a =>
      rw [Ranking.depth] at hd hd'
      have ha : run lex rules d a s = run lex rules d' a s :=
        ih hfits heat (by omega) (by omega)
      simp only [run, ha]
    | grow base again ways =>
      simp only [Ranking.fits, Bool.and_eq_true, decide_eq_true_eq] at hfits
      rw [Ranking.depth] at hd hd'
      have ha : run lex rules d base s = run lex rules d' base s :=
        ih hfits.1.1.1 heat.1 (by omega) (by omega)
      simp only [run, ← ha]
      cases hread : run lex rules d base s with
      | none => rfl
      | some r =>
        obtain ⟨ts, rest⟩ := r
        have hlt := (reads_of_run hread).length_lt hk heat.1 hfits.1.1.2
        have hb : run lex rules d (extend (splitTrivia ts).2 again ways) rest =
            run lex rules d' (extend (splitTrivia ts).2 again ways) rest :=
          ih (by simp [Ranking.fits, hfits.1.2, hfits.2]) (by simpa only [Eating] using heat.2)
            (enough_le_of_lt hlt (by rw [Ranking.depth]; omega) (by omega))
            (enough_le_of_lt hlt (by rw [Ranking.depth]; omega) (by omega))
        simp only [hb]
    | extend body again ways =>
      simp only [Ranking.fits, Bool.and_eq_true, decide_eq_true_eq] at hfits
      rw [Ranking.depth] at hd hd'
      have hways : firstWay (run lex rules d) body s ways =
          firstWay (run lex rules d') body s ways :=
        firstWay_congr fun c g hmem => by
          have := k.depth_le_depthOfWays hmem
          exact ih (k.fits_of_mem hfits.1 hmem).1 (heat.of_mem hmem) (by omega) (by omega)
      simp only [run, ← hways]
      cases hread : firstWay (run lex rules d) body s ways with
      | none => rfl
      | some r =>
        obtain ⟨ts, rest⟩ := r
        obtain ⟨c, g, start, more, hmem, -, hg, -⟩ := firstWay_eq_some hread
        have hlt := (reads_of_run hg).length_lt hk (heat.of_mem hmem)
          (k.fits_of_mem hfits.1 hmem).2
        have hb : run lex rules d (extend ts again ways) rest =
            run lex rules d' (extend ts again ways) rest :=
          ih (by simp [Ranking.fits, hfits.1, hfits.2]) (by simpa only [Eating] using heat)
            (enough_le_of_lt hlt (by rw [Ranking.depth]; omega) (by omega))
            (enough_le_of_lt hlt (by rw [Ranking.depth]; omega) (by omega))
        simp only [hb]

end Grammar

/-! ## The rules of the language -/

section Rules

open Grammar

/-- Which rules of the language always read something, and how deep they go before they do. -/
def ranking : Ranking Rule where
  eats
    | .program | .semicolon | .decorators => false
    | _ => true
  height
    | .program => 107
    | .statement => 103
    | .expressionStatement | .arrowBody => 76
    | .expressions => 73
    | .expression => 71
    | .element => 69
    | .ternary => 68
    | .coalesce => 66
    | .disjunction => 64
    | .conjunction => 62
    | .bitOr => 60
    | .bitXor => 58
    | .bitAnd => 56
    | .equality => 54
    | .relation => 52
    | .shift => 50
    | .sum => 48
    | .product => 46
    | .power => 44
    | .unary => 42
    | .parameter => 39
    | .forHeader => 38
    | .bindingTarget => 36
    | .operand => 35
    | .chain => 33
    | .primary => 27
    | .classMember => 21
    | .member => 20
    | .method => 16
    | .jsxChild => 11
    | .declarator => 10
    | .propertyName => 8
    | .jsx | .jsxAttribute => 7
    | .functionRest | .classRest | .importClause | .decorators => 6
    | .bindingPattern => 5
    | .parameters | .string | .jsxName => 4
    | _ => 3

open Rules Lexis in
theorem eating_rules (r : Rule) : Eating (rules r) := by
  cases r <;>
    simp [rules, Eating, EatingWays, EatingWay, seqs, alts, opt, ahead, Rules.mark, markBut, word,
      Rules.identifier, memberName, Rules.privateName, valueWord, Rules.dashedName, shorthand,
      compoundAssignment, unfinished, commaList, commaList1, Rules.sequence, binaryWay, leftLevel,
      optionalDot, property, index, goesOn, accessWays, callWays, Rules.star, function, functions,
      modifier, declaredName, shorthandWithDefault, withDefault, mayOpenObject, noBrace, fromObject,
      condition, simple, declaration, declarations, declares, notDeclared, exportName, fromModule,
      nameList, guarded, closeAngle, namespaced, eats_name, eats_keyword, eats_mark,
      eats_privateName, eats_dashedName, eats_runOf, eats_stringFragment, eats_number,
      eats_escapeSequence, eats_templateFragment, eats_regexPattern, eats_jsxText,
      eats_characterReference, eats_attributeString, eats_markupComment, eats_hashBang]

/-- The ranking of the rules is right: a rule that takes nothing first refers to lower ones only. -/
theorem ranking_right : ranking.Right 256 rules where
  eats r := by cases r <;> decide
  height r := by cases r <;> decide
  fits r := by cases r <;> decide
  eating := eating_rules

end Rules

namespace Grammar

/-! ## Answers at every large depth -/

section Gives

variable {R : Type} {lex : Lexicon} {rules : R → Grammar R}

/-- `g` answers `r` on the text `s`, at every depth that is large enough. -/
def Gives (lex : Lexicon) (rules : R → Grammar R) (g : Grammar R) (s : List Char) (r : Reading) :
    Prop :=
  ∃ n, ∀ d, n ≤ d → run lex rules d g s = r

variable {a b g : Grammar R} {s rest rest' : List Char} {ts us : List Tree} {r r' : Reading}

/-- A grammar gives one answer. -/
theorem Gives.unique (h : Gives lex rules g s r) (h' : Gives lex rules g s r') : r = r' := by
  obtain ⟨n, hn⟩ := h
  obtain ⟨n', hn'⟩ := h'
  rw [← hn (max n n') (Nat.le_max_left _ _), hn' _ (Nat.le_max_right _ _)]

theorem Gives.of_succ (h : ∃ n, ∀ d, n ≤ d → run lex rules (d + 1) g s = r) :
    Gives lex rules g s r := by
  obtain ⟨n, hn⟩ := h
  refine ⟨n + 1, fun d hd => ?_⟩
  obtain ⟨d, rfl⟩ : ∃ m, d = m + 1 := ⟨d - 1, by omega⟩
  exact hn d (by omega)

/-- One level of depth for one constructor around a grammar. -/
theorem Gives.step {s' : List Char} (h : Gives lex rules a s' r')
    (hstep : ∀ d, run lex rules d a s' = r' → run lex rules (d + 1) g s = r) :
    Gives lex rules g s r := by
  obtain ⟨n, hn⟩ := h
  exact .of_succ ⟨n, fun d hd => hstep d (hn d hd)⟩

/-- The same for a constructor around two grammars. -/
theorem Gives.step₂ {s' : List Char} {t : Reading} (ha : Gives lex rules a s' r')
    (hb : Gives lex rules b rest t) (hstep : ∀ d, run lex rules d a s' = r' →
      run lex rules d b rest = t → run lex rules (d + 1) g s = r) : Gives lex rules g s r := by
  obtain ⟨n, hn⟩ := ha
  obtain ⟨m, hm⟩ := hb
  exact .of_succ ⟨max n m, fun d hd => hstep d (hn d (by omega)) (hm d (by omega))⟩

theorem gives_empty : Gives lex rules .empty s (some ([], s)) :=
  .of_succ ⟨0, fun _ _ => rfl⟩

theorem gives_token (kind : Kind) (scan : Scan) (s : List Char) :
    Gives lex rules (.token kind scan) s (readToken lex kind scan s) :=
  .of_succ ⟨0, fun _ _ => rfl⟩

theorem gives_gap (s : List Char) : Gives lex rules .gap s
    (some (lex.pieces (s.take (lex.gapLength s)), s.drop (lex.gapLength s))) :=
  .of_succ ⟨0, fun _ _ => rfl⟩

theorem gives_check {test : List Char → Bool} (h : test s = true) :
    Gives lex rules (.check test) s (some ([], s)) :=
  .of_succ ⟨0, fun _ _ => by simp only [run, h, if_true]⟩

theorem gives_check_none {test : List Char → Bool} (h : test s = false) :
    Gives lex rules (.check test) s none :=
  .of_succ ⟨0, fun _ _ => by simp only [run, h, Bool.false_eq_true, if_false]⟩

theorem Gives.rule {name : R} (h : Gives lex rules (rules name) s r) :
    Gives lex rules (.rule name) s r :=
  h.step fun d h => by simpa only [run] using h

theorem Gives.of_rule {name : R} (h : Gives lex rules (.rule name) s r) :
    Gives lex rules (rules name) s r := by
  obtain ⟨n, hn⟩ := h
  exact ⟨n, fun d hd => by simpa only [run] using hn (d + 1) (by omega)⟩

theorem Gives.seq (ha : Gives lex rules a s (some (ts, rest)))
    (hb : Gives lex rules b rest (some (us, rest'))) :
    Gives lex rules (.seq a b) s (some (ts ++ us, rest')) :=
  ha.step₂ hb fun d h h' => by simp only [run, h, h']

theorem Gives.seq_none (ha : Gives lex rules a s none) : Gives lex rules (.seq a b) s none :=
  ha.step fun d h => by simp only [run, h]

theorem Gives.seq_second (ha : Gives lex rules a s (some (ts, rest)))
    (hb : Gives lex rules b rest none) : Gives lex rules (.seq a b) s none :=
  ha.step₂ hb fun d h h' => by simp only [run, h, h']

theorem Gives.alt (ha : Gives lex rules a s (some (ts, rest))) :
    Gives lex rules (.alt a b) s (some (ts, rest)) :=
  ha.step fun d h => by simp only [run, h]

theorem Gives.alt_second (ha : Gives lex rules a s none) (hb : Gives lex rules b s r) :
    Gives lex rules (.alt a b) s r :=
  ha.step₂ hb fun d h h' => by simp only [run, h, h']

/-- The first alternative that answers is taken; those in front of it give nothing. -/
theorem gives_alts_of_mem {gs : List (Grammar R)} (n : Nat) (hmem : g ∈ gs.take n)
    (hall : ∀ a ∈ gs.take n, a = g ∨ Gives lex rules a s none)
    (h : Gives lex rules g s (some (ts, rest))) :
    Gives lex rules (alts gs) s (some (ts, rest)) := by
  induction gs generalizing n with
  | nil => simp at hmem
  | cons a gs ih =>
    cases n with
    | zero => cases hmem
    | succ n =>
      rw [List.take_succ_cons, List.forall_mem_cons] at hall
      rw [List.take_succ_cons, List.mem_cons] at hmem
      by_cases heq : a = g
      · subst heq
        cases gs with
        | nil => exact h
        | cons b gs => exact h.alt
      · have hlater := hmem.resolve_left (Ne.symm heq)
        cases gs with
        | nil => simp at hlater
        | cons b gs => exact (hall.1.resolve_left heq).alt_second (ih n hlater hall.2)

/-- The alternative at a place is taken if those in front of it give nothing. -/
theorem gives_alts {gs : List (Grammar R)} (i : Nat) (hi : gs[i]? = some g)
    (hbefore : ∀ a ∈ gs.take i, Gives lex rules a s none)
    (h : Gives lex rules g s (some (ts, rest))) :
    Gives lex rules (alts gs) s (some (ts, rest)) := by
  have htake : gs.take (i + 1) = gs.take i ++ [g] := by rw [List.take_add_one, hi]; rfl
  refine gives_alts_of_mem (i + 1) (by simp [htake]) ?_ h
  rw [htake, List.forall_mem_append]
  exact ⟨fun a ha => .inr (hbefore a ha), by simp⟩

theorem gives_alts_none {gs : List (Grammar R)} (h : ∀ a ∈ gs, Gives lex rules a s none) :
    Gives lex rules (alts gs) s none := by
  induction gs with
  | nil => exact .of_succ ⟨0, fun _ _ => rfl⟩
  | cons a gs ih =>
    rw [List.forall_mem_cons] at h
    cases gs with
    | nil => exact h.1
    | cons b gs => exact h.1.alt_second (ih h.2)

theorem Gives.many_nil (ha : Gives lex rules a s none) :
    Gives lex rules (.many a) s (some ([], s)) :=
  ha.step fun d h => by simp only [run, h]

theorem Gives.many_cons (ha : Gives lex rules a s (some (ts, rest)))
    (hm : Gives lex rules (.many a) rest (some (us, rest'))) :
    Gives lex rules (.many a) s (some (ts ++ us, rest')) :=
  ha.step₂ hm fun d h h' => by simp only [run, h, h']

theorem Gives.node (kind : Kind) (h : Gives lex rules a s (some (ts, rest))) :
    Gives lex rules (.node kind a) s
      (some ((splitTrivia ts).1 ++ [.node kind none (splitTrivia ts).2], rest)) :=
  h.step fun d h => by simp only [run, h]

theorem Gives.node_none (kind : Kind) (h : Gives lex rules a s none) :
    Gives lex rules (.node kind a) s none :=
  h.step fun d h => by simp only [run, h]

theorem Gives.field {role : Role} (h : Gives lex rules a s (some (ts, rest)))
    (hr : giveRole role ts = some us) : Gives lex rules (.field role a) s (some (us, rest)) :=
  h.step fun d h => by simp only [run, h, hr]

theorem Gives.field_none {role : Role} (h : Gives lex rules a s none) :
    Gives lex rules (.field role a) s none :=
  h.step fun d h => by simp only [run, h]

theorem Gives.absent (h : Gives lex rules a s none) :
    Gives lex rules (.absent a) s (some ([], s)) :=
  h.step fun d h => by simp only [run, h]

theorem Gives.absent_none (h : Gives lex rules a s (some (ts, rest))) :
    Gives lex rules (.absent a) s none :=
  h.step fun d h => by simp only [run, h]

theorem Gives.reshape {form : List Tree → Option (List Tree)}
    (h : Gives lex rules a s (some (ts, rest))) (hf : form (splitTrivia ts).2 = some us) :
    Gives lex rules (.reshape form a) s (some ((splitTrivia ts).1 ++ us, rest)) :=
  h.step fun d h => by simp only [run, h, hf]

theorem Gives.reshape_none {form : List Tree → Option (List Tree)} (h : Gives lex rules a s none) :
    Gives lex rules (.reshape form a) s none :=
  h.step fun d h => by simp only [run, h]

theorem Gives.reshape_refused {form : List Tree → Option (List Tree)}
    (h : Gives lex rules a s (some (ts, rest))) (hf : form (splitTrivia ts).2 = none) :
    Gives lex rules (.reshape form a) s none :=
  h.step fun d h => by simp only [run, h, hf]

theorem Gives.grow {base : Grammar R} {again : Bool} {ways : List (Continuation × Grammar R)}
    (hb : Gives lex rules base s (some (ts, rest)))
    (he : Gives lex rules (.extend (splitTrivia ts).2 again ways) rest (some (us, rest'))) :
    Gives lex rules (.grow base again ways) s (some ((splitTrivia ts).1 ++ us, rest')) :=
  hb.step₂ he fun d h h' => by simp only [run, h, h']

theorem Gives.grow_none {base : Grammar R} {again : Bool} {ways : List (Continuation × Grammar R)}
    (hb : Gives lex rules base s none) : Gives lex rules (.grow base again ways) s none :=
  hb.step fun d h => by simp only [run, h]

theorem firstWay_eq_none {read : Grammar R → List Char → Reading} {body : List Tree}
    {s : List Char} : ∀ {ways : List (Continuation × Grammar R)},
      (∀ way ∈ ways, read way.2 s = none) → firstWay read body s ways = none
  | [], _ => rfl
  | (c, g) :: ways, h => by
    have ih : firstWay read body s ways = none :=
      firstWay_eq_none fun way hway => h way (List.mem_cons_of_mem _ hway)
    rw [firstWay, h (c, g) List.mem_cons_self, ih]
    cases c.fit body <;> rfl

theorem gives_stay {body : List Tree} {again : Bool} {ways : List (Continuation × Grammar R)}
    (h : ∀ d, ∀ way ∈ ways, run lex rules d way.2 s = none) :
    Gives lex rules (.extend body again ways) s (some (body, s)) :=
  .of_succ ⟨0, fun d _ => by simp only [run, firstWay_eq_none (h d)]⟩

section GoingOn

variable {body start more : List Tree} {again : Bool} {ways : List (Continuation × Grammar R)}
  {c : Continuation}

/-- The first way to go on whose text is there is found at some depth, and at every greater one. -/
theorem firstWay_of_gives (i : Nat) (hi : ways[i]? = some (c, g))
    (hbefore : ∀ way ∈ ways.take i, Gives lex rules way.2 s none)
    (hfit : c.fit body = some start) (h : Gives lex rules g s (some (more, rest))) :
    ∃ n, ∀ d, n ≤ d → firstWay (run lex rules d) body s ways =
      some ([.node c.kind none (start ++ more)], rest) := by
  induction ways generalizing i with
  | nil => simp at hi
  | cons way ways ih =>
    cases i with
    | zero =>
      obtain rfl : way = (c, g) := by simpa using hi
      obtain ⟨n, hn⟩ := h
      exact ⟨n, fun d hd => by simp only [firstWay, hfit, hn d hd]⟩
    | succ i =>
      rw [List.take_succ_cons, List.forall_mem_cons] at hbefore
      obtain ⟨n, hn⟩ := ih i (by simpa using hi) hbefore.2
      obtain ⟨m, hm⟩ := hbefore.1
      obtain ⟨c', g'⟩ := way
      refine ⟨max n m, fun d hd => ?_⟩
      simp only [firstWay, hm d (by omega), hn d (by omega)]
      cases c'.fit body <;> rfl

/-- An expression goes on with the first way whose text is there, and then goes on from there. -/
theorem gives_goOn (i : Nat) (hi : ways[i]? = some (c, g))
    (hbefore : ∀ way ∈ ways.take i, Gives lex rules way.2 s none)
    (hfit : c.fit body = some start) (h : Gives lex rules g s (some (more, rest)))
    (hnext : Gives lex rules (.extend [.node c.kind none (start ++ more)] true ways) rest
      (some (us, rest'))) :
    Gives lex rules (.extend body true ways) s (some (us, rest')) := by
  obtain ⟨n, hn⟩ := firstWay_of_gives i hi hbefore hfit h
  obtain ⟨m, hm⟩ := hnext
  exact .of_succ ⟨max n m, fun d hd => by
    simp only [run, hn d (by omega), if_true, hm d (by omega)]⟩

theorem gives_goOnOnce (i : Nat) (hi : ways[i]? = some (c, g))
    (hbefore : ∀ way ∈ ways.take i, Gives lex rules way.2 s none)
    (hfit : c.fit body = some start) (h : Gives lex rules g s (some (more, rest))) :
    Gives lex rules (.extend body false ways) s
      (some ([.node c.kind none (start ++ more)], rest)) := by
  obtain ⟨n, hn⟩ := firstWay_of_gives i hi hbefore hfit h
  exact .of_succ ⟨n, fun d hd => by simp only [run, hn d hd, Bool.false_eq_true, if_false]⟩

/-- Where no way to go on has its text, the expression ends. -/
theorem gives_stop (h : ∀ way ∈ ways, Gives lex rules way.2 s none) :
    Gives lex rules (.extend body again ways) s (some (body, s)) := by
  have hnone : ∃ n, ∀ d, n ≤ d → firstWay (run lex rules d) body s ways = none := by
    induction ways with
    | nil => exact ⟨0, fun _ _ => rfl⟩
    | cons way ways ih =>
      rw [List.forall_mem_cons] at h
      obtain ⟨n, hn⟩ := ih h.2
      obtain ⟨m, hm⟩ := h.1
      obtain ⟨c, g⟩ := way
      refine ⟨max n m, fun d hd => ?_⟩
      simp only [firstWay, hm d (by omega), hn d (by omega)]
      cases c.fit body <;> rfl
  obtain ⟨n, hn⟩ := hnone
  exact .of_succ ⟨n, fun d hd => by simp only [run, hn d hd]⟩

end GoingOn

end Gives

theorem Ranking.Right.exists_gives {R : Type} {lex : Lexicon} {rules : R → Grammar R}
    {k : Ranking R} {most : Nat} (hk : k.Right most rules) {g : Grammar R}
    (hfits : k.fits most g = true) (heat : Eating g) (s : List Char) :
    ∃ r, Gives lex rules g s r :=
  ⟨_, k.enough most g s, fun _ hd => hk.run_eq hfits heat hd (Nat.le_refl _)⟩

theorem Ranking.Right.gives_nil {R : Type} {lex : Lexicon} {rules : R → Grammar R}
    {k : Ranking R} {most : Nat} (hk : k.Right most rules) {g : Grammar R} (heat : Eating g)
    (hc : k.consumes g = true) : Gives lex rules g [] none := by
  refine ⟨0, fun d _ => ?_⟩
  cases hrun : run lex rules d g [] with
  | none => rfl
  | some r => exact absurd ((reads_of_run hrun).length_lt hk heat hc) (by simp)

theorem Ranking.Right.run_of_gives {R : Type} {lex : Lexicon} {rules : R → Grammar R}
    {k : Ranking R} {most : Nat} (hk : k.Right most rules) {g : Grammar R} {s : List Char}
    {r : Reading} (hfits : k.fits most g = true) (heat : Eating g) (h : Gives lex rules g s r)
    {d : Nat} (hd : k.enough most g s ≤ d) : run lex rules d g s = r := by
  obtain ⟨n, hn⟩ := h
  rw [← hn (max n d) (Nat.le_max_left _ _)]
  exact hk.run_eq hfits heat hd (Nat.le_trans hd (Nat.le_max_right _ _))

end Grammar

/-- `Answers g s r`: the grammar `g` of scripts answers `r` on the text `s`. -/
abbrev Answers (g : Grammar Rule) (s : List Char) (r : Grammar.Reading) : Prop :=
  Grammar.Gives Lexis.lexicon rules g s r

open Grammar in
/-- **Reading a program is reading it without a bound.** -/
theorem run_program {s : List Char} {r : Reading}
    (h : Answers (.rule .program) s r) :
    run Lexis.lexicon rules (256 * (s.length + 16)) (.rule .program) s = r := by
  refine ranking_right.run_of_gives (by decide) (by simp [Eating]) h ?_
  simp only [Ranking.enough, Ranking.depth, ranking]
  omega

end ReactWeave.Script
