import ReactWeave.Script.Grammar

/-!
# ReactWeave.Proofs.Reading

**What a grammar reads**, as a relation, and how facts about everything that is
read follow from facts about single steps.

`Grammar.run` takes a bound on its depth and orders the alternatives of a
choice. Neither matters for what is true of the trees it gives, so `Reads`
forgets both; `reads_of_run` is the only induction over `run`.

* `Every` says that all tokens, constructs, changes of form and continuations that
  a grammar mentions meet some demands.
* `Invariant` lists what each single step of reading has to keep, given these
  demands, and `Reads.keeps` concludes that whole readings keep it.
-/

namespace ReactWeave.Script

/-- What holds of all characters of a text is decided by going through the text. -/
instance (priority := 2000) decidableForallMem {s : List Char} {p : Char → Prop}
    [DecidablePred p] : Decidable (∀ c ∈ s, p c) :=
  List.decidableBAll p s

namespace Tree

@[simp] theorem text_gap (t : List Char) : (gap t).text = t := by rw [text]

@[simp] theorem text_token (k : Kind) (r : Option Role) (t : List Char) :
    (token k r t).text = t := by rw [text]

@[simp] theorem text_node (k : Kind) (r : Option Role) (ps : List Tree) :
    (node k r ps).text = textOf ps := by rw [text]

@[simp] theorem textOf_nil : textOf [] = [] := by rw [textOf]

@[simp] theorem textOf_cons (t : Tree) (ts : List Tree) :
    textOf (t :: ts) = t.text ++ textOf ts := by rw [textOf]

@[simp] theorem textOf_append (ts us : List Tree) : textOf (ts ++ us) = textOf ts ++ textOf us := by
  induction ts with
  | nil => simp
  | cons t ts ih => simp [ih]

@[simp] theorem text_withRole (r : Role) (t : Tree) : (t.withRole r).text = t.text := by
  cases t <;> simp [withRole]

end Tree

namespace Grammar

variable {R : Type} {lex : Lexicon} {rules : R → Grammar R}

open ReactWeave.Script.Tree (textOf)

/-! ## The relation -/

/-- `Reads lex rules g s ts rest`: at the start of `s`, the grammar `g` can read the trees `ts` and
leave `rest`. -/
inductive Reads (lex : Lexicon) (rules : R → Grammar R) :
    Grammar R → List Char → List Tree → List Char → Prop where
  | empty {s} : Reads lex rules .empty s [] s
  | token {kind scan s ts rest} (h : readToken lex kind scan s = some (ts, rest)) :
      Reads lex rules (.token kind scan) s ts rest
  | glued {kind scan s ts rest} (h : readGlued kind scan s = some (ts, rest)) :
      Reads lex rules (.glued kind scan) s ts rest
  | gap {s} : Reads lex rules .gap s (lex.pieces (s.take (lex.gapLength s)))
      (s.drop (lex.gapLength s))
  | check {test s} (h : test s = true) : Reads lex rules (.check test) s [] s
  | rule {r s ts rest} (h : Reads lex rules (rules r) s ts rest) :
      Reads lex rules (.rule r) s ts rest
  | seq {a b s ts rest us rest'} (ha : Reads lex rules a s ts rest)
      (hb : Reads lex rules b rest us rest') : Reads lex rules (.seq a b) s (ts ++ us) rest'
  | altLeft {a b s ts rest} (h : Reads lex rules a s ts rest) :
      Reads lex rules (.alt a b) s ts rest
  | altRight {a b s ts rest} (h : Reads lex rules b s ts rest) :
      Reads lex rules (.alt a b) s ts rest
  | manyNil {a s} : Reads lex rules (.many a) s [] s
  | manyCons {a s ts rest us rest'} (ha : Reads lex rules a s ts rest)
      (hm : Reads lex rules (.many a) rest us rest') :
      Reads lex rules (.many a) s (ts ++ us) rest'
  | node {kind a s ts rest} (h : Reads lex rules a s ts rest) :
      Reads lex rules (.node kind a) s
        ((splitTrivia ts).1 ++ [.node kind none (splitTrivia ts).2]) rest
  | field {role a s ts us rest} (h : Reads lex rules a s ts rest)
      (hr : giveRole role ts = some us) : Reads lex rules (.field role a) s us rest
  | absent {a s} : Reads lex rules (.absent a) s [] s
  | reshape {form a s ts us rest} (h : Reads lex rules a s ts rest)
      (hf : form (splitTrivia ts).2 = some us) :
      Reads lex rules (.reshape form a) s ((splitTrivia ts).1 ++ us) rest
  | grow {base again ways s ts rest us rest'} (hb : Reads lex rules base s ts rest)
      (he : Reads lex rules (.extend (splitTrivia ts).2 again ways) rest us rest') :
      Reads lex rules (.grow base again ways) s ((splitTrivia ts).1 ++ us) rest'
  | stay {body again ways s} : Reads lex rules (.extend body again ways) s body s
  | goOn {body again ways c g s start more rest us rest'} (hw : (c, g) ∈ ways)
      (hfit : c.fit body = some start) (hg : Reads lex rules g s more rest)
      (he : Reads lex rules (.extend [.node c.kind none (start ++ more)] again ways) rest us
        rest') :
      Reads lex rules (.extend body again ways) s us rest'

/-- The way that is taken is one of those there are, and was read. -/
theorem firstWay_eq_some {read : Grammar R → List Char → Reading} {body : List Tree}
    {s : List Char} {ts : List Tree} {rest : List Char} :
    ∀ {ways : List (Continuation × Grammar R)}, firstWay read body s ways = some (ts, rest) →
      ∃ c g start more, (c, g) ∈ ways ∧ c.fit body = some start ∧ read g s = some (more, rest) ∧
        ts = [.node c.kind none (start ++ more)]
  | [], h => by simp [firstWay] at h
  | (c, g) :: ways, h => by
    have later (h : firstWay read body s ways = some (ts, rest)) :
        ∃ c' g' start more, (c', g') ∈ (c, g) :: ways ∧ c'.fit body = some start ∧
          read g' s = some (more, rest) ∧ ts = [.node c'.kind none (start ++ more)] := by
      obtain ⟨c', g', start, more, hmem, hrest⟩ := firstWay_eq_some h
      exact ⟨c', g', start, more, List.mem_cons_of_mem _ hmem, hrest⟩
    rw [firstWay] at h
    cases hfit : c.fit body with
    | none => exact later (by simpa [hfit] using h)
    | some start =>
      cases hread : read g s with
      | none => exact later (by simpa [hfit, hread] using h)
      | some r =>
        obtain ⟨more, rest'⟩ := r
        simp only [hfit, hread, Option.some.injEq, Prod.mk.injEq] at h
        obtain ⟨rfl, rfl⟩ := h
        exact ⟨c, g, start, more, List.mem_cons_self, hfit, hread, rfl⟩

/-- **What a run gives was read**: every answer has a derivation. -/
theorem reads_of_run {depth : Nat} {g : Grammar R} {s : List Char} {ts : List Tree}
    {rest : List Char} (h : run lex rules depth g s = some (ts, rest)) :
    Reads lex rules g s ts rest := by
  induction depth generalizing g s ts rest with
  | zero => simp [run] at h
  | succ depth ih =>
    cases g with
    | empty =>
      simp only [run, Option.some.injEq, Prod.mk.injEq] at h
      obtain ⟨rfl, rfl⟩ := h
      exact .empty
    | token kind scan => exact .token (by simpa only [run] using h)
    | glued kind scan => exact .glued (by simpa only [run] using h)
    | gap =>
      simp only [run, Option.some.injEq, Prod.mk.injEq] at h
      obtain ⟨rfl, rfl⟩ := h
      exact .gap
    | check test =>
      simp only [run] at h
      split at h
      · rename_i hs
        cases h
        exact .check hs
      · simp at h
    | rule r => exact .rule (ih (by simpa only [run] using h))
    | seq a b =>
      simp only [run] at h
      split at h
      · simp at h
      · rename_i ha
        split at h
        · simp at h
        · rename_i hb
          cases h
          exact .seq (ih ha) (ih hb)
    | alt a b =>
      simp only [run] at h
      split at h
      · rename_i ha
        exact .altLeft (ih (ha.trans h))
      · exact .altRight (ih h)
    | many a =>
      simp only [run] at h
      split at h
      · cases h
        exact .manyNil
      · rename_i ha
        split at h
        · simp at h
        · rename_i hm
          cases h
          exact .manyCons (ih ha) (ih hm)
    | node kind a =>
      simp only [run] at h
      split at h
      · simp at h
      · rename_i ha
        cases h
        exact .node (ih ha)
    | field role a =>
      simp only [run] at h
      split at h
      · simp at h
      · rename_i ha
        split at h
        · simp at h
        · rename_i hr
          cases h
          exact .field (ih ha) hr
    | absent a =>
      simp only [run] at h
      split at h
      · cases h
        exact .absent
      · simp at h
    | reshape form a =>
      simp only [run] at h
      split at h
      · simp at h
      · rename_i ha
        split at h
        · simp at h
        · rename_i hf
          cases h
          exact .reshape (ih ha) hf
    | grow base again ways =>
      simp only [run] at h
      split at h
      · simp at h
      · rename_i hb
        split at h
        · simp at h
        · rename_i he
          cases h
          exact .grow (ih hb) (ih he)
    | extend body again ways =>
      simp only [run] at h
      split at h
      · cases h
        exact .stay
      · rename_i hway
        obtain ⟨c, g, start, more, hmem, hfit, hread, rfl⟩ := firstWay_eq_some hway
        split at h
        · exact .goOn hmem hfit (ih hread) (ih h)
        · cases h
          exact .goOn hmem hfit (ih hread) .stay

/-! ## Grammars that meet demands -/

/-- What is demanded of the things a grammar mentions. -/
structure Demands (R : Type) where
  /-- Of the kind of a token and what recognises it. -/
  token : Kind → Scan → Prop
  /-- Of the kind of a construct and what it is made of. -/
  node : Kind → Grammar R → Prop
  /-- Of a change of form. -/
  form : (List Tree → Option (List Tree)) → Prop
  /-- Of a continuation and what it reads. -/
  way : Continuation → Grammar R → Prop

mutual

/-- Whether everything that a grammar mentions meets the demands. Trees that were read already are
no part of a grammar that is written down. -/
def Every (d : Demands R) : Grammar R → Prop
  | empty | gap | check _ | rule _ | absent _ => True
  | token kind scan | glued kind scan => d.token kind scan
  | seq a b | alt a b => Every d a ∧ Every d b
  | many a | field _ a => Every d a
  | node kind a => d.node kind a ∧ Every d a
  | reshape form a => d.form form ∧ Every d a
  | grow base _ ways => Every d base ∧ EveryWay d ways
  | extend _ _ _ => False

/-- The same for ways to go on. -/
def EveryWay (d : Demands R) : List (Continuation × Grammar R) → Prop
  | [] => True
  | way :: ways => EveryOne d way ∧ EveryWay d ways

/-- The same for one way to go on. -/
def EveryOne (d : Demands R) : Continuation × Grammar R → Prop
  | (c, g) => d.way c g ∧ Every d g

end

theorem EveryWay.of_mem {d : Demands R} {c : Continuation} {g : Grammar R} :
    ∀ {ways : List (Continuation × Grammar R)}, EveryWay d ways → (c, g) ∈ ways →
      d.way c g ∧ Every d g
  | [], _, h => by simp at h
  | way :: ways, hd, h => by
    rw [EveryWay] at hd
    rcases List.mem_cons.1 h with rfl | h
    · simpa only [EveryOne] using hd.1
    · exact EveryWay.of_mem hd.2 h

/-! ## Invariants -/

/-- `keep s ts rest` is kept by every step of reading the trees `ts` between `s` and `rest`, by a
grammar that meets the demands `d`. -/
structure Invariant (lex : Lexicon) (rules : R → Grammar R) (d : Demands R)
    (keep : List Char → List Tree → List Char → Prop) : Prop where
  nil (s) : keep s [] s
  append {s ts rest us rest'} : keep s ts rest → keep rest us rest' → keep s (ts ++ us) rest'
  gap (s) : keep s (lex.pieces (s.take (lex.gapLength s))) (s.drop (lex.gapLength s))
  token {kind} {scan : Scan} {s n} : d.token kind scan → scan s = some n →
    keep s [.token kind none (s.take n)] (s.drop n)
  node {kind a s ts rest} : d.node kind a → Reads lex rules a s ts rest → keep s ts rest →
    keep s ((splitTrivia ts).1 ++ [.node kind none (splitTrivia ts).2]) rest
  field {role s ts us rest} : keep s ts rest → giveRole role ts = some us → keep s us rest
  form {form s ts us rest} : d.form form → keep s ts rest → form (splitTrivia ts).2 = some us →
    keep s ((splitTrivia ts).1 ++ us) rest
  way {c g s lead body mid start more rest} : d.way c g → keep s (lead ++ body) mid →
    c.fit body = some start → Reads lex rules g mid more rest → keep mid more rest →
    keep s (lead ++ [.node c.kind none (start ++ more)]) rest

theorem splitTrivia_append (ts : List Tree) : (splitTrivia ts).1 ++ (splitTrivia ts).2 = ts :=
  List.takeWhile_append_dropWhile

/-- A gap is split off in front of the first part. -/
theorem splitTrivia_part {lead : List Tree} {t : Tree} (hlead : ∀ p ∈ lead, p.isTrivia = true)
    (ht : t.isTrivia = false) (ts : List Tree) :
    splitTrivia (lead ++ t :: ts) = (lead, t :: ts) := by
  simp [splitTrivia, List.takeWhile_append_of_pos hlead, List.dropWhile_append_of_pos hlead, ht]

variable {d : Demands R} {keep : List Char → List Tree → List Char → Prop}

theorem Invariant.readGlued (inv : Invariant lex rules d keep) {kind : Kind} {scan : Scan}
    {s rest : List Char} {ts : List Tree} (hd : d.token kind scan)
    (h : readGlued kind scan s = some (ts, rest)) : keep s ts rest := by
  unfold Grammar.readGlued at h
  split at h
  · rename_i n hn
    cases h
    exact inv.token hd hn
  · simp at h

theorem Invariant.readToken (inv : Invariant lex rules d keep) {kind : Kind} {scan : Scan}
    {s rest : List Char} {ts : List Tree} (hd : d.token kind scan)
    (h : readToken lex kind scan s = some (ts, rest)) : keep s ts rest := by
  simp only [Grammar.readToken] at h
  split at h
  · rename_i n hn
    cases h
    exact inv.append (inv.gap s) (inv.token hd hn)
  · simp at h

/-- **What every step keeps, reading keeps.** -/
theorem Reads.keeps (inv : Invariant lex rules d keep) (hrules : ∀ r, Every d (rules r))
    {g : Grammar R} {s rest : List Char} {ts : List Tree} (h : Reads lex rules g s ts rest)
    (hg : Every d g) : keep s ts rest := by
  -- Trees that were read already are what a growing construct is at some point; for them the
  -- induction says that what was kept up to them is kept by what they grow into.
  have main : (Every d g → keep s ts rest) ∧
      ∀ body again ways, g = .extend body again ways → EveryWay d ways →
        ∀ s₀ lead, keep s₀ (lead ++ body) s → keep s₀ (lead ++ ts) rest := by
    clear hg
    induction h with
    | empty => exact ⟨fun _ => inv.nil _, by simp⟩
    | token h =>
      refine ⟨fun hd => ?_, by simp⟩
      rw [Every] at hd
      exact inv.readToken hd h
    | glued h =>
      refine ⟨fun hd => ?_, by simp⟩
      rw [Every] at hd
      exact inv.readGlued hd h
    | gap => exact ⟨fun _ => inv.gap _, by simp⟩
    | check h => exact ⟨fun _ => inv.nil _, by simp⟩
    | rule h ih => exact ⟨fun _ => ih.1 (hrules _), by simp⟩
    | seq ha hb iha ihb =>
      refine ⟨fun hd => ?_, by simp⟩
      rw [Every] at hd
      exact inv.append (iha.1 hd.1) (ihb.1 hd.2)
    | altLeft h ih =>
      refine ⟨fun hd => ?_, by simp⟩
      rw [Every] at hd
      exact ih.1 hd.1
    | altRight h ih =>
      refine ⟨fun hd => ?_, by simp⟩
      rw [Every] at hd
      exact ih.1 hd.2
    | manyNil => exact ⟨fun _ => inv.nil _, by simp⟩
    | manyCons ha hm iha ihm =>
      refine ⟨fun hd => ?_, by simp⟩
      exact inv.append (iha.1 (by simpa only [Every] using hd)) (ihm.1 hd)
    | node h ih =>
      refine ⟨fun hd => ?_, by simp⟩
      rw [Every] at hd
      exact inv.node hd.1 h (ih.1 hd.2)
    | field h hr ih =>
      refine ⟨fun hd => ?_, by simp⟩
      rw [Every] at hd
      exact inv.field (ih.1 hd) hr
    | absent => exact ⟨fun _ => inv.nil _, by simp⟩
    | reshape h hf ih =>
      refine ⟨fun hd => ?_, by simp⟩
      rw [Every] at hd
      exact inv.form hd.1 (ih.1 hd.2) hf
    | grow hb he ihb ihe =>
      refine ⟨fun hd => ?_, by simp⟩
      rw [Every] at hd
      refine ihe.2 _ _ _ rfl hd.2 _ _ ?_
      rw [splitTrivia_append]
      exact ihb.1 hd.1
    | stay =>
      refine ⟨fun hd => by simp [Every] at hd, ?_⟩
      rintro body again ways heq - s₀ lead hk
      cases heq
      exact hk
    | goOn hw hfit hg he ihg ihe =>
      refine ⟨fun hd => by simp [Every] at hd, ?_⟩
      rintro body again ways heq hways s₀ lead hk
      cases heq
      obtain ⟨hway, hevery⟩ := hways.of_mem hw
      exact ihe.2 _ _ _ rfl hways _ _ (inv.way hway hk hfit hg (ihg.1 hevery))
  exact main.1 hg

end Grammar

end ReactWeave.Script
