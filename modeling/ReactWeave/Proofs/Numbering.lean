import Mathlib.Data.List.Nodup
import ReactWeave.Proofs.Stages

/-!
# ReactWeave.Proofs.Numbering

**Names that are numbered** while the heads of a tree are passed over.

A collector goes through the heads parents first and gives a name to every styled
one. The first name of a base is the base itself, and the later ones are numbered
from two on.

* `Style.dashed_inj` and `Style.ofName_nth` say when such names are the same, and
  when they are those of control nodes.
-/

namespace ReactWeave

/-! ## Passes over lists of heads -/

section Lists

variable {σ : Type} {f : σ → Head → Progress (σ × Head)}

/-- A pass over a list of heads: what it leaves behind, and the new heads. -/
def passList (f : σ → Head → Progress (σ × Head)) (s : σ) :
    List Head → Outcome (σ × List Head)
  | [] => .ok (s, [])
  | h :: hs => (f s h).toOutcome >>= fun r =>
    (passList f r.1 hs).map fun r' => (r'.1, r.2 :: r'.2)

theorem passList_cons_done {s s' : σ} {h h' : Head} (hstep : f s h = .done (s', h'))
    (hs : List Head) :
    passList f s (h :: hs) = (passList f s' hs).map fun r => (r.1, h' :: r.2) := by
  rw [passList, hstep]
  rfl

/-- A pass over two lists goes on where it was. -/
theorem passList_append (s : σ) (hs ks : List Head) :
    passList f s (hs ++ ks) = passList f s hs >>= fun r =>
      (passList f r.1 ks).map fun r' => (r'.1, r.2 ++ r'.2) := by
  induction hs generalizing s with
  | nil =>
    simp only [List.nil_append, passList, ok_bind]
    cases passList f s ks <;> rfl
  | cons h hs ih =>
    rw [List.cons_append, passList, passList]
    cases (f s h).toOutcome with
    | error e => rfl
    | ok r =>
      simp only [ok_bind, ih]
      cases passList f r.1 hs with
      | error e => rfl
      | ok r' =>
        simp only [ok_bind, Except.map]
        cases passList f r'.1 ks <;> rfl

theorem Progress.exists_of_isNone {α β : Type} {p : Progress (α × β)} {P : α → β → Prop}
    (h : p.failure.isNone = true) (hp : P p.value.1 p.value.2) :
    ∃ a b, p.toOutcome = .ok (a, b) ∧ P a b :=
  ⟨_, _, toOutcome_eq_ok.2 ⟨Option.isNone_iff_eq_none.1 h, rfl⟩, hp⟩

namespace Node

mutual

theorem pass_heads : ∀ (n : Node) (s : σ),
    (n.pass f s).toOutcome.map (fun r => (r.1, r.2.heads)) = passList f s n.heads
  | ⟨head, children⟩, s => by
    rw [heads, passList, pass]
    cases hfirst : (f s head).failure with
    | some e => rw [Progress.toOutcome_of_failure hfirst, error_bind]; rfl
    | none =>
      rw [Progress.toOutcome_eq_ok.2 ⟨hfirst, rfl⟩, ok_bind, ← passAll_heads children]
      simp only [Progress.toOutcome_map]
      cases (passAll f (f s head).value.1 children).toOutcome with
      | error e => rfl
      | ok r => simp only [Except.map, heads]

/-- A pass over trees is one over their nodes in order. -/
theorem passAll_heads : ∀ (ns : List Node) (s : σ),
    (passAll f s ns).toOutcome.map (fun r => (r.1, headsOf r.2)) = passList f s (headsOf ns)
  | [], s => by
    rw [headsOf, passList, passAll]
    rfl
  | n :: ns, s => by
    rw [headsOf, passList_append, ← pass_heads n, passAll]
    cases hfirst : (n.pass f s).failure with
    | some e => rw [Progress.toOutcome_of_failure hfirst]; rfl
    | none =>
      rw [Progress.toOutcome_eq_ok.2 ⟨hfirst, rfl⟩]
      simp only [Progress.toOutcome_map, Except.map, ok_bind]
      rw [← passAll_heads ns]
      cases (passAll f (n.pass f s).value.1 ns).toOutcome with
      | error e => rfl
      | ok r => simp only [Except.map, headsOf]

end

end Node

/-- **A pass over a component is a pass over the list of its heads.** -/
theorem Component.passHeads_heads (c : Component) (s : σ) :
    (c.passHeads f s).toOutcome.map (fun r => (r.1, r.2.heads)) = passList f s c.heads := by
  rw [Component.heads, ← Node.passAll_heads, Component.passHeads, Progress.toOutcome_map]
  cases (Node.passAll f s c.children).toOutcome <;> rfl

end Lists

namespace Style

/-! ## Ranks -/

/-- The name for a base that comes up for the `n`-th time. -/
def nth (separator base : String) (n : Nat) : String :=
  if n = 1 then base else base ++ separator ++ toString n

theorem next_eq_nth (counts : Counts) (base separator : String) :
    counts.next base separator = nth separator base (counts.get base + 1) := rfl

theorem nth_one (separator base : String) : nth separator base 1 = base := rfl

theorem nth_of_ne (separator base : String) {n : Nat} (h : n ≠ 1) :
    nth separator base n = base ++ separator ++ toString n := if_neg h

/-- Giving out a name raises its own count by one. -/
theorem Counts.get_add (counts : Counts) (b b' : String) :
    (counts.add b).get b' = counts.get b' + if b = b' then 1 else 0 := by
  induction counts with
  | nil => simp [add, get]
  | cons entry counts ih =>
    obtain ⟨name, n⟩ := entry
    rw [add]
    by_cases hname : name = b
    · subst hname
      by_cases hb : name = b' <;> simp [get, hb]
    · rw [if_neg hname, get, get, ih]
      by_cases hb : name = b'
      · have hne : b ≠ b' := fun heq => hname (hb.trans heq.symm)
        simp [hb, hne]
      · simp [hb]

/-- Each base with its rank among its equals; `counts` says how often they came up before. -/
def ranked (counts : Counts) : List String → List (String × Nat)
  | [] => []
  | b :: bs => (b, counts.get b + 1) :: ranked (counts.add b) bs

/-- The names for bases, if `counts` names were given out before. -/
def numbered (separator : String) (counts : Counts) (bases : List String) : List String :=
  (ranked counts bases).map fun p => nth separator p.1 p.2

theorem numbered_cons (separator : String) (counts : Counts) (b : String) (bs : List String) :
    numbered separator counts (b :: bs) =
      counts.next b separator :: numbered separator (counts.add b) bs := rfl

theorem length_numbered (separator : String) (counts : Counts) (bases : List String) :
    (numbered separator counts bases).length = bases.length := by
  induction bases generalizing counts with
  | nil => rfl
  | cons b bs ih => rw [numbered_cons, List.length_cons, ih, List.length_cons]

/-- The ranks of a name are the numbers behind those that were given out before. -/
theorem mem_ranked {counts : Counts} {bs : List String} {b : String} {n : Nat} :
    (b, n) ∈ ranked counts bs ↔ counts.get b < n ∧ n ≤ counts.get b + bs.count b := by
  induction bs generalizing counts with
  | nil =>
    simp only [ranked, List.not_mem_nil, List.count_nil, false_iff]
    omega
  | cons a bs ih =>
    rw [ranked, List.mem_cons, ih, Counts.get_add, Prod.mk.injEq]
    by_cases hab : a = b
    · subst hab
      simp only [true_and, if_true, List.count_cons_self]
      omega
    · have hba : b ≠ a := fun h => hab h.symm
      simp [hba, hab]

theorem nodup_ranked (counts : Counts) (bs : List String) : (ranked counts bs).Nodup := by
  induction bs generalizing counts with
  | nil => exact List.nodup_nil
  | cons b bs ih =>
    refine List.nodup_cons.2 ⟨?_, ih _⟩
    rw [mem_ranked, Counts.get_add, if_pos rfl]
    omega

theorem mem_ranked_nil {bs : List String} {b : String} {n : Nat} :
    (b, n) ∈ ranked [] bs ↔ 0 < n ∧ n ≤ bs.count b := by
  rw [mem_ranked]
  simp [Counts.get]

/-- **When the names are distinct**: no base looks like a numbered name that comes up, and no two
numbered names that come up look the same. -/
theorem nodup_numbered_iff (separator : String) (bs : List String) :
    (numbered separator [] bs).Nodup ↔
      (∀ b ∈ bs, ∀ n ≤ bs.count b, 2 ≤ n → nth separator b n ∉ bs) ∧
        ∀ b n b' n', 2 ≤ n → n ≤ bs.count b → 2 ≤ n' → n' ≤ bs.count b' →
          nth separator b n = nth separator b' n' → b = b' ∧ n = n' := by
  rw [numbered, List.nodup_map_iff_inj_on (nodup_ranked [] bs)]
  constructor
  · intro hinj
    refine ⟨fun b _ n hn htwo hname => ?_, fun b n b' n' htwo hn htwo' hn' heq => ?_⟩
    · -- A base that looks like a numbered name is the first of its own kind.
      have hfirst : (nth separator b n, 1) ∈ ranked [] bs :=
        mem_ranked_nil.2 ⟨Nat.one_pos, List.count_pos_iff.2 hname⟩
      have hnumbered : (b, n) ∈ ranked [] bs := mem_ranked_nil.2 ⟨by omega, hn⟩
      have heq := hinj _ hfirst _ hnumbered (nth_one separator (nth separator b n))
      have hone : 1 = n := congrArg Prod.snd heq
      omega
    · have hmem : (b, n) ∈ ranked [] bs := mem_ranked_nil.2 ⟨by omega, hn⟩
      have hmem' : (b', n') ∈ ranked [] bs := mem_ranked_nil.2 ⟨by omega, hn'⟩
      exact Prod.mk.inj (hinj _ hmem _ hmem' heq)
  · rintro ⟨hapart, hinj⟩ ⟨b, n⟩ hb ⟨b', n'⟩ hb' heq
    obtain ⟨hpos, hn⟩ := mem_ranked_nil.1 hb
    obtain ⟨hpos', hn'⟩ := mem_ranked_nil.1 hb'
    have hin : b ∈ bs := List.count_pos_iff.1 (by omega)
    have hin' : b' ∈ bs := List.count_pos_iff.1 (by omega)
    dsimp only at heq
    by_cases hone : n = 1
    · subst hone
      by_cases hone' : n' = 1
      · subst hone'
        exact congrArg (·, 1) heq
      · rw [nth_one] at heq
        exact absurd (heq ▸ hin) (hapart b' hin' n' hn' (by omega))
    · by_cases hone' : n' = 1
      · subst hone'
        rw [nth_one] at heq
        exact absurd (heq ▸ hin') (hapart b hin n hn (by omega))
      · obtain ⟨rfl, rfl⟩ := hinj b n b' n' (by omega) hn (by omega) hn' heq
        rfl

/-! ## Names -/

theorem toList_toString (n : Nat) : (toString n).toList = Nat.toDigits 10 n :=
  String.toList_ofList

theorem toList_nth_of_ne (base : String) {n : Nat} (hn : n ≠ 1) :
    (nth "" base n).toList = base.toList ++ Nat.toDigits 10 n := by
  simp [nth_of_ne _ _ hn]

theorem toDigits_inj {m n : Nat} (h : Nat.toDigits 10 m = Nat.toDigits 10 n) : m = n := by
  have hvalue := congrArg (Nat.ofDigitChars 10 · 0) h
  simpa [Nat.ofDigitChars_ten_toDigits] using hvalue

theorem dash_not_mem_toDigits (n : Nat) : '-' ∉ Nat.toDigits 10 n := by
  intro h
  have hdigit := Nat.isDigit_of_mem_toDigits (by decide) (by decide) h
  revert hdigit
  decide

/-- The last dash of a text is in one place. -/
theorem append_dash_inj {a b u v : List Char} (hu : '-' ∉ u) (hv : '-' ∉ v)
    (h : a ++ '-' :: u = b ++ '-' :: v) : a = b ∧ u = v := by
  have hspan {a u : List Char} (hu : '-' ∉ u) :
      (a ++ '-' :: u).reverse.takeWhile (· != '-') = u.reverse := by
    have hpos : ∀ c ∈ u.reverse, (c != '-') = true := by
      intro c hc
      refine bne_iff_ne.2 ?_
      rintro rfl
      exact hu (List.mem_reverse.1 hc)
    rw [List.reverse_append, List.reverse_cons, List.append_assoc,
      List.takeWhile_append_of_pos hpos]
    simp
  have huv : u = v := by
    have htake := congrArg (fun l => l.reverse.takeWhile (· != '-')) h
    simp only [hspan hu, hspan hv] at htake
    exact List.reverse_injective htake
  subst huv
  exact ⟨List.append_cancel_right h, rfl⟩

/-- **Names with a dash in front of the number are the same** only if their bases and ranks are, or
if one of them is a base that looks like the other. -/
theorem dashed_inj {b b' : String} {n n' : Nat} (h : nth "-" b n = nth "-" b' n') :
    (b = b' ∧ n = n') ∨ (n = 1 ∧ n' ≠ 1 ∧ b = nth "-" b' n') ∨
      (n' = 1 ∧ n ≠ 1 ∧ b' = nth "-" b n) := by
  by_cases hn : n = 1
  · subst hn
    by_cases hn' : n' = 1
    · subst hn'
      exact .inl ⟨h, rfl⟩
    · exact .inr (.inl ⟨rfl, hn', h⟩)
  · by_cases hn' : n' = 1
    · subst hn'
      exact .inr (.inr ⟨rfl, hn, h.symm⟩)
    · rw [nth_of_ne _ _ hn, nth_of_ne _ _ hn'] at h
      have hchars := congrArg String.toList h
      simp only [String.toList_append, toList_toString, List.append_assoc] at hchars
      obtain ⟨hb, hdigits⟩ :=
        append_dash_inj (dash_not_mem_toDigits n) (dash_not_mem_toDigits n') hchars
      exact .inl ⟨String.toList_injective hb, toDigits_inj hdigits⟩

/-- **A numbered name is never that of a control node.** -/
theorem ofName_nth (base : String) (n : Nat) :
    NodeKind.ofName (nth "" base n) = .element ↔ NodeKind.ofName base = .element ∨ n ≠ 1 := by
  by_cases hn : n = 1
  · subst hn
    simp [nth_one]
  · refine iff_of_true ?_ (.inr hn)
    have hne : Nat.toDigits 10 n ≠ [] := Nat.toDigits_ne_nil
    obtain ⟨c, hc⟩ : ∃ c, (Nat.toDigits 10 n).getLast? = some c :=
      ⟨_, List.getLast?_eq_some_getLast hne⟩
    have hdigit := Nat.isDigit_of_mem_toDigits (by decide) (by decide) (List.mem_of_getLast? hc)
    have hlast : (nth "" base n).toList.getLast? = some c := by
      rw [nth_of_ne _ _ hn]
      simp [List.getLast?_append, hc]
    have hne : ∀ name ∈ ["Fragment", "For", "Show"], nth "" base n ≠ name := by
      intro name hname heq
      rw [heq] at hlast
      simp only [List.mem_cons, List.not_mem_nil, or_false] at hname
      rcases hname with rfl | rfl | rfl <;> cases hlast <;> revert hdigit <;> decide
    simp only [List.forall_mem_cons, List.not_mem_nil, false_implies, implies_true, and_true] at hne
    simp [NodeKind.ofName, hne]

end Style

end ReactWeave
