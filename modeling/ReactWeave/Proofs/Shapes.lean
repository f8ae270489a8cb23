import ReactWeave.Proofs.Splicing
import ReactWeave.Proofs.Throughout

/-!
# ReactWeave.Proofs.Shapes

**What members and assignments look like** in a tree that was read.

A tree as such may hold any parts in any order. The rules of the language make
members and assignments in a few places only, and there their parts come in one
order: an object, a dot and a name; a target, an equals sign and a value.

* `MemberShape` and `AssignmentShape` say what the parts are.
* `WellShaped` asks for it throughout a tree, and
  `Fragment.wellShaped_of_mem_sites` says that it holds of all that is read.
-/

namespace ReactWeave.Script

open ReactWeave.Script.Tree

/-! ## Shapes -/

/-- The two ways to write the dot of a member. -/
def IsDot (t : Tree) : Prop :=
  t = token .symbol none ['.'] ∨ t = token .optionalChain (some .optionalChain) ['?', '.']

/-- The parts of a member: the object, a dot, and a name. -/
inductive MemberShape : List Tree → Prop where
  | mk {object dot : Tree} {gap₁ gap₂ : List Tree} {k : Kind} {name : List Char}
      (hobject : object.role? = some .object) (hgap₁ : ∀ g ∈ gap₁, PlainTrivia g)
      (hdot : IsDot dot) (hgap₂ : ∀ g ∈ gap₂, PlainTrivia g)
      (hname : k = .propertyIdentifier → Lexis.Wordlike name) :
      MemberShape (object :: (gap₁ ++ dot :: (gap₂ ++ [token k (some .property) name])))

/-- The parts of an assignment: the target, an equals sign, and the value. -/
inductive AssignmentShape : List Tree → Prop where
  | mk {left right : Tree} {gap₁ gap₂ : List Tree} (hleft : left.role? = some .left)
      (hgap₁ : ∀ g ∈ gap₁, g.isTrivia = true ∧ g.role? = none)
      (hgap₂ : ∀ g ∈ gap₂, g.isTrivia = true ∧ g.role? = none)
      (hright : right.role? = some .right) :
      AssignmentShape (left :: (gap₁ ++ token .symbol none ['='] :: (gap₂ ++ [right])))

/-- What the parts of a construct have to look like; only members and assignments matter. -/
structure NodeShape (k : Kind) (ps : List Tree) : Prop where
  member : k = .member → MemberShape ps
  assignment : k = .assignment → AssignmentShape ps

theorem nodeShape_of_ne {k : Kind} (hm : k ≠ .member) (ha : k ≠ .assignment) (ps : List Tree) :
    NodeShape k ps :=
  ⟨fun h => absurd h hm, fun h => absurd h ha⟩

/-- Trees in which all members and assignments have their shape, and comments have no role. -/
inductive WellShaped : Tree → Prop where
  | gap {t} : WellShaped (gap t)
  | token {k r t} (h : k = .comment → r = none) : WellShaped (token k r t)
  | node {k r ps} (hk : NodeShape k ps) (hps : ∀ p ∈ ps, WellShaped p) : WellShaped (node k r ps)

theorem wellShaped_node {k : Kind} {r : Option Role} {ps : List Tree} :
    WellShaped (node k r ps) ↔ NodeShape k ps ∧ ∀ p ∈ ps, WellShaped p := by
  constructor
  · intro h
    cases h with
    | node hk hps => exact ⟨hk, hps⟩
  · rintro ⟨hk, hps⟩
    exact .node hk hps

theorem PlainTrivia.isTrivia {g : Tree} (h : PlainTrivia g) :
    g.isTrivia = true ∧ g.role? = none := by
  unfold PlainTrivia at h
  split at h
  · exact ⟨rfl, rfl⟩
  · exact ⟨rfl, rfl⟩
  · exact h.elim

theorem WellShaped.role?_of_isTrivia {t : Tree} (h : WellShaped t) (ht : t.isTrivia = true) :
    t.role? = none := by
  cases h with
  | gap => rfl
  | @token k r s hr =>
    cases k
    case comment => exact hr rfl
    all_goals cases ht
  | node => cases ht

theorem role?_withRole {t : Tree} (ht : t.isTrivia = false) (r : Role) :
    (t.withRole r).role? = some r := by
  cases t with
  | gap s => cases ht
  | token k r' s => rfl
  | node k r' ps => rfl

/-! ## What is read at a dot and at an equals sign -/

open Grammar

section Reads

variable {s rest : List Char} {ts : List Tree}

theorem reads_token {k : Kind} {scan : Scan}
    (h : Reads Lexis.lexicon rules (.token k scan) s ts rest) :
    ∃ lead u n, ts = lead ++ [token k none (u.take n)] ∧ scan u = some n ∧
      ∀ g ∈ lead, PlainTrivia g := by
  cases h with
  | token h =>
    simp only [readToken] at h
    split at h
    · rename_i n hn
      simp only [Option.some.injEq, Prod.mk.injEq] at h
      exact ⟨_, _, n, h.1.symm, hn, Lexis.plainTrivia_pieces s⟩
    · cases h

theorem reads_mark {k : Kind} {w stop : List Char}
    (h : Reads Lexis.lexicon rules (.token k (Lexis.mark w stop)) s ts rest) :
    ∃ lead, ts = lead ++ [token k none w] ∧ ∀ g ∈ lead, PlainTrivia g := by
  obtain ⟨lead, u, n, rfl, hscan, hlead⟩ := reads_token h
  exact ⟨lead, by rw [take_of_mark hscan], hlead⟩

theorem giveRole_concat {r : Role} {lead us : List Tree} {t : Tree}
    (h : giveRole r (lead ++ [t]) = some us) : us = lead ++ [t.withRole r] := by
  obtain ⟨lead', t', heq, rfl, -, -⟩ := giveRole_eq_some h
  obtain ⟨rfl, ht⟩ := List.append_inj' heq rfl
  rw [List.singleton_inj.1 ht]

theorem reads_name {k : Kind} {test : List Char → Bool}
    (h : Reads Lexis.lexicon rules (.field .property (.token k (Lexis.name test))) s ts rest) :
    ∃ lead t, ts = lead ++ [token k (some .property) t] ∧ Lexis.Wordlike t ∧
      ∀ g ∈ lead, PlainTrivia g := by
  cases h with
  | field h hr =>
    obtain ⟨lead, u, n, rfl, hscan, hlead⟩ := reads_token h
    exact ⟨lead, u.take n, giveRole_concat hr, Lexis.wordlike_of_name hscan, hlead⟩

theorem reads_property (h : Reads Lexis.lexicon rules Rules.property s ts rest) :
    ∃ lead k t, ts = lead ++ [token k (some .property) t] ∧
      (k = .propertyIdentifier → Lexis.Wordlike t) ∧ ∀ g ∈ lead, PlainTrivia g := by
  cases h with
  | field h hr =>
    cases h with
    | altLeft h =>
      obtain ⟨lead, u, n, rfl, -, hlead⟩ := reads_token h
      exact ⟨lead, _, _, giveRole_concat hr, by simp, hlead⟩
    | altRight h =>
      obtain ⟨lead, t, rfl, ht, hlead⟩ := reads_name (.field h hr)
      exact ⟨lead, _, t, rfl, fun _ => ht, hlead⟩

theorem reads_optionalDot (h : Reads Lexis.lexicon rules Rules.optionalDot s ts rest) :
    ∃ lead, ts = lead ++ [token .optionalChain (some .optionalChain) ['?', '.']] ∧
      ∀ g ∈ lead, PlainTrivia g := by
  cases h with
  | field h hr =>
    cases h with
    | seq ha hb =>
      cases ha with
      | absent =>
        obtain ⟨lead, rfl, hlead⟩ := reads_mark hb
        exact ⟨lead, giveRole_concat hr, hlead⟩

end Reads

/-! ## What is read is well-shaped -/

/-- What well-shapedness asks of a tree by itself. -/
def Shapely : Tree → Prop
  | .gap _ => True
  | .token k r _ => k = .comment → r = none
  | .node k _ ps => NodeShape k ps

theorem wellShaped_of_throughout {t : Tree} (h : Throughout Shapely t) : WellShaped t := by
  induction h with
  | @mk t root parts ih =>
    cases t with
    | gap s => exact .gap
    | token k r s => exact .token root
    | node k r ps => exact .node root ih

theorem memberShape_append {body start gap₁ gap₂ : List Tree} {dot : Tree} {k : Kind}
    {t : List Char} (hfit : Reshape.asPart .object body = some start)
    (hgap₁ : ∀ g ∈ gap₁, PlainTrivia g) (hdot : IsDot dot) (hgap₂ : ∀ g ∈ gap₂, PlainTrivia g)
    (ht : k = .propertyIdentifier → Lexis.Wordlike t) :
    NodeShape .member (start ++ (gap₁ ++ [dot] ++ (gap₂ ++ [token k (some .property) t]))) := by
  obtain ⟨object, hobject, rfl, rfl⟩ := Reshape.asPart_eq_some hfit
  refine ⟨fun _ => ?_, by simp⟩
  simpa using MemberShape.mk (role?_withRole hobject .object) hgap₁ hdot hgap₂ ht

/-- **Members and assignments have their shape**, wherever they are read. -/
theorem readable_shapely : Readable Shapely where
  trivia {t} h := by
    unfold PlainTrivia at h
    split at h
    · exact trivial
    · exact fun _ => rfl
    · exact h.elim
  role {t} h ht r := by
    cases t with
    | gap s => exact h
    | token k r' s =>
      rintro rfl
      cases ht
    | node k r' ps => exact h
  token _ _ _ _ _ := rfl
  name _ _ _ := rfl
  dashedName _ _ _ := rfl
  shorthand _ _ := by simp [Shapely]
  attributeString _ _ := rfl
  node {k} hk _ ps := by
    simp only [shapedKinds, List.mem_cons, not_or] at hk
    exact nodeShape_of_ne hk.1 hk.2.1 ps
  string _ _ := nodeShape_of_ne (by decide) (by decide) _
  template _ := nodeShape_of_ne (by decide) (by decide) _
  substitution _ := nodeShape_of_ne (by decide) (by decide) _
  regex _ := nodeShape_of_ne (by decide) (by decide) _
  member {g s rest body start more} hg hfit hreads := by
    simp only [List.mem_cons, List.not_mem_nil, or_false] at hg
    rcases hg with rfl | rfl | rfl
    · cases hreads with
      | seq ha hb =>
        obtain ⟨gap₁, rfl, hgap₁⟩ := reads_mark ha
        obtain ⟨gap₂, k, t, rfl, ht, hgap₂⟩ := reads_property hb
        exact memberShape_append hfit hgap₁ (.inl rfl) hgap₂ ht
    · cases hreads with
      | seq ha hb =>
        obtain ⟨gap₁, rfl, hgap₁⟩ := reads_optionalDot ha
        obtain ⟨gap₂, k, t, rfl, ht, hgap₂⟩ := reads_property hb
        exact memberShape_append hfit hgap₁ (.inr rfl) hgap₂ ht
    · cases hreads with
      | seq ha hb =>
        obtain ⟨gap₁, rfl, hgap₁⟩ := reads_mark ha
        obtain ⟨gap₂, t, rfl, ht, hgap₂⟩ := reads_name hb
        exact memberShape_append hfit hgap₁ (.inl rfl) hgap₂ fun _ => ht
  assignment {s rest body start more} hfit hreads hmore := by
    cases hreads with
    | seq ha hb =>
      obtain ⟨gap₁, rfl, hgap₁⟩ := reads_mark ha
      cases hb with
      | field hb hr =>
        obtain ⟨gap₂, right, -, rfl, hgap₂, hright⟩ := giveRole_eq_some hr
        obtain ⟨left, p, hleft, rfl, rfl, hp⟩ := Reshape.asTarget_eq_some hfit
        have hp : p.isTrivia = false := by
          rcases hp with rfl | hp
          · exact hleft
          · exact Reshape.patterning_isTrivia.pattern hp hleft
        have hgap₂ : ∀ g ∈ gap₂, g.isTrivia = true ∧ g.role? = none := fun g hg =>
          ⟨hgap₂ g hg, (wellShaped_of_throughout (hmore g (by simp [hg]))).role?_of_isTrivia
            (hgap₂ g hg)⟩
        refine ⟨by simp, fun _ => ?_⟩
        simpa using AssignmentShape.mk (role?_withRole hp .left)
          (fun g hg => (hgap₁ g hg).isTrivia) hgap₂ (role?_withRole hright .right)

theorem wellShaped_of_readProgram {s lead : List Char} {root : Tree}
    (h : readProgram s = some (lead, root)) : WellShaped root :=
  wellShaped_of_throughout (throughout_of_readProgram readable_shapely h)

mutual

theorem WellShaped.of_mem_sites {s : Site} {start : Nat} : ∀ {t : Tree}, WellShaped t →
    s ∈ t.sites start → WellShaped s.tree
  | .gap t, _, hs => by simp [sites] at hs
  | .token k r t, h, hs => by
    simp only [sites, List.mem_singleton] at hs
    rwa [hs]
  | .node k r ps, h, hs => by
    rw [sites] at hs
    rcases List.mem_cons.1 hs with rfl | hs
    · exact h
    · exact WellShaped.of_mem_sitesOf (wellShaped_node.1 h).2 hs

theorem WellShaped.of_mem_sitesOf {s : Site} {start : Nat} : ∀ {ts : List Tree},
    (∀ t ∈ ts, WellShaped t) → s ∈ sitesOf start ts → WellShaped s.tree
  | [], _, hs => by simp [sitesOf] at hs
  | t :: ts, h, hs => by
    obtain ⟨ht, hts⟩ := List.forall_mem_cons.1 h
    rw [sitesOf] at hs
    rcases List.mem_append.1 hs with hs | hs
    · exact ht.of_mem_sites hs
    · exact WellShaped.of_mem_sitesOf hts hs

end

/-- **Every part of a fragment is well-shaped.** -/
theorem Fragment.wellShaped_of_mem_sites {code : List Char} {f : Fragment}
    (h : parse? code = some f) {s : Site} (hs : s ∈ f.sites) : WellShaped s.tree :=
  (wellShaped_of_readProgram (parseIn_eq_some h).2).of_mem_sites hs

end ReactWeave.Script
