import Mathlib.Data.List.Forall2
import ReactWeave.Compile

/-!
# ReactWeave.Proofs.Stages

**The stages of a compilation** that goes through.

A compilation is a chain of steps each of which may fail. If it gives a source,
every step went through, and what the steps made of the component can be laid
side by side.

* `outcome_prepare` and `outcome_compile` are the chains themselves, failures
  included.
-/

namespace ReactWeave

/-! ## Chains -/

section Chains

variable {α β : Type}

theorem ok_bind (a : α) (f : α → Outcome β) : (.ok a : Outcome α) >>= f = f a := rfl

theorem error_bind (e : Failure) (f : α → Outcome β) :
    (.error e : Outcome α) >>= f = .error e := rfl

/-- A computation in two steps goes through if both steps do. -/
theorem bind_eq_ok {x : Outcome α} {f : α → Outcome β} {b : β} :
    x >>= f = .ok b ↔ ∃ a, x = .ok a ∧ f a = .ok b := by
  cases x <;> simp [bind, Except.bind]

theorem map_eq_ok {x : Outcome α} {f : α → β} {b : β} :
    x.map f = .ok b ↔ ∃ a, x = .ok a ∧ f a = b := by
  cases x <;> simp [Except.map]

theorem forall₂_of_mapM {f : α → Outcome β} {xs : List α} {ys : List β}
    (h : xs.mapM f = .ok ys) : List.Forall₂ (fun x y => f x = .ok y) xs ys := by
  induction xs generalizing ys with
  | nil =>
    cases h
    exact .nil
  | cons x xs ih =>
    rw [List.mapM_cons] at h
    obtain ⟨y, hy, h⟩ := bind_eq_ok.1 h
    obtain ⟨ys, hys, h⟩ := bind_eq_ok.1 h
    cases h
    exact .cons hy (ih hys)

theorem forall₂_trans {γ : Type} {R : α → β → Prop} {S : β → γ → Prop} {T : α → γ → Prop}
    (hT : ∀ x y z, R x y → S y z → T x z) {xs : List α} {ys : List β} {zs : List γ}
    (h : List.Forall₂ R xs ys) (h' : List.Forall₂ S ys zs) : List.Forall₂ T xs zs := by
  induction h generalizing zs with
  | nil =>
    cases h'
    exact .nil
  | cons hxy _ ih =>
    cases h' with
    | cons hyz hrest => exact .cons (hT _ _ _ hxy hyz) (ih hrest)

theorem forall₂_iff_forall {R : α → β → Prop} {p : α → Prop} {xs : List α} {ys : List β}
    (h : List.Forall₂ (fun x y => R x y ↔ p x) xs ys) :
    List.Forall₂ R xs ys ↔ ∀ x ∈ xs, p x := by
  induction h with
  | nil => simp
  | cons hxy _ ih => rw [List.forall₂_cons, List.forall_mem_cons, hxy, ih]

theorem forall_mem_iff_of_forall₂ {p : α → Prop} {q : β → Prop} {xs : List α} {ys : List β}
    (hpairs : List.Forall₂ (fun x y => q y ↔ p x) xs ys) :
    (∀ y ∈ ys, q y) ↔ ∀ x ∈ xs, p x := by
  induction hpairs with
  | nil => simp
  | cons hpair _ ih => rw [List.forall_mem_cons, List.forall_mem_cons, hpair, ih]

theorem exists_mem_of_forall₂ {R : α → β → Prop} {xs : List α} {ys : List β}
    (h : List.Forall₂ R xs ys) {y : β} (hy : y ∈ ys) : ∃ x ∈ xs, R x y := by
  induction h with
  | nil => simp at hy
  | cons hxy _ ih =>
    rcases List.mem_cons.1 hy with rfl | hy
    · exact ⟨_, List.mem_cons_self, hxy⟩
    · obtain ⟨x, hx, hxy⟩ := ih hy
      exact ⟨x, List.mem_cons_of_mem _ hx, hxy⟩

namespace Traced

theorem bind_eq_ok {x : Traced α} {f : α → Traced β} {b : β} :
    (x >>= f).outcome = .ok b ↔ ∃ a, x.outcome = .ok a ∧ (f a).outcome = .ok b := by
  cases h : x.outcome <;> simp [bind, andThen, h]

theorem pure_eq_ok {a b : α} : (pure a : Traced α).outcome = .ok b ↔ a = b := by
  simp [pure]

theorem lift_eq_ok {x : Outcome α} {a : α} : (lift x).outcome = .ok a ↔ x = .ok a := Iff.rfl

theorem outcome_bind (x : Traced α) (f : α → Traced β) :
    (x >>= f).outcome = x.outcome >>= fun a => (f a).outcome := by
  cases h : x.outcome <;> simp [bind, andThen, Except.bind, h]

end Traced

namespace Progress

theorem toOutcome_eq_ok {p : Progress α} {a : α} :
    p.toOutcome = .ok a ↔ p.failure = none ∧ p.value = a := by
  unfold toOutcome
  split <;> simp_all

theorem toOutcome_of_failure {p : Progress α} {e : Failure} (h : p.failure = some e) :
    p.toOutcome = .error e := by
  simp [toOutcome, h]

theorem andThen_eq_ok {p : Progress α} {f : α → Progress α} {b : α} :
    (p.andThen f).toOutcome = .ok b ↔ ∃ a, p.toOutcome = .ok a ∧ (f a).toOutcome = .ok b := by
  simp only [andThen, toOutcome_eq_ok]
  split <;> simp_all

theorem map_eq_ok {p : Progress α} {f : α → β} {b : β} :
    (p.map f).toOutcome = .ok b ↔ ∃ a, p.toOutcome = .ok a ∧ f a = b := by
  simp only [map, toOutcome_eq_ok]
  exact ⟨fun h => ⟨p.value, ⟨h.1, rfl⟩, h.2⟩, fun ⟨a, ha, hb⟩ => ⟨ha.1, by rw [ha.2, hb]⟩⟩

theorem ofOutcome_eq_ok {old a : α} {x : Outcome α} :
    (ofOutcome old x).toOutcome = .ok a ↔ x = .ok a := by
  cases x <;> simp [ofOutcome, toOutcome]

theorem toOutcome_map (p : Progress α) (f : α → β) : (p.map f).toOutcome = p.toOutcome.map f := by
  unfold map toOutcome
  cases p.failure <;> rfl

end Progress

end Chains

/-! ## Passes -/

variable {fields : Fields} {c c' : Component} {key sheet styled source : String}
  {strategy : StyleStrategy} {hasStyles : Bool} {host : Host} {o : Options}

/-- A pass over fields keeps the keys and changes each value on its own. -/
theorem Fields.forall₂_of_pass {f : Json → Json → Outcome Json} {gs : Fields}
    (h : (Fields.pass f fields).toOutcome = .ok gs) :
    List.Forall₂ (fun x y => x.1 = y.1 ∧ f x.1 x.2 = .ok y.2) fields gs := by
  induction fields generalizing gs with
  | nil =>
    cases h
    exact .nil
  | cons field fields ih =>
    rw [Fields.pass] at h
    split at h
    · cases h
    · rename_i w hw
      obtain ⟨rest, hrest, rfl⟩ := Progress.map_eq_ok.1 h
      exact .cons ⟨rfl, hw⟩ (ih hrest)

namespace Node

mutual

/-- Trees of the same shape, whose nodes are related one by one. -/
inductive Matches (R : Head → Head → Prop) : Node → Node → Prop where
  | node {h h' : Head} {ns ms : List Node} (hhead : R h h') (hchildren : MatchesAll R ns ms) :
      Matches R ⟨h, ns⟩ ⟨h', ms⟩

/-- The same for neighbouring trees. -/
inductive MatchesAll (R : Head → Head → Prop) : List Node → List Node → Prop where
  | nil : MatchesAll R [] []
  | cons {n m : Node} {ns ms : List Node} (hfirst : Matches R n m) (hrest : MatchesAll R ns ms) :
      MatchesAll R (n :: ns) (m :: ms)

end

variable {R S : Head → Head → Prop}

mutual

theorem Matches.forall₂_heads {n m : Node} : Matches R n m → List.Forall₂ R n.heads m.heads
  | .node hhead hchildren => by
    rw [heads, heads]
    exact .cons hhead hchildren.forall₂_heads

theorem MatchesAll.forall₂_heads {ns ms : List Node} :
    MatchesAll R ns ms → List.Forall₂ R (headsOf ns) (headsOf ms)
  | .nil => by
    rw [headsOf]
    exact .nil
  | .cons hfirst hrest => by
    rw [headsOf, headsOf]
    exact List.rel_append hfirst.forall₂_heads hrest.forall₂_heads

end

mutual

theorem Matches.imp_of_mem {n m : Node} : Matches R n m →
    (∀ h ∈ n.heads, ∀ h', R h h' → S h h') → Matches S n m
  | .node hhead hchildren, himp => by
    rw [heads, List.forall_mem_cons] at himp
    exact .node (himp.1 _ hhead) (hchildren.imp_of_mem himp.2)

theorem MatchesAll.imp_of_mem {ns ms : List Node} : MatchesAll R ns ms →
    (∀ h ∈ headsOf ns, ∀ h', R h h' → S h h') → MatchesAll S ns ms
  | .nil, _ => .nil
  | .cons hfirst hrest, himp => by
    rw [headsOf, List.forall_mem_append] at himp
    exact .cons (hfirst.imp_of_mem himp.1) (hrest.imp_of_mem himp.2)

end

theorem MatchesAll.imp (himp : ∀ h h', R h h' → S h h') {ns ms : List Node}
    (h : MatchesAll R ns ms) : MatchesAll S ns ms := h.imp_of_mem fun h _ => himp h

variable {σ : Type} {f : σ → Head → Progress (σ × Head)}

/-- Whether a step of a pass makes one head of another, whatever earlier heads left behind. -/
def StepsTo (f : σ → Head → Progress (σ × Head)) (h h' : Head) : Prop :=
  ∃ s s', (f s h).toOutcome = .ok (s', h')

mutual

theorem matches_of_pass : ∀ {n m : Node} {s s' : σ}, (n.pass f s).toOutcome = .ok (s', m) →
    Matches (StepsTo f) n m
  | ⟨head, children⟩, m, s, s', h => by
    rw [pass] at h
    cases hfirst : (f s head).failure with
    | some e =>
      simp only [hfirst] at h
      cases h
    | none =>
      simp only [hfirst] at h
      obtain ⟨⟨s₁, ms⟩, hchildren, heq⟩ := Progress.map_eq_ok.1 h
      cases heq
      exact .node ⟨s, _, Progress.toOutcome_eq_ok.2 ⟨hfirst, rfl⟩⟩
        (matchesAll_of_passAll hchildren)

/-- A pass over trees keeps their shape and changes each node on its own. -/
theorem matchesAll_of_passAll : ∀ {ns ms : List Node} {s s' : σ},
    (passAll f s ns).toOutcome = .ok (s', ms) → MatchesAll (StepsTo f) ns ms
  | [], ms, s, s', h => by
    rw [passAll] at h
    cases h
    exact .nil
  | n :: ns, ms, s, s', h => by
    rw [passAll] at h
    cases hfirst : (n.pass f s).failure with
    | some e =>
      simp only [hfirst] at h
      cases h
    | none =>
      simp only [hfirst] at h
      obtain ⟨⟨s₁, ms'⟩, hrest, heq⟩ := Progress.map_eq_ok.1 h
      cases heq
      have hpass : (n.pass f s).toOutcome = .ok ((n.pass f s).value.1, (n.pass f s).value.2) :=
        Progress.toOutcome_eq_ok.2 ⟨hfirst, rfl⟩
      exact .cons (matches_of_pass hpass) (matchesAll_of_passAll hrest)

end

theorem forall₂_of_passAll (hf : ∀ s h s' h', (f s h).toOutcome = .ok (s', h') → R h h')
    {ns ms : List Node} {s s' : σ} (h : (passAll f s ns).toOutcome = .ok (s', ms)) :
    List.Forall₂ R (headsOf ns) (headsOf ms) := by
  refine (matchesAll_of_passAll h).forall₂_heads.imp ?_
  rintro head head' ⟨s, s', hstep⟩
  exact hf s head s' head' hstep

end Node

/-- What changing bindings makes of a node. -/
structure Head.Passed (f : Json → Json → Outcome Json) (h h' : Head) : Prop where
  name : h'.name = h.name
  bindings : List.Forall₂ (fun x y => x.1 = y.1 ∧ f x.1 x.2 = .ok y.2) h.bindings h'.bindings

namespace Component

theorem eq_of_passHeads {σ : Type} {f : σ → Head → Progress (σ × Head)} {s s' : σ}
    (h : (c.passHeads f s).toOutcome = .ok (s', c')) :
    ∃ children, c' = { c with children } ∧
      (Node.passAll f s c.children).toOutcome = .ok (s', children) := by
  obtain ⟨⟨s₁, children⟩, hpass, heq⟩ := Progress.map_eq_ok.1 h
  cases heq
  exact ⟨children, rfl, hpass⟩

/-- A pass over bindings changes nothing else. -/
theorem eq_of_passBindings {f : Json → Json → Outcome Json}
    (h : (c.passBindings f).toOutcome = .ok c') :
    ∃ children, c' = { c with children } ∧
      List.Forall₂ (Head.Passed f) c.heads (Node.headsOf children) := by
  obtain ⟨⟨u, c₁⟩, hpass, rfl⟩ := Progress.map_eq_ok.1 h
  obtain ⟨children, rfl, hall⟩ := eq_of_passHeads hpass
  refine ⟨children, rfl, Node.forall₂_of_passAll ?_ hall⟩
  intro s head s' head' hstep
  obtain ⟨bindings, hbindings, heq⟩ := Progress.map_eq_ok.1 hstep
  cases heq
  exact ⟨rfl, Fields.forall₂_of_pass hbindings⟩

/-- Changes all codes but those of bindings with spared keys. -/
def passCodes (f : Json → Outcome Json) (spared : Json → Bool) (c : Component) :
    Progress Component :=
  ((c.passState fun _ v => State.Value.mapCode f v).andThen fun c =>
    c.passBindings fun key v => if spared key then .ok v else f v).andThen fun c => c.passHooks f

/-- What changing all codes makes of a component. -/
structure Passed (f : Json → Outcome Json) (spared : Json → Bool) (c c' : Component) : Prop where
  imports : c'.imports = c.imports
  state : List.Forall₂ (fun x y => x.1 = y.1 ∧ State.Value.mapCode f x.2 = .ok y.2) c.state c'.state
  heads : List.Forall₂ (Head.Passed fun key v => if spared key then .ok v else f v)
    c.heads c'.heads
  init : passHook f c.init = .ok c'.init
  onMount : passHook f c.onMount = .ok c'.onMount

theorem passed_of_passCodes {f : Json → Outcome Json} {spared : Json → Bool}
    (h : (c.passCodes f spared).toOutcome = .ok c') : Passed f spared c c' := by
  obtain ⟨c₂, h, hhooks⟩ := Progress.andThen_eq_ok.1 h
  obtain ⟨c₁, hstate, hbindings⟩ := Progress.andThen_eq_ok.1 h
  obtain ⟨state, hpass, rfl⟩ := Progress.map_eq_ok.1 hstate
  obtain ⟨children, rfl, hheads⟩ := eq_of_passBindings hbindings
  obtain ⟨c₃, hfirst, hsecond⟩ := Progress.andThen_eq_ok.1 hhooks
  obtain ⟨init, hinit, rfl⟩ := Progress.map_eq_ok.1 hfirst
  obtain ⟨onMount, hmount, rfl⟩ := Progress.map_eq_ok.1 hsecond
  exact ⟨rfl, Fields.forall₂_of_pass hpass, hheads, Progress.ofOutcome_eq_ok.1 hinit,
    Progress.ofOutcome_eq_ok.1 hmount⟩

/-- Replacing handles is a pass over all codes but those that declare one, or nothing. -/
theorem passed_of_mapRefs {mapper : String → String}
    (h : (c.mapRefs mapper).toOutcome = .ok c') :
    c' = c ∨ Passed (Code.rename c.refs mapper) (Fields.isKey refKey) c c' := by
  unfold mapRefs at h
  split at h
  · exact .inl (Except.ok.inj h).symm
  · exact .inr (passed_of_passCodes h)

/-- Calling getters is a pass over all codes, or nothing. -/
theorem passed_of_passGetters (h : (State.passGetters c).toOutcome = .ok c') :
    c' = c ∨ ∃ names, Passed (State.callGetters names) (fun _ => false) c c' := by
  unfold State.passGetters at h
  split at h
  · exact .inl (Except.ok.inj h).symm
  · split at h
    · cases h
    · rename_i names _
      have hpass : (c.passCodes (State.callGetters names) fun _ => false).toOutcome = .ok c' := h
      exact .inr ⟨names, passed_of_passCodes hpass⟩

/-- What replacing handles makes of the bindings: each keeps its key, and either its code or what
renaming the handles makes of it. -/
def HandlesMapped (refs : List String) (h h' : Head) : Prop :=
  ∀ b' ∈ h'.bindings, ∃ b ∈ h.bindings, b.1 = b'.1 ∧
    (b'.2 = b.2 ∨ Code.rename refs currentElement b.2 = .ok b'.2)

theorem forall₂_of_mapRefs (h : (c.mapRefs currentElement).toOutcome = .ok c') :
    List.Forall₂ (HandlesMapped c.refs) c.heads c'.heads := by
  rcases passed_of_mapRefs h with rfl | h
  · exact List.forall₂_same.2 fun h _ b hb => ⟨b, hb, rfl, .inl rfl⟩
  · refine h.heads.imp fun head head' hpass b' hb' => ?_
    obtain ⟨b, hb, hkey, hcode⟩ := exists_mem_of_forall₂ hpass.bindings hb'
    refine ⟨b, hb, hkey, ?_⟩
    split at hcode
    · exact .inl (Except.ok.inj hcode).symm
    · exact .inr hcode

end Component

/-! ## Styles -/

theorem Fields.mem_of_mem_erase {b : Json × Json} (h : b ∈ fields.erase key) : b ∈ fields := by
  induction fields with
  | nil => exact h
  | cons field fields ih =>
    rw [Fields.erase] at h
    split at h
    · exact List.mem_cons_of_mem _ h
    · rcases List.mem_cons.1 h with rfl | h
      · exact List.mem_cons_self
      · exact List.mem_cons_of_mem _ (ih h)

theorem Fields.isKey_iff {k : Json} : Fields.isKey key k = true ↔ k = .str key := by
  cases k with
  | _ => simp [Fields.isKey]

theorem Fields.mem_of_get? {value : Json} (h : fields.get? key = some value) :
    (.str key, value) ∈ fields := by
  induction fields with
  | nil => cases h
  | cons field fields ih =>
    obtain ⟨k, v⟩ := field
    rw [Fields.get?] at h
    split at h
    · rename_i hkey
      cases h
      rw [Fields.isKey_iff.1 hkey]
      exact List.mem_cons_self
    · exact List.mem_cons_of_mem _ (ih h)

theorem Fields.get?_erase_of_ne {key' : String} (h : key ≠ key') (fields : Fields) :
    (fields.erase key).get? key' = fields.get? key' := by
  induction fields with
  | nil => rfl
  | cons field fields ih =>
    obtain ⟨k, v⟩ := field
    rw [Fields.erase]
    by_cases hkey : Fields.isKey key k = true
    · have hother : Fields.isKey key' k = false := by
        rw [Fields.isKey_iff.1 hkey]
        exact beq_false_of_ne h
      rw [if_pos hkey, Fields.get?, hother]
      rfl
    · rw [if_neg hkey, Fields.get?, Fields.get?, ih]

theorem Style.get?_unstyled (h : Head) (hkey : cssKey ≠ key) :
    (unstyled h).bindings.get? key = h.bindings.get? key :=
  Fields.get?_erase_of_ne hkey _

theorem Style.kind_unstyled (h : Head) : (unstyled h).kind = h.kind := by
  have hhas : (unstyled h).bindings.has textKey = h.bindings.has textKey :=
    congrArg Option.isSome (get?_unstyled h (by decide))
  unfold Head.kind
  rw [hhas]
  rfl

/-- Whether a head has the bindings of another one, without the style. -/
def Stripped (h h' : Head) : Prop := h'.bindings = h.bindings.erase cssKey

theorem Style.stripped_of_classify {property : String} {s s' : Classes} {h h' : Head}
    (hstep : (classify property s h).toOutcome = .ok (s', h')) : Stripped h h' := by
  unfold classify at hstep
  split at hstep
  · cases hstep
    rfl
  · split at hstep
    · cases hstep
    · simp only at hstep
      split at hstep
      · cases hstep
      · cases hstep
        rfl

theorem Style.stripped_of_dress {s s' : Wardrobe} {h h' : Head}
    (hstep : (dress s h).toOutcome = .ok (s', h')) : Stripped h h' := by
  unfold dress at hstep
  split at hstep
  · cases hstep
    rfl
  · split at hstep
    · cases hstep
    · simp only at hstep
      split at hstep
      · cases hstep
      · cases hstep
        rfl

/-- Taking the styles off the nodes leaves everything but the render tree as it is. The tree is left
as well if styles stay on their nodes or there are none, or else each head is changed by the step of
the collector. -/
theorem forall₂_of_prepareStyles {R : Head → Head → Prop}
    (hclassify : ∀ s h s' h', (Style.classify "className" s h).toOutcome = .ok (s', h') → R h h')
    (hdress : ∀ s h s' h', (Style.dress s h).toOutcome = .ok (s', h') → R h h')
    (h : (prepareStyles strategy hasStyles c).outcome = .ok (sheet, styled, c')) :
    (c' = c ∧ (strategy = .emotion ∨ hasStyles = false)) ∨
      (∃ children, c' = { c with children }) ∧ List.Forall₂ R c.heads c'.heads := by
  cases strategy with
  | emotion =>
    cases h
    exact .inl ⟨rfl, .inl rfl⟩
  | styledJsx =>
    obtain ⟨⟨sheet', c₁⟩, hsheet, h⟩ := Traced.bind_eq_ok.1 h
    cases h
    obtain ⟨⟨classes, c₂⟩, hclasses, heq⟩ := Progress.map_eq_ok.1 (Traced.lift_eq_ok.1 hsheet)
    cases heq
    obtain ⟨⟨s, c₃⟩, hpass, heq⟩ := Progress.map_eq_ok.1 hclasses
    cases heq
    obtain ⟨children, rfl, hall⟩ := Component.eq_of_passHeads hpass
    exact .inr ⟨⟨children, rfl⟩, Node.forall₂_of_passAll hclassify hall⟩
  | styledComponents =>
    simp only [prepareStyles] at h
    split at h
    · obtain ⟨⟨styled', c₁⟩, hstyled, h⟩ := Traced.bind_eq_ok.1 h
      cases h
      obtain ⟨-, -, h⟩ := Traced.bind_eq_ok.1 hstyled
      obtain ⟨⟨made, c₂⟩, hmade, heq⟩ := Progress.map_eq_ok.1 (Traced.lift_eq_ok.1 h)
      cases heq
      obtain ⟨⟨s, c₃⟩, hpass, heq⟩ := Progress.map_eq_ok.1 hmade
      cases heq
      obtain ⟨children, rfl, hall⟩ := Component.eq_of_passHeads hpass
      exact .inr ⟨⟨children, rfl⟩, Node.forall₂_of_passAll hdress hall⟩
    · rename_i hnone
      cases h
      exact .inl ⟨rfl, .inr (by simpa using hnone)⟩

theorem cases_of_prepareStyles
    (h : (prepareStyles strategy hasStyles c).outcome = .ok (sheet, styled, c')) :
    (c' = c ∧ (strategy = .emotion ∨ hasStyles = false)) ∨
      (∃ children, c' = { c with children }) ∧ List.Forall₂ Stripped c.heads c'.heads :=
  forall₂_of_prepareStyles (fun _ _ _ _ => Style.stripped_of_classify)
    (fun _ _ _ _ => Style.stripped_of_dress) h

/-- Whether a head has no other bindings than another one. -/
def NoNewBindings (h h' : Head) : Prop := ∀ b ∈ h'.bindings, b ∈ h.bindings

theorem eq_of_prepareStyles
    (h : (prepareStyles strategy hasStyles c).outcome = .ok (sheet, styled, c')) :
    (∃ children, c' = { c with children }) ∧ List.Forall₂ NoNewBindings c.heads c'.heads := by
  rcases cases_of_prepareStyles h with ⟨rfl, -⟩ | ⟨hchildren, hstripped⟩
  · exact ⟨⟨c'.children, rfl⟩, List.forall₂_same.2 fun _ _ _ hb => hb⟩
  · refine ⟨hchildren, hstripped.imp fun head head' hhead b hb => ?_⟩
    rw [hhead] at hb
    exact Fields.mem_of_mem_erase hb

/-! ## Outcomes -/

theorem outcome_prepareRefs (c : Component) :
    (prepareRefs c).outcome = (c.mapRefs currentElement).toOutcome := by
  simp only [prepareRefs]
  split
  · rw [Traced.outcome_bind]
    rfl
  · rfl

/-- A preparation step by step. -/
theorem outcome_prepare (state : StateStrategy) (styles : StyleStrategy) (c : Component) :
    (prepare state styles c).outcome =
      c.checkName >>= fun _ => prepareState state c >>= fun set =>
        (set.mapRefs currentElement).toOutcome >>= fun mapped =>
          (prepareStyles styles c.hasStyles mapped).outcome >>= fun r =>
            State.declaration state r.2.2.state >>= fun declaration =>
              .ok ⟨r.2.2, c.hasStyles, !set.state.isEmpty, set.refs, r.1, r.2.1, declaration⟩ := by
  simp only [prepare, Traced.outcome_bind, outcome_prepareRefs]
  rfl

theorem outcome_compile_of_plugins (hplugins : o.plugins = []) :
    (c.compile host o).outcome =
      (prepare o.state o.styles c).outcome >>= fun p =>
        partsOf o.state o.styles p p.component >>= fun parts =>
          if o.format then (formatSource host o parts.assemble p.component).outcome
          else .ok parts.assemble := by
  unfold Component.compile
  rw [hplugins]
  simp only [Traced.outcome_bind]
  cases o.format with
  | false => rfl
  | true =>
    have hpost : ∀ x : Traced String,
        (x >>= fun source => Plugin.runCodePost [] source).outcome = x.outcome := by
      intro x
      rw [Traced.outcome_bind]
      exact bind_pure x.outcome
    simp only [if_true, hpost]
    rfl

/-- A compilation without plugins and formatting: the parts of what was prepared. -/
theorem outcome_compile (hplugins : o.plugins = []) (hformat : o.format = false) :
    (c.compile host o).outcome =
      (prepare o.state o.styles c).outcome >>= fun p =>
        partsOf o.state o.styles p p.component >>= fun parts => .ok parts.assemble := by
  rw [outcome_compile_of_plugins hplugins, hformat]
  rfl

/-! ## Steps -/

/-- The components between the steps of a preparation. -/
structure Preparation (state : StateStrategy) (styles : StyleStrategy) (c : Component)
    (p : Prepared) where
  set : Component
  mapped : Component
  set_eq : prepareState state c = .ok set
  mapped_eq : (set.mapRefs currentElement).toOutcome = .ok mapped
  styles_eq : (prepareStyles styles c.hasStyles mapped).outcome =
    .ok (p.sheet, p.styled, p.component)
  hasStyles_eq : p.hasStyles = c.hasStyles
  refs_eq : p.refs = set.refs
  state_eq : State.declaration state p.component.state = .ok p.state

/-- What the steps of a preparation gave. -/
theorem exists_preparation {state : StateStrategy} {styles : StyleStrategy} {p : Prepared}
    (h : (prepare state styles c).outcome = .ok p) : Nonempty (Preparation state styles c p) := by
  rw [outcome_prepare] at h
  obtain ⟨-, -, h⟩ := bind_eq_ok.1 h
  obtain ⟨set, hset, h⟩ := bind_eq_ok.1 h
  obtain ⟨mapped, hmapped, h⟩ := bind_eq_ok.1 h
  obtain ⟨r, hstyles, h⟩ := bind_eq_ok.1 h
  obtain ⟨declaration, hdeclaration, h⟩ := bind_eq_ok.1 h
  cases h
  exact ⟨⟨set, mapped, hset, hmapped, hstyles, rfl, rfl, hdeclaration⟩⟩

/-- What the parts of a source are made of. -/
structure Assembly (strategy : StateStrategy) (styles : StyleStrategy) (p : Prepared)
    (c : Component) (parts : Parts) : Prop where
  init : Lifecycle.initCode c = .ok parts.init
  mount : Lifecycle.mountCode strategy c = .ok parts.mount
  markup : Markup.forest strategy c.children = .ok parts.markup
  state : parts.state = p.state
  refs : parts.refs = refDeclarations p.refs
  hooks : parts.hooks = Hook.importLine (usedHooks strategy p c)
  emotion : parts.emotion = if p.hasStyles && styles = .emotion then emotionImport else ""
  style : parts.style = styleElement styles p
  styled : parts.styled = p.styled

/-- How the parts of a source came about. -/
theorem steps_of_partsOf {state : StateStrategy} {styles : StyleStrategy} {p : Prepared}
    {parts : Parts} (h : partsOf state styles p c = .ok parts) :
    Assembly state styles p c parts := by
  obtain ⟨imports, -, h⟩ := bind_eq_ok.1 h
  obtain ⟨init, hinit, h⟩ := bind_eq_ok.1 h
  obtain ⟨mount, hmount, h⟩ := bind_eq_ok.1 h
  obtain ⟨markup, hmarkup, h⟩ := bind_eq_ok.1 h
  cases h
  exact ⟨hinit, hmount, hmarkup, rfl, rfl, rfl, rfl, rfl, rfl⟩

theorem steps_of_compile (hplugins : o.plugins = []) (hformat : o.format = false)
    (h : (c.compile host o).outcome = .ok source) :
    ∃ p parts, (prepare o.state o.styles c).outcome = .ok p ∧
      partsOf o.state o.styles p p.component = .ok parts ∧ source = parts.assemble := by
  rw [outcome_compile hplugins hformat] at h
  obtain ⟨p, hp, h⟩ := bind_eq_ok.1 h
  obtain ⟨parts, hparts, h⟩ := bind_eq_ok.1 h
  exact ⟨p, parts, hp, hparts, (Except.ok.inj h).symm⟩

/-! ## Stages -/

/-- What a component is turned into on its way to a source, if every field of the state has its own
hook, no plugin runs and the source is not formatted. -/
structure Stages (o : Options) (c : Component) (source : String) where
  /-- The component with calls instead of reads of getters. -/
  called : Component
  /-- The same with calls of setters in the bindings. -/
  set : Component
  /-- The same with the elements behind the handles. -/
  mapped : Component
  prepared : Prepared
  parts : Parts
  called_eq : (State.passGetters c).toOutcome = .ok called
  set_eq : (State.passSetters called).toOutcome = .ok set
  mapped_eq : (set.mapRefs currentElement).toOutcome = .ok mapped
  styles_eq : (prepareStyles o.styles c.hasStyles mapped).outcome =
    .ok (prepared.sheet, prepared.styled, prepared.component)
  state_eq : State.declaration .useState mapped.state = .ok prepared.state
  parts_eq : partsOf .useState o.styles prepared prepared.component = .ok parts
  source_eq : source = parts.assemble

/-- **A compilation that gives a source goes through the stages.** -/
theorem exists_stages (hstate : o.state = .useState) (hplugins : o.plugins = [])
    (hformat : o.format = false) (h : (c.compile host o).outcome = .ok source) :
    Nonempty (Stages o c source) := by
  obtain ⟨p, parts, hp, hparts, hsource⟩ := steps_of_compile hplugins hformat h
  rw [hstate] at hp hparts
  obtain ⟨⟨set, mapped, hset, hmapped, hstyles, -, -, hdeclared⟩⟩ := exists_preparation hp
  obtain ⟨called, hcalled, hset⟩ := Progress.andThen_eq_ok.1 hset
  obtain ⟨⟨children, hchildren⟩, -⟩ := eq_of_prepareStyles hstyles
  rw [hchildren] at hdeclared
  exact ⟨⟨called, set, mapped, p, parts, hcalled, hset, hmapped, hstyles, hdeclared, hparts,
    hsource⟩⟩

theorem Stages.forall₂_handlesMapped (st : Stages o c source) :
    List.Forall₂ (Component.HandlesMapped st.set.refs) st.set.heads
      st.prepared.component.heads := by
  refine forall₂_trans ?_ (Component.forall₂_of_mapRefs st.mapped_eq)
    (eq_of_prepareStyles st.styles_eq).2
  intro h h₁ h₂ hmapped hstyles b hb
  exact hmapped b (hstyles b hb)

end ReactWeave
