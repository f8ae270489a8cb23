import ReactWeave.Script.Rules

/-!
# ReactWeave.Script.Replace

**Replacing** parts of a script by way of its syntax tree.

A rewriter is asked about every part, parents first, and told where the part
stands. It answers with the text that replaces the part, and may use the texts
of parts inside it after replacement; or it leaves the part, and is asked about
the parts of it. All text it leaves is kept as it is.

Script stands in many places: whole statements, single expressions, members of
objects. A fragment is therefore read as it stands, then in parentheses, then in
the braces of an object, and the first reading that succeeds is taken.

* `Tree.render` writes a tree with its parts replaced.
* `Visitor` is a rewriter written as data: texts, and parts by their roles.
* `Fragment.parse?` reads a fragment, `Fragment.rewrite` writes it again
  without the brackets that were put around it.
* `renameVariables` is the visitor that replaces variables.
-/

namespace ReactWeave.Script

/-! ## Places -/

/-- A part of a program, and the number of characters in front of it. -/
structure Site where
  start : Nat
  tree : Tree
  deriving Repr

namespace Site

/-- The number of characters up to the end of the part. -/
def stop (s : Site) : Nat := s.start + s.tree.text.length

/-- A smaller part, whose text may be asked for while this one is replaced. -/
abbrev Part (s : Site) : Type := { p : Site // sizeOf p.tree < sizeOf s.tree }

/-- Neighbouring trees with the places where they start. -/
def listFrom (start : Nat) : List Tree → List Site
  | [] => []
  | t :: ts => ⟨start, t⟩ :: listFrom (start + t.text.length) ts

theorem sizeOf_lt_of_mem_listFrom {p : Site} : ∀ {start : Nat} {ts : List Tree},
    p ∈ listFrom start ts → sizeOf p.tree < sizeOf ts
  | _, [], h => by simp [listFrom] at h
  | _, t :: ts, h => by
      simp only [listFrom, List.mem_cons] at h
      rcases h with rfl | h
      · simp only [List.cons.sizeOf_spec]
        omega
      · have := sizeOf_lt_of_mem_listFrom h
        simp only [List.cons.sizeOf_spec]
        omega

theorem sizeOf_lt_of_mem {s p : Site} (h : p ∈ listFrom s.start s.tree.parts) :
    sizeOf p.tree < sizeOf s.tree := by
  obtain ⟨start, tree⟩ := s
  cases tree with
  | gap t => simp [Tree.parts, listFrom] at h
  | token k r t => simp [Tree.parts, listFrom] at h
  | node k r ps =>
      have := sizeOf_lt_of_mem_listFrom h
      simp only [Tree.parts] at this
      simp only [Tree.node.sizeOf_spec]
      omega

/-- The direct parts. -/
def parts (s : Site) : List s.Part :=
  (listFrom s.start s.tree.parts).pmap Subtype.mk fun _ => sizeOf_lt_of_mem

/-- The first direct part in a role. -/
def part? (s : Site) (r : Role) : Option s.Part :=
  s.parts.find? fun p => p.val.tree.role? == some r

end Site

/-! ## Rewriters -/

/-- Says what replaces a part, if anything does, given what the parts inside it become. -/
abbrev Rewriter := (s : Site) → (s.Part → List Char) → Option (List Char)

namespace Tree

mutual

/-- The text of a tree that starts at `start`, after replacement. -/
def render (v : Rewriter) (start : Nat) (t : Tree) : List Char :=
  match t with
  | gap t => t
  | token k r t =>
    match v ⟨start, token k r t⟩ fun p => render v p.val.start p.val.tree with
    | some new => new
    | none => t
  | node k r ps =>
    match v ⟨start, node k r ps⟩ fun p => render v p.val.start p.val.tree with
    | some new => new
    | none => renderParts v start ps
termination_by sizeOf t
decreasing_by
  · exact p.property
  · exact p.property
  · simp only [node.sizeOf_spec]
    omega

/-- The text of neighbouring trees, the first of which starts at `start`, after replacement. -/
def renderParts (v : Rewriter) (start : Nat) (ts : List Tree) : List Char :=
  match ts with
  | [] => []
  | t :: ts => render v start t ++ renderParts v (start + t.text.length) ts
termination_by sizeOf ts
decreasing_by
  · simp only [List.cons.sizeOf_spec]
    omega
  · simp only [List.cons.sizeOf_spec]
    omega

end

end Tree

/-! ## Visitors -/

/-- A piece of the text that replaces a part. -/
inductive Piece where
  /-- This text. -/
  | text (s : List Char)
  /-- The text of the part in this role, after replacement in it. -/
  | part (r : Role)
  deriving Repr

/-- Says what replaces a part, if anything does, whatever stands around it. -/
abbrev Visitor := Tree → Option (List Piece)

/-- Puts pieces together, given what the parts become; a part that is not there is nothing. -/
def Piece.assemble (s : Site) (become : s.Part → List Char) : List Piece → List Char
  | [] => []
  | .text t :: ps => t ++ assemble s become ps
  | .part r :: ps => ((s.part? r).map become).getD [] ++ assemble s become ps

/-- The rewriter that a visitor is. -/
def Visitor.rewriter (v : Visitor) : Rewriter := fun s become =>
  (v s.tree).map (Piece.assemble s become)

/-! ## Fragments -/

/-- Text put around a fragment to make a program of it. -/
structure Wrapper where
  opening : String
  closing : String
  deriving DecidableEq, Repr

/-- How a fragment may be read: as statements, as an expression, as members of an object. The
closing text starts a line of its own, so that a comment at the end of the fragment does not swallow
it. -/
def wrappers : List Wrapper :=
  [⟨"", ""⟩, ⟨"(", "\n)"⟩, ⟨"(\x7b", "\n\x7d)"⟩]

/-- A fragment that was read in one of the wrappers. -/
structure Fragment where
  /-- The wrapper it was read in. -/
  wrapper : Wrapper
  /-- Blanks in front of the program. -/
  lead : List Char
  /-- The syntax tree of the wrapped fragment. -/
  root : Tree
  deriving Repr

namespace Fragment

/-- The program that a wrapper makes of a fragment. -/
def wrap (w : Wrapper) (code : List Char) : List Char :=
  w.opening.toList ++ code ++ w.closing.toList

/-- Reads a fragment in the first of the given wrappers that makes a program of it. -/
def parseIn (code : List Char) : List Wrapper → Option Fragment
  | [] => none
  | w :: ws =>
    match readProgram (wrap w code) with
    | some (lead, root) => some ⟨w, lead, root⟩
    | none => parseIn code ws

/-- Reads a fragment. -/
def parse? (code : List Char) : Option Fragment := parseIn code wrappers

/-- The text of the wrapped fragment after replacement. -/
def renderAll (v : Rewriter) (f : Fragment) : List Char :=
  f.lead ++ f.root.render v f.lead.length

/-- A text without the length of a wrapper at its two ends. -/
def unwrap (w : Wrapper) (text : List Char) : List Char :=
  (text.take (text.length - w.closing.length)).drop w.opening.length

/-- The text of a fragment after replacement. -/
def rewrite (v : Rewriter) (f : Fragment) : List Char := unwrap f.wrapper (f.renderAll v)

end Fragment

/-! ## Renaming variables -/

/-- Replaces the variables `names` as `mapper` says. A lone name in an object stands for a member of
that name and is written out, so that the member keeps its name. -/
def renameVariables (names : List (List Char)) (mapper : List Char → List Char) : Visitor
  | .token .identifier _ t => if names.contains t then some [.text (mapper t)] else none
  | .token .shorthandPropertyIdentifier _ t =>
    if names.contains t then some [.text (t ++ ": ".toList ++ mapper t)] else none
  | _ => none

end ReactWeave.Script
