/-
Module: TsxLint.Proofs.Source.WellFormed
Purpose: Parse trees whose nodes lie in their text, in their parents, and one behind the other.
Main exports: Tree.subtrees, Tree.Everywhere, Tree.IsNested, Tree.IsLaidOut, Tree.WellFormed,
  Tree.WellFormed.inside, Tree.WellFormed.beside_of_mem_children, Tree.WellFormed.nested_or_beside
-/
import Mathlib.Data.List.Pairwise
import TsxLint.Source.Tree

namespace TsxLint.Tree

/-!
A tree is well-formed over a text if every node of it begins and ends between characters of
the text, and its children lie inside it, one behind the other.  Nothing is asked of the types
of nodes and of the fields they fill, and nodes may be empty.

What holds of every node of a tree holds of every node of a subtree, so such conditions pass
from a construct to its parts without further ado.
-/

/-- A property of trees holds of all if it passes from the children of a tree to the tree. -/
theorem induction_on_children {P : Tree → Prop} (step : ∀ t, (∀ c ∈ t.children, P c) → P t)
    (t : Tree) : P t := by
  induction h : t.height using Nat.strongRecOn generalizing t with
  | ind n ih =>
    apply step
    intro c hc
    exact ih c.height (h ▸ height_lt_of_mem_children hc) c rfl

mutual

/-- A tree and everything below it, each node before its children. -/
def subtrees : Tree → List Tree
  | .node type named field start stop children =>
    .node type named field start stop children :: subtreesOf children

/-- Several trees and everything below them. -/
def subtreesOf : List Tree → List Tree
  | [] => []
  | t :: rest => subtrees t ++ subtreesOf rest

end

theorem subtreesOf_eq (ts : List Tree) : subtreesOf ts = ts.flatMap subtrees := by
  induction ts with
  | nil => rfl
  | cons t rest ih => rw [subtreesOf, ih, List.flatMap_cons]

theorem subtrees_eq (t : Tree) : t.subtrees = t :: t.children.flatMap subtrees := by
  cases t with
  | node type named field start stop children => rw [subtrees, subtreesOf_eq, Tree.children]

theorem self_mem_subtrees (t : Tree) : t ∈ t.subtrees := by
  rw [subtrees_eq]
  exact List.mem_cons_self

theorem mem_subtrees_iff {u t : Tree} :
    u ∈ t.subtrees ↔ u = t ∨ ∃ c ∈ t.children, u ∈ c.subtrees := by
  rw [subtrees_eq, List.mem_cons, List.mem_flatMap]

theorem mem_subtrees_of_mem_children {c t : Tree} (h : c ∈ t.children) : c ∈ t.subtrees :=
  mem_subtrees_iff.2 (.inr ⟨c, h, self_mem_subtrees c⟩)

theorem mem_subtrees_trans {u c t : Tree} (hu : u ∈ c.subtrees) (hc : c ∈ t.subtrees) :
    u ∈ t.subtrees := by
  induction t using induction_on_children with
  | step t ih =>
    rcases mem_subtrees_iff.1 hc with rfl | ⟨child, hchild, hc⟩
    · exact hu
    · exact mem_subtrees_iff.2 (.inr ⟨child, hchild, ih child hchild hc⟩)

/-! ### Parts of a tree -/

theorem mem_children_of_mem_kids {c t : Tree} (h : c ∈ t.kids) : c ∈ t.children :=
  (List.mem_filter.1 h).1

theorem mem_children_of_field? {c t : Tree} {field : String} (h : t.field? field = some c) :
    c ∈ t.children :=
  List.mem_of_find?_eq_some h

theorem field_of_field? {c t : Tree} {field : String} (h : t.field? field = some c) :
    c.field = field := by
  rw [field?] at h
  have := List.find?_some h
  simpa using this

theorem mem_children_of_first? {c t : Tree} {type : String} (h : t.first? type = some c) :
    c ∈ t.children :=
  List.mem_of_find?_eq_some h

theorem type_of_first? {c t : Tree} {type : String} (h : t.first? type = some c) :
    c.type = type := by
  rw [first?] at h
  have := List.find?_some h
  simpa using this

/-! ### Conditions on every node -/

/-- A condition holds of every node of a tree. -/
def Everywhere (condition : Tree → Prop) (t : Tree) : Prop := ∀ u ∈ t.subtrees, condition u

instance (condition : Tree → Prop) [DecidablePred condition] (t : Tree) :
    Decidable (t.Everywhere condition) :=
  inferInstanceAs (Decidable (∀ u ∈ t.subtrees, condition u))

namespace Everywhere

variable {condition : Tree → Prop} {t : Tree}

theorem self (h : t.Everywhere condition) : condition t := h t (self_mem_subtrees t)

theorem of_mem (h : t.Everywhere condition) {u : Tree} (hu : u ∈ t.subtrees) :
    u.Everywhere condition := by
  intro v hv
  exact h v (mem_subtrees_trans hv hu)

end Everywhere

/-! ### Where nodes lie -/

/-- The children of a tree lie inside it, one behind the other. -/
structure IsNested (t : Tree) : Prop where
  inside : ∀ c ∈ t.children, t.start ≤ c.start ∧ c.stop ≤ t.stop
  ordered : t.children.Pairwise fun a b => a.stop ≤ b.start

instance : DecidablePred IsNested := fun t =>
  decidable_of_iff
    ((∀ c ∈ t.children, t.start ≤ c.start ∧ c.stop ≤ t.stop) ∧
      t.children.Pairwise fun a b => a.stop ≤ b.start)
    ⟨fun ⟨h₁, h₂⟩ => ⟨h₁, h₂⟩, fun ⟨h₁, h₂⟩ => ⟨h₁, h₂⟩⟩

/-- Where all nodes are nested, what is below a node lies inside it. -/
theorem inside_of_isNested {t u : Tree} (h : t.Everywhere IsNested) (hu : u ∈ t.subtrees) :
    t.start ≤ u.start ∧ u.stop ≤ t.stop := by
  induction t using induction_on_children with
  | step t ih =>
    rcases mem_subtrees_iff.1 hu with rfl | ⟨c, hc, hu⟩
    · exact ⟨Nat.le_refl _, Nat.le_refl _⟩
    · obtain ⟨hstart, hstop⟩ := h.self.inside c hc
      obtain ⟨hstart', hstop'⟩ := ih c hc (h.of_mem (mem_subtrees_of_mem_children hc)) hu
      exact ⟨Nat.le_trans hstart hstart', Nat.le_trans hstop' hstop⟩

/-- A tree begins and ends between characters of a text, and its children lie inside it, one
behind the other. -/
structure IsLaidOut (text : String) (t : Tree) : Prop where
  start_le_stop : t.start ≤ t.stop
  start_isValid : (String.Pos.Raw.mk t.start).IsValid text
  stop_isValid : (String.Pos.Raw.mk t.stop).IsValid text
  inside : ∀ c ∈ t.children, t.start ≤ c.start ∧ c.stop ≤ t.stop
  ordered : t.children.Pairwise fun a b => a.stop ≤ b.start

instance (text : String) (t : Tree) : Decidable (t.IsLaidOut text) :=
  decidable_of_iff
    (t.start ≤ t.stop ∧ (String.Pos.Raw.mk t.start).IsValid text ∧
      (String.Pos.Raw.mk t.stop).IsValid text ∧
      (∀ c ∈ t.children, t.start ≤ c.start ∧ c.stop ≤ t.stop) ∧
      t.children.Pairwise fun a b => a.stop ≤ b.start)
    ⟨fun ⟨h₁, h₂, h₃, h₄, h₅⟩ => ⟨h₁, h₂, h₃, h₄, h₅⟩,
      fun ⟨h₁, h₂, h₃, h₄, h₅⟩ => ⟨h₁, h₂, h₃, h₄, h₅⟩⟩

/-- Every node of a tree is laid out over a text. -/
def WellFormed (text : String) (t : Tree) : Prop := t.Everywhere (IsLaidOut text)

instance (text : String) (t : Tree) : Decidable (t.WellFormed text) :=
  inferInstanceAs (Decidable (t.Everywhere (IsLaidOut text)))

/-- One of two trees ends before the other begins. -/
def Beside (a b : Tree) : Prop := a.stop ≤ b.start ∨ b.stop ≤ a.start

theorem Beside.symm {a b : Tree} (h : a.Beside b) : b.Beside a := Or.symm h

instance : Std.Symm Beside := ⟨fun _ _ => Beside.symm⟩

namespace WellFormed

variable {text : String} {t : Tree}

theorem of_mem (h : t.WellFormed text) {u : Tree} (hu : u ∈ t.subtrees) : u.WellFormed text :=
  Everywhere.of_mem h hu

theorem isLaidOut (h : t.WellFormed text) : t.IsLaidOut text := Everywhere.self h

theorem everywhere_isNested (h : t.WellFormed text) : t.Everywhere IsNested := fun u hu =>
  ⟨(h u hu).inside, (h u hu).ordered⟩

/-- What is below a node lies inside it. -/
theorem inside (h : t.WellFormed text) {u : Tree} (hu : u ∈ t.subtrees) :
    t.start ≤ u.start ∧ u.stop ≤ t.stop :=
  inside_of_isNested h.everywhere_isNested hu

/-- Two different children of a node lie beside each other. -/
theorem beside_of_mem_children (h : t.WellFormed text) {a b : Tree} (ha : a ∈ t.children)
    (hb : b ∈ t.children) (hne : a ≠ b) : a.Beside b := by
  have hbeside : t.children.Pairwise Beside := h.isLaidOut.ordered.imp Or.inl
  exact hbeside.forall ha hb hne

/-- What is below one of two trees beside each other is beside what is below the other. -/
theorem beside_of_mem {a b u v : Tree} (ha : a.WellFormed text) (hb : b.WellFormed text)
    (hbeside : a.Beside b) (hu : u ∈ a.subtrees) (hv : v ∈ b.subtrees) : u.Beside v := by
  obtain ⟨hau, hua⟩ := ha.inside hu
  obtain ⟨hbv, hvb⟩ := hb.inside hv
  rcases hbeside with hab | hba
  · exact .inl (Nat.le_trans hua (Nat.le_trans hab hbv))
  · exact .inr (Nat.le_trans hvb (Nat.le_trans hba hau))

/-- Of two nodes of a tree one is below the other, or they lie beside each other. -/
theorem nested_or_beside (h : t.WellFormed text) {u v : Tree} (hu : u ∈ t.subtrees)
    (hv : v ∈ t.subtrees) : u ∈ v.subtrees ∨ v ∈ u.subtrees ∨ u.Beside v := by
  induction t using Tree.induction_on_children with
  | step t ih =>
    rcases mem_subtrees_iff.1 hu with rfl | ⟨b, hb, hub⟩
    · exact .inr (.inl hv)
    · rcases mem_subtrees_iff.1 hv with rfl | ⟨c, hc, hvc⟩
      · exact .inl hu
      · have hb' := h.of_mem (mem_subtrees_of_mem_children hb)
        have hc' := h.of_mem (mem_subtrees_of_mem_children hc)
        by_cases hbc : b = c
        · subst hbc
          exact ih b hb hb' hub hvc
        · exact .inr (.inr
            (beside_of_mem hb' hc' (h.beside_of_mem_children hb hc hbc) hub hvc))

/-- What is not empty is below no more than one child of a node. -/
theorem eq_of_mem_subtrees (h : t.WellFormed text) {a b u : Tree} (ha : a ∈ t.children)
    (hb : b ∈ t.children) (hua : u ∈ a.subtrees) (hub : u ∈ b.subtrees) (hne : u.start < u.stop) :
    a = b := by
  by_contra hab
  have hbeside : u.Beside u :=
    beside_of_mem (h.of_mem (mem_subtrees_of_mem_children ha))
      (h.of_mem (mem_subtrees_of_mem_children hb)) (h.beside_of_mem_children ha hb hab) hua hub
  rcases hbeside with hle | hle <;> omega

/-- A leaf that is not empty is below the nodes that it lies inside. -/
theorem mem_subtrees_iff_inside (h : t.WellFormed text) {u v : Tree} (hu : u ∈ t.subtrees)
    (hv : v ∈ t.subtrees) (hleaf : u.children = []) (hne : u.start < u.stop) :
    u ∈ v.subtrees ↔ v.start ≤ u.start ∧ u.stop ≤ v.stop := by
  constructor
  · exact (h.of_mem hv).inside
  · rintro ⟨hstart, hstop⟩
    rcases h.nested_or_beside hu hv with hbelow | habove | hbeside
    · exact hbelow
    · rw [subtrees_eq, hleaf] at habove
      rw [List.mem_singleton.1 habove]
      exact self_mem_subtrees u
    · rcases hbeside with hle | hle <;> omega

/-- The named children of a node, comments aside, come one behind the other. -/
theorem ordered_kids (h : t.WellFormed text) : t.kids.Pairwise fun a b => a.stop ≤ b.start :=
  h.isLaidOut.ordered.sublist List.filter_sublist

end WellFormed

end TsxLint.Tree
