/-
Module: TsxLint.Rule.Traversal
Purpose: Violations, and the traversal that collects them.
Main exports: Violation, Visit, Listener, Listener.run
-/
import TsxLint.Source.File
import TsxLint.Edit.Basic
import TsxLint.Value.Options

namespace TsxLint

/-!
A rule listens to kinds of nodes.  A traversal goes through a file in preorder,
calls the rule on every node of such a kind and, at the end, once for the whole
file.  The rule sees the way from the root to the node and a state of its own
that lives for one file.

The traversal works on a list of pending steps.  Entering a node puts its
children in front, and behind them the step that leaves it again; so the steps to
leave are exactly the ancestors of the next node to enter.
-/

/-- What a rule reports: a node, a message, and edits that mend it.  The edits of
one violation are applied together or not at all. -/
structure Violation where
  node : Node
  message : String
  edits : List Edit
  hints : List Value
  data : Table Value

/-- Whether a violation can be mended. -/
def Violation.fixable (v : Violation) : Bool := !v.edits.isEmpty

/-- What a rule sees when it is called.  Ancestors are listed from the parent
outwards. -/
structure Visit (σ : Type) where
  source : SourceFile
  options : Options
  state : σ
  ancestors : List Node

/-- The parent of the visited node. -/
def Visit.parent? {σ : Type} (v : Visit σ) : Option Node := v.ancestors.head?

/-- A rule's reactions during a traversal, over a state of its own. -/
structure Listener (σ : Type) where
  kinds : List NodeKind
  initial : σ
  onNode : Visit σ → Node → Outcome (σ × List Violation)
  onEnd : Visit σ → Outcome (List Violation)

/-- A pending step of a traversal. -/
inductive Step where
  | enter (n : Node)
  | leave

namespace Step

/-- How many steps a pending step can lead to. -/
def weight : Step → Nat
  | .enter n => 2 * n.preorder.length
  | .leave => 1

/-- How many steps a list of pending steps can lead to. -/
def weights : List Step → Nat
  | [] => 0
  | step :: rest => weight step + weights rest

theorem weights_append (steps others : List Step) :
    weights (steps ++ others) = weights steps + weights others := by
  induction steps with
  | nil => simp [weights]
  | cons step rest ih => simp only [List.cons_append, weights, ih, Nat.add_assoc]

theorem weights_children (nodes : List Node) :
    weights (nodes.map .enter) = 2 * (nodes.flatMap Node.preorder).length := by
  induction nodes with
  | nil => rfl
  | cons n rest ih =>
    simp only [List.map_cons, weights, weight, ih]
    simp only [List.flatMap_cons, List.length_append]
    omega

theorem weight_enter (n : Node) :
    weight (.enter n) = 2 * (n.children.flatMap Node.preorder).length + 2 := by
  simp only [weight]
  rw [Node.preorder_eq, List.length_cons]
  omega

end Step

namespace Listener

variable {σ : Type}

/-- Calls the rule on a node if it listens to its kind. -/
def react (l : Listener σ) (visit : Visit σ) (n : Node) : Outcome (σ × List Violation) :=
  if l.kinds.contains n.kind then l.onNode visit n else .ok (visit.state, [])

/-- Goes through the pending steps. -/
def walk (l : Listener σ) (source : SourceFile) (options : Options) (state : σ)
    (ancestors : List Node) (pending : List Step) : Outcome (σ × List Violation) :=
  match pending with
  | [] => .ok (state, [])
  | .leave :: rest => walk l source options state ancestors.tail rest
  | .enter n :: rest => do
    let (state, found) ← l.react ⟨source, options, state, ancestors⟩ n
    let (state, later) ←
      if n.children.isEmpty then walk l source options state ancestors rest
      else
        walk l source options state (n :: ancestors)
          (n.children.map .enter ++ .leave :: rest)
    pure (state, found ++ later)
termination_by Step.weights pending
decreasing_by
  · simp [Step.weights, Step.weight]
  · have := Step.weight_enter n
    simp only [Step.weights]
    omega
  · have h := Step.weight_enter n
    have hc := Step.weights_children n.children
    rw [Step.weights_append]
    simp only [Step.weights, Step.weight] at h hc ⊢
    omega

/-- The violations of one file: those found at nodes, in preorder, and then those
found at the end. -/
def run (l : Listener σ) (source : SourceFile) (options : Options) : Outcome (List Violation) := do
  let (state, found) ← l.walk source options l.initial [] [.enter source.root]
  let atEnd ← l.onEnd ⟨source, options, state, []⟩
  pure (found ++ atEnd)

end Listener

/-- A rule without a state that reports at nodes only. -/
def Listener.atNodes (kinds : List NodeKind)
    (report : Visit Unit → Node → Outcome (List Violation)) : Listener Unit where
  kinds := kinds
  initial := ()
  onNode visit n := (report visit n).map fun found => ((), found)
  onEnd _ := .ok []

end TsxLint
