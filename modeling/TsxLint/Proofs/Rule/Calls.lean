/-
Module: TsxLint.Proofs.Rule.Calls
Purpose: The calls a rule gets for a file: one for each node it listens to, in preorder and with the
  way from the root, and one at the end.
Main exports: Node.IsWay, Listener.Call, Listener.Makes, Listener.NeverFails,
  Listener.visit_makes_calls
-/
import TsxLint.Proofs.Rule.Visits
import TsxLint.Rule.Scripted

namespace TsxLint

/-!
A rule sees of a traversal the calls it gets.  Each call finds the state that the call before it
left, so the calls of one file form a chain (`Listener.Makes`), and what a rule reports is what
its calls found, one after the other.  Which calls these are does not depend on the rule: they are
the visits of the file at nodes of the kinds it listens to.
-/

namespace Node

/-- The nodes on the way from a root down to a node: the root first, the node itself left out. -/
inductive IsWay (root : Node) : List Node → Node → Prop where
  | here : IsWay root [] root
  | down {way : List Node} {parent child : Node} (above : IsWay root way parent)
      (below : child ∈ parent.children) : IsWay root (way ++ [parent]) child

/-- A visit names the way to its node, from the parent outwards. -/
theorem isWay_of_mem_visits {root n m : Node} {ancestors way : List Node}
    (hn : root.IsWay ancestors.reverse n) (h : (way, m) ∈ n.visits ancestors) :
    root.IsWay way.reverse m := by
  induction n using induction_on_children generalizing ancestors with
  | step n ih =>
    rw [visits_eq, List.mem_cons, List.mem_flatMap] at h
    rcases h with h | ⟨c, hc, h⟩
    · cases h
      exact hn
    · apply ih c hc _ h
      rw [List.reverse_cons]
      exact .down hn hc

end Node

namespace Listener

variable {σ : Type}

/-- A call of a rule at a node: what the rule saw, and the state and the violations it answered
with. -/
structure Call (σ : Type) where
  visit : Visit σ
  node : Node
  state : σ
  found : List Violation

variable (l : Listener σ) (source : SourceFile) (options : Options)

/-- Calls in a file, one after the other: each finds the state that the one before it left and is
answered by the rule. -/
inductive Makes : σ → List (Call σ) → σ → Prop where
  | none (state : σ) : Makes state [] state
  | next {state between last : σ} {way : List Node} {n : Node} {found : List Violation}
      {later : List (Call σ)}
      (answer : l.onNode ⟨source, options, state, way⟩ n = .ok (between, found))
      (rest : Makes between later last) :
      Makes state (⟨⟨source, options, state, way⟩, n, between, found⟩ :: later) last

/-- No call of a rule in a file fails, whatever state it finds. -/
structure NeverFails : Prop where
  onNode : ∀ state way, ∀ n ∈ source.nodes, l.kinds.contains n.kind = true →
    ∃ answer, l.onNode ⟨source, options, state, way⟩ n = .ok answer
  onEnd : ∀ state, ∃ found, l.onEnd ⟨source, options, state, []⟩ = .ok found

/-- Whether a visit is at a node of a kind that a rule listens to. -/
def hears (visit : List Node × Node) : Bool := l.kinds.contains visit.2.kind

variable {l source options}

theorem react_of_hears {state : σ} {way : List Node} {n : Node} (h : l.hears (way, n) = true) :
    l.react ⟨source, options, state, way⟩ n = l.onNode ⟨source, options, state, way⟩ n :=
  if_pos h

theorem react_of_not_hears {state : σ} {way : List Node} {n : Node}
    (h : ¬ l.hears (way, n) = true) :
    l.react ⟨source, options, state, way⟩ n = .ok (state, []) :=
  if_neg h

/-- Where no call fails, going through visits makes the calls that the rule listens to. -/
theorem NeverFails.exists_makes (h : l.NeverFails source options)
    {visits : List (List Node × Node)} (hvisits : ∀ visit ∈ visits, visit.2 ∈ source.nodes)
    (state : σ) :
    ∃ made last, l.Makes source options state made last ∧
      made.map (fun call => (call.visit.ancestors, call.node)) = visits.filter l.hears ∧
      l.calls source options state visits = .ok (last, made.flatMap (·.found)) := by
  induction visits generalizing state with
  | nil => exact ⟨[], state, .none state, rfl, rfl⟩
  | cons visit rest ih =>
    obtain ⟨way, n⟩ := visit
    obtain ⟨hn, hrest⟩ := List.forall_mem_cons.1 hvisits
    by_cases hkind : l.hears (way, n) = true
    · obtain ⟨⟨between, found⟩, hanswer⟩ := h.onNode state way n hn hkind
      obtain ⟨made, last, hmade, hvisited, hcalls⟩ := ih hrest between
      refine ⟨_ :: made, last, .next hanswer hmade, ?_, ?_⟩
      · rw [List.map_cons, hvisited, List.filter_cons_of_pos hkind]
      · rw [calls, react_of_hears hkind, hanswer, Outcome.ok_bind]
        simp only [hcalls, Outcome.ok_bind, List.flatMap_cons]
        rfl
    · obtain ⟨made, last, hmade, hvisited, hcalls⟩ := ih hrest state
      refine ⟨made, last, hmade, ?_, ?_⟩
      · rw [hvisited, List.filter_cons_of_neg hkind]
      · rw [calls, react_of_not_hears hkind, Outcome.ok_bind]
        simp only [hcalls, Outcome.ok_bind, List.nil_append]
        rfl

/-- The nodes at which a rule is called are those it listens to. -/
theorem map_node_of_visited {made : List (Call σ)}
    (h : made.map (fun call => (call.visit.ancestors, call.node)) =
      (source.root.visits []).filter l.hears) :
    made.map (·.node) = source.nodes.filter fun n => l.kinds.contains n.kind := by
  have hnodes := congrArg (List.map Prod.snd) h
  rw [List.map_map] at hnodes
  rw [SourceFile.nodes, ← Node.map_snd_visits [] source.root, List.filter_map]
  exact hnodes

/-- A rule of whose calls none fails is called once for each node of a kind it listens to, in
preorder.  At each call the ancestors are the nodes on the way from the root to the node, and the
parent is the last of them.  Then it is called once more, with the state that the last call left
and without ancestors.  It reports what these calls found, in this order. -/
theorem visit_makes_calls {σ : Type} (info : RuleInfo) (l : Listener σ) (source : SourceFile)
    (options : Options) (h : l.NeverFails source options) :
    ∃ made last atEnd, l.Makes source options l.initial made last ∧
      made.map (·.node) = (source.nodes.filter fun n => l.kinds.contains n.kind) ∧
      made.map (fun call => (call.visit.ancestors, call.node)) =
        (source.root.visits []).filter l.hears ∧
      (∀ call ∈ made, source.root.IsWay call.visit.ancestors.reverse call.node ∧
        call.visit.parent? = call.visit.ancestors.reverse.getLast?) ∧
      l.onEnd ⟨source, options, last, []⟩ = .ok atEnd ∧
      (Rule.ofListener info l).visit source options = .ok (made.flatMap (·.found) ++ atEnd) := by
  have hnodes : ∀ visit ∈ source.root.visits [], visit.2 ∈ source.nodes := fun _ hvisit =>
    Node.mem_preorder_of_mem_visits hvisit
  obtain ⟨made, last, hmade, hvisited, hcalls⟩ := h.exists_makes hnodes l.initial
  obtain ⟨atEnd, hend⟩ := h.onEnd last
  refine ⟨made, last, atEnd, hmade, map_node_of_visited hvisited, hvisited, ?_, hend, ?_⟩
  · intro call hcall
    have hmem : (call.visit.ancestors, call.node) ∈ (source.root.visits []).filter l.hears := by
      rw [← hvisited]
      exact List.mem_map_of_mem hcall
    refine ⟨Node.isWay_of_mem_visits .here (List.mem_filter.1 hmem).1, ?_⟩
    rw [List.getLast?_reverse, Visit.parent?]
  · change l.run source options = _
    rw [run_eq_calls, hcalls, Outcome.ok_bind]
    simp only [hend, Outcome.ok_bind]
    rfl

/-! ### A file of nested elements -/

/-- An element inside another one. -/
def nestedElements : SourceFile where
  path := ⟨"", ["a.tsx"]⟩
  document := Document.ofText "<a><b/>c</a>"
  program :=
    let inner : Element Node := ⟨⟨1, 3, 1, 7, 3, 7⟩, "b", none, none, none, [], [], true⟩
    let text : MarkupText := ⟨⟨1, 7, 1, 8, 7, 8⟩, "c"⟩
    let outer : Element Node :=
      ⟨⟨1, 0, 1, 12, 0, 12⟩, "a", none, none, none, [], [.element inner, .text text], false⟩
    ⟨⟨1, 0, 1, 12, 0, 12⟩, [.element outer]⟩
  tokens := #[]
  language := .tsx
  hasErrors := false

/-- A rule that counts programs and elements, and reports the program once more at the end. -/
def countingElements : Script :=
  ⟨[.program, .element], "counted", [], true, none⟩

/-- The description of that rule. -/
def countingInfo : RuleInfo where
  id := "DEMO.COUNTING"
  name := "Counting"
  category := "demo"
  description := RuleInfo.plainDescription "DEMO.COUNTING" "Counting"

theorem neverFails_countingElements :
    countingElements.listener.NeverFails nestedElements [] where
  onNode _ _ _ _ _ := ⟨_, rfl⟩
  onEnd _ := ⟨_, rfl⟩

/-- The program is called first, then the elements, the outer one before the inner one. -/
theorem visit_makes_calls_nestedElements :
    countingElements.listener.NeverFails nestedElements [] ∧
    ∃ made last atEnd,
      countingElements.listener.Makes nestedElements [] 0 made last ∧
      made.map (fun call => (call.visit.ancestors.reverse.map Node.kind, call.node.kind)) =
        [([], .program), ([.program], .element), ([.program, .element], .element)] ∧
      (Script.rule countingInfo countingElements).visit nestedElements [] =
        .ok (made.flatMap (·.found) ++ atEnd) := by
  obtain ⟨made, last, atEnd, hmade, -, hvisited, -, -, hvisit⟩ :=
    visit_makes_calls countingInfo _ _ _ neverFails_countingElements
  refine ⟨neverFails_countingElements, made, last, atEnd, hmade, ?_, hvisit⟩
  have hkinds := congrArg (List.map fun v => (v.1.reverse.map Node.kind, v.2.kind)) hvisited
  rw [List.map_map] at hkinds
  refine hkinds.trans ?_
  decide +kernel

end Listener

end TsxLint
