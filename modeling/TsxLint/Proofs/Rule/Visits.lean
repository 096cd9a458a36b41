/-
Module: TsxLint.Proofs.Rule.Visits
Purpose: A traversal calls its rule on every node in preorder, with the way to the node.
Main exports: Node.visits, Listener.calls, Listener.run_eq_calls,
  Listener.exists_of_mem_run_atNodes, Listener.exists_run_atNodes
-/
import TsxLint.Proofs.Outcome
import TsxLint.Rule.Traversal

namespace TsxLint

/-!
`Listener.walk` keeps a list of pending steps, in which steps that enter nodes and steps that
leave them are mixed.  What it does is simpler to say: there is a fixed list of calls, the nodes
in preorder each with its ancestors, and the walk makes one call after the other.
-/

namespace Node

/-- A node and its descendants in preorder, each with its ancestors, the parent first. -/
def visits (ancestors : List Node) (n : Node) : List (List Node × Node) :=
  (ancestors, n) :: n.children.attach.flatMap fun ⟨c, _⟩ => visits (n :: ancestors) c
termination_by sizeOf n
decreasing_by exact sizeOf_lt_of_mem_children ‹_›

theorem visits_eq (ancestors : List Node) (n : Node) :
    n.visits ancestors = (ancestors, n) :: n.children.flatMap (visits (n :: ancestors)) := by
  rw [visits]
  congr 1
  conv => rhs; rw [← List.attach_map_subtype_val n.children]
  simp

/-- A property of nodes holds of all if it passes from the children of a node to the node. -/
theorem induction_on_children {P : Node → Prop} (step : ∀ n, (∀ c ∈ n.children, P c) → P n)
    (n : Node) : P n := by
  induction h : sizeOf n using Nat.strongRecOn generalizing n with
  | ind size ih =>
    apply step
    intro c hc
    exact ih (sizeOf c) (h ▸ sizeOf_lt_of_mem_children hc) c rfl

theorem map_snd_visits (ancestors : List Node) (n : Node) :
    (n.visits ancestors).map (·.2) = n.preorder := by
  induction n using induction_on_children generalizing ancestors with
  | step n ih =>
    rw [visits_eq, preorder_eq, List.map_cons, List.map_flatMap]
    congr 1
    exact List.flatMap_congr fun c hc => ih c hc (n :: ancestors)

theorem self_mem_preorder (n : Node) : n ∈ n.preorder := by
  rw [preorder_eq]
  exact List.mem_cons_self

theorem mem_preorder_iff {m n : Node} :
    m ∈ n.preorder ↔ m = n ∨ ∃ c ∈ n.children, m ∈ c.preorder := by
  rw [preorder_eq, List.mem_cons, List.mem_flatMap]

theorem mem_preorder_of_mem_visits {ancestors way : List Node} {m n : Node}
    (h : (way, m) ∈ n.visits ancestors) : m ∈ n.preorder := by
  rw [← map_snd_visits ancestors]
  exact List.mem_map_of_mem (f := (·.2)) h

/-- The first ancestor of a visited node is a node that has it for a child, unless the visit
begins with it. -/
theorem parent_of_mem_visits {ancestors way : List Node} {m n : Node}
    (h : (way, m) ∈ n.visits ancestors) :
    (way = ancestors ∧ m = n) ∨ ∃ p ∈ n.preorder, way.head? = some p ∧ m ∈ p.children := by
  induction n using induction_on_children generalizing ancestors with
  | step n ih =>
    rw [visits_eq, List.mem_cons, List.mem_flatMap] at h
    rcases h with h | ⟨c, hc, h⟩
    · cases h
      exact .inl ⟨rfl, rfl⟩
    · right
      rcases ih c hc h with ⟨rfl, rfl⟩ | ⟨p, hp, hway, hm⟩
      · exact ⟨n, self_mem_preorder n, rfl, hc⟩
      · exact ⟨p, mem_preorder_iff.2 (.inr ⟨c, hc, hp⟩), hway, hm⟩

end Node

namespace Listener

variable {σ : Type} (l : Listener σ) (source : SourceFile) (options : Options)

/-- Calls the rule on one node after the other, each given with its ancestors. -/
def calls (state : σ) : List (List Node × Node) → Outcome (σ × List Violation)
  | [] => .ok (state, [])
  | (ancestors, n) :: rest => do
    let (state, found) ← l.react ⟨source, options, state, ancestors⟩ n
    let (state, later) ← calls state rest
    pure (state, found ++ later)

theorem calls_append (state : σ) (visits others : List (List Node × Node)) :
    l.calls source options state (visits ++ others) = (do
      let (state, found) ← l.calls source options state visits
      let (state, later) ← l.calls source options state others
      pure (state, found ++ later)) := by
  induction visits generalizing state with
  | nil =>
    simp [calls]
  | cons visit rest ih =>
    simp only [List.cons_append, calls, ih, bind_assoc, pure_bind, List.append_assoc]

/-- Entering nodes makes their calls, if entering each of them does. -/
theorem walk_enter_nodes (ancestors : List Node) {nodes : List Node}
    (each : ∀ n ∈ nodes, ∀ state rest,
      l.walk source options state ancestors (.enter n :: rest) = (do
        let (state, found) ← l.calls source options state (n.visits ancestors)
        let (state, later) ← l.walk source options state ancestors rest
        pure (state, found ++ later)))
    (state : σ) (rest : List Step) :
    l.walk source options state ancestors (nodes.map .enter ++ rest) = (do
      let (state, found) ← l.calls source options state (nodes.flatMap (Node.visits ancestors))
      let (state, later) ← l.walk source options state ancestors rest
      pure (state, found ++ later)) := by
  induction nodes generalizing state with
  | nil => simp [calls]
  | cons n nodes ih =>
    have later := ih fun m hm => each m (List.mem_cons_of_mem n hm)
    rw [List.map_cons, List.cons_append, each n List.mem_cons_self, List.flatMap_cons, calls_append]
    simp only [later, bind_assoc, pure_bind, List.append_assoc]

/-- Entering a node makes the calls of its visits and goes on with what is pending. -/
theorem walk_enter (n : Node) (state : σ) (ancestors : List Node) (rest : List Step) :
    l.walk source options state ancestors (.enter n :: rest) = (do
      let (state, found) ← l.calls source options state (n.visits ancestors)
      let (state, later) ← l.walk source options state ancestors rest
      pure (state, found ++ later)) := by
  induction n using Node.induction_on_children generalizing state ancestors rest with
  | step n ih =>
    rw [walk, Node.visits_eq]
    by_cases hleaf : n.children.isEmpty = true
    · rw [List.isEmpty_iff.1 hleaf]
      simp [calls]
    · have below := l.walk_enter_nodes source options (n :: ancestors)
        (fun c hc state rest => ih c hc state (n :: ancestors) rest)
      simp only [hleaf, calls, below, bind_assoc, pure_bind, List.append_assoc]
      simp [walk]

/-- A traversal makes the calls of all visits and one more at the end. -/
theorem run_eq_calls :
    l.run source options = (do
      let (state, found) ← l.calls source options l.initial (source.root.visits [])
      let atEnd ← l.onEnd ⟨source, options, state, []⟩
      pure (found ++ atEnd)) := by
  rw [run, walk_enter]
  simp [walk]

end Listener

/-! ### Rules without a state -/

namespace Listener

variable {kinds : List NodeKind} {report : Visit Unit → Node → Outcome (List Violation)}
  {source : SourceFile} {options : Options} {vs : List Violation} {v : Violation}

/-- A violation that is found at a node comes from the report on it. -/
theorem exists_of_mem_calls_atNodes {visits : List (List Node × Node)} {state : Unit}
    (h : (atNodes kinds report).calls source options () visits = .ok (state, vs)) (hv : v ∈ vs) :
    ∃ way n found, (way, n) ∈ visits ∧ report ⟨source, options, (), way⟩ n = .ok found ∧
      v ∈ found := by
  induction visits generalizing state vs with
  | nil =>
    cases h
    cases hv
  | cons visit rest ih =>
    obtain ⟨way, n⟩ := visit
    obtain ⟨⟨between, found⟩, hfound, h⟩ := Outcome.exists_of_bind_eq_ok h
    obtain ⟨⟨last, later⟩, hlater, h⟩ := Outcome.exists_of_bind_eq_ok h
    cases h
    rcases List.mem_append.1 hv with hv | hv
    · refine ⟨way, n, found, List.mem_cons_self, ?_, hv⟩
      by_cases hkind : (atNodes kinds report).kinds.contains n.kind = true
      · rw [react, if_pos hkind] at hfound
        cases hreport : report ⟨source, options, (), way⟩ n with
        | error fault =>
          simp [atNodes, hreport, Except.map] at hfound
        | ok there =>
          simp [atNodes, hreport, Except.map] at hfound
          rw [hfound]
      · rw [react, if_neg hkind] at hfound
        cases hfound
        cases hv
    · obtain ⟨way, n, found, hmem, hreport, hv⟩ := ih hlater hv
      exact ⟨way, n, found, List.mem_cons_of_mem _ hmem, hreport, hv⟩

/-- Every violation of a rule without a state comes from the report on a node of the file. -/
theorem exists_of_mem_run_atNodes (h : (atNodes kinds report).run source options = .ok vs)
    (hv : v ∈ vs) :
    ∃ way n found, (way, n) ∈ source.root.visits [] ∧
      report ⟨source, options, (), way⟩ n = .ok found ∧ v ∈ found := by
  rw [run_eq_calls] at h
  obtain ⟨⟨state, found⟩, hcalls, h⟩ := Outcome.exists_of_bind_eq_ok h
  obtain ⟨atEnd, hend, h⟩ := Outcome.exists_of_bind_eq_ok h
  cases hend
  cases h
  rw [List.append_nil] at hv
  exact exists_of_mem_calls_atNodes hcalls hv

/-! ### Rules without a state that fail on no node -/

variable {P : Node → List Violation → Prop}

/-- If a rule reports on each node that it hears of, its calls together report what it does on one
node after the other. -/
theorem exists_calls_atNodes {visits : List (List Node × Node)}
    (heard : ∀ way n, (way, n) ∈ visits → n.kind ∈ kinds →
      ∃ found, report ⟨source, options, (), way⟩ n = .ok found ∧ P n found)
    (unheard : ∀ n, n.kind ∉ kinds → P n []) :
    ∃ founds, (atNodes kinds report).calls source options () visits = .ok ((), founds.flatten) ∧
      List.Forall₂ P (visits.map (·.2)) founds := by
  induction visits with
  | nil => exact ⟨[], rfl, .nil⟩
  | cons visit rest ih =>
    obtain ⟨way, n⟩ := visit
    obtain ⟨founds, hcalls, hfounds⟩ := ih fun way n h => heard way n (List.mem_cons_of_mem _ h)
    obtain ⟨found, hreact, hfound⟩ : ∃ found, (atNodes kinds report).react
        ⟨source, options, (), way⟩ n = .ok ((), found) ∧ P n found := by
      by_cases hkind : (atNodes kinds report).kinds.contains n.kind = true
      · obtain ⟨found, hreport, hfound⟩ :=
          heard way n List.mem_cons_self (List.contains_iff_mem.1 hkind)
        refine ⟨found, ?_, hfound⟩
        rw [react, if_pos hkind]
        simp [atNodes, hreport, Except.map]
      · refine ⟨[], ?_, unheard n (mt List.contains_iff_mem.2 hkind)⟩
        rw [react, if_neg hkind]
    refine ⟨found :: founds, ?_, .cons hfound hfounds⟩
    rw [calls, hreact]
    simp only [Outcome.ok_bind, hcalls]
    rfl

/-- If a rule reports on every node of a file that it hears of, it reports on the file, one node
after the other in preorder. -/
theorem exists_run_atNodes
    (heard : ∀ way n, n ∈ source.nodes → n.kind ∈ kinds →
      ∃ found, report ⟨source, options, (), way⟩ n = .ok found ∧ P n found)
    (unheard : ∀ n, n.kind ∉ kinds → P n []) :
    ∃ founds, (atNodes kinds report).run source options = .ok founds.flatten ∧
      List.Forall₂ P source.nodes founds := by
  obtain ⟨founds, hcalls, hfounds⟩ : ∃ founds,
      (atNodes kinds report).calls source options (atNodes kinds report).initial
          (source.root.visits []) = .ok ((), founds.flatten) ∧
        List.Forall₂ P ((source.root.visits []).map (·.2)) founds :=
    exists_calls_atNodes (fun way n h => heard way n (Node.mem_preorder_of_mem_visits h)) unheard
  refine ⟨founds, ?_, ?_⟩
  · rw [run_eq_calls, hcalls, Outcome.ok_bind]
    simp [atNodes]
  · rw [Node.map_snd_visits] at hfounds
    exact hfounds

end Listener

end TsxLint
