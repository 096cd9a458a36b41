/-
Module: TsxLint.Proofs.Rule.Answers
Purpose: What a rule without a state reports on a file, node by node.
Main exports: Listener.Answers, Listener.exists_answers_of_run, Listener.exists_answer_of_mem,
  Listener.nodes_sublist_of_run, Listener.eq_flatMap_of_run
-/
import TsxLint.Proofs.Rule.Visits

namespace TsxLint.Listener

/-!
A rule without a state answers at each node by itself.  So what it reports on a file falls into the
answers at the nodes, in preorder.  If each answer is about the node that it is given at and about
no other, the violations come in the order of the nodes.
-/

variable {kinds : List NodeKind} {report : Visit Unit → Node → Outcome (List Violation)}
  {source : SourceFile} {options : Options} {vs : List Violation}

/-- What a rule finds at a visited node: what it reports there if it listens to the node's kind, and
nothing otherwise. -/
inductive Answers (kinds : List NodeKind) (report : Visit Unit → Node → Outcome (List Violation))
    (source : SourceFile) (options : Options) : List Node × Node → List Violation → Prop
  | heard {way : List Node} {n : Node} {found : List Violation} (kind : n.kind ∈ kinds)
      (answer : report ⟨source, options, (), way⟩ n = .ok found) :
      Answers kinds report source options (way, n) found
  | unheard {way : List Node} {n : Node} (kind : n.kind ∉ kinds) :
      Answers kinds report source options (way, n) []

theorem answers_of_react {way : List Node} {n : Node} {state : Unit} {found : List Violation}
    (h : (atNodes kinds report).react ⟨source, options, (), way⟩ n = .ok (state, found)) :
    Answers kinds report source options (way, n) found := by
  by_cases hkind : (atNodes kinds report).kinds.contains n.kind = true
  · rw [react, if_pos hkind] at h
    refine .heard (List.contains_iff_mem.1 hkind) ?_
    cases hreport : report ⟨source, options, (), way⟩ n with
    | error fault => simp [atNodes, hreport, Except.map] at h
    | ok there =>
      simp [atNodes, hreport, Except.map] at h
      rw [h]
  · rw [react, if_neg hkind] at h
    cases h
    exact .unheard (mt List.contains_iff_mem.2 hkind)

theorem exists_answers_of_calls {visits : List (List Node × Node)} {state : Unit}
    (h : (atNodes kinds report).calls source options () visits = .ok (state, vs)) :
    ∃ founds, vs = founds.flatten ∧
      List.Forall₂ (Answers kinds report source options) visits founds := by
  induction visits generalizing state vs with
  | nil =>
    cases h
    exact ⟨[], rfl, .nil⟩
  | cons visit rest ih =>
    obtain ⟨⟨between, found⟩, hfound, h⟩ := Outcome.exists_of_bind_eq_ok h
    obtain ⟨⟨last, later⟩, hlater, h⟩ := Outcome.exists_of_bind_eq_ok h
    cases h
    obtain ⟨founds, rfl, hfounds⟩ := ih hlater
    exact ⟨found :: founds, rfl, .cons (answers_of_react hfound) hfounds⟩

/-- What a rule reports on a file are its answers at the nodes, one after the other. -/
theorem exists_answers_of_run (h : (atNodes kinds report).run source options = .ok vs) :
    ∃ founds, vs = founds.flatten ∧
      List.Forall₂ (Answers kinds report source options) (source.root.visits []) founds := by
  rw [run_eq_calls] at h
  obtain ⟨⟨state, found⟩, hcalls, h⟩ := Outcome.exists_of_bind_eq_ok h
  obtain ⟨atEnd, hend, h⟩ := Outcome.exists_of_bind_eq_ok h
  cases hend
  cases h
  rw [List.append_nil]
  exact exists_answers_of_calls hcalls

/-- The answer at any node of a file is among what is reported on the file. -/
theorem exists_answer_of_mem (h : (atNodes kinds report).run source options = .ok vs) {n : Node}
    (hn : n ∈ source.nodes) :
    ∃ way found, Answers kinds report source options (way, n) found ∧ found ⊆ vs := by
  obtain ⟨founds, rfl, hfounds⟩ := exists_answers_of_run h
  rw [SourceFile.nodes, ← Node.map_snd_visits []] at hn
  obtain ⟨⟨way, m⟩, hvisit, rfl⟩ := List.mem_map.1 hn
  obtain ⟨found, hmem, hanswer⟩ := Outcome.exists_left_of_mem hfounds.flip hvisit
  exact ⟨way, found, hanswer, fun v hv => List.mem_flatten.2 ⟨found, hmem, hv⟩⟩

/-! ### Answers about one node -/

/-- An answer that reports the given node at most once, and no other one. -/
def IsAbout (n : Node) (answer : Outcome (List Violation)) : Prop :=
  ∀ found, answer = .ok found → (found.map (·.node)).Sublist [n]

namespace IsAbout

variable {n : Node}

theorem nil : IsAbout n (.ok []) := by
  intro found h
  cases h
  exact List.nil_sublist _

theorem one {v : Violation} (hv : v.node = n) : IsAbout n (.ok [v]) := by
  intro found h
  cases h
  rw [← hv]
  exact .refl _

theorem bind {α : Type} {before : Outcome α} {next : α → Outcome (List Violation)}
    (h : ∀ a, IsAbout n (next a)) : IsAbout n (before >>= next) := by
  intro found hfound
  obtain ⟨a, -, hfound⟩ := Outcome.exists_of_bind_eq_ok hfound
  exact h a found hfound

end IsAbout

theorem nodes_sublist_of_answers {visits : List (List Node × Node)}
    {founds : List (List Violation)}
    (h : List.Forall₂ (Answers kinds report source options) visits founds)
    (about : ∀ way n, IsAbout n (report ⟨source, options, (), way⟩ n)) :
    (founds.flatten.map (·.node)).Sublist
      ((visits.map (·.2)).filter fun n => decide (n.kind ∈ kinds)) := by
  induction h with
  | nil => exact .slnil
  | cons hanswer _ ih =>
    rw [List.flatten_cons, List.map_append, List.map_cons, List.filter_cons]
    cases hanswer with
    | heard kind answer =>
      rw [if_pos (decide_eq_true kind)]
      exact (about _ _ _ answer).append ih
    | unheard kind =>
      rw [if_neg (by simpa using kind)]
      exact ih

/-- If each answer is about the node that it is given at, the violations come in preorder. -/
theorem nodes_sublist_of_run (h : (atNodes kinds report).run source options = .ok vs)
    (about : ∀ way n, IsAbout n (report ⟨source, options, (), way⟩ n)) :
    (vs.map (·.node)).Sublist (source.nodes.filter fun n => decide (n.kind ∈ kinds)) := by
  obtain ⟨founds, rfl, hfounds⟩ := exists_answers_of_run h
  rw [SourceFile.nodes, ← Node.map_snd_visits []]
  exact nodes_sublist_of_answers hfounds about

/-! ### Answers that depend on the node -/

theorem flatten_eq_of_answers {visits : List (List Node × Node)} {founds : List (List Violation)}
    {answer : Node → List Violation}
    (h : List.Forall₂ (Answers kinds report source options) visits founds)
    (one : ∀ way n found, Answers kinds report source options (way, n) found → found = answer n) :
    founds.flatten = (visits.map (·.2)).flatMap answer := by
  induction h with
  | nil => rfl
  | cons hanswer _ ih =>
    rw [List.flatten_cons, List.map_cons, List.flatMap_cons, ih, one _ _ _ hanswer]

/-- If each answer depends on the node alone, what is reported are the answers along the nodes. -/
theorem eq_flatMap_of_run (h : (atNodes kinds report).run source options = .ok vs)
    {answer : Node → List Violation}
    (one : ∀ way n found, Answers kinds report source options (way, n) found → found = answer n) :
    vs = source.nodes.flatMap answer := by
  obtain ⟨founds, rfl, hfounds⟩ := exists_answers_of_run h
  rw [SourceFile.nodes, ← Node.map_snd_visits []]
  exact flatten_eq_of_answers hfounds one

end TsxLint.Listener
