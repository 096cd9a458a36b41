/-
Module: TsxLint.Proofs.Imports.Gathering
Purpose: The declarations of a file by module, and the edits that merge those of a group.
Main exports: Imports.topDeclarations, Imports.Gathered, Imports.gathered_collectAll,
  Imports.isApplicable
-/
import TsxLint.Proofs.Imports.Completeness
import TsxLint.Proofs.Rules.SingleEdits
import TsxLint.Proofs.Table

namespace TsxLint

/-!
The import rules collect declarations during a traversal, and the traversal makes its calls in a
fixed order.  So the groups at the end are those of a list: the declarations directly below a
program, in preorder.  A group holds the declarations of the list that name its module, in the
order of the list.

Declarations lie beside each other and are not empty.  Therefore the edits of a group, one for
each declaration, do not overlap.
-/

namespace Imports

/-- The declaration in a visited node, with the module that it names, if the node is directly
below a program. -/
def topDeclaration? (form : ImportForm) (visit : List Node × Node) : Option (Declaration × String) :=
  match visit.1.head? with
  | some (.program _) => declaration? form visit.2
  | _ => none

/-- The declarations directly below programs, with the modules that they name. -/
def topDeclarations (form : ImportForm) (visits : List (List Node × Node)) :
    List (Declaration × String) :=
  visits.filterMap (topDeclaration? form)

/-- The groups of a list of declarations that name modules. -/
def collectAll (form : ImportForm) (groups : Table ImportGroup) (ds : List (Declaration × String)) :
    Table ImportGroup :=
  ds.foldl (fun groups entry => collect form groups entry.1 entry.2) groups

/-! ### What is collected -/

theorem react_listener (coverage : Coverage) (visit : Visit (Table ImportGroup)) (n : Node) :
    (listener coverage).react visit n = .ok (onDeclaration coverage.form visit n, []) := by
  by_cases hkind : (listener coverage).kinds.contains n.kind = true
  · rw [Listener.react, if_pos hkind]
    rfl
  · rw [Listener.react, if_neg hkind]
    have hnone : declaration? coverage.form n = none := by
      cases n <;> cases coverage.form <;> first | rfl | exact absurd rfl hkind
    rw [onDeclaration, hnone]
    split
    · next h => cases h
    · rfl

theorem onDeclaration_eq (form : ImportForm) (visit : Visit (Table ImportGroup)) (n : Node) :
    onDeclaration form visit n =
      match topDeclaration? form (visit.ancestors, n) with
      | some entry => collect form visit.state entry.1 entry.2
      | none => visit.state := by
  rw [onDeclaration, Visit.parent?, topDeclaration?]
  split
  · next hparent hdeclaration => simp only [hparent, hdeclaration]
  · next hother =>
    split
    · next entry hentry =>
      split at hentry
      · next p hparent => exact absurd hentry (hother p entry.1 entry.2 hparent)
      · cases hentry
    · rfl

/-- The calls of an import rule collect the declarations below programs and report nothing. -/
theorem calls_listener (coverage : Coverage) (source : SourceFile) (options : Options)
    (groups : Table ImportGroup) (visits : List (List Node × Node)) :
    (listener coverage).calls source options groups visits =
      .ok (collectAll coverage.form groups (topDeclarations coverage.form visits), []) := by
  induction visits generalizing groups with
  | nil => rfl
  | cons visit rest ih =>
    obtain ⟨way, n⟩ := visit
    rw [Listener.calls, react_listener, Outcome.ok_bind, onDeclaration_eq, topDeclarations]
    simp only [ih]
    cases hentry : topDeclaration? coverage.form (way, n) with
    | none =>
      rw [List.filterMap_cons_none hentry]
      rfl
    | some entry =>
      rw [List.filterMap_cons_some hentry]
      rfl

/-! ### The groups -/

/-- A table holds the groups of a list of declarations: each group has the declarations of the
list that name its module. -/
structure Gathered (form : ImportForm) (ds : List (Declaration × String))
    (groups : Table ImportGroup) : Prop where
  nodup : (Table.keys groups).Nodup
  group : ∀ m g, (m, g) ∈ groups →
    g.form = form ∧ g.module = m ∧ g.declarations = (ds.filter fun entry => entry.2 = m).map (·.1)
  covers : ∀ entry ∈ ds, entry.2 ∈ Table.keys groups

theorem Gathered.not_mem {form : ImportForm} {ds : List (Declaration × String)}
    {groups : Table ImportGroup} (h : Gathered form ds groups) {m : String}
    (hm : m ∉ Table.keys groups) : (ds.filter fun entry => entry.2 = m) = [] := by
  rw [List.filter_eq_nil_iff]
  intro entry hentry heq
  rw [← of_decide_eq_true heq] at hm
  exact hm (h.covers entry hentry)

theorem declarations_add (g : ImportGroup) (d : Declaration) :
    (g.add d).declarations = g.declarations ++ [d] := rfl

/-- Collecting one more declaration gives the groups of the longer list. -/
theorem Gathered.collect {form : ImportForm} {ds : List (Declaration × String)}
    {groups : Table ImportGroup} (h : Gathered form ds groups) (d : Declaration) (m : String) :
    Gathered form (ds ++ [(d, m)]) (collect form groups d m) := by
  have hother : ∀ k, k ≠ m → ((ds ++ [(d, m)]).filter fun entry => entry.2 = k) =
      ds.filter fun entry => entry.2 = k := by
    intro k hk
    rw [List.filter_append, List.filter_cons_of_neg (by simpa using Ne.symm hk), List.filter_nil,
      List.append_nil]
  have hsame : ((ds ++ [(d, m)]).filter fun entry => entry.2 = m) =
      (ds.filter fun entry => entry.2 = m) ++ [(d, m)] := by
    rw [List.filter_append, List.filter_cons_of_pos (by simp), List.filter_nil]
  -- in both cases one group is written, and it has the right declarations
  obtain ⟨written, hwrite, hform, hmodule, hdeclarations⟩ : ∃ written,
      Imports.collect form groups d m = Table.put groups m written ∧ written.form = form ∧
        written.module = m ∧
        written.declarations = ((ds ++ [(d, m)]).filter fun entry => entry.2 = m).map (·.1) := by
    rw [Imports.collect]
    cases hget : Table.get? groups m with
    | some g =>
      obtain ⟨hform, hmodule, hdeclarations⟩ := h.group m g (Table.mem_of_get? hget)
      refine ⟨g.add d, rfl, hform, hmodule, ?_⟩
      rw [declarations_add, hdeclarations, hsame, List.map_append]
      rfl
    | none =>
      refine ⟨⟨form, m, d, []⟩, rfl, rfl, rfl, ?_⟩
      rw [hsame, h.not_mem (Table.get?_eq_none_iff.1 hget)]
      rfl
  rw [hwrite]
  constructor
  · exact Table.nodup_keys_put h.nodup
  · intro k g hmem
    rcases Table.mem_put h.nodup hmem with ⟨rfl, rfl⟩ | ⟨hne, hmem⟩
    · exact ⟨hform, hmodule, hdeclarations⟩
    · rw [hother k hne]
      exact h.group k g hmem
  · intro entry hentry
    rw [Table.keys_put]
    rcases List.mem_append.1 hentry with hentry | hentry
    · have hold := h.covers entry hentry
      split
      · exact hold
      · exact List.mem_append_left _ hold
    · cases List.mem_singleton.1 hentry
      split
      · assumption
      · exact List.mem_append_right _ (List.mem_singleton_self _)

/-- What is collected from a list of declarations are its groups. -/
theorem gathered_collectAll (form : ImportForm) (ds : List (Declaration × String)) :
    Gathered form ds (collectAll form [] ds) := by
  have hempty : Gathered form [] [] := ⟨List.nodup_nil, by simp, by simp⟩
  have hmore : ∀ (seen rest : List (Declaration × String)) (groups : Table ImportGroup),
      Gathered form seen groups → Gathered form (seen ++ rest) (collectAll form groups rest) := by
    intro seen rest
    induction rest generalizing seen with
    | nil =>
      intro groups h
      rw [List.append_nil]
      exact h
    | cons entry rest ih =>
      intro groups h
      have hstep := ih (seen ++ [entry]) _ (h.collect entry.1 entry.2)
      rw [List.append_assoc] at hstep
      exact hstep
  exact hmore [] ds [] hempty

/-- The declarations of a group stand in the same order in the list. -/
theorem Gathered.sublist {form : ImportForm} {ds : List (Declaration × String)}
    {groups : Table ImportGroup} (h : Gathered form ds groups) {g : ImportGroup}
    (hg : g ∈ Table.values groups) : g.declarations.Sublist (ds.map (·.1)) := by
  obtain ⟨⟨m, g⟩, hmem, rfl⟩ := List.mem_map.1 hg
  rw [(h.group m g hmem).2.2]
  exact List.filter_sublist.map _

theorem eq_nodeOf_of_declaration? {form : ImportForm} {n : Node} {entry : Declaration × String}
    (h : declaration? form n = some entry) : n = ImportGroup.nodeOf form entry.1 := by
  cases n with
  | importDeclaration x =>
    cases form with
    | imports =>
      obtain ⟨m, -, rfl⟩ := Option.map_eq_some_iff.1 h
      rfl
    | reexports => cases h
  | exportDeclaration x =>
    cases form with
    | imports => cases h
    | reexports =>
      obtain ⟨m, -, rfl⟩ := Option.map_eq_some_iff.1 h
      rfl
  | _ => cases form <;> cases h

theorem eq_nodeOf_of_topDeclaration? {form : ImportForm} {visit : List Node × Node}
    {entry : Declaration × String} (h : topDeclaration? form visit = some entry) :
    visit.2 = ImportGroup.nodeOf form entry.1 := by
  rw [topDeclaration?] at h
  split at h
  · exact eq_nodeOf_of_declaration? h
  · cases h

/-- The collected declarations are among the visited nodes, in order. -/
theorem nodes_topDeclarations_sublist (form : ImportForm) (visits : List (List Node × Node)) :
    ((topDeclarations form visits).map fun entry => ImportGroup.nodeOf form entry.1).Sublist
      (visits.map (·.2)) := by
  induction visits with
  | nil => exact .refl _
  | cons visit rest ih =>
    rw [topDeclarations, List.map_cons]
    cases hentry : topDeclaration? form visit with
    | none =>
      rw [List.filterMap_cons_none hentry]
      exact ih.cons _
    | some entry =>
      rw [List.filterMap_cons_some hentry, eq_nodeOf_of_topDeclaration? hentry]
      exact ih.cons_cons _

/-- The collected declarations are among those of the file, in order. -/
theorem topDeclarations_sublist (form : ImportForm) (visits : List (List Node × Node)) :
    ((topDeclarations form visits).map (·.1)).Sublist
      ((visits.map (·.2)).filterMap Node.declaration?) := by
  have hnode : ∀ d, (ImportGroup.nodeOf form d).declaration? = some d := by
    intro d
    cases form <;> rfl
  have hsub := (nodes_topDeclarations_sublist form visits).filterMap Node.declaration?
  rw [List.filterMap_map] at hsub
  simp only [Function.comp_def, hnode] at hsub
  rw [List.filterMap_eq_map'] at hsub
  exact hsub

/-! ### The edits of a group -/

/-- An edit has the range of a declaration. -/
def Covers (d : Declaration) (e : Edit) : Prop :=
  (e.start : Int) = d.span.start ∧ (e.stop : Int) = d.span.stop

theorem forall₂_covers {g : ImportGroup} {replacement : String} {edits : List Edit}
    (h : g.edits replacement = .ok edits) : List.Forall₂ Covers g.declarations edits := by
  obtain ⟨first, later, rfl, hfirst, hlater⟩ := ImportGroup.edits_eq_ok_iff.1 h
  exact .cons ⟨hfirst.1, hfirst.2.1⟩ (hlater.imp fun d e he => ⟨he.1, he.2.1⟩)

/-- Edits with the ranges of declarations that lie beside each other and are not empty do not
overlap. -/
theorem apart_of_covers {ds : List Declaration} {edits : List Edit}
    (h : List.Forall₂ Covers ds edits) (hbeside : ds.Pairwise fun a b => a.span.Beside b.span)
    (hextent : ∀ d ∈ ds, d.span.start < d.span.stop) : Edit.Apart edits := by
  refine pairwise_of_forall₂ h hbeside ?_
  rintro a ha b hb e f hab ⟨hestart, hestop⟩ ⟨hfstart, hfstop⟩
  have hea := hextent a ha
  have hfb := hextent b hb
  rw [Edit.overlaps_eq_false_iff]
  rcases hab with hab | hba
  · left
    constructor <;> omega
  · right
    constructor <;> omega

variable {text : String} {root : Tree} {source : SourceFile} {options : Options}
  {vs : List Violation} {v : Violation}

/-- The declarations of a group are those of statements in the tree, and lie beside each other. -/
theorem declarations_of_group (hs : source.Parsed text root) (ht : Model.Readable text root)
    {form : ImportForm} {g : ImportGroup}
    (hg : g ∈ Table.values (collectAll form [] (topDeclarations form (source.root.visits [])))) :
    (g.declarations.Pairwise fun a b => a.span.Beside b.span) ∧
      ∀ d ∈ g.declarations, ∃ u ∈ root.subtrees,
        (u.type = "import_statement" ∨ u.type = "export_statement") ∧
          d.span = Model.spanOf (Document.ofText text) u := by
  have hsub : g.declarations.Sublist source.root.declarations := by
    have hall := topDeclarations_sublist form (source.root.visits [])
    rw [Node.map_snd_visits] at hall
    exact ((gathered_collectAll form _).sublist hg).trans hall
  have hstems := hs.stems_root ht
  constructor
  · exact (hstems.pairwise_declarations ht.wellFormed).sublist hsub
  · intro d hd
    exact hstems.exists_of_mem_declarations (hsub.subset hd)

/-- The edits that merge a group of declarations can be applied. -/
theorem isApplicable (hs : source.Parsed text root) (ht : Model.Readable text root)
    (hextent : root.Everywhere Tree.HasExtent) {coverage : Coverage}
    (h : (listener coverage).run source options = .ok vs) (hv : v ∈ vs) : v.IsApplicable text := by
  rw [Listener.run_eq_calls, calls_listener, Outcome.ok_bind] at h
  obtain ⟨atEnd, hend, h⟩ := Outcome.exists_of_bind_eq_ok h
  cases h
  rw [List.nil_append] at hv
  obtain ⟨g, hg, hreport⟩ := Outcome.exists_of_mem_mapM hend hv
  obtain ⟨hbeside, hdeclarations⟩ := declarations_of_group hs ht (List.mem_filter.1 hg).1
  rw [report] at hreport
  cases hobstacle : g.merged.obstacle with
  | some o =>
    simp only [hobstacle] at hreport
    cases hreport
    exact ⟨.nil, fun e he => by cases he⟩
  | none =>
    simp only [hobstacle] at hreport
    obtain ⟨edits, hedits, hreport⟩ := Outcome.exists_of_bind_eq_ok hreport
    cases hreport
    have hcovers := forall₂_covers hedits
    constructor
    · apply apart_of_covers hcovers hbeside
      intro d hd
      obtain ⟨u, hu, htype, hspan⟩ := hdeclarations d hd
      rw [hspan]
      exact Int.ofNat_lt.2 ((hextent u hu).1 htype)
    · intro e he
      obtain ⟨d, hd, hstart, hstop⟩ := Outcome.exists_left_of_mem hcovers he
      obtain ⟨u, hu, -, hspan⟩ := hdeclarations d hd
      rw [hspan] at hstart hstop
      exact ⟨Tree.IsEnd.isValid ht.wellFormed ⟨u, hu, .inl hstart⟩,
        Tree.IsEnd.isValid ht.wellFormed ⟨u, hu, .inr hstop⟩⟩

end Imports

end TsxLint
