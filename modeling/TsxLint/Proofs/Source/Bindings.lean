/-
Module: TsxLint.Proofs.Source.Bindings
Purpose: Which trees the bindings and the module of a declaration come from.
Main exports: Model.specifierTrees, Model.moduleTree?, Model.inRow_specifierTrees,
  Model.forall₂_of_clauseParts, Model.forall₂_of_namedSpecifiers, Model.rel_of_moduleLiteral
-/
import TsxLint.Proofs.Source.Rows

namespace TsxLint.Model

/-!
The bindings of an import come from its clause, a default and a star as they stand there and those
in braces from one level below; the bindings of an export come from the braces.  Each binding has
the span of its tree, and these trees stand in a row.  The module is a string that fills a field.
-/

variable {d : Document} {text : String} {t : Tree}

/-- The bindings in one part of an import clause. -/
def importedTrees (t : Tree) : List Tree :=
  if t.type = "identifier" then [t]
  else if t.type = "namespace_import" then [t]
  else if t.type = "named_imports" then t.kids.filter fun c => c.type == "import_specifier"
  else []

/-- The bindings that an import or an export lists. -/
def specifierTrees (t : Tree) : List Tree :=
  if t.type = "import_statement" then
    (((t.first? "import_clause").map Tree.kids).getD []).flatMap importedTrees
  else if t.type = "export_statement" then
    (((t.first? "export_clause").map Tree.kids).getD []).filter fun c =>
      c.type == "export_specifier"
  else []

/-- The tree of the module that a declaration names; only a string names one. -/
def moduleTree? (t : Tree) : Option Tree :=
  (t.field? "source").filter fun s => s.type == "string"

/-! ### Trees in a row -/

theorem inRow_importedTrees (ht : t.WellFormed text) : InRow t (importedTrees t) := by
  have hself : InRow t [t] := ⟨by simp [Tree.self_mem_subtrees], List.pairwise_singleton _ _⟩
  rw [importedTrees]
  split_ifs
  · exact hself
  · exact hself
  · exact (InRow.kids ht).sublist List.filter_sublist
  · exact .nil

theorem inRow_clause {type : String} (ht : t.WellFormed text) :
    InRow t (((t.first? type).map Tree.kids).getD []) := by
  cases hclause : t.first? type with
  | none => exact .nil
  | some clause =>
    have hbelow := Tree.mem_subtrees_of_mem_children (Tree.mem_children_of_first? hclause)
    exact (InRow.kids (ht.of_mem hbelow)).of_mem_subtrees hbelow

theorem inRow_specifierTrees (ht : t.WellFormed text) : InRow t (specifierTrees t) := by
  rw [specifierTrees]
  split_ifs
  · exact (inRow_clause ht).flatMap ht fun u hu =>
      inRow_importedTrees (ht.of_mem ((inRow_clause ht).below u hu))
  · exact (inRow_clause ht).sublist List.filter_sublist
  · exact .nil

/-! ### Spans -/

theorem span_of_namedSpecifier {specifier : Specifier}
    (h : namedSpecifier d t = .ok (some specifier)) : specifier.span = spanOf d t := by
  rw [namedSpecifier] at h
  split at h
  · cases h
  · obtain ⟨imported, -, h⟩ := Outcome.exists_of_bind_eq_ok h
    obtain ⟨bound, -, h⟩ := Outcome.exists_of_bind_eq_ok h
    cases h
    rfl

/-- Bindings in braces have the spans of the trees of the type that is looked for. -/
theorem forall₂_of_namedSpecifiers {type : String} {ts : List Tree} {specifiers : List Specifier}
    (h : namedSpecifiers d type ts = .ok (some specifiers)) :
    List.Forall₂ (fun c s => s.span = spanOf d c) (ts.filter fun c => c.type == type)
      specifiers := by
  induction ts generalizing specifiers with
  | nil =>
    cases h
    exact .nil
  | cons c rest ih =>
    rw [namedSpecifiers] at h
    by_cases htype : c.type = type
    · rw [if_pos htype] at h
      rw [List.filter_cons, if_pos (beq_iff_eq.2 htype)]
      obtain ⟨found, hfound, h⟩ := Outcome.exists_of_bind_eq_ok h
      cases found with
      | none => cases h
      | some specifier =>
        obtain ⟨others, hothers, h⟩ := Outcome.exists_of_bind_eq_ok h
        obtain ⟨behind, rfl, rfl⟩ := Option.map_eq_some_iff.1 (Except.ok.inj h)
        exact .cons (span_of_namedSpecifier hfound) (ih hothers)
    · rw [if_neg htype] at h
      rw [List.filter_cons, if_neg (mt beq_iff_eq.1 htype)]
      exact ih h

theorem forall₂_of_clausePart {specifiers : List Specifier}
    (h : clausePart d t = .ok (some specifiers)) :
    List.Forall₂ (fun c s => s.span = spanOf d c) (importedTrees t) specifiers := by
  rw [clausePart] at h
  rw [importedTrees]
  by_cases hdefault : t.type = "identifier"
  · rw [if_pos hdefault] at h ⊢
    obtain ⟨name, -, h⟩ := Outcome.exists_of_bind_eq_ok h
    cases h
    exact .cons rfl .nil
  rw [if_neg hdefault] at h ⊢
  by_cases hstar : t.type = "namespace_import"
  · rw [if_pos hstar] at h ⊢
    split at h
    · cases h
    · obtain ⟨name, -, h⟩ := Outcome.exists_of_bind_eq_ok h
      cases h
      exact .cons rfl .nil
  rw [if_neg hstar] at h ⊢
  by_cases hnamed : t.type = "named_imports"
  · rw [if_pos hnamed] at h ⊢
    exact forall₂_of_namedSpecifiers h
  · rw [if_neg hnamed] at h ⊢
    cases h
    exact .nil

/-- The bindings of an import clause have the spans of their trees, in the same order. -/
theorem forall₂_of_clauseParts {ts : List Tree} {specifiers : List Specifier}
    (h : clauseParts d ts = .ok (some specifiers)) :
    List.Forall₂ (fun c s => s.span = spanOf d c) (ts.flatMap importedTrees) specifiers := by
  induction ts generalizing specifiers with
  | nil =>
    cases h
    exact .nil
  | cons c rest ih =>
    obtain ⟨found, hfound, h⟩ := Outcome.exists_of_bind_eq_ok h
    cases found with
    | none => cases h
    | some first =>
      obtain ⟨others, hothers, h⟩ := Outcome.exists_of_bind_eq_ok h
      obtain ⟨behind, rfl, rfl⟩ := Option.map_eq_some_iff.1 (Except.ok.inj h)
      exact List.rel_append (forall₂_of_clausePart hfound) (ih hothers)

theorem rel_of_moduleLiteral {source : Option Literal}
    (h : moduleLiteral d (t.field? "source") = .ok source) :
    Option.Rel (fun s l => l.span = spanOf d s) (moduleTree? t) source := by
  rw [moduleTree?]
  cases hfield : t.field? "source" with
  | none =>
    rw [hfield] at h
    cases h
    exact .none
  | some s =>
    rw [hfield, moduleLiteral] at h
    by_cases htype : s.type = "string"
    · rw [if_pos htype] at h
      rw [Option.filter_some, if_pos (beq_iff_eq.2 htype)]
      obtain ⟨raw, -, h⟩ := Outcome.exists_of_bind_eq_ok h
      cases h
      exact .some rfl
    · rw [if_neg htype] at h
      rw [Option.filter_some, if_neg (mt beq_iff_eq.1 htype)]
      cases h
      exact .none

end TsxLint.Model
