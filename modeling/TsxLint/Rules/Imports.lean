/-
Module: TsxLint.Rules.Imports
Purpose: Several declarations that name one module.
Main exports: Imports.duplicateImports, Imports.typeImports, Imports.duplicateExports
-/
import TsxLint.Rule.Basic
import TsxLint.Imports.Merge

namespace TsxLint.Imports

/-!
Declarations at the top of a file are collected by the module they name.  When
the file has been seen, each group of several declarations is reported on the
first of them, with the edits that merge it if nothing stands in the way.

Imports that mix type-only and other declarations belong to a rule of their own,
so a group is reported once.
-/

/-- What one of the rules covers. -/
structure Coverage where
  form : ImportForm
  /-- Whether a group of several declarations is reported. -/
  reports : ImportGroup → Bool
  message : String

/-- The declaration in a node, if it is of a form and names a module.  An export
list without a module is none. -/
def declaration? (form : ImportForm) (n : Node) : Option (Declaration × String) :=
  match form, n with
  | .imports, .importDeclaration d => d.module?.map fun m => (d, m)
  | .reexports, .exportDeclaration d => d.module?.map fun m => (d, m)
  | _, _ => none

/-- Groups with one more declaration; a module that is new gets a group at the
end. -/
def collect (form : ImportForm) (groups : Table ImportGroup) (d : Declaration) (module : String) :
    Table ImportGroup :=
  match Table.get? groups module with
  | some g => Table.put groups module (g.add d)
  | none => Table.put groups module ⟨form, module, d, []⟩

/-- Collects a node if it is a declaration at the top of the file. -/
def onDeclaration (form : ImportForm) (visit : Visit (Table ImportGroup)) (n : Node) :
    Table ImportGroup :=
  match visit.parent?, declaration? form n with
  | some (.program _), some (d, module) => collect form visit.state d module
  | _, _ => visit.state

/-- Reports a group. -/
def report (message : String) (g : ImportGroup) : Outcome Violation := do
  let m := g.merged
  let (edits, hint) ←
    match m.obstacle with
    | none => do
      let edits ← g.edits (g.render m)
      pure (edits, s!"Combine the {g.size} declarations into one")
    | some o => pure ([], s!"Combine manually: {o.message}")
  pure ⟨ImportGroup.nodeOf g.form g.first, message, edits, [.str hint],
    [("module", .str g.module), ("declarations", .nat g.size)]⟩

/-- Collects declarations and reports the covered groups at the end. -/
def listener (coverage : Coverage) : Listener (Table ImportGroup) where
  kinds := [.importDeclaration, .exportDeclaration]
  initial := []
  onNode visit n := .ok (onDeclaration coverage.form visit n, [])
  onEnd visit :=
    ((Table.values visit.state).filter fun g => g.isDuplicate && coverage.reports g).mapM
      (report coverage.message)

/-- Several imports from one module, all for types only or all not. -/
def duplicateImports : Rule :=
  Rule.ofListener
    { id := "IMPORTS.DUPLICATE_IMPORTS"
      name := "Duplicate Imports"
      category := "imports"
      description := "Prevents multiple import declarations from the same module."
      severity := .ok .medium
      fixable := true }
    (listener ⟨.imports, fun g => !g.mixesTypesAndValues,
      "Multiple imports from the same module should be combined"⟩)

/-- Several imports from one module, some for types only. -/
def typeImports : Rule :=
  Rule.ofListener
    { id := "IMPORTS.CONSOLIDATE_TYPE_IMPORTS"
      name := "Consolidate Type Imports"
      category := "imports"
      description :=
        "Consolidates separate 'import type' and value imports from the " ++
          "same module into one declaration with inline type specifiers."
      severity := .ok .medium
      languages := some ["tsx", "typescript"]
      fixable := true }
    (listener ⟨.imports, fun g => g.mixesTypesAndValues,
      "Consolidate separate imports from the same module into a single import"⟩)

/-- Several re-exports from one module. -/
def duplicateExports : Rule :=
  Rule.ofListener
    { id := "IMPORTS.DUPLICATE_EXPORTS"
      name := "Duplicate Module Exports"
      category := "imports"
      description := "Prevents multiple re-export declarations from the same module."
      severity := .ok .medium
      fixable := true }
    (listener ⟨.reexports, fun _ => true,
      "Multiple exports from the same module should be combined"⟩)

end TsxLint.Imports
