/-
Module: TsxLint.Imports.Merge
Purpose: Merging the declarations of a group into one.
Main exports: MergeObstacle, MergedBindings, ImportGroup.merged, ImportGroup.render
-/
import TsxLint.Imports.Group
import TsxLint.Edit.Basic

namespace TsxLint

/-!
A merged declaration has one default, one namespace and a sorted list of names in
braces, each once.  Three things stand in the way of writing it: a default or a
namespace that was imported for types only, a namespace beside names in braces,
and a name that is bound as a value and as a type.
-/

/-- Why a group cannot be merged. -/
inductive MergeObstacle where
  /-- A type-only declaration binds a default or a namespace. -/
  | typeOnly (bucket : Bucket) (bound : String)
  /-- A namespace and names in braces cannot share a declaration. -/
  | starBesideNames (bound : String)
  /-- One declaration cannot bind a name twice. -/
  | boundTwice (bound : String)
deriving DecidableEq, Repr, Inhabited

/-- The wording of an obstacle. -/
def MergeObstacle.message : MergeObstacle → String
  | .typeOnly bucket bound =>
    s!"type-only {bucket.name} import '{bound}' cannot be merged inline"
  | .starBesideNames bound =>
    s!"namespace import '{bound}' cannot share a declaration with named imports"
  | .boundTwice bound => s!"'{bound}' is bound both as a value and as a type"

/-- The bindings of a group, sorted into what a declaration is made of. -/
structure MergedBindings where
  default : Option Binding
  star : Option Binding
  named : List Binding
  obstacle : Option MergeObstacle
deriving Repr, Inhabited

/-- Whether a declaration with these bindings can be written. -/
def MergedBindings.isSafe (m : MergedBindings) : Bool := m.obstacle.isNone

namespace ImportGroup

/-- The obstacle that a single binding of a declaration is. -/
def typeOnlyObstacle? (d : Declaration) (b : Binding) : Option MergeObstacle :=
  if d.typeOnly && (b.bucket = .default || b.bucket = .star) then
    some (.typeOnly b.bucket b.bound)
  else none

/-- The obstacles that single bindings are, in order. -/
def typeOnlyObstacles (g : ImportGroup) : List MergeObstacle :=
  g.declarations.flatMap fun d =>
    (d.specifiers.map (bindingOf g.form d)).filterMap (typeOnlyObstacle? d)

/-- The first binding of a bucket. -/
def firstOf (g : ImportGroup) (bucket : Bucket) : Option Binding :=
  g.bindings.find? fun b => b.bucket = bucket

/-- The bindings in braces: each once, in order. -/
def namedBindings (g : ImportGroup) : List Binding :=
  (g.bindings.filter fun b => b.bucket = .named || b.bucket = .typeOnly).eraseDups.mergeSort
    Binding.notAfter

/-- The names bound as values, namespaces aside. -/
def valueNames (default : Option Binding) (named : List Binding) : List String :=
  ((named.filter (!·.isTypeOnly)) ++ default.toList).map (·.bound)

/-- The names bound as types. -/
def typeNames (named : List Binding) : List String :=
  (named.filter (·.isTypeOnly)).map (·.bound)

/-- The least name that is bound as a value and as a type. -/
def boundTwice? (default : Option Binding) (named : List Binding) : Option String :=
  let values := valueNames default named
  (((typeNames named).filter values.contains).mergeSort fun a b => !decide (b < a)).head?

/-- What stands in the way of merging a group.  Of several type-only bindings
the last one is named. -/
def obstacle? (g : ImportGroup) : Option MergeObstacle :=
  let named := g.namedBindings
  match g.typeOnlyObstacles.getLast?, g.firstOf .star with
  | some o, _ => some o
  | none, some star =>
    if named.isEmpty then (boundTwice? (g.firstOf .default) named).map .boundTwice
    else some (.starBesideNames star.bound)
  | none, none => (boundTwice? (g.firstOf .default) named).map .boundTwice

/-- The bindings of a group, sorted into what a declaration is made of. -/
def merged (g : ImportGroup) : MergedBindings :=
  ⟨g.firstOf .default, g.firstOf .star, g.namedBindings, g.obstacle?⟩

/-! ### Writing the merged declaration -/

/-- The module as the first declaration writes it. -/
def moduleText (g : ImportGroup) : String :=
  match g.first.source with
  | some l => l.raw
  | none => "\x22" ++ g.module ++ "\x22"

/-- Names in braces. -/
def braced (named : List Binding) : String :=
  "\x7b" ++ ", ".intercalate (named.map Binding.render) ++ "\x7d"

/-- The text of an import with the given bindings; without any, the module is
only run. -/
def renderImport (g : ImportGroup) (m : MergedBindings) : String :=
  let parts :=
    (m.default.map Binding.render).toList ++ (m.star.map Binding.render).toList ++
      (if m.named.isEmpty then [] else [braced m.named])
  if parts.isEmpty then s!"import {g.moduleText};"
  else "import " ++ ", ".intercalate parts ++ " from " ++ g.moduleText ++ ";"

/-- The text of a re-export with the given bindings. -/
def renderExport (g : ImportGroup) (m : MergedBindings) : String :=
  "export " ++ braced m.named ++ " from " ++ g.moduleText ++ ";"

/-- The text of the merged declaration. -/
def render (g : ImportGroup) (m : MergedBindings) : String :=
  match g.form with
  | .imports => g.renderImport m
  | .reexports => g.renderExport m

/-- The edits that put a text in place of the first declaration and take the
others out. -/
def edits (g : ImportGroup) (replacement : String) : Outcome (List Edit) := do
  let first ← Edit.between g.first.span.start g.first.span.stop replacement
  let later ← g.later.mapM fun d => Edit.between d.span.start d.span.stop ""
  pure (first :: later)

end ImportGroup

end TsxLint
