/-
Module: TsxLint.Imports.Group
Purpose: Declarations that name one module, and their bindings.
Main exports: ImportGroup, Bucket, Binding, ImportGroup.bindings
-/
import TsxLint.Source.Node
import TsxLint.Fault

namespace TsxLint

/-!
Imports from one module can be merged into one declaration, and so can
re-exports.  A group holds the declarations in question, at least one; what it
binds is the list of the bindings of all their specifiers.
-/

/-- What the declarations of a group do. -/
inductive ImportForm where
  | imports
  | reexports
deriving DecidableEq, Repr, Inhabited

/-- The declarations of one file that name the same module. -/
structure ImportGroup where
  form : ImportForm
  module : String
  first : Declaration
  later : List Declaration
deriving Repr, Inhabited

/-- The parts that a merged declaration is put together from. -/
inductive Bucket where
  | default
  | star
  | named
  | typeOnly
deriving DecidableEq, Repr, Inhabited

/-- The name of a bucket. -/
def Bucket.name : Bucket → String
  | .default => "default"
  | .star => "namespace"
  | .named => "named"
  | .typeOnly => "type"

/-- What one specifier binds. -/
structure Binding where
  bucket : Bucket
  imported : String
  bound : String
deriving DecidableEq, Repr, Inhabited

namespace Binding

/-- The text of a binding in a declaration. -/
def render (b : Binding) : String :=
  let renamed := if b.imported = b.bound then b.imported else s!"{b.imported} as {b.bound}"
  match b.bucket with
  | .default => b.bound
  | .star => s!"* as {b.bound}"
  | .named => renamed
  | .typeOnly => s!"type {renamed}"

/-- Whether a binding is for types only. -/
def isTypeOnly (b : Binding) : Bool := b.bucket = .typeOnly

/-- The order of bindings in a declaration: values before types, then by the name
at the module, then by the bound name. -/
def notAfter (a b : Binding) : Bool :=
  if a.isTypeOnly != b.isTypeOnly then b.isTypeOnly
  else if a.imported != b.imported then decide (a.imported < b.imported)
  else !decide (b.bound < a.bound)

end Binding

namespace ImportGroup

/-- The group of the given declarations, of which there has to be one. -/
def ofList (form : ImportForm) (module : String) : List Declaration → Outcome ImportGroup
  | [] => .error .indexOutOfRange
  | first :: later => .ok ⟨form, module, first, later⟩

/-- All declarations, in order. -/
def declarations (g : ImportGroup) : List Declaration := g.first :: g.later

/-- How many declarations there are. -/
def size (g : ImportGroup) : Nat := g.later.length + 1

/-- Whether there is more than one declaration. -/
def isDuplicate (g : ImportGroup) : Bool := !g.later.isEmpty

/-- Whether some of the declarations are for types only and some are not. -/
def mixesTypesAndValues (g : ImportGroup) : Bool :=
  g.declarations.any (·.typeOnly) && g.declarations.any (!·.typeOnly)

/-- A group with one more declaration. -/
def add (g : ImportGroup) (d : Declaration) : ImportGroup :=
  { g with later := g.later ++ [d] }

/-- The bucket of a specifier.  Re-exports have no default and no namespace. -/
def bucketOf (form : ImportForm) (d : Declaration) (s : Specifier) : Bucket :=
  match form, s.kind with
  | .imports, .default => .default
  | .imports, .star => .star
  | _, _ => if d.typeOnly || s.typeOnly then .typeOnly else .named

/-- What a specifier binds. -/
def bindingOf (form : ImportForm) (d : Declaration) (s : Specifier) : Binding :=
  ⟨bucketOf form d s, s.imported, s.bound⟩

/-- What a group binds, specifier by specifier. -/
def bindings (g : ImportGroup) : List Binding :=
  g.declarations.flatMap fun d => d.specifiers.map (bindingOf g.form d)

/-- The declaration as a node. -/
def nodeOf (form : ImportForm) (d : Declaration) : Node :=
  match form with
  | .imports => .importDeclaration d
  | .reexports => .exportDeclaration d

end ImportGroup

end TsxLint
