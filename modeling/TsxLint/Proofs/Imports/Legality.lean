/-
Module: TsxLint.Proofs.Imports.Legality
Purpose: When a group can be merged, and that its merge is a declaration that binds no name twice.
Main exports: ImportGroup.IsMergeable, ImportGroup.isSafe_iff, ModuleDeclaration,
  ImportGroup.BindsApart, ImportGroup.safe_merge_binds_once
-/
import TsxLint.Proofs.Imports.Canonical

namespace TsxLint

/-!
The obstacles to a merge are looked for one after another, and the first one that is found is
reported.  A group is safe if there is none: a declaration for types only has nothing but names in
braces, a namespace has no names in braces beside it, and no name is bound as a value and as a type.

Nothing is said of two values under one name, or two types.  A group without such a pair has a merge
that binds every name once.  That the merge is a declaration is read off the grammar, which lets a
default stand alone or before a namespace or before braces, and a namespace never beside braces.
-/

namespace ImportGroup

variable {g : ImportGroup}

/-! ### Safe groups -/

/-- Nothing stands in the way of merging a group. -/
structure IsMergeable (g : ImportGroup) : Prop where
  /-- A declaration for types only binds neither a default nor a namespace. -/
  typesInBraces : ∀ d ∈ g.declarations, d.typeOnly = true → ∀ s ∈ d.specifiers,
    (bindingOf g.form d s).bucket.hasOnePlace = false
  /-- A namespace is not beside names in braces. -/
  starAlone : g.merged.star = none ∨ g.merged.named = []
  /-- A type has another name than the default and the values in braces. -/
  typesApart : ∀ a, a ∈ g.merged.default ∨ a ∈ g.merged.named ∧ a.isTypeOnly = false →
    ∀ b ∈ g.merged.named, b.isTypeOnly = true → a.bound ≠ b.bound

theorem typeOnlyObstacle?_eq_none_iff (d : Declaration) (b : Binding) :
    typeOnlyObstacle? d b = none ↔ (d.typeOnly = true → b.bucket.hasOnePlace = false) := by
  unfold typeOnlyObstacle?
  cases d.typeOnly <;> cases b.bucket <;> simp [Bucket.hasOnePlace]

theorem typeOnlyObstacles_eq_nil_iff (g : ImportGroup) :
    g.typeOnlyObstacles = [] ↔ ∀ d ∈ g.declarations, d.typeOnly = true → ∀ s ∈ d.specifiers,
      (bindingOf g.form d s).bucket.hasOnePlace = false := by
  rw [typeOnlyObstacles, List.flatMap_eq_nil_iff]
  refine forall₂_congr fun d _ => ?_
  rw [List.filterMap_eq_nil_iff]
  constructor
  · intro hnone htype s hs
    exact (typeOnlyObstacle?_eq_none_iff d _).1 (hnone _ (List.mem_map_of_mem hs)) htype
  · intro hbraces b hb
    obtain ⟨s, hs, rfl⟩ := List.mem_map.1 hb
    exact (typeOnlyObstacle?_eq_none_iff d _).2 fun htype => hbraces htype s hs

theorem boundTwice?_eq_none_iff (default : Option Binding) (named : List Binding) :
    boundTwice? default named = none ↔
      ∀ a, a ∈ default ∨ a ∈ named ∧ a.isTypeOnly = false →
        ∀ b ∈ named, b.isTypeOnly = true → a.bound ≠ b.bound := by
  have hvalues : ∀ name, name ∈ valueNames default named ↔
      ∃ a, (a ∈ default ∨ a ∈ named ∧ a.isTypeOnly = false) ∧ a.bound = name := by
    intro name
    simp [valueNames, or_comm, or_and_right, exists_or]
  have htypes : ∀ name, name ∈ typeNames named ↔
      ∃ b, (b ∈ named ∧ b.isTypeOnly = true) ∧ b.bound = name := by
    intro name
    simp [typeNames]
  have hempty : boundTwice? default named = none ↔
      ∀ name ∈ typeNames named, name ∉ valueNames default named := by
    rw [boundTwice?, List.head?_eq_none_iff, ← List.length_eq_zero_iff, List.length_mergeSort,
      List.length_eq_zero_iff, List.filter_eq_nil_iff]
    simp
  rw [hempty]
  constructor
  · intro hapart a ha b hb htype heq
    exact hapart b.bound ((htypes _).2 ⟨b, ⟨hb, htype⟩, rfl⟩) ((hvalues _).2 ⟨a, ha, heq⟩)
  · intro hapart name hname hvalue
    obtain ⟨b, ⟨hb, htype⟩, rfl⟩ := (htypes name).1 hname
    obtain ⟨a, ha, heq⟩ := (hvalues b.bound).1 hvalue
    exact hapart a ha b hb htype heq

/-- There is no obstacle exactly if none of the three searches finds one. -/
theorem obstacle?_eq_none_iff (g : ImportGroup) :
    g.obstacle? = none ↔ g.typeOnlyObstacles = [] ∧
      (g.firstOf .star = none ∨ g.namedBindings = []) ∧
      boundTwice? (g.firstOf .default) g.namedBindings = none := by
  rw [← List.getLast?_eq_none_iff]
  unfold obstacle?
  cases g.typeOnlyObstacles.getLast? with
  | some o => simp
  | none =>
    cases g.firstOf .star with
    | none => simp
    | some star => cases g.namedBindings <;> simp

theorem isSafe_iff_obstacle?_eq_none (g : ImportGroup) :
    g.merged.isSafe = true ↔ g.obstacle? = none :=
  Option.isNone_iff_eq_none

/-- A group is safe exactly if nothing stands in the way of merging it. -/
theorem isSafe_iff (g : ImportGroup) : g.merged.isSafe = true ↔ g.IsMergeable := by
  rw [isSafe_iff_obstacle?_eq_none, obstacle?_eq_none_iff, typeOnlyObstacles_eq_nil_iff,
    boundTwice?_eq_none_iff]
  constructor
  · rintro ⟨htypes, hstar, hapart⟩
    exact ⟨htypes, hstar, hapart⟩
  · rintro ⟨htypes, hstar, hapart⟩
    exact ⟨htypes, hstar, hapart⟩

end ImportGroup

/-! ### The grammar -/

/-- A name in braces: perhaps for types only, and perhaps known by another name. -/
structure BracedName where
  typeOnly : Bool
  name : String
  renamed : Option String

namespace BracedName

/-- How a name in braces is written. -/
def text (n : BracedName) : String :=
  (if n.typeOnly then "type " else "") ++ n.name ++ (n.renamed.elim "" fun other => " as " ++ other)

/-- What a name in braces is known by. -/
def bound (n : BracedName) : String := n.renamed.getD n.name

end BracedName

/-- How names in braces are written. -/
def bracedText (names : List BracedName) : String :=
  "\x7b" ++ ", ".intercalate (names.map BracedName.text) ++ "\x7d"

/-- How a namespace is written. -/
def starText (name : String) : String := "* as " ++ name

/-- The declarations that name a module: an import for its effects, the five clauses of an import,
and a list of re-exports. -/
inductive ModuleDeclaration where
  | effects
  | default (name : String)
  | star (name : String)
  | braces (names : List BracedName)
  | defaultStar (name whole : String)
  | defaultBraces (name : String) (names : List BracedName)
  | reexports (names : List BracedName)

namespace ModuleDeclaration

/-- What a declaration does. -/
def form : ModuleDeclaration → ImportForm
  | .reexports _ => .reexports
  | _ => .imports

/-- How a declaration of a module is written. -/
def text (module : String) : ModuleDeclaration → String
  | .effects => "import " ++ module ++ ";"
  | .default name => "import " ++ name ++ " from " ++ module ++ ";"
  | .star name => "import " ++ starText name ++ " from " ++ module ++ ";"
  | .braces names => "import " ++ bracedText names ++ " from " ++ module ++ ";"
  | .defaultStar name whole =>
    "import " ++ name ++ ", " ++ starText whole ++ " from " ++ module ++ ";"
  | .defaultBraces name names =>
    "import " ++ name ++ ", " ++ bracedText names ++ " from " ++ module ++ ";"
  | .reexports names => "export " ++ bracedText names ++ " from " ++ module ++ ";"

/-- The names that a declaration binds, in order. -/
def bound : ModuleDeclaration → List String
  | .effects => []
  | .default name => [name]
  | .star name => [name]
  | .braces names => names.map BracedName.bound
  | .defaultStar name whole => [name, whole]
  | .defaultBraces name names => name :: names.map BracedName.bound
  | .reexports names => names.map BracedName.bound

end ModuleDeclaration

/-- A binding as a name in braces. -/
def Binding.bracedName (b : Binding) : BracedName :=
  ⟨b.isTypeOnly, b.imported, if b.imported = b.bound then none else some b.bound⟩

theorem Binding.bound_bracedName (b : Binding) : b.bracedName.bound = b.bound := by
  by_cases h : b.imported = b.bound <;> simp [bracedName, BracedName.bound, h]

theorem Binding.text_bracedName {b : Binding} (h : b.bucket.hasOnePlace = false) :
    b.bracedName.text = b.render := by
  have hrenamed : b.imported ++ (b.bracedName.renamed.elim "" fun other => " as " ++ other) =
      if b.imported = b.bound then b.imported else s!"{b.imported} as {b.bound}" := by
    by_cases hname : b.imported = b.bound
    · simp [bracedName, hname]
    · rw [if_neg hname, bracedName, if_neg hname]
      exact (String.append_assoc ..).symm
  rw [BracedName.text, String.append_assoc]
  obtain ⟨bucket, imported, bound⟩ := b
  cases bucket with
  | default | star => cases h
  | named => exact (String.empty_append ..).trans hrenamed
  | typeOnly => exact congrArg ("type " ++ ·) hrenamed

theorem bracedText_map {named : List Binding} (h : ∀ b ∈ named, b.bucket.hasOnePlace = false) :
    bracedText (named.map Binding.bracedName) = ImportGroup.braced named := by
  have htexts : (named.map Binding.bracedName).map BracedName.text = named.map Binding.render := by
    rw [List.map_map]
    exact List.map_congr_left fun b hb => Binding.text_bracedName (h b hb)
  rw [bracedText, ImportGroup.braced, htexts]

theorem map_bound_bracedName (named : List Binding) :
    (named.map Binding.bracedName).map BracedName.bound = named.map Binding.bound := by
  rw [List.map_map]
  exact List.map_congr_left fun b _ => b.bound_bracedName

namespace ModuleDeclaration

/-- How an import of the given items is written. -/
def importText (module : String) (items : List String) : String :=
  if items.isEmpty then "import " ++ module ++ ";"
  else "import " ++ ", ".intercalate items ++ " from " ++ module ++ ";"

/-- The items of an import: a default, a namespace, and names in braces. -/
def itemsOf (default star : Option String) (names : List BracedName) : List String :=
  default.toList ++ (star.map starText).toList ++
    (if names.isEmpty then [] else [bracedText names])

theorem importText_one (module item : String) :
    importText module [item] = "import " ++ item ++ " from " ++ module ++ ";" := by
  rw [importText, if_neg (by simp), String.intercalate_singleton]

theorem importText_two (module item item' : String) :
    importText module [item, item'] =
      "import " ++ item ++ ", " ++ item' ++ " from " ++ module ++ ";" := by
  rw [importText, if_neg (by simp), String.intercalate_cons_cons, String.intercalate_singleton,
    ← String.append_assoc, ← String.append_assoc]

/-- The grammar has an import for every default, namespace and names of which the latter two are
not beside one another. -/
theorem exists_import (default star : Option String) {names : List BracedName}
    (h : star = none ∨ names = []) :
    ∃ d : ModuleDeclaration, d.form = .imports ∧
      (∀ module, d.text module = importText module (itemsOf default star names)) ∧
      d.bound = default.toList ++ star.toList ++ names.map BracedName.bound := by
  cases star with
  | some whole =>
    obtain rfl := h.resolve_left (Option.some_ne_none whole)
    cases default with
    | none => exact ⟨.star whole, rfl, fun _ => (importText_one ..).symm, rfl⟩
    | some name => exact ⟨.defaultStar name whole, rfl, fun _ => (importText_two ..).symm, rfl⟩
  | none =>
    cases default with
    | none =>
      cases names with
      | nil => exact ⟨.effects, rfl, fun _ => rfl, rfl⟩
      | cons n rest =>
        exact ⟨.braces (n :: rest), rfl, fun _ => (importText_one ..).symm, rfl⟩
    | some name =>
      cases names with
      | nil => exact ⟨.default name, rfl, fun _ => (importText_one ..).symm, rfl⟩
      | cons n rest =>
        exact ⟨.defaultBraces name (n :: rest), rfl, fun _ => (importText_two ..).symm, rfl⟩

end ModuleDeclaration

/-! ### The merged declaration -/

theorem Binding.render_default {b : Binding} (h : b.bucket = .default) : b.render = b.bound := by
  simp only [render, h]

theorem Binding.render_star {b : Binding} (h : b.bucket = .star) :
    b.render = starText b.bound := by
  simp only [render, h]
  rfl

namespace ImportGroup

variable {g : ImportGroup}

theorem bracedText_named (g : ImportGroup) :
    bracedText (g.merged.named.map Binding.bracedName) = braced g.merged.named :=
  bracedText_map fun b hb => ((mem_namedBindings_iff g b).1 hb).2

theorem importItems_eq (g : ImportGroup) :
    importItems g.merged = ModuleDeclaration.itemsOf (g.merged.default.map Binding.bound)
      (g.merged.star.map Binding.bound) (g.merged.named.map Binding.bracedName) := by
  have hdefault : g.merged.default.map Binding.render = g.merged.default.map Binding.bound :=
    Option.map_congr fun b hb => Binding.render_default (bucket_of_firstOf hb)
  have hstar : g.merged.star.map Binding.render =
      (g.merged.star.map Binding.bound).map starText := by
    rw [Option.map_map]
    exact Option.map_congr fun b hb => Binding.render_star (bucket_of_firstOf hb)
  rw [importItems, ModuleDeclaration.itemsOf, hdefault, hstar, bracedText_named, List.isEmpty_map]

/-- What a merge of imports writes is an import of the grammar. -/
theorem IsMergeable.exists_import (h : g.IsMergeable) :
    ∃ d : ModuleDeclaration, d.form = .imports ∧
      d.text g.moduleText = g.renderImport g.merged ∧
      d.bound = g.merged.bindings.map Binding.bound := by
  have halone : g.merged.star.map Binding.bound = none ∨
      g.merged.named.map Binding.bracedName = [] :=
    h.starAlone.imp (fun hstar => by rw [hstar]; rfl) (fun hnamed => by rw [hnamed]; rfl)
  obtain ⟨d, hform, htext, hbound⟩ :=
    ModuleDeclaration.exists_import (g.merged.default.map Binding.bound) _ halone
  refine ⟨d, hform, ?_, ?_⟩
  · rw [htext, ← importItems_eq]
    rfl
  · rw [hbound, map_bound_bracedName, MergedBindings.bindings, List.map_append, List.map_append,
      Option.toList_map, Option.toList_map]

theorem firstOf_eq_none_of_reexports (hform : g.form = .reexports) {bucket : Bucket}
    (hplace : bucket.hasOnePlace = true) : g.firstOf bucket = none := by
  cases hfirst : g.firstOf bucket with
  | none => rfl
  | some b =>
    have hmem := ((mem_firstOf_iff g bucket b).1 (by rw [hfirst]; exact List.mem_singleton_self b)).2
    have hbraces := hasOnePlace_of_reexports hform hmem.mem
    rw [bucket_of_firstOf hfirst, hplace] at hbraces
    cases hbraces

/-- What a merge of re-exports writes is a list of re-exports. -/
theorem exists_reexports (hform : g.form = .reexports) :
    ∃ d : ModuleDeclaration, d.form = .reexports ∧
      d.text g.moduleText = g.renderExport g.merged ∧
      d.bound = g.merged.bindings.map Binding.bound := by
  have hdefault : g.merged.default = none := firstOf_eq_none_of_reexports hform rfl
  have hstar : g.merged.star = none := firstOf_eq_none_of_reexports hform rfl
  refine ⟨.reexports (g.merged.named.map Binding.bracedName), rfl, ?_, ?_⟩
  · exact congrArg (fun names => "export " ++ names ++ " from " ++ g.moduleText ++ ";")
      (bracedText_named g)
  · rw [ModuleDeclaration.bound, map_bound_bracedName, MergedBindings.bindings, hdefault, hstar]
    rfl

/-- A safe merge writes a declaration of the grammar, and one of the same bound names. -/
theorem IsMergeable.exists_moduleDeclaration (h : g.IsMergeable) :
    ∃ d : ModuleDeclaration, d.form = g.form ∧ d.text g.moduleText = g.render g.merged ∧
      d.bound = g.merged.bindings.map Binding.bound := by
  cases hform : g.form with
  | imports =>
    rw [render, hform]
    exact h.exists_import
  | reexports =>
    rw [render, hform]
    exact exists_reexports hform

/-! ### Names bound once -/

/-- No two values of a group share a bound name, and no two types. -/
def BindsApart (g : ImportGroup) : Prop :=
  ∀ a ∈ g.bindings, ∀ b ∈ g.bindings, a.isTypeOnly = b.isTypeOnly → a.bound = b.bound → a = b

instance (g : ImportGroup) : Decidable g.BindsApart :=
  inferInstanceAs (Decidable (∀ a ∈ g.bindings, ∀ b ∈ g.bindings,
    a.isTypeOnly = b.isTypeOnly → a.bound = b.bound → a = b))

theorem mem_bindings_of_mem_merged {b : Binding} (h : b ∈ g.merged.bindings) : b ∈ g.bindings :=
  ((mem_merged_bindings_iff g b).1 h).1

theorem nodup_merged_bindings (g : ImportGroup) : g.merged.bindings.Nodup := by
  have hnodup : ∀ o : Option Binding, o.toList.Nodup := by
    intro o
    cases o with
    | none => exact .nil
    | some b => exact List.nodup_singleton b
  have hnamed : ∀ b, b ∈ g.merged.named → b.bucket.hasOnePlace = false := fun b hb =>
    ((mem_namedBindings_iff g b).1 hb).2
  rw [MergedBindings.bindings, List.nodup_append, List.nodup_append]
  refine ⟨⟨hnodup _, hnodup _, ?_⟩, g.nodup_namedBindings, ?_⟩
  · rintro a ha b hb rfl
    have hdefault := bucket_of_mem_firstOf ha
    have hstar := bucket_of_mem_firstOf hb
    rw [hdefault] at hstar
    cases hstar
  · rintro a ha b hb rfl
    have hbraces := hnamed a hb
    rcases List.mem_append.1 ha with hdefault | hstar
    · rw [bucket_of_mem_firstOf hdefault] at hbraces
      cases hbraces
    · rw [bucket_of_mem_firstOf hstar] at hbraces
      cases hbraces

/-- A type that a mergeable group binds has another name than any value that the merge keeps. -/
theorem IsMergeable.bound_ne (h : g.IsMergeable) {a b : Binding} (ha : a ∈ g.merged.bindings)
    (hb : b ∈ g.merged.bindings) (hvalue : a.isTypeOnly = false) (htype : b.isTypeOnly = true) :
    a.bound ≠ b.bound := by
  have hbucket : b.bucket = .typeOnly := by simpa [Binding.isTypeOnly] using htype
  have hnamed : b ∈ g.merged.named := (mem_namedBindings_iff g b).2
    ⟨mem_bindings_of_mem_merged hb, by rw [hbucket]; rfl⟩
  rcases List.mem_append.1 ha with hplace | hbraces
  · rcases List.mem_append.1 hplace with hdefault | hstar
    · exact h.typesApart a (.inl (Option.mem_toList.1 hdefault)) b hnamed htype
    · -- a namespace has no type beside it
      rcases h.starAlone with hnone | hnil
      · rw [hnone] at hstar
        cases hstar
      · rw [hnil] at hnamed
        cases hnamed
  · exact h.typesApart a (.inr ⟨hbraces, hvalue⟩) b hnamed htype

/-- A mergeable group that binds no value twice and no type twice has a merge that binds no name
twice. -/
theorem IsMergeable.nodup_bound (h : g.IsMergeable) (hapart : g.BindsApart) :
    (g.merged.bindings.map Binding.bound).Nodup := by
  refine List.Nodup.map_on ?_ g.nodup_merged_bindings
  intro a ha b hb hbound
  cases htype : a.isTypeOnly <;> cases htype' : b.isTypeOnly
  case false.true => exact absurd hbound (h.bound_ne ha hb htype htype')
  case true.false => exact absurd hbound.symm (h.bound_ne hb ha htype' htype)
  all_goals
    exact hapart a (mem_bindings_of_mem_merged ha) b (mem_bindings_of_mem_merged hb)
      (htype.trans htype'.symm) hbound

/-- A group that is safe, and that binds no two values and no two types under one name, has a merge
that binds each of its names once.  The merge has no namespace beside names in braces, no default
and no namespace comes from a declaration for types only, and what is written is a declaration of
the grammar that binds these names. -/
theorem safe_merge_binds_once (g : ImportGroup) (hsafe : g.merged.isSafe = true)
    (hapart : g.BindsApart) :
    (g.merged.bindings.map Binding.bound).Nodup ∧
    (g.merged.star = none ∨ g.merged.named = []) ∧
    (∀ d ∈ g.declarations, d.typeOnly = true → ∀ s ∈ d.specifiers,
      (bindingOf g.form d s).bucket.hasOnePlace = false) ∧
    ∃ d : ModuleDeclaration, d.form = g.form ∧ d.text g.moduleText = g.render g.merged ∧
      d.bound = g.merged.bindings.map Binding.bound := by
  have h := g.isSafe_iff.1 hsafe
  exact ⟨h.nodup_bound hapart, h.starAlone, h.typesInBraces, h.exists_moduleDeclaration⟩

/-! ### A default, a value and a type -/

/-- A default beside a value, and a type whose declaration is for types only. -/
def valuesAndType : ImportGroup :=
  let specifier (kind : SpecifierKind) (name : String) : Specifier :=
    ⟨default, kind, name, name, false⟩
  ⟨.imports, "m",
    ⟨default, none, [specifier .default "d", specifier .named "a"], false⟩,
    [⟨default, none, [specifier .named "T"], true⟩]⟩

theorem isSafe_valuesAndType : valuesAndType.merged.isSafe = true := by cbv

/-- The type moves into the braces of one import, which binds the three names. -/
theorem safe_merge_binds_once_mixed :
    valuesAndType.merged.isSafe = true ∧ valuesAndType.BindsApart ∧
      (valuesAndType.merged.bindings.map Binding.bound).Nodup ∧
      valuesAndType.render valuesAndType.merged = "import d, \x7ba, type T\x7d from \x22m\x22;" := by
  have hsafe := isSafe_valuesAndType
  have hapart : valuesAndType.BindsApart := by decide
  exact ⟨hsafe, hapart, (safe_merge_binds_once valuesAndType hsafe hapart).1, by cbv⟩

end ImportGroup

end TsxLint
