/-
Module: TsxLint.Proofs.Imports.Fixpoint
Purpose: Merging what a merge wrote changes nothing.
Main exports: ImportGroup.IsMergeOf, ImportGroup.collapsed, ImportGroup.declarationOf,
  ImportGroup.merged_collapsed
-/
import TsxLint.Proofs.Imports.Legality

namespace TsxLint

/-!
The bindings of a merge, written as the specifiers of one declaration, are a group again.  This
group binds what the merge kept and nothing else, so it has the same first default and namespace
and the same names in braces, and nothing stands in its way that did not stand in the way before.
Where types came from a declaration for types only, they are now marked one by one.
-/

/-- The kind of a specifier with a binding of a bucket. -/
def Bucket.kind : Bucket → SpecifierKind
  | .default => .default
  | .star => .star
  | .named => .named
  | .typeOnly => .named

/-- A specifier says what a binding is, in a declaration that is not for types only. -/
structure Binding.IsWritten (b : Binding) (s : Specifier) : Prop where
  kind : s.kind = b.bucket.kind
  imported : s.imported = b.imported
  bound : s.bound = b.bound
  typeOnly : s.typeOnly = b.isTypeOnly

/-- A specifier binds what it is written for.  In a re-export it stands in braces whatever its kind
is, so there the binding has to be one that does. -/
theorem Binding.IsWritten.bindingOf_eq {form : ImportForm} {d : Declaration} {b : Binding}
    {s : Specifier} (h : b.IsWritten s) (htypes : d.typeOnly = false)
    (hbraces : form = .reexports → b.bucket.hasOnePlace = false) :
    ImportGroup.bindingOf form d s = b := by
  have hbucket : ImportGroup.bucketOf form d s = b.bucket := by
    have htype : s.typeOnly = decide (b.bucket = .typeOnly) := h.typeOnly
    unfold ImportGroup.bucketOf
    rw [h.kind, htypes, htype]
    cases hbucket : b.bucket with
    | default | star =>
      cases form with
      | imports => rfl
      | reexports =>
        have := hbraces rfl
        rw [hbucket] at this
        cases this
    | named | typeOnly => cases form <;> rfl
  rw [ImportGroup.bindingOf, hbucket, h.imported, h.bound]

namespace ImportGroup

variable {g : ImportGroup} {d : Declaration}

/-- A declaration of a module has the bindings of a merge for its specifiers, in the order in which
the merge writes them. -/
structure IsMergeOf (g : ImportGroup) (d : Declaration) : Prop where
  source : d.source = g.first.source
  typeOnly : d.typeOnly = false
  specifiers : List.Forall₂ Binding.IsWritten g.merged.bindings d.specifiers

/-- The group of a single declaration in the place of a whole group. -/
def collapsed (g : ImportGroup) (d : Declaration) : ImportGroup := ⟨g.form, g.module, d, []⟩

theorem map_bindingOf_eq {form : ImportForm} (htypes : d.typeOnly = false) {bs : List Binding}
    {specifiers : List Specifier} (h : List.Forall₂ Binding.IsWritten bs specifiers)
    (hbraces : form = .reexports → ∀ b ∈ bs, b.bucket.hasOnePlace = false) :
    specifiers.map (bindingOf form d) = bs := by
  induction h with
  | nil => rfl
  | cons hwritten _ ih =>
    have hhead := hwritten.bindingOf_eq (d := d) htypes fun hform =>
      hbraces hform _ (List.mem_cons_self ..)
    have htail := ih fun hform b hb => hbraces hform b (List.mem_cons_of_mem _ hb)
    rw [List.map_cons, hhead, htail]

/-- The declaration binds what the merge kept. -/
theorem IsMergeOf.bindings_collapsed (h : g.IsMergeOf d) :
    (g.collapsed d).bindings = g.merged.bindings := by
  have hbraces : g.form = .reexports → ∀ b ∈ g.merged.bindings, b.bucket.hasOnePlace = false :=
    fun hform b hb => hasOnePlace_of_reexports hform (mem_bindings_of_mem_merged hb)
  have hmap := map_bindingOf_eq h.typeOnly h.specifiers hbraces
  rw [bindings, declarations, List.flatMap_cons]
  exact (List.append_nil _).trans hmap

/-! ### The parts -/

/-- The first binding of a bucket is found exactly if this is the bucket that is looked for. -/
theorem find?_firstOf (g : ImportGroup) (bucket other : Bucket) :
    (g.firstOf bucket).toList.find? (fun b => b.bucket = other) =
      if bucket = other then g.firstOf bucket else none := by
  cases hfirst : g.firstOf bucket with
  | none => simp
  | some b =>
    have hbucket := bucket_of_firstOf hfirst
    by_cases h : bucket = other <;> simp [hbucket, h]

theorem find?_named {bucket : Bucket} (hplace : bucket.hasOnePlace = true) :
    g.merged.named.find? (fun b => b.bucket = bucket) = none := by
  rw [List.find?_eq_none]
  intro b hb hbucket
  have hbraces := ((mem_namedBindings_iff g b).1 hb).2
  rw [of_decide_eq_true hbucket, hplace] at hbraces
  cases hbraces

theorem IsMergeOf.firstOf_collapsed (h : g.IsMergeOf d) {bucket : Bucket}
    (hplace : bucket.hasOnePlace = true) :
    (g.collapsed d).firstOf bucket = g.firstOf bucket := by
  have hparts : g.merged.bindings =
      (g.firstOf .default).toList ++ (g.firstOf .star).toList ++ g.merged.named := rfl
  rw [firstOf, h.bindings_collapsed, hparts, List.find?_append, List.find?_append,
    find?_firstOf, find?_firstOf, find?_named hplace]
  cases bucket with
  | default => simp
  | star => simp
  | named | typeOnly => cases hplace

theorem IsMergeOf.namedBindings_collapsed (h : g.IsMergeOf d) :
    (g.collapsed d).namedBindings = g.namedBindings := by
  apply namedBindings_congr
  intro b hbraces
  rw [h.bindings_collapsed, mem_merged_bindings_iff]
  constructor
  · exact And.left
  · intro hb
    exact ⟨hb, fun hplace => by rw [hbraces] at hplace; cases hplace⟩

theorem IsMergeOf.moduleText_collapsed (h : g.IsMergeOf d) :
    (g.collapsed d).moduleText = g.moduleText := by
  rw [moduleText, moduleText, collapsed, h.source]

/-- Nothing stands in the way of merging what was merged. -/
theorem IsMergeOf.isMergeable_collapsed (h : g.IsMergeOf d) (hg : g.IsMergeable) :
    (g.collapsed d).IsMergeable := by
  have hdefault : (g.collapsed d).merged.default = g.merged.default := h.firstOf_collapsed rfl
  have hstar : (g.collapsed d).merged.star = g.merged.star := h.firstOf_collapsed rfl
  have hnamed : (g.collapsed d).merged.named = g.merged.named := h.namedBindings_collapsed
  constructor
  · intro d' hd' htypes
    obtain rfl : d' = d := List.mem_singleton.1 hd'
    rw [h.typeOnly] at htypes
    cases htypes
  · rw [hstar, hnamed]
    exact hg.starAlone
  · rw [hdefault, hnamed]
    exact hg.typesApart

/-- The merge of a safe group, written as one declaration, is safe and is its own merge: it has the
same default, the same namespace, the same names in braces, and the same text as an import and as
a re-export. -/
theorem merged_collapsed (g : ImportGroup) (d : Declaration) (hsafe : g.merged.isSafe = true)
    (h : g.IsMergeOf d) :
    (g.collapsed d).merged.isSafe = true ∧
    (g.collapsed d).merged = g.merged ∧
    (g.collapsed d).renderImport (g.collapsed d).merged = g.renderImport g.merged ∧
    (g.collapsed d).renderExport (g.collapsed d).merged = g.renderExport g.merged := by
  have hsafe' : (g.collapsed d).merged.isSafe = true :=
    (isSafe_iff _).2 (h.isMergeable_collapsed (g.isSafe_iff.1 hsafe))
  have hobstacle : (g.collapsed d).obstacle? = g.obstacle? := by
    rw [(isSafe_iff_obstacle?_eq_none _).1 hsafe', (isSafe_iff_obstacle?_eq_none g).1 hsafe]
  have hmerged : (g.collapsed d).merged = g.merged := by
    rw [merged, merged, h.firstOf_collapsed rfl, h.firstOf_collapsed rfl,
      h.namedBindings_collapsed, hobstacle]
  refine ⟨hsafe', hmerged, ?_, ?_⟩
  · rw [hmerged, renderImport, renderImport, h.moduleText_collapsed]
  · rw [hmerged, renderExport, renderExport, h.moduleText_collapsed]

/-! ### A declaration of the merge -/

/-- The merge as a declaration in the place of the first one. -/
def declarationOf (g : ImportGroup) : Declaration :=
  let span := g.first.span
  ⟨span, g.first.source,
    g.merged.bindings.map fun b => ⟨span, b.bucket.kind, b.imported, b.bound, b.isTypeOnly⟩, false⟩

theorem isMergeOf_declarationOf (g : ImportGroup) : g.IsMergeOf g.declarationOf := by
  refine ⟨rfl, rfl, ?_⟩
  rw [declarationOf, List.forall₂_map_right_iff, List.forall₂_same]
  intro b _
  exact ⟨rfl, rfl, rfl, rfl⟩

/-- The type that a declaration for types only imported is marked, and stays where it is. -/
theorem merged_collapsed_mixed :
    valuesAndType.merged.isSafe = true ∧ valuesAndType.IsMergeOf valuesAndType.declarationOf ∧
      valuesAndType.declarationOf.specifiers.map (·.typeOnly) = [false, false, true] ∧
      (valuesAndType.collapsed valuesAndType.declarationOf).merged = valuesAndType.merged := by
  have hsafe := isSafe_valuesAndType
  have hmerge := valuesAndType.isMergeOf_declarationOf
  obtain ⟨-, hmerged, -⟩ := merged_collapsed valuesAndType valuesAndType.declarationOf hsafe hmerge
  exact ⟨hsafe, hmerge, by cbv, hmerged⟩

end ImportGroup

end TsxLint
