/-
Module: TsxLint.Proofs.Rules.HelperImport
Purpose: The import of the helper is added where it is missing, and once.
Main exports: ClassNames.ImportsHelper, ClassNames.BindsHelper, ClassNames.helper_imported_once
-/
import Mathlib.Data.List.TakeWhile
import TsxLint.Proofs.Edit.Acceptance
import TsxLint.Proofs.Rules.ClassLists

namespace TsxLint.ClassNames

/-!
Every violation of a file brings the import along, so that each of them can be mended without the
others.  There is always a place for it: the attribute is in some statement of the file, and that
statement is no directive.  All violations bring the same insertion, at the same place.  An edit
touches itself, so a pass that accepts one of the violations puts the others off.
-/

variable {source : SourceFile} {options : Options} {vs : List Violation} {v : Violation}

/-- An edit that inserts the import of the helper. -/
def ImportsHelper (source : SourceFile) (options : Options) (e : Edit) : Prop :=
  e.isInsertion = true ∧ IsImportText source options e.text

/-- An import declaration of the file binds the name of the helper. -/
def BindsHelper (source : SourceFile) (options : Options) : Prop :=
  ∃ helper, options.need "helper" = .ok helper ∧
    ∃ statement ∈ source.program.body, bindsName helper statement = true

/-! ### The two edits told apart -/

/-- The import begins with a line break or a letter. -/
theorem head?_of_isImportText {text : String} (h : IsImportText source options text) :
    text.toList.head? = some '\r' ∨ text.toList.head? = some '\n' ∨
      text.toList.head? = some 'i' := by
  obtain ⟨helper, module, -, -, rfl | rfl⟩ := h
  · rw [SourceFile.newline]
    split
    · exact .inl (by simp)
    · exact .inr (.inl (by simp))
  · exact .inr (.inr (by simp [importStatement]))

theorem importsHelper_of_importEdit? {e : Edit} (h : importEdit? source options = .ok (some e)) :
    ImportsHelper source options e := by
  obtain ⟨place, statement, he, htext, -⟩ := insertion_cases h
  obtain ⟨hstart, hstop, rfl⟩ := Edit.between_eq_ok_iff.1 he
  refine ⟨?_, htext⟩
  have : e.start = e.stop := Int.ofNat_inj.1 (hstart.trans hstop.symm)
  simp [Edit.isInsertion, this]

/-- The edit of the attribute's value does not import anything. -/
theorem IsMade.not_importsHelper {a : Attribute Node} {c : Container Node} {t : Template Node}
    {edit : Edit} {imported : Option Edit} (h : IsMade source options a v c t edit imported) :
    ¬ ImportsHelper source options edit := by
  rintro ⟨-, htext⟩
  obtain ⟨helper, replacement, -, -, hedit⟩ := h.edit_eq
  have hhead := head?_of_isImportText htext
  rw [(Edit.between_eq_ok_iff.1 hedit).2.2] at hhead
  simp at hhead

/-- The edits of a violation that import the helper. -/
theorem IsMade.importsHelper_iff {a : Attribute Node} {c : Container Node} {t : Template Node}
    {edit : Edit} {imported : Option Edit} (h : IsMade source options a v c t edit imported)
    (e : Edit) : (e ∈ v.edits ∧ ImportsHelper source options e) ↔ imported = some e := by
  rw [h.edits_eq]
  constructor
  · rintro ⟨hmem, himports⟩
    rcases List.mem_append.1 hmem with himported | hedit
    · exact Option.mem_toList.1 himported
    · cases List.mem_singleton.1 hedit
      exact absurd himports h.not_importsHelper
  · rintro rfl
    exact ⟨by simp, importsHelper_of_importEdit? h.imported_eq⟩

/-! ### A place for the import -/

/-- A file with an attribute has a statement that is no directive. -/
theorem dropWhile_isDirective_ne_nil {a : Attribute Node} (ha : .attr a ∈ source.root.preorder) :
    source.program.body.dropWhile isDirective ≠ [] := by
  intro hnil
  rcases Node.mem_preorder_iff.1 ha with heq | ⟨x, hx, ha⟩
  · cases heq
  · have hdirective : isDirective x = true := List.dropWhile_eq_nil_iff.1 hnil x hx
    exact attr_not_mem_of_isDirective hdirective ha

theorem insertion?_ne_none {a : Attribute Node} (ha : .attr a ∈ source.root.preorder)
    {statement : String} : insertion? source statement ≠ .ok none := by
  intro h
  rw [insertion?] at h
  cases hlast : lastImportEnd? source.program.body with
  | some place =>
    rw [hlast] at h
    obtain ⟨edit, -, heq⟩ := Outcome.exists_of_map_eq_ok h
    cases heq
  | none =>
    rw [hlast] at h
    cases hdrop : source.program.body.dropWhile isDirective with
    | nil => exact dropWhile_isDirective_ne_nil ha hdrop
    | cons first rest =>
      simp only [hdrop] at h
      obtain ⟨edit, -, heq⟩ := Outcome.exists_of_map_eq_ok h
      cases heq

/-- The import is left out exactly if the name of the helper is bound. -/
theorem importEdit?_eq_none_iff {a : Attribute Node} (ha : .attr a ∈ source.root.preorder)
    {imported : Option Edit} (h : importEdit? source options = .ok imported) :
    imported = none ↔ BindsHelper source options := by
  obtain ⟨helper, hhelper, h⟩ := Outcome.exists_of_bind_eq_ok h
  split at h
  · next hbinds =>
    cases h
    exact iff_of_true rfl ⟨helper, hhelper, List.any_eq_true.1 hbinds⟩
  · next hfree =>
    obtain ⟨module, -, h⟩ := Outcome.exists_of_bind_eq_ok h
    refine iff_of_false ?_ ?_
    · rintro rfl
      exact insertion?_ne_none ha h
    · rintro ⟨helper', hhelper', hbinds⟩
      cases hhelper.symm.trans hhelper'
      exact hfree (List.any_eq_true.2 hbinds)

/-- Every violation imports the helper unless an import of the file binds its name.  All insertions
are the same, no two groups with it are accepted together, and a pass applies it once at most,
whatever else is found. -/
theorem helper_imported_once (h : rule.visit source options = .ok vs) :
    (∀ v ∈ vs, (∃ e ∈ v.edits, ImportsHelper source options e) ↔ ¬ BindsHelper source options) ∧
      (∀ v ∈ vs, ∀ w ∈ vs, ∀ e ∈ v.edits, ∀ f ∈ w.edits,
        ImportsHelper source options e → ImportsHelper source options f → e = f) ∧
      ∀ e, ImportsHelper source options e →
        (∀ groups, (Edit.select groups).accepted.countP (e ∈ ·) ≤ 1) ∧
          ∀ findings, (FixPlan.ofFindings findings).accepted.flatten.count e ≤ 1 := by
  refine ⟨fun v hv => ?_, fun v hv w hw e he f hf hte htf => ?_, fun e _ => ⟨?_, ?_⟩⟩
  · obtain ⟨a, c, t, edit, imported, ha, hmade⟩ := exists_isMade h hv
    rw [← importEdit?_eq_none_iff ha hmade.imported_eq, ← ne_eq, Option.ne_none_iff_exists']
    exact exists_congr hmade.importsHelper_iff
  · obtain ⟨_, _, _, _, imported, -, hmade⟩ := exists_isMade h hv
    obtain ⟨_, _, _, _, imported', -, hmade'⟩ := exists_isMade h hw
    have hsame : imported = imported' :=
      Except.ok.inj (hmade.imported_eq.symm.trans hmade'.imported_eq)
    have hv : imported = some e := (hmade.importsHelper_iff e).1 ⟨he, hte⟩
    have hw : imported' = some f := (hmade'.importsHelper_iff f).1 ⟨hf, htf⟩
    rw [hsame, hw] at hv
    exact (Option.some.inj hv).symm
  · intro groups
    exact Edit.countP_accepted_le_one groups e
  · intro findings
    exact FixPlan.count_accepted_le_one findings e

/-! ### Two attributes in one file -/

/-- A statement that is an element with a class attribute of a lone substitution. -/
def elementAt (start : Nat) : Tree :=
  .node "expression_statement" true "" start (start + 24)
    [.node "jsx_self_closing_element" true "" start (start + 24)
      [.node "identifier" true "name" (start + 1) (start + 2) [],
        .node "jsx_attribute" true "" (start + 3) (start + 21)
          [.node "property_identifier" true "" (start + 3) (start + 12) [],
            .node "jsx_expression" true "" (start + 13) (start + 21)
              [.node "template_string" true "" (start + 14) (start + 20)
                [.node "template_substitution" true "" (start + 15) (start + 19)
                  [.node "identifier" true "" (start + 17) (start + 18) []]]]]]]

/-- Two such statements. -/
def twoElements : Tree := .node "program" true "" 0 48 [elementAt 0, elementAt 24]

/-- What the rule reports for the two, and whether the file binds the name of the helper. -/
def reportedForTwo : Option (List (List Edit) × Bool) := do
  let source ← (SourceFile.ofTree default .tsx (prefixedText "" ++ prefixedText "")
    ⟨twoElements, false⟩).toOption
  let vs ← (rule.visitPlain source).toOption
  pure (vs.map (·.edits), source.program.body.any (bindsName (.str "cn")))

/-- Both violations bring the import along, and a pass applies it once. -/
theorem helper_imported_once_twoElements :
    ∃ source vs, SourceFile.ofTree default .tsx (prefixedText "" ++ prefixedText "")
        ⟨twoElements, false⟩ = .ok source ∧ rule.visitPlain source = .ok vs ∧ vs.length = 2 ∧
      ∃ e, (∀ v ∈ vs, e ∈ v.edits) ∧ ImportsHelper source rule.parameters e ∧
        ∀ findings, (FixPlan.ofFindings findings).accepted.flatten.count e ≤ 1 := by
  have hreported : reportedForTwo =
      some ([[⟨0, 0, "import \x7bcn\x7d from '@/lib/utils';\n\n", by decide⟩,
          ⟨13, 21, "\x7bcn(b)\x7d", by decide⟩],
        [⟨0, 0, "import \x7bcn\x7d from '@/lib/utils';\n\n", by decide⟩,
          ⟨37, 45, "\x7bcn(b)\x7d", by decide⟩]], false) := by decide +kernel
  obtain ⟨source, hsource, hreported⟩ := Option.bind_eq_some_iff.1 hreported
  obtain ⟨vs, hvs, hreported⟩ := Option.bind_eq_some_iff.1 hreported
  have hvs := Outcome.eq_ok_of_toOption_eq_some hvs
  obtain ⟨hedits, hfree⟩ := Prod.mk.inj (Option.some.inj hreported)
  have hlength : vs.length = 2 := by simpa using congrArg List.length hedits
  have hbinds : ¬ BindsHelper source rule.parameters := by
    rintro ⟨helper, hhelper, hstatement⟩
    have hcn : rule.parameters.need "helper" = .ok (.str "cn") := by rfl
    cases hhelper.symm.trans hcn
    rw [List.any_eq_true.2 hstatement] at hfree
    cases hfree
  obtain ⟨hcarries, hsame, honce⟩ := helper_imported_once hvs
  have hall : ∀ v ∈ vs, ∃ e ∈ v.edits, ImportsHelper source rule.parameters e :=
    fun v hv => (hcarries v hv).2 hbinds
  obtain ⟨v, hv⟩ := List.exists_mem_of_length_pos (l := vs) (by omega)
  obtain ⟨e, he, himports⟩ := hall v hv
  refine ⟨source, vs, Outcome.eq_ok_of_toOption_eq_some hsource, hvs, hlength, e, fun w hw => ?_,
    himports, (honce e himports).2⟩
  obtain ⟨f, hf, himports'⟩ := hall w hw
  rw [hsame v hv w hw e he f hf himports himports']
  exact hf

end TsxLint.ClassNames
