/-
Module: TsxLint.Proofs.Rules.Applicable
Purpose: Whatever a rule of the catalog reports can be mended by the edits it comes with.
Main exports: Catalog.isApplicable, Catalog.edits_of_violation_applicable,
  Catalog.misplaced_nodes_break_edits
-/
import TsxLint.Proofs.Rules.ClassNames
import TsxLint.Proofs.Imports.Gathering
import TsxLint.Proofs.Rules.SingleEdits
import TsxLint.Rules.Catalog

namespace TsxLint.Catalog

/-!
A violation promises that its edits can be applied together.  For every rule this comes down to
where in the tree the ends of its ranges lie, and for rules with several edits to the order in
which the model keeps the nodes of a tree.  The model takes a grammar's word for two things: that
the opening tag of an element is a tag, and that the root of a tree is a program.
-/

/-! ### Rules on parsed texts -/

/-- A rule reports a violation, under its own parameters, for a text with a tree. -/
def Reports (rule : Rule) (text : String) (root : Tree) (v : Violation) : Prop :=
  ∃ path language source vs, SourceFile.ofTree path language text ⟨root, false⟩ = .ok source ∧
    rule.visitPlain source = .ok vs ∧ v ∈ vs

/-- The edits of each violation that a rule reports. -/
def reportedEdits (rule : Rule) (text : String) (root : Tree) : Option (List (List Edit)) := do
  let source ← (SourceFile.ofTree default .tsx text ⟨root, false⟩).toOption
  let vs ← (rule.visitPlain source).toOption
  pure (vs.map Violation.edits)

theorem exists_of_reportedEdits {rule : Rule} {text : String} {root : Tree} {edits : List Edit}
    {rest : List (List Edit)} (h : reportedEdits rule text root = some (edits :: rest)) :
    ∃ v, Reports rule text root v ∧ v.edits = edits := by
  obtain ⟨source, hsource, h⟩ := Option.bind_eq_some_iff.1 h
  obtain ⟨vs, hvs, h⟩ := Option.bind_eq_some_iff.1 h
  obtain ⟨v, others, rfl, hv, -⟩ := List.map_eq_cons_iff.1 (Option.some.inj h)
  refine ⟨v, ⟨default, .tsx, source, v :: others, ?_, ?_, List.mem_cons_self⟩, hv⟩
  · exact Outcome.eq_ok_of_toOption_eq_some hsource
  · exact Outcome.eq_ok_of_toOption_eq_some hvs

/-! ### The rules of the catalog -/

variable {text : String} {root : Tree} {source : SourceFile} {options : Options}
  {vs : List Violation} {v : Violation}

/-- Each rule of the catalog reports violations whose edits do not get in each other's way. -/
theorem isApplicable (hs : source.Parsed text root) (ht : Model.Readable text root)
    (hextent : root.Everywhere Tree.HasExtent) (htop : root.type ∉ Model.reorderedTypes)
    {rule : Rule} (hrule : rule ∈ rules) (h : rule.visit source options = .ok vs) (hv : v ∈ vs) :
    v.IsApplicable text := by
  have hone : v.ReplacesOneRange root → v.IsApplicable text := fun hv =>
    hv.isApplicable ht.wellFormed
  simp only [rules, categories, ofCategory, List.flatMap_cons, List.flatMap_nil, List.append_nil,
    List.mem_append, List.mem_cons, List.not_mem_nil, or_false] at hrule
  rcases hrule with (rfl | rfl) | (rfl | rfl | rfl) | (rfl | rfl | rfl) | rfl | rfl | rfl
  · exact hone (SiblingSpacing.replacesOneRange hs h hv)
  · exact hone (SiblingSpacing.replacesOneRange hs h hv)
  · exact hone (DefaultProps.replacesOneRange hs ht h hv)
  · exact hone (ArrowBody.replacesOneRange hs ht h hv)
  · exact hone (Wrapper.replacesOneRange hs ht h hv)
  · exact Imports.isApplicable hs ht hextent h hv
  · exact Imports.isApplicable hs ht hextent h hv
  · exact Imports.isApplicable hs ht hextent h hv
  · exact ClassNames.isApplicable hs ht hextent htop h hv
  · exact hone (.inl (RawElements.edits_eq_nil h hv))
  · exact hone (.inl (ComponentTypes.edits_eq_nil h hv))

/-- The edits of a violation that a rule of the catalog reports do not overlap, lie inside the
text and between its characters, and can be applied. -/
theorem edits_of_violation_applicable {path : FilePath} {language : Language} {tree : ParseTree}
    (laidOut : tree.root.WellFormed text) (extents : tree.root.Everywhere Tree.HasExtent)
    (opens : tree.root.Everywhere Model.OpensWithTag)
    (top : tree.root.type ∉ Model.reorderedTypes)
    (parsed : SourceFile.ofTree path language text tree = .ok source)
    {rule : Rule} (cataloged : rule ∈ rules) (visited : rule.visit source options = .ok vs)
    (reported : v ∈ vs) :
    (v.edits.Pairwise fun a b => a.overlaps b = false) ∧
      (∀ e ∈ v.edits, e.start ≤ e.stop ∧ e.stop ≤ text.utf8ByteSize ∧
        (String.Pos.Raw.mk e.start).IsValid text ∧ (String.Pos.Raw.mk e.stop).IsValid text) ∧
      ∃ result, Edit.apply text v.edits = .ok result := by
  have hs := SourceFile.parsed_of_ofTree parsed
  have happlicable : v.IsApplicable text :=
    isApplicable hs ⟨laidOut, opens⟩ extents top cataloged visited reported
  refine ⟨happlicable.apart, ?_, ?_⟩
  · intro e he
    have haligned := happlicable.aligned e he
    exact ⟨e.start_le_stop, haligned.stop_le, haligned.1, haligned.2⟩
  · exact Edit.exists_apply_eq_ok happlicable.apart happlicable.aligned

/-- A text with an import and a class attribute behind it. -/
def importThenElementText : String := "import 'é';\n<a className=\x7b`$\x7bb\x7d`\x7d />"

/-- The tree of that text. -/
def importThenElement : Tree :=
  .node "program" true "" 0 37
    [.node "import_statement" true "" 0 12 [.node "string" true "source" 7 11 []],
      .node "expression_statement" true "" 13 37
        [.node "jsx_self_closing_element" true "" 13 37
          [.node "identifier" true "name" 14 15 [],
            .node "jsx_attribute" true "" 16 34
              [.node "property_identifier" true "" 16 25 [],
                .node "jsx_expression" true "" 26 34
                  [.node "template_string" true "" 27 33
                    [.node "template_substitution" true "" 28 32
                      [.node "identifier" true "" 30 31 []]]]]]]]

/-- The helper can be imported and called at once. -/
theorem edits_of_import_and_call_applicable :
    ∃ v, Reports ClassNames.rule importThenElementText importThenElement v ∧
      v.edits.length = 2 ∧ (v.edits.Pairwise fun a b => a.overlaps b = false) ∧
      (∀ e ∈ v.edits, e.start ≤ e.stop ∧ e.stop ≤ importThenElementText.utf8ByteSize ∧
        (String.Pos.Raw.mk e.start).IsValid importThenElementText ∧
        (String.Pos.Raw.mk e.stop).IsValid importThenElementText) ∧
      ∃ result, Edit.apply importThenElementText v.edits = .ok result := by
  have hedits : reportedEdits ClassNames.rule importThenElementText importThenElement =
      some [[⟨12, 12, "\nimport \x7bcn\x7d from '@/lib/utils';", by decide⟩,
        ⟨26, 34, "\x7bcn(b)\x7d", by decide⟩]] := by decide +kernel
  obtain ⟨v, hreports, htwo⟩ := exists_of_reportedEdits hedits
  have hlength : v.edits.length = 2 := by
    rw [htwo]
    rfl
  refine ⟨v, hreports, hlength, ?_⟩
  obtain ⟨path, language, source, vs, hsource, hvs, hv⟩ := hreports
  exact edits_of_violation_applicable (by decide +kernel) (by decide +kernel) (by decide +kernel)
    (by decide) hsource (by simp [rules, categories, ofCategory]) hvs hv

/-! ### What the rules rely on -/

/-- A rule reports a violation whose edits overlap or cut characters, for a text that is laid out
as a tree. -/
def Breaks (rule : Rule) (text : String) (root : Tree) : Prop :=
  root.WellFormed text ∧ root.Everywhere Tree.HasExtent ∧ rule ∈ rules ∧
    ∃ v, Reports rule text root v ∧ ¬ v.IsApplicable text

theorem breaks_of_reportedEdits {rule : Rule} {text : String} {root : Tree} {edits : List Edit}
    {rest : List (List Edit)} (hrule : rule ∈ rules)
    (h : reportedEdits rule text root = some (edits :: rest))
    (hclash : root.WellFormed text ∧ root.Everywhere Tree.HasExtent ∧
      ¬ (Edit.Apart edits ∧ ∀ e ∈ edits, e.IsAligned text)) : Breaks rule text root := by
  obtain ⟨laidOut, extents, hclash⟩ := hclash
  obtain ⟨v, hv, rfl⟩ := exists_of_reportedEdits h
  refine ⟨laidOut, extents, hrule, v, hv, ?_⟩
  intro happlicable
  exact hclash ⟨happlicable.apart, happlicable.aligned⟩

/-- An element whose opening tag is no tag: the attribute in it holds a program. -/
def strayTag : Tree :=
  .node "program" true "" 0 4
    [.node "jsx_element" true "" 0 4
      [.node "tag" true "open_tag" 0 4
        [.node "jsx_attribute" true "" 0 4
          [.node "property_identifier" true "" 0 1 [],
            .node "program" true "" 1 4
              [.node "import_statement" true "" 1 4 [.node "string" true "source" 1 4 []]]]]]]

/-- An element with a class attribute, whose name ends at `name`. -/
def classElement (field : String) (start name stop : Nat) : Tree :=
  .node "jsx_self_closing_element" true field start stop
    [.node "jsx_attribute" true "" start stop
      [.node "property_identifier" true "" start name [],
        .node "jsx_expression" true "" name stop
          [.node "template_string" true "" name stop
            [.node "template_substitution" true "" name stop
              [.node "identifier" true "" name stop []]]]]]

/-- A template string that begins with a character of two bytes. -/
def templateRoot : Tree :=
  .node "template_string" true "" 0 12
    [.node "template_substitution" true "" 0 12 [classElement "" 2 11 12]]

/-- An arrow function whose parameter stands behind its body. -/
def arrowRoot : Tree :=
  .node "arrow_function" true "" 0 10
    [classElement "body" 0 9 9, .node "identifier" true "parameter" 9 10 []]

/-- An element whose opening tag stands behind another element. -/
def elementRoot : Tree :=
  .node "jsx_element" true "" 0 10
    [classElement "" 0 9 9,
      .node "jsx_opening_element" true "" 9 10
        [.node "jsx_attribute" true "" 9 10 [.node "property_identifier" true "" 9 10 []]]]

/-- An opening tag that is no tag makes edits overlap.  So does a root that is an element or an
arrow function, and with a template string as the root an edit cuts a character. -/
theorem misplaced_nodes_break_edits :
    (strayTag.type ∉ Model.reorderedTypes ∧ Breaks Imports.duplicateImports "a\"m\"" strayTag) ∧
      (elementRoot.Everywhere Model.OpensWithTag ∧
        Breaks ClassNames.rule "classNamex" elementRoot) ∧
      (arrowRoot.Everywhere Model.OpensWithTag ∧
        Breaks ClassNames.rule "classNamex" arrowRoot) ∧
      (templateRoot.Everywhere Model.OpensWithTag ∧
        Breaks ClassNames.rule "éclassNamex" templateRoot) := by
  have himports : Imports.duplicateImports ∈ rules := by simp [rules, categories, ofCategory]
  have hclass : ClassNames.rule ∈ rules := by simp [rules, categories, ofCategory]
  have htag : reportedEdits Imports.duplicateImports "a\"m\"" strayTag =
      some [[⟨1, 4, "import \"m\";", by decide⟩, ⟨1, 4, "", by decide⟩]] := by decide +kernel
  have helement : reportedEdits ClassNames.rule "classNamex" elementRoot =
      some [[⟨9, 9, "import \x7bcn\x7d from '@/lib/utils';\n\n", by decide⟩,
        ⟨9, 9, "\x7bcn()\x7d", by decide⟩]] := by decide +kernel
  have harrow : reportedEdits ClassNames.rule "classNamex" arrowRoot =
      some [[⟨9, 9, "import \x7bcn\x7d from '@/lib/utils';\n\n", by decide⟩,
        ⟨9, 9, "\x7bcn()\x7d", by decide⟩]] := by decide +kernel
  have htemplate : reportedEdits ClassNames.rule "éclassNamex" templateRoot =
      some [[⟨1, 1, "import \x7bcn\x7d from '@/lib/utils';\n\n", by decide⟩,
        ⟨11, 12, "\x7bcn(x)\x7d", by decide⟩]] := by decide +kernel
  refine ⟨⟨by decide, ?_⟩, ⟨by decide +kernel, ?_⟩, ⟨by decide +kernel, ?_⟩,
    ⟨by decide +kernel, ?_⟩⟩
  · exact breaks_of_reportedEdits himports htag (by decide +kernel)
  · exact breaks_of_reportedEdits hclass helement (by decide +kernel)
  · exact breaks_of_reportedEdits hclass harrow (by decide +kernel)
  · exact breaks_of_reportedEdits hclass htemplate (by decide +kernel)

end TsxLint.Catalog
