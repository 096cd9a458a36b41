/-
Module: TsxLint.Proofs.Rules.ArrowParameters
Purpose: Which parameters of an arrow function get into its shorter form, and how they are written.
Main exports: ArrowBody.listedTrees, ArrowBody.textIn, ArrowBody.IsIdentifier,
  ArrowBody.parameters_kept_iff
-/
import TsxLint.Proofs.Rules.ArrowParts
import TsxLint.Proofs.Source.Slices

namespace TsxLint.ArrowBody

/-!
The parameters of the shorter form are those of the model, and the model keeps only what has one of
the types that formal parameters are known to have.  Whatever else is listed is dropped without a
word, so the parameters are all there exactly if each of them has such a type.

A parameter alone is written without parentheses if it is a plain name.  This is told by its named
children, which do not show a fixed word in front of the name.
-/

open Model (parameterTrees parameterTypes textOf isPlainName)

variable {text : String} {root t p : Tree} {source : SourceFile} {options : Options}
  {vs : List Violation} {v : Violation} {d : Document}

/-! ### What is listed and what is kept -/

/-- The parameters of an arrow function: the one that stands alone, or the named children of the
list, comments aside. -/
def listedTrees (t : Tree) : List Tree :=
  match t.field? "parameter" with
  | some single => [single]
  | none =>
    match t.field? "parameters" with
    | some list => list.kids
    | none => []

/-- Whether a listed parameter is one that the model knows. -/
def isKept (t p : Tree) : Bool :=
  (t.field? "parameter").isSome || parameterTypes.contains p.type

theorem parameterTrees_eq_filter (t : Tree) :
    parameterTrees t = (listedTrees t).filter (isKept t) := by
  rw [parameterTrees, listedTrees]
  cases hsingle : t.field? "parameter" with
  | some single => simp [isKept, hsingle]
  | none =>
    cases t.field? "parameters" with
    | some list =>
      refine List.filter_congr fun c _ => ?_
      rw [isKept, hsingle, Option.isSome_none, Bool.false_or]
    | none => rfl

theorem mem_subtrees_of_mem_listedTrees (h : p ∈ listedTrees t) : p ∈ t.subtrees := by
  rw [listedTrees] at h
  split at h
  · next single hsingle =>
    rw [List.mem_singleton.1 h]
    exact Tree.mem_subtrees_of_mem_children (Tree.mem_children_of_field? hsingle)
  · split at h
    · next list hlist =>
      exact Tree.mem_subtrees_trans
        (Tree.mem_subtrees_of_mem_children (Tree.mem_children_of_mem_kids h))
        (Tree.mem_subtrees_of_mem_children (Tree.mem_children_of_field? hlist))
    · cases h

/-- The source text of a tree, empty if there is none. -/
def textIn (d : Document) (p : Tree) : String := (textOf d p).toOption.getD ""

theorem textIn_of_textOf {s : String} (h : textOf d p = .ok s) : textIn d p = s := by
  rw [textIn, h]
  rfl

/-- Every node of a well-formed tree has a source text. -/
theorem textOf_eq_ok (hroot : root.WellFormed text) (hp : p ∈ root.subtrees) :
    textOf (Document.ofText text) p = .ok (textIn (Document.ofText text) p) := by
  have hlaid := (hroot.of_mem hp).isLaidOut
  obtain ⟨s, hs⟩ := Document.exists_slice_eq_ok hlaid.start_isValid hlaid.stop_isValid
  have htext : textOf (Document.ofText text) p = .ok s := hs
  rw [htext, textIn_of_textOf htext]

/-- The texts that are copied are those of the parameters that are kept. -/
theorem Copies.parameters_eq {expression : Tree} {x : Texts} (h : Copies d t expression x) :
    x.parameters = ((listedTrees t).filter (isKept t)).map (textIn d) := by
  have hparameters := h.parameters
  rw [parameterTrees_eq_filter] at hparameters
  generalize (listedTrees t).filter (isKept t) = ps at hparameters
  generalize x.parameters = texts at hparameters
  induction hparameters with
  | nil => rfl
  | cons hs _ ih => rw [List.map_cons, textIn_of_textOf hs, ih]

/-- All parameters are written exactly if none of them is of an unknown type. -/
theorem Copies.parameters_eq_iff {expression : Tree} {x : Texts} (h : Copies d t expression x) :
    x.parameters = (listedTrees t).map (textIn d) ↔ ∀ p ∈ listedTrees t, isKept t p = true := by
  rw [h.parameters_eq]
  constructor
  · intro heq
    have hlength := congrArg List.length heq
    rw [List.length_map, List.length_map] at hlength
    exact List.length_filter_eq_length_iff.1 hlength
  · intro hkept
    rw [List.filter_eq_self.2 hkept]

/-! ### A parameter alone -/

/-- A parameter is an identifier and nothing else, comments aside. -/
def IsIdentifier (p : Tree) : Prop :=
  p.type = "identifier" ∨ p.type = "required_parameter" ∧
    ∃ name, p.children.filter (fun c => !c.isComment) = [name] ∧ name.type = "identifier"

/-- No fixed word stands among the children of a parameter. -/
def IsUnmarked (p : Tree) : Prop := ∀ c ∈ p.children, c.isComment = false → c.named = true

theorem isPlainName_iff : isPlainName p = true ↔ p.type = "required_parameter" ∧
    ∃ name, p.kids = [name] ∧ name.type = "identifier" := by
  rw [isPlainName, Bool.and_eq_true, beq_iff_eq]
  refine and_congr_right fun _ => ?_
  split
  · next only hkids => simp [hkids]
  · next hkids => simpa using fun name hname => absurd hname (hkids name)

/-- A plain name is an identifier and nothing else unless a fixed word stands beside it. -/
theorem isIdentifier_iff (h : (p.type == "identifier" || isPlainName p) = true) :
    IsIdentifier p ↔ p.type = "identifier" ∨ IsUnmarked p := by
  by_cases htype : p.type = "identifier"
  · exact iff_of_true (.inl htype) (.inl htype)
  · have hplain : isPlainName p = true := by simpa [htype] using h
    obtain ⟨hrequired, name, hkids, hname⟩ := isPlainName_iff.1 hplain
    rw [IsIdentifier, or_iff_right htype, or_iff_right htype, and_iff_right hrequired]
    constructor
    · rintro ⟨other, hother, -⟩ c hc hcomment
      -- what is listed among all children is the one that is named
      have hmem : c ∈ p.children.filter fun c => !c.isComment :=
        List.mem_filter.2 ⟨hc, by simp [hcomment]⟩
      have hname : name ∈ p.kids := by
        rw [hkids]
        exact List.mem_singleton_self name
      obtain ⟨hchild, hnamed⟩ := List.mem_filter.1 hname
      rw [Bool.and_eq_true] at hnamed
      have hname' : name ∈ p.children.filter fun c => !c.isComment :=
        List.mem_filter.2 ⟨hchild, hnamed.2⟩
      rw [hother] at hmem hname'
      rw [List.mem_singleton.1 hmem, ← List.mem_singleton.1 hname']
      exact hnamed.1
    · intro hunmarked
      refine ⟨name, ?_, hname⟩
      rw [← hkids, Tree.kids]
      refine List.filter_congr fun c hc => ?_
      cases hcomment : c.isComment with
      | true => simp
      | false => simp [hunmarked c hc hcomment]

/-- Without parentheses there is one identifier and nothing else exactly if no parameter was dropped
and there is no fixed word beside the name. -/
theorem listed_identifier_iff (hp : parameterTrees t = [p])
    (hplain : (p.type == "identifier" || isPlainName p) = true) :
    listedTrees t = [p] ∧ IsIdentifier p ↔ (∀ q ∈ listedTrees t, isKept t q = true) ∧
      (p.type = "identifier" ∨ IsUnmarked p) := by
  rw [isIdentifier_iff hplain]
  refine and_congr_left fun _ => ?_
  rw [parameterTrees_eq_filter] at hp
  rw [← List.filter_eq_self, hp, eq_comm]

/-- Every violation of this rule with an edit writes the parameters that are kept, in their order.
These are all that are listed exactly if none is of an unknown type.  There are parentheses around
them unless there is one that is a plain name and no type annotation; and it is then the only one
that is listed, and an identifier and nothing else, exactly if none was dropped and no fixed word
stands beside the name. -/
theorem parameters_kept_iff (hs : source.Parsed text root) (hroot : root.WellFormed text)
    (h : rule.visit source options = .ok vs) (hv : v ∈ vs) (hedits : v.edits ≠ []) :
    ∃ edit t block statement expression x,
      IsCondensed (Document.ofText text) root v edit t block statement expression x ∧
      (∀ p ∈ listedTrees t,
        textOf (Document.ofText text) p = .ok (textIn (Document.ofText text) p)) ∧
      x.parameters.Sublist ((listedTrees t).map (textIn (Document.ofText text))) ∧
      (x.parameters = (listedTrees t).map (textIn (Document.ofText text)) ↔
        ∀ p ∈ listedTrees t, isKept t p = true) ∧
      (isBare t = false → writtenParameters t x = x.typeParameters.getD "" ++
        ("(" ++ ", ".intercalate x.parameters ++ ")") ++ x.returnType.getD "") ∧
      (isBare t = true → ∃ p, x.parameters = [textIn (Document.ofText text) p] ∧
        writtenParameters t x = textIn (Document.ofText text) p ∧
        x.typeParameters = none ∧ x.returnType = none ∧
        (listedTrees t = [p] ∧ IsIdentifier p ↔ (∀ q ∈ listedTrees t, isKept t q = true) ∧
          (p.type = "identifier" ∨ IsUnmarked p))) := by
  obtain ⟨edit, t, block, statement, expression, x, hcondensed⟩ :=
    exists_isCondensed hs h hv hedits
  have hcopies := hcondensed.copies
  refine ⟨edit, t, block, statement, expression, x, hcondensed, fun p hp => ?_, ?_,
    hcopies.parameters_eq_iff, fun hbare => ?_, fun hbare => ?_⟩
  · exact textOf_eq_ok hroot
      (Tree.mem_subtrees_trans (mem_subtrees_of_mem_listedTrees hp) hcondensed.mem)
  · rw [hcopies.parameters_eq]
    exact List.filter_sublist.map _
  · rw [writtenParameters, if_neg (by simp [hbare])]
  · obtain ⟨p, hp, hplain, htypeParameters, hreturnType⟩ := exists_of_isBare hbare
    have hparameters : x.parameters = [textIn (Document.ofText text) p] := by
      rw [hcopies.parameters_eq, ← parameterTrees_eq_filter, hp]
      rfl
    refine ⟨p, hparameters, ?_, ?_, ?_, listed_identifier_iff hp hplain⟩
    · rw [writtenParameters, if_pos hbare, hparameters]
      simp
    · have := isNone_of_textOf? hcopies.typeParameters
      simpa [htypeParameters] using this
    · have := isNone_of_textOf? hcopies.returnType
      simpa [hreturnType] using this

/-! ### Lists of two parameters -/

/-- A function of listed parameters whose block calls another one. -/
def listedText (list : String) : String := list ++ " => \x7b run(a); \x7d"

/-- The tree of that function, by the parameters and the size of their list. -/
def listedTree (parameters : List Tree) (n : Nat) : Tree :=
  .node "arrow_function" true "" 0 (n + 15)
    [.node "formal_parameters" true "parameters" 0 n parameters,
      .node "statement_block" true "body" (n + 4) (n + 15)
        [.node "expression_statement" true "" (n + 6) (n + 13)
          [.node "call_expression" true "" (n + 6) (n + 12)
            [.node "identifier" true "function" (n + 6) (n + 9) [],
              .node "arguments" true "arguments" (n + 9) (n + 12)
                [.node "identifier" true "" (n + 10) (n + 11) []]]]]]

/-- A file with that function. -/
def listedFile (parameters : List Tree) (n : Nat) : Tree :=
  .node "program" true "" 0 (n + 15)
    [.node "expression_statement" true "" 0 (n + 15) [listedTree parameters n]]

/-- A parameter at a place. -/
def namedTree (type : String) (start stop : Nat) : Tree := .node type true "" start stop []

/-- Two identifiers. -/
def identifierTrees : List Tree := [namedTree "identifier" 1 2, namedTree "identifier" 4 5]

/-- The only arrow function in a file with two identifiers is the one it is made for. -/
theorem eq_listedTree (ht : t ∈ (listedFile identifierTrees 6).subtrees)
    (htype : t.type = "arrow_function") : t = listedTree identifierTrees 6 := by
  simp only [listedFile, listedTree, identifierTrees, namedTree, Tree.subtrees, Tree.subtreesOf,
    List.append_nil, List.cons_append, List.nil_append, List.mem_cons, List.not_mem_nil,
    or_false] at ht
  rcases ht with rfl | rfl | rfl | rfl | rfl | rfl | rfl | rfl | rfl | rfl | rfl | rfl
  all_goals first | rfl | exact absurd htype (by decide)

/-- Two identifiers are both kept. -/
theorem identifiers_kept :
    ∃ source v edit block statement expression x,
      SourceFile.ofTree default .javascript (listedText "(a, b)")
        ⟨listedFile identifierTrees 6, false⟩ = .ok source ∧ rule.visitPlain source = .ok [v] ∧
      IsCondensed (Document.ofText (listedText "(a, b)")) (listedFile identifierTrees 6) v edit
        (listedTree identifierTrees 6) block statement expression x ∧
      x.parameters = ["a", "b"] := by
  have hreported : rule.reported .javascript (listedText "(a, b)") (listedFile identifierTrees 6)
      (fun _ v => v.edits) = some [[⟨0, 21, "(a, b) => run(a)", by omega⟩]] := by
    decide +kernel
  have hwell : (listedFile identifierTrees 6).WellFormed (listedText "(a, b)") := by
    decide
  obtain ⟨source, v, hsource, hvisit, hedits⟩ := Rule.exists_of_reported hreported
  obtain ⟨edit, t, block, statement, expression, x, hcondensed, -, -, hkept, -⟩ :=
    parameters_kept_iff (SourceFile.parsed_of_ofTree hsource) hwell hvisit List.mem_cons_self
      (by simp [hedits])
  obtain rfl := eq_listedTree hcondensed.mem hcondensed.sole.type_eq
  refine ⟨source, v, edit, block, statement, expression, x, hsource, hvisit, hcondensed, ?_⟩
  rw [hkept.2 (by decide)]
  decide +kernel

/-- The first of two parameters is dropped if it is of a type that the model does not know. -/
theorem parameter_dropped :
    ∃ source v edit,
      (listedFile [namedTree "undefined" 1 10, namedTree "identifier" 12 13] 14).WellFormed
        (listedText "(undefined, a)") ∧
      SourceFile.ofTree default .javascript (listedText "(undefined, a)")
        ⟨listedFile [namedTree "undefined" 1 10, namedTree "identifier" 12 13] 14, false⟩ =
          .ok source ∧
      rule.visitPlain source = .ok [v] ∧ v.edits = [edit] ∧
      listedTree [namedTree "undefined" 1 10, namedTree "identifier" 12 13] 14 ∈
        (listedFile [namedTree "undefined" 1 10, namedTree "identifier" 12 13] 14).subtrees ∧
      edit.start = 0 ∧ edit.stop = 29 ∧
      (listedTrees (listedTree [namedTree "undefined" 1 10, namedTree "identifier" 12 13] 14)).map
        (textIn (Document.ofText (listedText "(undefined, a)"))) = ["undefined", "a"] ∧
      edit.text = "a => run(a)" := by
  have hreported : rule.reported .javascript (listedText "(undefined, a)")
      (listedFile [namedTree "undefined" 1 10, namedTree "identifier" 12 13] 14)
      (fun _ v => v.edits) = some [[⟨0, 29, "a => run(a)", by omega⟩]] := by
    decide +kernel
  have hwell : (listedFile [namedTree "undefined" 1 10, namedTree "identifier" 12 13] 14).WellFormed
      (listedText "(undefined, a)") := by
    decide
  obtain ⟨source, v, hsource, hvisit, hedits⟩ := Rule.exists_of_reported hreported
  refine ⟨source, v, _, hwell, hsource, hvisit, hedits, ?_, rfl, rfl, ?_, rfl⟩
  · simp [listedFile, listedTree, Tree.subtrees, Tree.subtreesOf]
  · decide +kernel

end TsxLint.ArrowBody
