/-
Module: TsxLint.Proofs.Rules.ArrowComments
Purpose: Which comments of an arrow function get into its shorter form.
Main exports: ArrowBody.copiedTrees, ArrowBody.IsLoose, ArrowBody.comment_copied_iff
-/
import TsxLint.Proofs.Rules.ArrowParts

namespace TsxLint.ArrowBody

/-!
The shorter form of an arrow function holds the source texts of some parts, with the comments in
them, and nothing else of the function.  A block with a comment among its children is not rewritten.
But a comment may stand elsewhere: in the statement behind its expression, in the list beside the
parameters, or beside the arrow.  These are the ways to lose one.
-/

open Model (textOf parameterTrees)

variable {text : String} {root t block statement expression c : Tree} {source : SourceFile}
  {options : Options} {vs : List Violation} {v : Violation} {d : Document}

/-! ### Parts that are copied -/

/-- The parts of an arrow function whose source texts are copied. -/
def copiedTrees (t expression : Tree) : List Tree :=
  parameterTrees t ++ (t.field? "type_parameters").toList ++ (t.field? "return_type").toList ++
    [expression]

/-- The children of an arrow function that its parts are in. -/
def heldTrees (t : Tree) : List Tree :=
  ((t.field? "parameter").or (t.field? "parameters")).toList ++
    (t.field? "type_parameters").toList ++ (t.field? "return_type").toList ++
    (t.field? "body").toList

theorem mem_copiedTrees_iff {p : Tree} :
    p ∈ copiedTrees t expression ↔ p ∈ parameterTrees t ∨ t.field? "type_parameters" = some p ∨
      t.field? "return_type" = some p ∨ p = expression := by
  simp [copiedTrees]

theorem mem_heldTrees_iff {k : Tree} :
    k ∈ heldTrees t ↔ (t.field? "parameter").or (t.field? "parameters") = some k ∨
      t.field? "type_parameters" = some k ∨ t.field? "return_type" = some k ∨
      t.field? "body" = some k := by
  simp [heldTrees, or_assoc]

theorem infix_intercalate {separator s : String} {texts : List String} (h : s ∈ texts) :
    s.toList <:+: (separator.intercalate texts).toList := by
  induction texts with
  | nil => cases h
  | cons first rest ih =>
    cases rest with
    | nil => simp [List.mem_singleton.1 h]
    | cons next more =>
      rw [String.intercalate_cons_cons, String.toList_append, String.toList_append]
      rcases List.mem_cons.1 h with rfl | h
      · exact List.IsPrefix.isInfix ⟨_, (List.append_assoc _ _ _).symm⟩
      · exact (ih h).trans (List.suffix_append _ _).isInfix

section Written

variable {x : Texts}

theorem infix_replacement_of_parameters {cs : List Char}
    (h : cs <:+: (writtenParameters t x).toList) :
    cs <:+: (replacement t expression x).toList := by
  refine h.trans ?_
  rw [replacement, String.append_assoc, String.append_assoc, String.toList_append,
    String.toList_append]
  exact (List.prefix_append _ _).isInfix.trans (List.suffix_append _ _).isInfix

/-- The text of each parameter is among those that are written. -/
theorem infix_of_mem_parameters {s : String} (h : s ∈ x.parameters) :
    s.toList <:+: (writtenParameters t x).toList := by
  have hlist : s.toList <:+: (", ".intercalate x.parameters).toList := infix_intercalate h
  refine hlist.trans ?_
  rw [writtenParameters]
  split
  · exact List.infix_rfl
  · simp only [String.toList_append]
    refine List.IsInfix.trans ?_ (List.prefix_append _ _).isInfix
    refine List.IsInfix.trans ?_ (List.suffix_append _ _).isInfix
    exact List.infix_append _ _ _

theorem infix_of_typeParameters {s : String} (hbare : isBare t = false)
    (h : x.typeParameters = some s) : s.toList <:+: (writtenParameters t x).toList := by
  rw [writtenParameters, if_neg (by simp [hbare]), h, String.append_assoc, String.toList_append]
  exact (List.prefix_append _ _).isInfix

theorem infix_of_returnType {s : String} (hbare : isBare t = false) (h : x.returnType = some s) :
    s.toList <:+: (writtenParameters t x).toList := by
  rw [writtenParameters, if_neg (by simp [hbare]), h, String.toList_append]
  exact (List.suffix_append _ _).isInfix

theorem infix_of_expression : x.expression.toList <:+: (replacement t expression x).toList := by
  have hwritten : x.expression.toList <:+: (writtenExpression expression x).toList := by
    rw [writtenExpression]
    split
    · rw [String.toList_append, String.toList_append]
      exact List.infix_append _ _ _
    · exact List.infix_rfl
  rw [replacement, String.toList_append]
  exact hwritten.trans (List.suffix_append _ _).isInfix

/-- A part that is there has a text of its own. -/
theorem exists_of_textOf?_some {p : Tree} {u : Option Tree} {o : Option String}
    (h : Model.textOf? d u = .ok o) (hp : u = some p) : ∃ s, textOf d p = .ok s ∧ o = some s := by
  subst hp
  obtain ⟨s, hs, rfl⟩ := Outcome.exists_of_map_eq_ok h
  exact ⟨s, hs, rfl⟩

/-- The source text of each of the parts is in the shorter form. -/
theorem exists_infix_of_mem_copiedTrees (h : Copies d t expression x) {p : Tree}
    (hp : p ∈ copiedTrees t expression) :
    ∃ s, textOf d p = .ok s ∧ s.toList <:+: (replacement t expression x).toList := by
  rcases mem_copiedTrees_iff.1 hp with hp | hp | hp | rfl
  · have hflip : List.Forall₂ (fun s p => textOf d p = .ok s) x.parameters (parameterTrees t) :=
      h.parameters.flip
    obtain ⟨s, hs, htext⟩ := Outcome.exists_left_of_mem hflip hp
    exact ⟨s, htext, infix_replacement_of_parameters (infix_of_mem_parameters hs)⟩
  · obtain ⟨s, hs, hx⟩ := exists_of_textOf?_some h.typeParameters hp
    have hbare : isBare t = false := by
      by_contra hbare
      obtain ⟨-, -, -, hnone, -⟩ := exists_of_isBare (eq_true_of_ne_false hbare)
      rw [hp] at hnone
      cases hnone
    exact ⟨s, hs, infix_replacement_of_parameters (infix_of_typeParameters hbare hx)⟩
  · obtain ⟨s, hs, hx⟩ := exists_of_textOf?_some h.returnType hp
    have hbare : isBare t = false := by
      by_contra hbare
      obtain ⟨-, -, -, -, hnone⟩ := exists_of_isBare (eq_true_of_ne_false hbare)
      rw [hp] at hnone
      cases hnone
    exact ⟨s, hs, infix_replacement_of_parameters (infix_of_returnType hbare hx)⟩
  · exact ⟨_, h.expression, infix_of_expression⟩

end Written

/-! ### Comments that are lost -/

/-- A node is in none of the parts that are copied: it is beside them all, or in the list but in
none of the parameters, or in the block but not in the statement, or in the statement but not in the
expression. -/
inductive IsLoose (t block statement expression c : Tree) : Prop
  | besideParts (h : ∀ k ∈ heldTrees t, c ∉ k.subtrees)
  | besideParameters {list : Tree} (hlist : t.field? "parameters" = some list)
      (hc : c ∈ list.subtrees) (h : ∀ p ∈ parameterTrees t, c ∉ p.subtrees)
  | besideStatement (hc : c ∈ block.subtrees) (h : c ∉ statement.subtrees)
  | besideExpression (hc : c ∈ statement.subtrees) (h : c ∉ expression.subtrees)

/-- A part that is copied is in a child of the function, which tells what else may be in it. -/
theorem exists_held (hsole : IsSole t block statement expression) {p : Tree}
    (hp : p ∈ copiedTrees t expression) :
    ∃ k ∈ heldTrees t, k ∈ t.children ∧ p ∈ k.subtrees ∧
      (k.field = "parameters" → p ∈ parameterTrees t) ∧ (k.field = "body" → p = expression) := by
  have hheld : ∀ {k : Tree}, k ∈ heldTrees t → k ∈ t.children := by
    intro k hk
    rcases mem_heldTrees_iff.1 hk with hk | hk | hk | hk
    · rcases Option.or_eq_some_iff.1 hk with hk | ⟨-, hk⟩
      · exact Tree.mem_children_of_field? hk
      · exact Tree.mem_children_of_field? hk
    · exact Tree.mem_children_of_field? hk
    · exact Tree.mem_children_of_field? hk
    · exact Tree.mem_children_of_field? hk
  -- annotations are children by themselves
  have hself : ∀ {field : String}, t.field? field = some p → field ≠ "parameters" →
      field ≠ "body" → p ∈ heldTrees t → ∃ k ∈ heldTrees t, k ∈ t.children ∧ p ∈ k.subtrees ∧
        (k.field = "parameters" → p ∈ parameterTrees t) ∧ (k.field = "body" → p = expression) := by
    intro field hfield hlist hbody hmem
    rw [← Tree.field_of_field? hfield] at hlist hbody
    exact ⟨p, hmem, hheld hmem, Tree.self_mem_subtrees p, fun h => absurd h hlist,
      fun h => absurd h hbody⟩
  rcases mem_copiedTrees_iff.1 hp with hp | hp | hp | rfl
  · have hparameter := hp
    rw [parameterTrees] at hp
    cases hsingle : t.field? "parameter" with
    | some single =>
      rw [hsingle] at hp
      obtain rfl := List.mem_singleton.1 hp
      exact hself hsingle (by decide) (by decide)
        (mem_heldTrees_iff.2 (.inl (by rw [hsingle, Option.some_or])))
    | none =>
      rw [hsingle] at hp
      cases hlist : t.field? "parameters" with
      | none =>
        rw [hlist] at hp
        cases hp
      | some list =>
        rw [hlist] at hp
        have hmem : list ∈ heldTrees t :=
          mem_heldTrees_iff.2 (.inl (by rw [hsingle, hlist, Option.none_or]))
        refine ⟨list, hmem, hheld hmem, ?_, fun _ => hparameter, fun h => ?_⟩
        · exact Tree.mem_subtrees_of_mem_children
            (Tree.mem_children_of_mem_kids (List.mem_of_mem_filter hp))
        · rw [Tree.field_of_field? hlist] at h
          exact absurd h (by decide)
  · exact hself hp (by decide) (by decide) (mem_heldTrees_iff.2 (.inr (.inl hp)))
  · exact hself hp (by decide) (by decide) (mem_heldTrees_iff.2 (.inr (.inr (.inl hp))))
  · refine ⟨block, mem_heldTrees_iff.2 (.inr (.inr (.inr hsole.block_eq))), hsole.block_mem, ?_,
      fun h => ?_, fun _ => rfl⟩
    · exact Tree.mem_subtrees_trans (Tree.mem_subtrees_of_mem_children hsole.expression_mem)
        (Tree.mem_subtrees_of_mem_children hsole.statement_mem)
    · rw [Tree.field_of_field? hsole.block_eq] at h
      exact absurd h (by decide)

/-- What is not empty is in a part that is copied, or it is loose. -/
theorem exists_copied_iff (hsole : IsSole t block statement expression) (ht : t.WellFormed text)
    (hne : c.start < c.stop) :
    (∃ p ∈ copiedTrees t expression, c ∈ p.subtrees) ↔
      ¬ IsLoose t block statement expression c := by
  constructor
  · rintro ⟨p, hp, hcp⟩ hloose
    obtain ⟨k, hk, hchild, hpk, hparameters, hbody⟩ := exists_held hsole hp
    have hck : c ∈ k.subtrees := Tree.mem_subtrees_trans hcp hpk
    have hexpression : c ∈ block.subtrees → c ∈ expression.subtrees := by
      intro hc
      have hkb : k = block := ht.eq_of_mem_subtrees hchild hsole.block_mem hck hc hne
      rw [← hbody (by rw [hkb, Tree.field_of_field? hsole.block_eq])]
      exact hcp
    have hinner : ∀ {u : Tree}, u ∈ expression.subtrees → u ∈ statement.subtrees := fun hu =>
      Tree.mem_subtrees_trans hu (Tree.mem_subtrees_of_mem_children hsole.expression_mem)
    have houter : ∀ {u : Tree}, u ∈ statement.subtrees → u ∈ block.subtrees := fun hu =>
      Tree.mem_subtrees_trans hu (Tree.mem_subtrees_of_mem_children hsole.statement_mem)
    cases hloose with
    | besideParts h => exact h k hk hck
    | @besideParameters list hlist hc h =>
      have hkl : k = list :=
        ht.eq_of_mem_subtrees hchild (Tree.mem_children_of_field? hlist) hck hc hne
      exact h p (hparameters (by rw [hkl, Tree.field_of_field? hlist])) hcp
    | besideStatement hc h => exact h (hinner (hexpression hc))
    | besideExpression hc h => exact h (hexpression (houter hc))
  · intro hloose
    by_contra hnone
    have hnot : ∀ p ∈ copiedTrees t expression, c ∉ p.subtrees := fun p hp hc => hnone ⟨p, hp, hc⟩
    have hheld : ∃ k ∈ heldTrees t, c ∈ k.subtrees := by
      by_contra hbeside
      exact hloose (.besideParts fun k hk hc => hbeside ⟨k, hk, hc⟩)
    obtain ⟨k, hk, hc⟩ := hheld
    rcases mem_heldTrees_iff.1 hk with hk | hk | hk | hk
    · rcases Option.or_eq_some_iff.1 hk with hsingle | ⟨-, hlist⟩
      · refine hnot k (mem_copiedTrees_iff.2 (.inl ?_)) hc
        rw [parameterTrees, hsingle]
        exact List.mem_singleton_self k
      · exact hloose (.besideParameters hlist hc fun p hp =>
          hnot p (mem_copiedTrees_iff.2 (.inl hp)))
    · exact hnot k (mem_copiedTrees_iff.2 (.inr (.inl hk))) hc
    · exact hnot k (mem_copiedTrees_iff.2 (.inr (.inr (.inl hk)))) hc
    · obtain rfl : block = k := Option.some.inj (hsole.block_eq.symm.trans hk)
      by_cases hstatement : c ∈ statement.subtrees
      · exact hloose (.besideExpression hstatement
          (hnot expression (mem_copiedTrees_iff.2 (.inr (.inr (.inr rfl))))))
      · exact hloose (.besideStatement hc hstatement)

/-- What is copied of an arrow function is below it. -/
theorem mem_subtrees_of_mem_copiedTrees (hsole : IsSole t block statement expression) {p : Tree}
    (hp : p ∈ copiedTrees t expression) : p ∈ t.subtrees := by
  obtain ⟨k, -, hchild, hpk, -⟩ := exists_held hsole hp
  exact Tree.mem_subtrees_trans hpk (Tree.mem_subtrees_of_mem_children hchild)

/-- Every violation of this rule with an edit puts a text in the place of an arrow function that
holds the source texts of its parts.  A comment inside the function is no child of the block; it is
inside one of the parts exactly if it is not beside them, beside the parameters in their list,
beside the statement in the block, or beside the expression in the statement. -/
theorem comment_copied_iff (hs : source.Parsed text root) (hroot : root.WellFormed text)
    (h : rule.visit source options = .ok vs) (hv : v ∈ vs) (hedits : v.edits ≠ []) :
    ∃ edit t block statement expression x,
      IsCondensed (Document.ofText text) root v edit t block statement expression x ∧
      (∀ p ∈ copiedTrees t expression, ∃ s, textOf (Document.ofText text) p = .ok s ∧
        s.toList <:+: edit.text.toList) ∧
      ∀ c ∈ root.subtrees, c.isComment = true → c.children = [] → c.start < c.stop →
        t.start ≤ c.start → c.stop ≤ t.stop → c ∉ block.children ∧
          ((∃ p ∈ copiedTrees t expression, p.start ≤ c.start ∧ c.stop ≤ p.stop) ↔
            ¬ IsLoose t block statement expression c) := by
  obtain ⟨edit, t, block, statement, expression, x, hcondensed⟩ :=
    exists_isCondensed hs h hv hedits
  have hsole := hcondensed.sole
  have ht := hroot.of_mem hcondensed.mem
  refine ⟨edit, t, block, statement, expression, x, hcondensed, fun p hp => ?_,
    fun c hc hcomment hleaf hne hstart hstop => ⟨fun hchild => ?_, ?_⟩⟩
  · rw [hcondensed.text_eq]
    exact exists_infix_of_mem_copiedTrees hcondensed.copies hp
  · have := hsole.uncommented c hchild
    rw [hcomment] at this
    cases this
  · have hct : c ∈ t.subtrees :=
      (hroot.mem_subtrees_iff_inside hc hcondensed.mem hleaf hne).2 ⟨hstart, hstop⟩
    rw [← exists_copied_iff hsole ht hne]
    refine exists_congr fun p => and_congr_right fun hp => ?_
    exact (ht.mem_subtrees_iff_inside hct (mem_subtrees_of_mem_copiedTrees hsole hp) hleaf hne).symm

/-! ### A comment in a call and one behind it -/

/-- A call with something between its parentheses. -/
def callTree (stop : Nat) (arguments : List Tree) : Tree :=
  .node "call_expression" true "" 8 stop
    [.node "identifier" true "function" 8 11 [],
      .node "arguments" true "arguments" 11 stop arguments]

/-- A call as a statement, with something behind it. -/
def callStatementTree (callStop stop : Nat) (arguments behind : List Tree) : Tree :=
  .node "expression_statement" true "" 8 stop (callTree callStop arguments :: behind)

/-- An arrow function without parameters whose block holds that statement. -/
def callingTree (callStop stop : Nat) (arguments behind : List Tree) : Tree :=
  .node "arrow_function" true "" 0 (stop + 2)
    [.node "formal_parameters" true "parameters" 0 2 [],
      .node "statement_block" true "body" 6 (stop + 2)
        [callStatementTree callStop stop arguments behind]]

/-- A file with that function. -/
def callingFile (callStop stop : Nat) (arguments behind : List Tree) : Tree :=
  .node "program" true "" 0 (stop + 2)
    [.node "expression_statement" true "" 0 (stop + 2)
      [callingTree callStop stop arguments behind]]

/-- A comment at a place. -/
def commentTree (start stop : Nat) : Tree := .node "comment" true "" start stop []

/-- The only arrow function in the file is the one it is made for. -/
theorem eq_callingTree
    (ht : t ∈ (callingFile 23 24 [commentTree 12 22] []).subtrees)
    (htype : t.type = "arrow_function") : t = callingTree 23 24 [commentTree 12 22] [] := by
  simp only [callingFile, callingTree, callStatementTree, callTree, commentTree, Tree.subtrees,
    Tree.subtreesOf, List.append_nil, List.cons_append, List.nil_append, List.mem_cons,
    List.not_mem_nil, or_false] at ht
  rcases ht with rfl | rfl | rfl | rfl | rfl | rfl | rfl | rfl | rfl | rfl
  all_goals first | rfl | exact absurd htype (by decide)

/-- A comment between the parentheses of the call gets into the shorter form. -/
theorem comment_copied_in_call :
    ∃ source v edit p s, SourceFile.ofTree default .tsx "() => \x7b run(/* keep */); \x7d"
        ⟨callingFile 23 24 [commentTree 12 22] [], false⟩ = .ok source ∧
      rule.visitPlain source = .ok [v] ∧ v.edits = [edit] ∧
      p ∈ copiedTrees (callingTree 23 24 [commentTree 12 22] []) (callTree 23 [commentTree 12 22]) ∧
      p.start ≤ 12 ∧ 22 ≤ p.stop ∧
      textOf (Document.ofText "() => \x7b run(/* keep */); \x7d") p = .ok s ∧
      s.toList <:+: edit.text.toList := by
  have hreported : rule.reported .tsx "() => \x7b run(/* keep */); \x7d"
      (callingFile 23 24 [commentTree 12 22] []) (fun _ v => v.edits) =
        some [[⟨0, 26, "() => run(/* keep */)", by omega⟩]] := by
    decide +kernel
  have hwell : (callingFile 23 24 [commentTree 12 22] []).WellFormed
      "() => \x7b run(/* keep */); \x7d" := by
    decide
  obtain ⟨source, v, hsource, hvisit, hedits⟩ := Rule.exists_of_reported hreported
  obtain ⟨edit, t, block, statement, expression, x, hcondensed, hcopied, hcomments⟩ :=
    comment_copied_iff (SourceFile.parsed_of_ofTree hsource) hwell hvisit List.mem_cons_self
      (by simp [hedits])
  obtain rfl := eq_callingTree hcondensed.mem hcondensed.sole.type_eq
  obtain rfl := Option.some.inj hcondensed.sole.block_eq
  obtain rfl := (List.cons.inj hcondensed.sole.statement_eq).1
  obtain rfl := Option.some.inj hcondensed.sole.expression_eq
  have hin : commentTree 12 22 ∈ (callTree 23 [commentTree 12 22]).subtrees := by
    simp [callTree, commentTree, Tree.subtrees, Tree.subtreesOf]
  have hmem : commentTree 12 22 ∈ (callingFile 23 24 [commentTree 12 22] []).subtrees := by
    simp [callingFile, callingTree, callStatementTree, callTree, commentTree, Tree.subtrees,
      Tree.subtreesOf]
  have hsole := hcondensed.sole
  have hstatement : commentTree 12 22 ∈ (callStatementTree 23 24 [commentTree 12 22] []).subtrees :=
    Tree.mem_subtrees_trans hin (Tree.mem_subtrees_of_mem_children hsole.expression_mem)
  obtain ⟨p, hp, hstart, hstop⟩ :=
    (hcomments _ hmem rfl rfl (by decide) (by decide) (by decide)).2.2 fun hloose => by
      cases hloose with
      | besideParts h =>
        refine h _ (mem_heldTrees_iff.2 (.inr (.inr (.inr hsole.block_eq)))) ?_
        exact Tree.mem_subtrees_trans hstatement
          (Tree.mem_subtrees_of_mem_children hsole.statement_mem)
      | besideParameters hlist hc h =>
        obtain rfl := Option.some.inj hlist
        simp [Tree.subtrees, Tree.subtreesOf, commentTree] at hc
      | besideStatement hc h => exact h hstatement
      | besideExpression hc h => exact h hin
  obtain ⟨s, hs, hinfix⟩ := hcopied p hp
  exact ⟨source, v, edit, p, s, hsource, hvisit, hcondensed.edits_eq, hp, hstart, hstop, hs, hinfix⟩

/-- A comment behind the call is in the statement, and in no part that is copied. -/
theorem comment_lost_behind_call :
    ∃ source v edit, (callingFile 13 25 [] [commentTree 14 24]).WellFormed
        "() => \x7b run() /* keep */; \x7d" ∧
      SourceFile.ofTree default .tsx "() => \x7b run() /* keep */; \x7d"
        ⟨callingFile 13 25 [] [commentTree 14 24], false⟩ = .ok source ∧
      rule.visitPlain source = .ok [v] ∧ v.edits = [edit] ∧
      callingTree 13 25 [] [commentTree 14 24] ∈
        (callingFile 13 25 [] [commentTree 14 24]).subtrees ∧
      edit.start = (callingTree 13 25 [] [commentTree 14 24]).start ∧
      edit.stop = (callingTree 13 25 [] [commentTree 14 24]).stop ∧
      edit.text = "() => run()" ∧
      IsSole (callingTree 13 25 [] [commentTree 14 24])
        (.node "statement_block" true "body" 6 27 [callStatementTree 13 25 [] [commentTree 14 24]])
        (callStatementTree 13 25 [] [commentTree 14 24]) (callTree 13 []) ∧
      commentTree 14 24 ∈ (callingTree 13 25 [] [commentTree 14 24]).subtrees ∧
      (commentTree 14 24).isComment = true ∧
      ∀ p ∈ copiedTrees (callingTree 13 25 [] [commentTree 14 24]) (callTree 13 []),
        ¬ (p.start ≤ (commentTree 14 24).start ∧ (commentTree 14 24).stop ≤ p.stop) := by
  have hreported : rule.reported .tsx "() => \x7b run() /* keep */; \x7d"
      (callingFile 13 25 [] [commentTree 14 24]) (fun _ v => v.edits) =
        some [[⟨0, 27, "() => run()", by omega⟩]] := by
    decide +kernel
  have hwell : (callingFile 13 25 [] [commentTree 14 24]).WellFormed
      "() => \x7b run() /* keep */; \x7d" := by
    decide
  obtain ⟨source, v, hsource, hvisit, hedits⟩ := Rule.exists_of_reported hreported
  refine ⟨source, v, _, hwell, hsource, hvisit, hedits, ?_, rfl, rfl, rfl,
    ⟨rfl, rfl, rfl, rfl, by decide, rfl, rfl⟩, ?_, rfl, by decide⟩
  · simp [callingFile, callingTree, Tree.subtrees, Tree.subtreesOf]
  · simp [callingTree, callStatementTree, commentTree, Tree.subtrees, Tree.subtreesOf]

end TsxLint.ArrowBody
