/-
Module: TsxLint.Proofs.Rules.ArrowParts
Purpose: What the shorter form of an arrow function is written from.
Main exports: ArrowBody.IsSole, ArrowBody.Texts, ArrowBody.replacement, ArrowBody.IsCondensed,
  ArrowBody.exists_isCondensed
-/
import TsxLint.Proofs.Edit.Overlap
import TsxLint.Proofs.Source.Origins
import TsxLint.Rules.ArrowBody

namespace TsxLint.ArrowBody

/-!
An edit of this rule puts one text in the place of a whole arrow function.  The rule works on nodes
of the model; here its result is read off the tree: which trees the parts are, and how their source
texts are put together.  Nothing else of the function gets into the text.
-/

open Model (Assembled IsFrom ParameterFrom textOf textOf? spanOf parameterTrees isPlainName)

variable {text : String} {root t : Tree} {source : SourceFile} {options : Options}
  {vs : List Violation} {v : Violation} {d : Document}

/-! ### The trees of the parts -/

/-- The trees of an arrow function whose block holds one expression and no comment. -/
structure IsSole (t block statement expression : Tree) : Prop where
  type_eq : t.type = "arrow_function"
  block_eq : t.field? "body" = some block
  block_type : block.type = "statement_block"
  statement_eq : block.kids = [statement]
  uncommented : ∀ c ∈ block.children, c.isComment = false
  statement_type : statement.type = "expression_statement"
  expression_eq : statement.kids.head? = some expression

namespace IsSole

variable {block statement expression : Tree}

theorem statement_mem (h : IsSole t block statement expression) : statement ∈ block.children :=
  Tree.mem_children_of_mem_kids (by rw [h.statement_eq]; exact List.mem_singleton_self _)

theorem expression_mem (h : IsSole t block statement expression) :
    expression ∈ statement.children :=
  Tree.mem_children_of_mem_kids (List.mem_of_mem_head? h.expression_eq)

theorem block_mem (h : IsSole t block statement expression) : block ∈ t.children :=
  Tree.mem_children_of_field? h.block_eq

end IsSole

/-- Whether the parameters are written without parentheses: there is one that is a plain name, and
there are no type annotations. -/
def isBare (t : Tree) : Bool :=
  match parameterTrees t with
  | [p] => (p.type == "identifier" || isPlainName p) && (t.field? "type_parameters").isNone &&
      (t.field? "return_type").isNone
  | _ => false

/-- Parameters without parentheses are one that is kept and is a plain name, and nothing is
annotated. -/
theorem exists_of_isBare (h : isBare t = true) :
    ∃ p, parameterTrees t = [p] ∧ (p.type == "identifier" || isPlainName p) = true ∧
      t.field? "type_parameters" = none ∧ t.field? "return_type" = none := by
  rw [isBare] at h
  split at h
  · next p hp =>
    simp only [Bool.and_eq_true, Option.isNone_iff_eq_none] at h
    exact ⟨p, hp, h.1.1, h.1.2, h.2⟩
  · cases h

/-! ### Their texts -/

/-- The source texts of the parts. -/
structure Texts where
  parameters : List String
  typeParameters : Option String
  returnType : Option String
  expression : String

/-- Each text is that of a part of an arrow function. -/
structure Copies (d : Document) (t expression : Tree) (x : Texts) : Prop where
  parameters : List.Forall₂ (fun p s => textOf d p = .ok s) (parameterTrees t) x.parameters
  typeParameters : textOf? d (t.field? "type_parameters") = .ok x.typeParameters
  returnType : textOf? d (t.field? "return_type") = .ok x.returnType
  expression : textOf d expression = .ok x.expression

/-- The parameters of the shorter function. -/
def writtenParameters (t : Tree) (x : Texts) : String :=
  let list := ", ".intercalate x.parameters
  if isBare t then list
  else x.typeParameters.getD "" ++ ("(" ++ list ++ ")") ++ x.returnType.getD ""

/-- The expression of the shorter function. -/
def writtenExpression (expression : Tree) (x : Texts) : String :=
  if expression.type = "sequence_expression" then "(" ++ x.expression ++ ")" else x.expression

/-- The shorter function. -/
def replacement (t expression : Tree) (x : Texts) : String :=
  (if t.hasKeyword "async" then "async " else "") ++ writtenParameters t x ++ " => " ++
    writtenExpression expression x

/-! ### From nodes to trees -/

theorem isNone_of_textOf? {u : Option Tree} {o : Option String} (h : textOf? d u = .ok o) :
    o.isNone = u.isNone := by
  cases u with
  | none =>
    cases h
    rfl
  | some u =>
    obtain ⟨s, -, rfl⟩ := Outcome.exists_of_map_eq_ok h
    rfl

/-- The type of a tree tells whether its node has to stand in parentheses. -/
theorem needsParentheses_of_isFrom {u : Tree} {n : Node} (h : IsFrom d u n) :
    needsParentheses n = true ↔ u.type = "sequence_expression" := by
  by_cases hkind : n.kind = .other
  · have htype : ∀ o, n = .other o → o.typeName = u.type := by
      rintro o rfl
      obtain ⟨depth, h⟩ := h
      cases depth with
      | zero =>
        cases h
        rfl
      | succ depth =>
        have hassembled : Assembled d (IsFrom d) u (.other o) :=
          Model.assembled_of_assemble (fun c m hm => ⟨depth, hm⟩) h
        cases hassembled
        rfl
    cases n with
    | other o => simp [needsParentheses, htype o rfl]
    | _ => simp [Node.kind] at hkind
  · have hassembled := h.assembled hkind
    have hnone : needsParentheses n = false := by
      cases n with
      | other o => exact absurd rfl hkind
      | _ => rfl
    rw [hnone]
    cases hassembled with
    | text type => rcases type with type | type <;> simp [type]
    | keyword type =>
      rcases List.mem_cons.1 type with type | type
      · simp [type]
      · rcases List.mem_cons.1 type with type | type
        · simp [type]
        · simp [List.mem_singleton.1 type]
    | other type => exact absurd rfl hkind
    | _ => simp_all

/-- A parameter has the place and the text of its tree. -/
theorem span_of_parameterFrom {part : Tree → Node → Prop} {p : Tree} {q : Parameter Node}
    (h : ParameterFrom d part p q) :
    q.span = spanOf d p ∧ textOf d p = .ok q.name ∧
      q.isIdentifier = (p.type == "identifier" || isPlainName p) := by
  cases h with
  | identifier type hname => exact ⟨rfl, hname, by simp [type]⟩
  | pattern type hname => exact ⟨rfl, hname, by simp [type]⟩

/-- The parameters are written as it is said of the tree. -/
theorem parameterList_eq {part : Tree → Node → Prop} {f : Arrow Node} (expression : String)
    (hparams : List.Forall₂ (ParameterFrom d part) (parameterTrees t) f.params)
    (htypeParameters : textOf? d (t.field? "type_parameters") = .ok f.typeParameters)
    (hreturnType : textOf? d (t.field? "return_type") = .ok f.returnType)
    (hdocument : source.document = d) :
    parameterList source f = .ok (writtenParameters t
      ⟨f.params.map (·.name), f.typeParameters, f.returnType, expression⟩) := by
  have htexts : f.params.mapM (fun p => source.textOf p.span) = .ok (f.params.map (·.name)) := by
    rw [Outcome.mapM_eq_ok_iff, List.forall₂_map_right_iff, List.forall₂_same]
    intro q hq
    obtain ⟨p, -, hfrom⟩ := Outcome.exists_left_of_mem hparams hq
    obtain ⟨hspan, hname, -⟩ := span_of_parameterFrom hfrom
    rw [SourceFile.textOf, hdocument, hspan]
    exact hname
  rw [parameterList, htexts, writtenParameters, isBare, ← isNone_of_textOf? htypeParameters,
    ← isNone_of_textOf? hreturnType]
  cases hps : parameterTrees t with
  | nil =>
    rw [hps] at hparams
    rw [List.forall₂_nil_left_iff.1 hparams]
    rfl
  | cons p rest =>
    rw [hps] at hparams
    obtain ⟨q, others, hfrom, hrest, heq⟩ := List.forall₂_cons_left_iff.1 hparams
    rw [heq]
    cases hrest with
    | nil =>
      simp only [(span_of_parameterFrom hfrom).2.2]
      split
      · simp [pure, Except.pure]
      · rfl
    | cons hnext hmore => rfl

/-! ### Edits -/

/-- An edit puts the shorter form in the place of an arrow function of the tree. -/
structure IsCondensed (d : Document) (root : Tree) (v : Violation) (edit : Edit)
    (t block statement expression : Tree) (x : Texts) : Prop where
  mem : t ∈ root.subtrees
  sole : IsSole t block statement expression
  copies : Copies d t expression x
  node_eq : ∃ f, v.node = .arrow f ∧ f.span = spanOf d t
  edits_eq : v.edits = [edit]
  start_eq : edit.start = t.start
  stop_eq : edit.stop = t.stop
  text_eq : edit.text = replacement t expression x

theorem soleExpression?_eq_some {f : Arrow Node} {block : Block Node} {expression : Node}
    (h : soleExpression? f = some (block, expression)) :
    f.body = some (.block block) ∧ ∃ s, block.body = [.statement s] ∧
      s.expression = some expression := by
  rw [soleExpression?] at h
  split at h
  · next b hbody =>
    split at h
    · next s hb =>
      obtain ⟨x, hx, heq⟩ := Option.map_eq_some_iff.1 h
      cases heq
      exact ⟨hbody, s, hb, hx⟩
    · cases h
  · cases h

/-- The block and the expression of an arrow function come from trees. -/
theorem exists_isSole {f : Arrow Node} {block : Block Node} {expression : Node}
    (h : Assembled d (IsFrom d) t (.arrow f)) (hsole : soleExpression? f = some (block, expression))
    (hcomments : block.hasComments = false) :
    ∃ b s u, IsSole t b s u ∧ IsFrom d u expression := by
  obtain ⟨hbody, s, hstatement, hexpression⟩ := soleExpression?_eq_some hsole
  cases h with
  | @arrow params body typeParameters returnType type hparams hrel =>
    obtain rfl : body = some (.block block) := hbody
    obtain ⟨b, hb, hfrom⟩ := Model.exists_of_rel_some hrel
    cases hfrom.assembled (by simp [Node.kind]) with
    | @block nodes blockType hnodes =>
      obtain rfl : nodes = [.statement s] := hstatement
      obtain ⟨w, others, hw, hothers, hkids⟩ := List.forall₂_cons_right_iff.1 hnodes
      rw [List.forall₂_nil_right_iff.1 hothers] at hkids
      cases hw.assembled (by simp [Node.kind]) with
      | @statement found statementType hhead =>
        obtain rfl : found = some expression := hexpression
        obtain ⟨u, hu, hfrom⟩ := Model.exists_of_rel_some hhead
        exact ⟨b, w, u, ⟨type, hb, blockType, hkids, by simpa using hcomments, statementType, hu⟩,
          hfrom⟩

/-- The text of the shorter function is put together from source texts. -/
theorem exists_copies {f : Arrow Node} {expression : Node} {u : Tree} {s : String}
    (hdocument : source.document = d) (h : Assembled d (IsFrom d) t (.arrow f))
    (hu : IsFrom d u expression) (hs : condensed source f expression = .ok s) :
    ∃ x, Copies d t u x ∧ s = replacement t u x := by
  obtain ⟨bare, hbare, hs⟩ := Outcome.exists_of_bind_eq_ok hs
  obtain ⟨list, hlist, hs⟩ := Outcome.exists_of_bind_eq_ok hs
  cases hs
  have htext : textOf d u = .ok bare := by
    rw [SourceFile.textOf, hdocument, hu.span_eq] at hbare
    exact hbare
  cases h with
  | @arrow params body typeParameters returnType type hparams _ htypeParameters hreturnType =>
    rw [parameterList_eq bare hparams htypeParameters hreturnType hdocument] at hlist
    cases hlist
    refine ⟨⟨params.map (·.name), typeParameters, returnType, bare⟩,
      ⟨List.forall₂_map_right_iff.2 (hparams.imp fun _ _ hp => (span_of_parameterFrom hp).2.1),
        htypeParameters, hreturnType, htext⟩, ?_⟩
    rw [replacement, writtenExpression]
    simp only [needsParentheses_of_isFrom hu]

/-- Every violation of this rule that has an edit puts the shorter form in the place of an arrow
function of the tree. -/
theorem exists_isCondensed (hs : source.Parsed text root)
    (h : rule.visit source options = .ok vs) (hv : v ∈ vs) (hedits : v.edits ≠ []) :
    ∃ edit t block statement expression x,
      IsCondensed (Document.ofText text) root v edit t block statement expression x := by
  obtain ⟨way, n, found, hvisit, hreport, hv⟩ := Listener.exists_of_mem_run_atNodes h hv
  have hn := Node.mem_preorder_of_mem_visits hvisit
  cases n with
  | arrow f =>
    obtain ⟨t, ht, hassembled⟩ := hs.exists_assembled hn (by simp [Node.kind, Model.made])
    simp only [checkArrow] at hreport
    cases hsole : soleExpression? f with
    | none =>
      rw [hsole] at hreport
      cases hreport
      cases hv
    | some p =>
      obtain ⟨block, expression⟩ := p
      simp only [hsole] at hreport
      by_cases hcomments : block.hasComments = true
      · rw [if_pos hcomments] at hreport
        cases hreport
        cases List.mem_singleton.1 hv
        exact absurd rfl hedits
      · rw [if_neg hcomments] at hreport
        obtain ⟨s, hcondensed, hreport⟩ := Outcome.exists_of_bind_eq_ok hreport
        obtain ⟨edit, hedit, hreport⟩ := Outcome.exists_of_bind_eq_ok hreport
        cases hreport
        cases List.mem_singleton.1 hv
        obtain ⟨b, w, u, hparts, hu⟩ :=
          exists_isSole hassembled hsole (eq_false_of_ne_true hcomments)
        obtain ⟨x, hcopies, rfl⟩ := exists_copies hs.document_eq hassembled hu hcondensed
        obtain ⟨hstart, hstop, htext⟩ := Edit.between_eq_ok_iff.1 hedit
        have hspan : f.span = spanOf (Document.ofText text) t := hassembled.span_eq
        rw [hspan] at hstart hstop
        exact ⟨edit, t, b, w, u, x, ht, hparts, hcopies, ⟨f, rfl, hspan⟩, rfl,
          Int.ofNat_inj.1 hstart, Int.ofNat_inj.1 hstop, htext⟩
  | _ =>
    cases hreport
    cases hv

end TsxLint.ArrowBody
