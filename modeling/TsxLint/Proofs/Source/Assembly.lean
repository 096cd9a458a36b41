/-
Module: TsxLint.Proofs.Source.Assembly
Purpose: What a node is put together from, for every construct.
Main exports: Model.Assembled, Model.assembled_of_assemble, Model.buildWithin_induction
-/
import TsxLint.Proofs.Outcome
import TsxLint.Source.Model

namespace TsxLint.Model

/-!
`Model.assemble` picks the parts of a construct and builds them.  Seen from the result, a node
of a kind has parts that come from certain trees: `Assembled` lists the kinds with the trees of
their parts, for any relation `part` between trees and nodes.  A fact about all nodes that are
built is then proved with one case for each kind.
-/

variable {d : Document} {part : Tree → Node → Prop}

/-! ### Parts that are no nodes by themselves -/

/-- What the value of an attribute comes from. -/
inductive ValueFrom (d : Document) (part : Tree → Node → Prop) : Option Tree → Option Node → Prop
  | missing : ValueFrom d part none none
  | string {t : Tree} {raw : String} (type : t.type = "string") (text : textOf d t = .ok raw) :
      ValueFrom d part (some t) (some (.literal ⟨spanOf d t, .str (unquote raw), raw⟩))
  | part {t : Tree} {n : Node} (type : t.type ≠ "string") (built : part t n) :
      ValueFrom d part (some t) (some n)

/-- The expression in a spread attribute. -/
def spreadTree? (t : Tree) : Option Tree := t.kids.head?.filter fun c => c.type == "spread_element"

/-- What an attribute of an element comes from. -/
inductive AttributeFrom (d : Document) (part : Tree → Node → Prop) : Tree → Node → Prop
  | attr {t : Tree} {name : Option String} {value : Option Node} (type : t.type = "jsx_attribute")
      (hvalue : ValueFrom d part t.kids[1]? value) (hname : textOf? d t.kids[0]? = .ok name) :
      AttributeFrom d part t (.attr ⟨spanOf d t, name.getD "", t.kids[0]?.map (spanOf d), value⟩)
  | spread {t : Tree} {argument : Option Node} (type : t.type = "jsx_expression")
      (hargument : Option.Rel part (spreadTree? t) argument) :
      AttributeFrom d part t (.spread ⟨spanOf d t, argument⟩)

/-- The children of a tag that are attributes. -/
def attributeTrees (tag : Option Tree) : List Tree :=
  ((tag.map Tree.kids).getD []).filter fun c =>
    c.type == "jsx_attribute" || c.type == "jsx_expression"

/-- What the expression of a substitution comes from. -/
inductive SubstitutionFrom (d : Document) (part : Tree → Node → Prop) : Tree → Node → Prop
  | empty {t : Tree} (kids : t.kids = []) :
      SubstitutionFrom d part t (.other ⟨d.span (t.start + 2) ((t.stop : Int) - 1), "empty", []⟩)
  | part {t first : Tree} {n : Node} (kids : t.kids.head? = some first) (built : part first n) :
      SubstitutionFrom d part t n

/-- The substitutions of a template string. -/
def substitutionTrees (t : Tree) : List Tree :=
  t.children.filter fun c => c.named && c.type == "template_substitution"

/-- What the chunks and expressions of a template string come from: the first chunk begins at
the cursor and the last one ends at `stop`. -/
inductive TemplateFrom (d : Document) (part : Tree → Node → Prop) (stop : Int) :
    Int → List Tree → List Chunk → List Node → Prop
  | last {cursor : Int} {c : Chunk} (hchunk : chunk d cursor stop = .ok c) :
      TemplateFrom d part stop cursor [] [c] []
  | next {cursor : Int} {t : Tree} {rest : List Tree} {c : Chunk} {n : Node} {chunks : List Chunk}
      {nodes : List Node} (hchunk : chunk d cursor t.start = .ok c)
      (hexpression : SubstitutionFrom d part t n)
      (hrest : TemplateFrom d part stop t.stop rest chunks nodes) :
      TemplateFrom d part stop cursor (t :: rest) (c :: chunks) (n :: nodes)

/-- The default of a formal parameter. -/
def defaultTree? (t : Tree) : Option Tree := (t.field? "value").or (t.field? "right")

/-- Whether a formal parameter is written as a plain name, without a mark or an annotation. -/
def isPlainName (t : Tree) : Bool :=
  t.type == "required_parameter" &&
    match t.kids with
    | [only] => only.type == "identifier"
    | _ => false

/-- What a formal parameter comes from. -/
inductive ParameterFrom (d : Document) (part : Tree → Node → Prop) : Tree → Parameter Node → Prop
  | identifier {t : Tree} {name : String} (type : t.type = "identifier")
      (hname : textOf d t = .ok name) :
      ParameterFrom d part t ⟨spanOf d t, name, false, true, none⟩
  | pattern {t : Tree} {name : String} {default : Option Node} (type : t.type ≠ "identifier")
      (hname : textOf d t = .ok name) (hdefault : Option.Rel part (defaultTree? t) default) :
      ParameterFrom d part t
        ⟨spanOf d t, name, (t.field? "type").isSome, isPlainName t, default⟩

/-- The opening tag of an element. -/
def openingTree? (t : Tree) : Option Tree :=
  (t.field? "open_tag").or (t.first? "jsx_opening_element")

/-- The closing tag of an element. -/
def closingTree? (t : Tree) : Option Tree :=
  (t.field? "close_tag").or (t.last? "jsx_closing_element")

/-- The contents of an element between its tags. -/
def bodyTrees (t : Tree) : List Tree := t.kids.filter fun c => !isTag c

/-! ### Nodes -/

/-- What a node is put together from. -/
inductive Assembled (d : Document) (part : Tree → Node → Prop) (t : Tree) : Node → Prop
  | program {body : List Node} (type : t.type = "program")
      (hbody : List.Forall₂ part t.kids body) : Assembled d part t (.program ⟨spanOf d t, body⟩)
  | importDeclaration {source : Literal} {specifiers : List Specifier}
      (type : t.type = "import_statement")
      (hsource : moduleLiteral d (t.field? "source") = .ok (some source))
      (hspecifiers :
        clauseParts d (((t.first? "import_clause").map Tree.kids).getD []) = .ok (some specifiers)) :
      Assembled d part t
        (.importDeclaration ⟨spanOf d t, some source, specifiers, t.hasKeyword "type"⟩)
  | exportDeclaration {clause : Tree} {source : Option Literal} {specifiers : List Specifier}
      (type : t.type = "export_statement") (hclause : t.first? "export_clause" = some clause)
      (hspecifiers : namedSpecifiers d "export_specifier" clause.kids = .ok (some specifiers))
      (hsource : moduleLiteral d (t.field? "source") = .ok source) :
      Assembled d part t (.exportDeclaration ⟨spanOf d t, source, specifiers, t.hasKeyword "type"⟩)
  | element {name closingName : String} {nameSpan closingNameSpan : Option Span}
      {attributes body : List Node} (type : t.type = "jsx_element")
      (hopening : tagName d (openingTree? t) = .ok (name, nameSpan))
      (hclosing : tagName d (closingTree? t) = .ok (closingName, closingNameSpan))
      (hattributes :
        List.Forall₂ (AttributeFrom d part) (attributeTrees (openingTree? t)) attributes)
      (hbody : List.Forall₂ part (bodyTrees t) body) :
      Assembled d part t
        (.element ⟨spanOf d t, name, nameSpan, (openingTree? t).map (spanOf d), closingNameSpan,
          attributes, body, false⟩)
  | selfClosing {name : String} {nameSpan : Option Span} {attributes : List Node}
      (type : t.type = "jsx_self_closing_element")
      (hopening : tagName d (some t) = .ok (name, nameSpan))
      (hattributes : List.Forall₂ (AttributeFrom d part) (attributeTrees (some t)) attributes) :
      Assembled d part t
        (.element ⟨spanOf d t, name, nameSpan, some (spanOf d t), none, attributes, [], true⟩)
  | fragment {body : List Node} (type : t.type = "jsx_fragment")
      (hbody : List.Forall₂ part t.kids body) :
      Assembled d part t (.element ⟨spanOf d t, "", none, none, none, [], body, false⟩)
  | container {expression : Option Node} (type : t.type = "jsx_expression")
      (hexpression : Option.Rel part t.kids.head? expression) :
      Assembled d part t (.container ⟨spanOf d t, expression⟩)
  | text {value : String} (type : t.type = "jsx_text" ∨ t.type = "html_character_reference")
      (hvalue : textOf d t = .ok value) : Assembled d part t (.text ⟨spanOf d t, value⟩)
  | string {raw : String} (type : t.type = "string") (hraw : textOf d t = .ok raw)
      (plain : (unquote raw).toList.contains '\\' = false) :
      Assembled d part t (.literal ⟨spanOf d t, .str (unquote raw), raw⟩)
  | number {raw : String} {value : Value} (type : t.type = "number") (hraw : textOf d t = .ok raw)
      (hvalue : Literal.readNumber? raw = some value) :
      Assembled d part t (.literal ⟨spanOf d t, value, raw⟩)
  | keyword (type : t.type ∈ ["true", "false", "null"]) :
      Assembled d part t (.literal ⟨spanOf d t, keywordValue t.type, t.type⟩)
  | template {chunks : List Chunk} {expressions : List Node} (type : t.type = "template_string")
      (hparts : TemplateFrom d part ((t.stop : Int) - 1) (t.start + 1) (substitutionTrees t) chunks
        expressions) :
      Assembled d part t (.template ⟨spanOf d t, chunks, expressions⟩)
  | arrow {params : List (Parameter Node)} {body : Option Node}
      {typeParameters returnType : Option String} (type : t.type = "arrow_function")
      (hparams : List.Forall₂ (ParameterFrom d part) (parameterTrees t) params)
      (hbody : Option.Rel part (t.field? "body") body)
      (htypeParameters : textOf? d (t.field? "type_parameters") = .ok typeParameters)
      (hreturnType : textOf? d (t.field? "return_type") = .ok returnType) :
      Assembled d part t
        (.arrow ⟨spanOf d t, params, body, t.hasKeyword "async", typeParameters, returnType⟩)
  | block {body : List Node} (type : t.type = "statement_block")
      (hbody : List.Forall₂ part t.kids body) :
      Assembled d part t (.block ⟨spanOf d t, body, t.children.any Tree.isComment⟩)
  | statement {expression : Option Node} (type : t.type = "expression_statement")
      (hexpression : Option.Rel part t.kids.head? expression) :
      Assembled d part t (.statement ⟨spanOf d t, expression⟩)
  | declarator {name : Tree} {bound : String} {init : Option Node}
      (type : t.type = "variable_declarator") (hname : t.field? "name" = some name)
      (hbound : textOf d name = .ok bound) (hinit : Option.Rel part (t.field? "value") init) :
      Assembled d part t
        (.declarator ⟨spanOf d t, bound, spanOf d name, (t.field? "type").isSome, init⟩)
  | other {nodes : List Node}
      (type : Construct.ofType t.type ∈
        [.importStatement, .exportStatement, .string, .number, .declarator, .unknown])
      (hnodes : List.Forall₂ part t.kids nodes) :
      Assembled d part t (.other ⟨spanOf d t, t.type, nodes⟩)

/-! ### Every node is assembled -/

/-- The types of tree nodes that a construct stands for. -/
def typesOf : Construct → List String
  | .program => ["program"]
  | .importStatement => ["import_statement"]
  | .exportStatement => ["export_statement"]
  | .element => ["jsx_element"]
  | .selfClosingElement => ["jsx_self_closing_element"]
  | .fragment => ["jsx_fragment"]
  | .container => ["jsx_expression"]
  | .text => ["jsx_text", "html_character_reference"]
  | .string => ["string"]
  | .number => ["number"]
  | .keyword => ["true", "false", "null"]
  | .template => ["template_string"]
  | .arrow => ["arrow_function"]
  | .block => ["statement_block"]
  | .statement => ["expression_statement"]
  | .declarator => ["variable_declarator"]
  | .unknown => []

theorem mem_typesOf_ofType {type : String} (h : Construct.ofType type ≠ .unknown) :
    type ∈ typesOf (Construct.ofType type) := by
  unfold Construct.ofType at h ⊢
  split at h <;> simp [typesOf] at h ⊢

/-- The type of a tree is one that its construct stands for. -/
theorem type_mem_typesOf {t : Tree} {c : Construct} (hc : Construct.ofType t.type = c)
    (hne : c ≠ .unknown) : t.type ∈ typesOf c := by
  subst hc
  exact mem_typesOf_ofType hne

theorem assembled_of_importDeclaration {t : Tree} {n : Node} (type : t.type = "import_statement")
    (h : importDeclaration d t = .ok (some n)) : Assembled d part t n := by
  obtain ⟨source, hsource, h⟩ := Outcome.exists_of_bind_eq_ok h
  cases source with
  | none => cases h
  | some source =>
    obtain ⟨specifiers, hspecifiers, h⟩ := Outcome.exists_of_bind_eq_ok h
    cases specifiers with
    | none => cases h
    | some specifiers =>
      cases h
      exact .importDeclaration type hsource hspecifiers

theorem assembled_of_exportDeclaration {t : Tree} {n : Node} (type : t.type = "export_statement")
    (h : exportDeclaration d t = .ok (some n)) : Assembled d part t n := by
  rw [exportDeclaration] at h
  cases hclause : t.first? "export_clause" with
  | none =>
    rw [hclause] at h
    cases h
  | some clause =>
    rw [hclause] at h
    obtain ⟨specifiers, hspecifiers, h⟩ := Outcome.exists_of_bind_eq_ok h
    cases specifiers with
    | none => cases h
    | some specifiers =>
      obtain ⟨source, hsource, h⟩ := Outcome.exists_of_bind_eq_ok h
      cases h
      exact .exportDeclaration type hclause hspecifiers hsource

theorem assembled_of_stringLiteral {t : Tree} {n : Node} (type : t.type = "string")
    (h : stringLiteral d t = .ok (some n)) : Assembled d part t n := by
  obtain ⟨raw, hraw, h⟩ := Outcome.exists_of_bind_eq_ok h
  by_cases hescape : (unquote raw).toList.contains '\\' = true
  · rw [if_pos hescape] at h
    cases h
  · rw [if_neg hescape] at h
    cases h
    exact .string type hraw (Bool.eq_false_iff.2 hescape)

theorem assembled_of_numberLiteral {t : Tree} {n : Node} (type : t.type = "number")
    (h : numberLiteral d t = .ok (some n)) : Assembled d part t n := by
  obtain ⟨raw, hraw, h⟩ := Outcome.exists_of_bind_eq_ok h
  obtain ⟨value, hvalue, rfl⟩ := Option.map_eq_some_iff.1 (Except.ok.inj h)
  exact .number type hraw hvalue

/-- A construct without a node of its own is one that may lack a part, or none at all. -/
theorem ofType_of_construct_eq_none {build : Builder} {t : Tree} {c : Construct}
    (h : construct d build t c = .ok none) :
    c ∈ [.importStatement, .exportStatement, .string, .number, .declarator, .unknown] := by
  cases c with
  | importStatement | exportStatement | string | number | declarator | unknown => simp
  | program | container | text | block | statement =>
    obtain ⟨m, -, h⟩ := Outcome.exists_of_bind_eq_ok h
    cases h
  | element | selfClosingElement | fragment | template | arrow =>
    obtain ⟨m, -, h⟩ := Outcome.exists_of_map_eq_ok h
    cases h
  | keyword => cases h

section Inversion

variable {build : Builder} (built : ∀ c m, build c = .ok m → part c m)
include built

theorem rel_of_optional {t : Option Tree} {n : Option Node}
    (h : optional build t = .ok n) : Option.Rel part t n := by
  cases t with
  | none =>
    cases h
    exact .none
  | some t =>
    obtain ⟨m, hm, rfl⟩ := Outcome.exists_of_map_eq_ok h
    exact .some (built t m hm)

theorem forall₂_of_mapM {ts : List Tree} {nodes : List Node} (h : ts.mapM build = .ok nodes) :
    List.Forall₂ part ts nodes :=
  (Outcome.mapM_eq_ok_iff.1 h).imp built

theorem valueFrom_of_attributeValue {t : Option Tree} {n : Option Node}
    (h : attributeValue d build t = .ok n) : ValueFrom d part t n := by
  cases t with
  | none =>
    cases h
    exact .missing
  | some t =>
    rw [attributeValue] at h
    by_cases htype : t.type = "string"
    · rw [if_pos htype] at h
      obtain ⟨raw, hraw, h⟩ := Outcome.exists_of_bind_eq_ok h
      cases h
      exact .string htype hraw
    · rw [if_neg htype] at h
      obtain ⟨m, hm, rfl⟩ := Outcome.exists_of_map_eq_ok h
      exact .part htype (built t m hm)

theorem attributeFrom_of_attributeList {ts : List Tree} {nodes : List Node}
    (h : attributeList d build ts = .ok nodes) :
    List.Forall₂ (AttributeFrom d part)
      (ts.filter fun c => c.type == "jsx_attribute" || c.type == "jsx_expression") nodes := by
  induction ts generalizing nodes with
  | nil =>
    cases h
    exact .nil
  | cons t rest ih =>
    rw [attributeList] at h
    by_cases hattr : t.type = "jsx_attribute"
    · rw [if_pos hattr] at h
      obtain ⟨a, ha, h⟩ := Outcome.exists_of_bind_eq_ok h
      obtain ⟨others, hothers, h⟩ := Outcome.exists_of_bind_eq_ok h
      cases h
      obtain ⟨value, hvalue, ha⟩ := Outcome.exists_of_bind_eq_ok ha
      obtain ⟨name, hname, ha⟩ := Outcome.exists_of_bind_eq_ok ha
      cases ha
      rw [List.filter_cons_of_pos (by simp [hattr])]
      exact .cons (.attr hattr (valueFrom_of_attributeValue built hvalue) hname) (ih hothers)
    · rw [if_neg hattr] at h
      by_cases hspread : t.type = "jsx_expression"
      · rw [if_pos hspread] at h
        obtain ⟨a, ha, h⟩ := Outcome.exists_of_bind_eq_ok h
        obtain ⟨others, hothers, h⟩ := Outcome.exists_of_bind_eq_ok h
        cases h
        obtain ⟨argument, hargument, ha⟩ := Outcome.exists_of_bind_eq_ok ha
        cases ha
        rw [List.filter_cons_of_pos (by simp [hspread])]
        exact .cons (.spread hspread (rel_of_optional built hargument)) (ih hothers)
      · rw [if_neg hspread] at h
        rw [List.filter_cons_of_neg (by simp [hattr, hspread])]
        exact ih h

theorem substitutionFrom_of_substituted {t : Tree} {n : Node}
    (h : substituted d build t = .ok n) : SubstitutionFrom d part t n := by
  rw [substituted] at h
  cases hkids : t.kids with
  | nil =>
    rw [hkids] at h
    cases h
    exact .empty hkids
  | cons first rest =>
    rw [hkids] at h
    exact .part (by rw [hkids]; rfl) (built first n h)

theorem templateFrom_of_templateParts {stop cursor : Int} {ts : List Tree} {chunks : List Chunk}
    {nodes : List Node} (h : templateParts d build stop cursor ts = .ok (chunks, nodes)) :
    TemplateFrom d part stop cursor ts chunks nodes := by
  induction ts generalizing cursor chunks nodes with
  | nil =>
    obtain ⟨last, hlast, h⟩ := Outcome.exists_of_bind_eq_ok h
    cases h
    exact .last hlast
  | cons t rest ih =>
    obtain ⟨first, hfirst, h⟩ := Outcome.exists_of_bind_eq_ok h
    obtain ⟨expression, hexpression, h⟩ := Outcome.exists_of_bind_eq_ok h
    obtain ⟨⟨later, others⟩, hrest, h⟩ := Outcome.exists_of_bind_eq_ok h
    cases h
    exact .next hfirst (substitutionFrom_of_substituted built hexpression) (ih hrest)

theorem parameterFrom_of_parameter {t : Tree} {p : Parameter Node}
    (h : parameter d build t = .ok p) : ParameterFrom d part t p := by
  obtain ⟨name, hname, h⟩ := Outcome.exists_of_bind_eq_ok h
  by_cases htype : t.type = "identifier"
  · rw [if_pos htype] at h
    cases h
    exact .identifier htype hname
  · rw [if_neg htype] at h
    obtain ⟨default, hdefault, h⟩ := Outcome.exists_of_bind_eq_ok h
    cases h
    exact .pattern htype hname (rel_of_optional built hdefault)

theorem assembled_of_element {t : Tree} {n : Node} (type : t.type = "jsx_element")
    (h : element d build t = .ok n) : Assembled d part t n := by
  obtain ⟨⟨name, nameSpan⟩, hopening, h⟩ := Outcome.exists_of_bind_eq_ok h
  obtain ⟨⟨closingName, closingNameSpan⟩, hclosing, h⟩ := Outcome.exists_of_bind_eq_ok h
  obtain ⟨body, hbody, h⟩ := Outcome.exists_of_bind_eq_ok h
  obtain ⟨attributes, hattributes, h⟩ := Outcome.exists_of_bind_eq_ok h
  cases h
  exact .element type hopening hclosing (attributeFrom_of_attributeList built hattributes)
    (forall₂_of_mapM built hbody)

theorem assembled_of_selfClosingElement {t : Tree} {n : Node}
    (type : t.type = "jsx_self_closing_element") (h : selfClosingElement d build t = .ok n) :
    Assembled d part t n := by
  obtain ⟨⟨name, nameSpan⟩, hopening, h⟩ := Outcome.exists_of_bind_eq_ok h
  obtain ⟨attributes, hattributes, h⟩ := Outcome.exists_of_bind_eq_ok h
  cases h
  exact .selfClosing type hopening (attributeFrom_of_attributeList built hattributes)

theorem assembled_of_arrow {t : Tree} {n : Node} (type : t.type = "arrow_function")
    (h : arrow d build t = .ok n) : Assembled d part t n := by
  obtain ⟨params, hparams, h⟩ := Outcome.exists_of_bind_eq_ok h
  obtain ⟨body, hbody, h⟩ := Outcome.exists_of_bind_eq_ok h
  obtain ⟨typeParameters, htypeParameters, h⟩ := Outcome.exists_of_bind_eq_ok h
  obtain ⟨returnType, hreturnType, h⟩ := Outcome.exists_of_bind_eq_ok h
  cases h
  have hparams' : List.Forall₂ (ParameterFrom d part) (parameterTrees t) params :=
    (Outcome.mapM_eq_ok_iff.1 hparams).imp fun _ _ => parameterFrom_of_parameter built
  exact .arrow type hparams' (rel_of_optional built hbody) htypeParameters hreturnType

theorem assembled_of_declarator {t : Tree} {n : Node} (type : t.type = "variable_declarator")
    (h : declarator d build t = .ok (some n)) : Assembled d part t n := by
  rw [declarator] at h
  cases hname : t.field? "name" with
  | none =>
    rw [hname] at h
    cases h
  | some name =>
    rw [hname] at h
    obtain ⟨bound, hbound, h⟩ := Outcome.exists_of_bind_eq_ok h
    obtain ⟨init, hinit, h⟩ := Outcome.exists_of_bind_eq_ok h
    cases h
    exact .declarator type hname hbound (rel_of_optional built hinit)

/-- The node of a construct is assembled from the parts of the tree. -/
theorem assembled_of_construct {t : Tree} {n : Node} {c : Construct} (hc : Construct.ofType t.type = c)
    (h : construct d build t c = .ok (some n)) : Assembled d part t n := by
  have htype : c ≠ .unknown → t.type ∈ typesOf c := type_mem_typesOf hc
  cases c with
  | program =>
    obtain ⟨body, hbody, h⟩ := Outcome.exists_of_bind_eq_ok h
    cases h
    exact .program (List.mem_singleton.1 (htype nofun)) (forall₂_of_mapM built hbody)
  | importStatement =>
    exact assembled_of_importDeclaration (List.mem_singleton.1 (htype nofun)) h
  | exportStatement =>
    exact assembled_of_exportDeclaration (List.mem_singleton.1 (htype nofun)) h
  | element =>
    obtain ⟨m, hm, heq⟩ := Outcome.exists_of_map_eq_ok h
    cases heq
    exact assembled_of_element built (List.mem_singleton.1 (htype nofun)) hm
  | selfClosingElement =>
    obtain ⟨m, hm, heq⟩ := Outcome.exists_of_map_eq_ok h
    cases heq
    exact assembled_of_selfClosingElement built (List.mem_singleton.1 (htype nofun)) hm
  | fragment =>
    obtain ⟨m, hm, heq⟩ := Outcome.exists_of_map_eq_ok h
    cases heq
    obtain ⟨body, hbody, hm⟩ := Outcome.exists_of_bind_eq_ok hm
    cases hm
    exact .fragment (List.mem_singleton.1 (htype nofun)) (forall₂_of_mapM built hbody)
  | container =>
    obtain ⟨expression, hexpression, h⟩ := Outcome.exists_of_bind_eq_ok h
    cases h
    exact .container (List.mem_singleton.1 (htype nofun)) (rel_of_optional built hexpression)
  | text =>
    obtain ⟨value, hvalue, h⟩ := Outcome.exists_of_bind_eq_ok h
    cases h
    exact .text (by simpa [typesOf] using htype nofun) hvalue
  | string =>
    exact assembled_of_stringLiteral (List.mem_singleton.1 (htype nofun)) h
  | number =>
    exact assembled_of_numberLiteral (List.mem_singleton.1 (htype nofun)) h
  | keyword =>
    cases h
    exact .keyword (htype nofun)
  | template =>
    obtain ⟨m, hm, heq⟩ := Outcome.exists_of_map_eq_ok h
    cases heq
    obtain ⟨⟨chunks, expressions⟩, hparts, hm⟩ := Outcome.exists_of_bind_eq_ok hm
    cases hm
    exact .template (List.mem_singleton.1 (htype nofun)) (templateFrom_of_templateParts built hparts)
  | arrow =>
    obtain ⟨m, hm, heq⟩ := Outcome.exists_of_map_eq_ok h
    cases heq
    exact assembled_of_arrow built (List.mem_singleton.1 (htype nofun)) hm
  | block =>
    obtain ⟨body, hbody, h⟩ := Outcome.exists_of_bind_eq_ok h
    cases h
    exact .block (List.mem_singleton.1 (htype nofun)) (forall₂_of_mapM built hbody)
  | statement =>
    obtain ⟨expression, hexpression, h⟩ := Outcome.exists_of_bind_eq_ok h
    cases h
    exact .statement (List.mem_singleton.1 (htype nofun)) (rel_of_optional built hexpression)
  | declarator =>
    exact assembled_of_declarator built (List.mem_singleton.1 (htype nofun)) h
  | unknown => cases h

theorem assembled_of_assemble {t : Tree} {n : Node} (h : assemble d build t = .ok n) :
    Assembled d part t n := by
  obtain ⟨found, hfound, h⟩ := Outcome.exists_of_bind_eq_ok h
  cases found with
  | some m =>
    cases h
    exact assembled_of_construct built rfl hfound
  | none =>
    obtain ⟨nodes, hnodes, h⟩ := Outcome.exists_of_bind_eq_ok h
    cases h
    exact .other (ofType_of_construct_eq_none hfound) (forall₂_of_mapM built hnodes)

end Inversion

/-- A relation between trees and nodes holds of all that is built if it passes from the parts of
a node to the node. -/
theorem buildWithin_induction {P : Tree → Node → Prop}
    (bottom : ∀ t, P t (.other ⟨spanOf d t, t.type, []⟩))
    (step : ∀ t n, Assembled d P t n → P t n) {depth : Nat} {t : Tree} {n : Node}
    (h : buildWithin d depth t = .ok n) : P t n := by
  induction depth generalizing t n with
  | zero =>
    cases h
    exact bottom t
  | succ depth ih => exact step t n (assembled_of_assemble (fun _ _ => ih) h)

end TsxLint.Model
