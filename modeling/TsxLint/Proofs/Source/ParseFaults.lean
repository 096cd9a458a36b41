/-
Module: TsxLint.Proofs.Source.ParseFaults
Purpose: What can go wrong when the tree of a text is turned into a source file.
Main exports: Model.ReadsWith, Model.failsOnly_build, Model.OnlySlicesFail,
  SourceFile.failsOnly_ofTree_of_readsWith, SourceFile.onlySlicesFail_ofTree
-/
import TsxLint.Proofs.Source.Spans
import TsxLint.Source.File

namespace TsxLint

/-!
All that is read while a model is built are slices of the text: the texts of tree nodes, and the
chunks of template strings, which are the only places that are computed and not taken from the
tree.  So building fails with no other faults than reading them does (`Model.ReadsWith`).  The
lemmas follow the assembling functions one by one; each assumes of the builder of parts what is
to be shown of the whole.

A slice fails only if it cuts a character, so that is all that can go wrong whatever the tree looks
like.
-/

/-- A fault of bytes that are no text. -/
def Fault.IsMalformedText (fault : Fault) : Prop := ∃ error, fault = .malformedText error

namespace Model

open Outcome (FailsOnly)

variable {P : Fault → Prop} {d : Document} {part : Builder} {t : Tree}

/-- A computation fails only where a slice of a text cuts a character. -/
abbrev OnlySlicesFail {α : Type} (o : Outcome α) : Prop := FailsOnly Fault.IsMalformedText o

/-! ### What is read -/

/-- The ranges of the chunks of a template string, from its substitutions. -/
def chunkRanges (stop cursor : Int) : List Tree → List (Int × Int)
  | [] => [(cursor, stop)]
  | t :: rest => (cursor, t.start) :: chunkRanges stop t.stop rest

/-- The texts of all nodes of a tree, and all chunks of template strings in it, are read without
faults other than those with a property. -/
structure ReadsWith (P : Fault → Prop) (d : Document) (t : Tree) : Prop where
  texts : ∀ u ∈ t.subtrees, FailsOnly P (textOf d u)
  chunks : ∀ u ∈ t.subtrees, u.type = "template_string" →
    ∀ r ∈ chunkRanges ((u.stop : Int) - 1) (u.start + 1) (substitutionTrees u),
      FailsOnly P (d.slice r.1 r.2)

namespace ReadsWith

theorem of_mem (h : ReadsWith P d t) {u : Tree} (hu : u ∈ t.subtrees) : ReadsWith P d u where
  texts v hv := h.texts v (Tree.mem_subtrees_trans hv hu)
  chunks v hv := h.chunks v (Tree.mem_subtrees_trans hv hu)

theorem textOf (h : ReadsWith P d t) : FailsOnly P (textOf d t) :=
  h.texts t (Tree.self_mem_subtrees t)

theorem child (h : ReadsWith P d t) {c : Tree} (hc : c ∈ t.children) : ReadsWith P d c :=
  h.of_mem (Tree.mem_subtrees_of_mem_children hc)

theorem kid (h : ReadsWith P d t) {c : Tree} (hc : c ∈ t.kids) : ReadsWith P d c :=
  h.child (Tree.mem_children_of_mem_kids hc)

theorem field (h : ReadsWith P d t) (field : String) : ∀ c ∈ t.field? field, ReadsWith P d c :=
  fun _ hc => h.child (Tree.mem_children_of_field? hc)

theorem first (h : ReadsWith P d t) (type : String) : ∀ c ∈ t.first? type, ReadsWith P d c :=
  fun _ hc => h.child (Tree.mem_children_of_first? hc)

theorem last (h : ReadsWith P d t) (type : String) : ∀ c ∈ t.last? type, ReadsWith P d c := by
  intro c hc
  rw [Tree.last?] at hc
  exact h.child (List.mem_reverse.1 (List.mem_of_find?_eq_some hc))

theorem kidAt (h : ReadsWith P d t) (i : Nat) : ∀ c ∈ t.kids[i]?, ReadsWith P d c :=
  fun _ hc => h.kid (List.mem_of_getElem? hc)

/-- What holds of two trees that may be missing holds of the one that is there. -/
theorem or {x y : Option Tree} (hx : ∀ c ∈ x, ReadsWith P d c) (hy : ∀ c ∈ y, ReadsWith P d c) :
    ∀ c ∈ x.or y, ReadsWith P d c := by
  intro c hc
  rcases Option.or_eq_some_iff.1 hc with hc | ⟨-, hc⟩
  · exact hx c hc
  · exact hy c hc

end ReadsWith

theorem failsOnly_textOf? {u : Option Tree} (hu : ∀ c ∈ u, ReadsWith P d c) :
    FailsOnly P (textOf? d u) := by
  cases u with
  | none => exact .ok _
  | some u => exact (hu u rfl).textOf.map _

/-! ### Declarations -/

theorem failsOnly_moduleLiteral {u : Option Tree} (hu : ∀ c ∈ u, ReadsWith P d c) :
    FailsOnly P (moduleLiteral d u) := by
  cases u with
  | none => exact .ok _
  | some u =>
    rw [moduleLiteral]
    split
    · exact (hu u rfl).textOf.bind fun _ => .ok _
    · exact .ok _

theorem failsOnly_namedSpecifier (ht : ReadsWith P d t) : FailsOnly P (namedSpecifier d t) := by
  unfold namedSpecifier
  split
  · exact .ok _
  · rename_i name hname
    apply (ht.field "name" name hname).textOf.bind
    intro imported
    exact (failsOnly_textOf? (ht.field "alias")).bind fun _ => .ok _

theorem failsOnly_namedSpecifiers (type : String) {ts : List Tree}
    (hts : ∀ c ∈ ts, ReadsWith P d c) : FailsOnly P (namedSpecifiers d type ts) := by
  induction ts with
  | nil => exact .ok _
  | cons c rest ih =>
    obtain ⟨hc, hrest⟩ := List.forall_mem_cons.1 hts
    rw [namedSpecifiers]
    split
    · apply (failsOnly_namedSpecifier hc).bind
      intro specifier
      cases specifier with
      | none => exact .ok _
      | some specifier => exact (ih hrest).bind fun _ => .ok _
    · exact ih hrest

theorem failsOnly_clausePart (ht : ReadsWith P d t) : FailsOnly P (clausePart d t) := by
  unfold clausePart
  split
  · exact ht.textOf.bind fun _ => .ok _
  · split
    · split
      · exact .ok _
      · rename_i identifier hidentifier
        exact (ht.first _ identifier hidentifier).textOf.bind fun _ => .ok _
    · split
      · exact failsOnly_namedSpecifiers _ fun _ hc => ht.kid hc
      · exact .ok _

theorem failsOnly_clauseParts {ts : List Tree} (hts : ∀ c ∈ ts, ReadsWith P d c) :
    FailsOnly P (clauseParts d ts) := by
  induction ts with
  | nil => exact .ok _
  | cons c rest ih =>
    obtain ⟨hc, hrest⟩ := List.forall_mem_cons.1 hts
    rw [clauseParts]
    apply (failsOnly_clausePart hc).bind
    intro specifiers
    cases specifiers with
    | none => exact .ok _
    | some specifiers => exact (ih hrest).bind fun _ => .ok _

theorem failsOnly_importDeclaration (ht : ReadsWith P d t) :
    FailsOnly P (importDeclaration d t) := by
  apply (failsOnly_moduleLiteral (ht.field "source")).bind
  intro source
  cases source with
  | none => exact .ok _
  | some source =>
    have hclause : ∀ c ∈ ((t.first? "import_clause").map Tree.kids).getD [], ReadsWith P d c := by
      cases hfirst : t.first? "import_clause" with
      | none => simp
      | some clause => exact fun c hc => (ht.first _ clause hfirst).kid hc
    apply (failsOnly_clauseParts hclause).bind
    intro specifiers
    cases specifiers <;> exact .ok _

theorem failsOnly_exportDeclaration (ht : ReadsWith P d t) :
    FailsOnly P (exportDeclaration d t) := by
  unfold exportDeclaration
  split
  · exact .ok _
  · rename_i clause hclause
    apply (failsOnly_namedSpecifiers _ fun c hc => (ht.first _ clause hclause).kid hc).bind
    intro specifiers
    cases specifiers with
    | none => exact .ok _
    | some specifiers => exact (failsOnly_moduleLiteral (ht.field "source")).bind fun _ => .ok _

/-! ### Parts without parts of their own -/

theorem failsOnly_tagName {tag : Option Tree} (htag : ∀ c ∈ tag, ReadsWith P d c) :
    FailsOnly P (tagName d tag) := by
  unfold tagName
  split
  · exact .ok _
  · rename_i name hname
    obtain ⟨c, hc, hname⟩ := Option.bind_eq_some_iff.1 hname
    exact ((htag c hc).field "name" name hname).textOf.bind fun _ => .ok _

theorem failsOnly_stringLiteral (ht : ReadsWith P d t) : FailsOnly P (stringLiteral d t) := by
  apply ht.textOf.bind
  intro raw
  dsimp only
  split <;> exact .ok _

theorem failsOnly_numberLiteral (ht : ReadsWith P d t) : FailsOnly P (numberLiteral d t) :=
  ht.textOf.bind fun _ => .ok _

theorem failsOnly_chunk {start stop : Int} (h : FailsOnly P (d.slice start stop)) :
    FailsOnly P (chunk d start stop) :=
  h.bind fun _ => .ok _

section Parts

variable (hpart : ∀ c, ReadsWith P d c → FailsOnly P (part c))

include hpart

/-! ### Markup -/

theorem failsOnly_mapM {ts : List Tree} (hts : ∀ c ∈ ts, ReadsWith P d c) :
    FailsOnly P (ts.mapM part) :=
  .mapM fun c hc => hpart c (hts c hc)

theorem failsOnly_optional {u : Option Tree} (hu : ∀ c ∈ u, ReadsWith P d c) :
    FailsOnly P (optional part u) := by
  cases u with
  | none => exact .ok _
  | some u => exact (hpart u (hu u rfl)).map _

theorem failsOnly_attributeValue {u : Option Tree} (hu : ∀ c ∈ u, ReadsWith P d c) :
    FailsOnly P (attributeValue d part u) := by
  cases u with
  | none => exact .ok _
  | some u =>
    rw [attributeValue]
    split
    · exact (hu u rfl).textOf.bind fun _ => .ok _
    · exact (hpart u (hu u rfl)).map _

theorem failsOnly_attributeNode (ht : ReadsWith P d t) : FailsOnly P (attributeNode d part t) := by
  apply (failsOnly_attributeValue hpart (ht.kidAt 1)).bind
  intro value
  exact (failsOnly_textOf? (ht.kidAt 0)).bind fun _ => .ok _

theorem failsOnly_spread (ht : ReadsWith P d t) : FailsOnly P (spread d part t) := by
  refine (failsOnly_optional hpart fun c hc => ?_).bind fun _ => .ok _
  exact ht.kid (List.mem_of_mem_head? (Option.filter_eq_some_iff.1 hc).1)

theorem failsOnly_attributeList {ts : List Tree} (hts : ∀ c ∈ ts, ReadsWith P d c) :
    FailsOnly P (attributeList d part ts) := by
  induction ts with
  | nil => exact .ok _
  | cons c rest ih =>
    obtain ⟨hc, hrest⟩ := List.forall_mem_cons.1 hts
    rw [attributeList]
    split
    · exact (failsOnly_attributeNode hpart hc).bind fun _ => (ih hrest).bind fun _ => .ok _
    · split
      · exact (failsOnly_spread hpart hc).bind fun _ => (ih hrest).bind fun _ => .ok _
      · exact ih hrest

theorem failsOnly_attributes {tag : Option Tree} (htag : ∀ c ∈ tag, ReadsWith P d c) :
    FailsOnly P (attributes d part tag) := by
  apply failsOnly_attributeList hpart
  cases tag with
  | none => simp
  | some tag => exact fun c hc => (htag tag rfl).kid hc

theorem failsOnly_element (ht : ReadsWith P d t) : FailsOnly P (element d part t) := by
  have hopening : ∀ c ∈ openingTree? t, ReadsWith P d c := .or (ht.field _) (ht.first _)
  have hclosing : ∀ c ∈ closingTree? t, ReadsWith P d c :=
    .or (ht.field _) (ht.last _)
  apply (failsOnly_tagName hopening).bind
  intro opening
  apply (failsOnly_tagName hclosing).bind
  intro closing
  apply (failsOnly_mapM hpart fun c hc => ht.kid (List.mem_of_mem_filter hc)).bind
  intro body
  exact (failsOnly_attributes hpart hopening).bind fun _ => .ok _

theorem failsOnly_selfClosingElement (ht : ReadsWith P d t) :
    FailsOnly P (selfClosingElement d part t) := by
  have htag : ∀ c ∈ some t, ReadsWith P d c := by simpa using ht
  apply (failsOnly_tagName htag).bind
  intro name
  exact (failsOnly_attributes hpart htag).bind fun _ => .ok _

theorem failsOnly_fragment (ht : ReadsWith P d t) : FailsOnly P (fragment d part t) :=
  (failsOnly_mapM hpart fun _ hc => ht.kid hc).bind fun _ => .ok _

/-! ### Templates -/

theorem failsOnly_substituted (ht : ReadsWith P d t) : FailsOnly P (substituted d part t) := by
  unfold substituted
  split
  · exact .ok _
  · rename_i first rest hkids
    exact hpart first (ht.kid (hkids ▸ List.mem_cons_self))

theorem failsOnly_templateParts {stop cursor : Int} {ts : List Tree}
    (hts : ∀ c ∈ ts, ReadsWith P d c)
    (hchunks : ∀ r ∈ chunkRanges stop cursor ts, FailsOnly P (d.slice r.1 r.2)) :
    FailsOnly P (templateParts d part stop cursor ts) := by
  induction ts generalizing cursor with
  | nil => exact (failsOnly_chunk (hchunks _ List.mem_cons_self)).bind fun _ => .ok _
  | cons c rest ih =>
    obtain ⟨hc, hrest⟩ := List.forall_mem_cons.1 hts
    obtain ⟨hfirst, hlater⟩ := List.forall_mem_cons.1 hchunks
    apply (failsOnly_chunk hfirst).bind
    intro first
    apply (failsOnly_substituted hpart hc).bind
    intro expression
    exact (ih hrest hlater).bind fun _ => .ok _

theorem failsOnly_template (ht : ReadsWith P d t) (htype : t.type = "template_string") :
    FailsOnly P (template d part t) := by
  have hchunks := ht.chunks t (Tree.self_mem_subtrees t) htype
  refine (failsOnly_templateParts hpart (fun c hc => ?_) hchunks).bind fun _ => .ok _
  exact ht.child (List.mem_of_mem_filter hc)

/-! ### Functions and statements -/

theorem failsOnly_parameter (ht : ReadsWith P d t) : FailsOnly P (parameter d part t) := by
  apply ht.textOf.bind
  intro name
  split
  · exact .ok _
  · exact (failsOnly_optional hpart (.or (ht.field _) (ht.field _))).bind fun _ => .ok _

theorem failsOnly_arrow (ht : ReadsWith P d t) : FailsOnly P (arrow d part t) := by
  have hparams : ∀ p ∈ parameterTrees t, ReadsWith P d p := by
    intro p hp
    obtain ⟨c, hc, -, hp⟩ := exists_of_mem_parameterTrees hp
    exact (ht.child hc).of_mem hp
  apply (FailsOnly.mapM fun p hp => failsOnly_parameter hpart (hparams p hp)).bind
  intro params
  apply (failsOnly_optional hpart (ht.field "body")).bind
  intro body
  apply (failsOnly_textOf? (ht.field "type_parameters")).bind
  intro typeParameters
  exact (failsOnly_textOf? (ht.field "return_type")).bind fun _ => .ok _

theorem failsOnly_declarator (ht : ReadsWith P d t) : FailsOnly P (declarator d part t) := by
  unfold declarator
  split
  · exact .ok _
  · rename_i name hname
    apply (ht.field "name" name hname).textOf.bind
    intro bound
    exact (failsOnly_optional hpart (ht.field "value")).bind fun _ => .ok _

/-! ### Every construct -/

theorem failsOnly_construct (ht : ReadsWith P d t) {c : Construct}
    (hc : Construct.ofType t.type = c) : FailsOnly P (construct d part t c) := by
  have hkids : FailsOnly P (t.kids.mapM part) := failsOnly_mapM hpart fun _ hc => ht.kid hc
  have hfirst : FailsOnly P (optional part t.kids.head?) :=
    failsOnly_optional hpart fun _ hc => ht.kid (List.mem_of_mem_head? hc)
  cases c with
  | program => exact hkids.bind fun _ => .ok _
  | importStatement => exact failsOnly_importDeclaration ht
  | exportStatement => exact failsOnly_exportDeclaration ht
  | element => exact (failsOnly_element hpart ht).map _
  | selfClosingElement => exact (failsOnly_selfClosingElement hpart ht).map _
  | fragment => exact (failsOnly_fragment hpart ht).map _
  | container => exact hfirst.bind fun _ => .ok _
  | text => exact ht.textOf.bind fun _ => .ok _
  | string => exact failsOnly_stringLiteral ht
  | number => exact failsOnly_numberLiteral ht
  | keyword => exact .ok _
  | template =>
    have htype := type_mem_typesOf hc (by simp)
    exact (failsOnly_template hpart ht (List.mem_singleton.1 htype)).map _
  | arrow => exact (failsOnly_arrow hpart ht).map _
  | block => exact hkids.bind fun _ => .ok _
  | statement => exact hfirst.bind fun _ => .ok _
  | declarator => exact failsOnly_declarator hpart ht
  | unknown => exact .ok _

theorem failsOnly_assemble (ht : ReadsWith P d t) : FailsOnly P (assemble d part t) := by
  apply (failsOnly_construct hpart ht rfl).bind
  intro node
  cases node with
  | none => exact (failsOnly_mapM hpart fun _ hc => ht.kid hc).bind fun _ => .ok _
  | some node => exact .ok _

end Parts

theorem failsOnly_buildWithin (depth : Nat) (ht : ReadsWith P d t) :
    FailsOnly P (buildWithin d depth t) := by
  induction depth generalizing t with
  | zero => exact .ok _
  | succ depth ih => exact failsOnly_assemble (fun _ => ih) ht

theorem failsOnly_build (ht : ReadsWith P d t) : FailsOnly P (build d t) :=
  failsOnly_buildWithin _ ht

theorem failsOnly_program (ht : ReadsWith P d t) : FailsOnly P (program d t) := by
  apply (failsOnly_build ht).bind
  intro node
  cases node <;> exact .ok _

theorem failsOnly_tokens (ht : ReadsWith P d t) : FailsOnly P (tokens d t) := by
  apply FailsOnly.mapM
  intro u hu
  obtain ⟨c, hc, hu⟩ := mem_subtrees_of_mem_leaves hu
  cases List.mem_singleton.1 hc
  exact (ht.texts u hu).bind fun _ => .ok _

/-! ### Slices -/

theorem onlySlicesFail_slice (start stop : Int) : OnlySlicesFail (d.slice start stop) := by
  intro fault h
  unfold Document.slice at h
  split at h
  · cases h
  · cases h
    exact ⟨_, rfl⟩

theorem readsWith_isMalformedText (d : Document) (t : Tree) :
    ReadsWith Fault.IsMalformedText d t where
  texts _ _ := onlySlicesFail_slice _ _
  chunks _ _ _ _ _ := onlySlicesFail_slice _ _

end Model

/-- Making a source file of a tree fails with no other faults than reading its texts does. -/
theorem SourceFile.failsOnly_ofTree_of_readsWith {P : Fault → Prop} (path : FilePath)
    (language : Language) (text : String) (tree : ParseTree)
    (h : Model.ReadsWith P (Document.ofText text) tree.root) :
    Outcome.FailsOnly P (SourceFile.ofTree path language text tree) := by
  apply (Model.failsOnly_program h).bind
  intro program
  exact (Model.failsOnly_tokens h).bind fun _ => .ok _

/-- Whatever tree a grammar finds, making a source file of it fails only at a slice that cuts a
character. -/
theorem SourceFile.onlySlicesFail_ofTree (path : FilePath) (language : Language) (text : String)
    (tree : ParseTree) :
    Model.OnlySlicesFail (SourceFile.ofTree path language text tree) :=
  failsOnly_ofTree_of_readsWith path language text tree (Model.readsWith_isMalformedText _ _)

end TsxLint
