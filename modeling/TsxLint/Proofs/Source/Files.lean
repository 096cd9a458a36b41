/-
Module: TsxLint.Proofs.Source.Files
Purpose: What the nodes and tokens of a parsed file have to do with the parse tree.
Main exports: Tree.IsEnd, SourceFile.Parsed, SourceFile.parsed_of_ofTree, SourceFile.Parsed.stems_root,
  Model.Stems.isEnd_start, Rule.reported
-/
import TsxLint.Proofs.Source.Spans
import TsxLint.Proofs.Edit.Boundaries
import TsxLint.Rule.Basic

namespace TsxLint

/-!
A file that is parsed from a readable tree has for its root a node that stems from the root of the
tree.  So every node that rules listen to begins and ends where a node of the tree does, and so
does every token that a search for the first or the last one finds.
-/

/-- A place is where a node of a tree begins or ends. -/
def Tree.IsEnd (root : Tree) (place : Int) : Prop :=
  ∃ u ∈ root.subtrees, place = u.start ∨ place = u.stop

theorem Tree.IsEnd.isValid {root : Tree} {text : String} (ht : root.WellFormed text) {place : Nat}
    (h : root.IsEnd place) : (String.Pos.Raw.mk place).IsValid text := by
  obtain ⟨u, hu, hplace | hplace⟩ := h
  · rw [Int.ofNat_inj.1 hplace]
    exact (ht.of_mem hu).isLaidOut.start_isValid
  · rw [Int.ofNat_inj.1 hplace]
    exact (ht.of_mem hu).isLaidOut.stop_isValid

/-- An edit between two ends of nodes of a tree is aligned. -/
theorem Tree.IsEnd.isAligned {root : Tree} {text : String} (ht : root.WellFormed text)
    {start stop : Int} {replacement : String} {e : Edit} (hstart : root.IsEnd start)
    (hstop : root.IsEnd stop) (he : Edit.between start stop replacement = .ok e) :
    e.IsAligned text := by
  obtain ⟨rfl, rfl, -⟩ := Edit.between_eq_ok_iff.1 he
  exact ⟨hstart.isValid ht, hstop.isValid ht⟩

namespace SourceFile

/-- A file holds the model and the tokens of a tree over a text. -/
structure Parsed (text : String) (root : Tree) (source : SourceFile) : Prop where
  document_eq : source.document = Document.ofText text
  program_eq : Model.program (Document.ofText text) root = .ok source.program
  tokens_eq : Model.tokens (Document.ofText text) root = .ok source.tokens.toList

theorem parsed_of_ofTree {path : FilePath} {language : Language} {text : String} {tree : ParseTree}
    {source : SourceFile} (h : ofTree path language text tree = .ok source) :
    Parsed text tree.root source := by
  obtain ⟨program, hprogram, h⟩ := Outcome.exists_of_bind_eq_ok h
  obtain ⟨tokens, htokens, h⟩ := Outcome.exists_of_bind_eq_ok h
  cases h
  exact ⟨rfl, hprogram, by rw [List.toList_toArray]; exact htokens⟩

namespace Parsed

variable {text : String} {root : Tree} {source : SourceFile} {n : Node}

/-- The program has the place and the children of the node that is built from the root. -/
theorem exists_build (h : Parsed text root source) :
    ∃ n, Model.build (Document.ofText text) root = .ok n ∧ source.program.span = n.span ∧
      source.program.body = n.children := by
  obtain ⟨n, hn, hprogram⟩ := Outcome.exists_of_bind_eq_ok h.program_eq
  refine ⟨n, hn, ?_⟩
  cases n with
  | program p =>
    rw [← Except.ok.inj hprogram]
    exact ⟨rfl, rfl⟩
  | _ =>
    rw [← Except.ok.inj hprogram]
    exact ⟨rfl, rfl⟩

theorem exists_build_ends (h : Parsed text root source) :
    ∃ n, Model.build (Document.ofText text) root = .ok n ∧ source.root.start = n.start ∧
      source.root.stop = n.stop ∧ source.root.children = n.children := by
  obtain ⟨n, hbuild, hspan, hbody⟩ := h.exists_build
  exact ⟨n, hbuild, congrArg Span.start hspan, congrArg Span.stop hspan, hbody⟩

/-- The program apart, the nodes of a file are those that are built from the root. -/
theorem exists_build_of_mem (h : Parsed text root source) :
    ∃ n, Model.build (Document.ofText text) root = .ok n ∧
      ∀ m ∈ source.root.preorder, m.kind ≠ .program → m ∈ n.preorder := by
  obtain ⟨n, hbuild, -, hbody⟩ := h.exists_build
  refine ⟨n, hbuild, fun m hm hkind => ?_⟩
  rcases Node.mem_preorder_iff.1 hm with rfl | ⟨c, hc, hm⟩
  · exact absurd rfl hkind
  · have hc : c ∈ source.program.body := hc
    rw [hbody] at hc
    exact Node.mem_preorder_iff.2 (.inr ⟨c, hc, hm⟩)

theorem stems_root (h : Parsed text root source) (ht : Model.Readable text root) :
    Model.Stems (Document.ofText text) root source.root := by
  obtain ⟨n, hn, hspan, hbody⟩ := h.exists_build
  cases Model.stems_of_build hn ht with
  | intro us parts bare hspan' hsuits hchildren hbare hparts hstems =>
    refine .intro us parts bare (hspan.trans hspan') trivial ?_ hbare hparts hstems
    rw [← hbody] at hchildren
    exact hchildren

/-- A node that rules listen to stems from a node of the tree. -/
theorem exists_stems (h : Parsed text root source) (ht : Model.Readable text root)
    (hn : n ∈ source.root.preorder)
    (hkind : n.kind ∉ [NodeKind.chunk, .specifier, .literal, .other]) :
    ∃ u ∈ root.subtrees, Model.Stems (Document.ofText text) u n :=
  (h.stems_root ht).exists_of_kind hn hkind

theorem text_eq (h : Parsed text root source) : source.text = text := by
  rw [SourceFile.text, h.document_eq]
  rfl

/-- A token of a file has the place of a node of the tree. -/
theorem exists_of_mem_tokens (h : Parsed text root source) {x : Token} (hx : x ∈ source.tokens) :
    ∃ u ∈ root.subtrees, x.span = Model.spanOf (Document.ofText text) u :=
  Model.exists_of_mem_tokens h.tokens_eq (Array.mem_toList_iff.2 hx)

theorem isEnd_firstToken? (h : Parsed text root source) {s : Span} {x : Token}
    (hx : source.firstToken? s = some x) : root.IsEnd x.span.start := by
  have hmem := Array.mem_of_getElem? (Option.filter_eq_some_iff.1 hx).1
  obtain ⟨u, hu, hspan⟩ := h.exists_of_mem_tokens hmem
  exact ⟨u, hu, .inl (by rw [hspan]; rfl)⟩

theorem isEnd_lastToken? (h : Parsed text root source) {s : Span} {x : Token}
    (hx : source.lastToken? s = some x) : root.IsEnd x.span.stop := by
  rw [lastToken?] at hx
  cases hi : source.tokenIndex s.stop with
  | zero =>
    rw [hi] at hx
    cases hx
  | succ i =>
    rw [hi] at hx
    have hmem := Array.mem_of_getElem? (Option.filter_eq_some_iff.1 hx).1
    obtain ⟨u, hu, hspan⟩ := h.exists_of_mem_tokens hmem
    exact ⟨u, hu, .inr (by rw [hspan]; rfl)⟩

end Parsed

end SourceFile

namespace Model

/-! ### Ends of nodes -/

variable {d : Document} {t : Tree} {n : Node}

theorem Stems.start_eq (h : Stems d t n) : n.start = t.start := by
  rw [Node.start, h.span_eq]
  rfl

theorem Stems.stop_eq (h : Stems d t n) : n.stop = t.stop := by
  rw [Node.stop, h.span_eq]
  rfl

theorem Stems.isEnd_start {root : Tree} (h : Stems d t n) (ht : t ∈ root.subtrees) :
    root.IsEnd n.start :=
  ⟨t, ht, .inl h.start_eq⟩

theorem Stems.isEnd_stop {root : Tree} (h : Stems d t n) (ht : t ∈ root.subtrees) :
    root.IsEnd n.stop :=
  ⟨t, ht, .inr h.stop_eq⟩

end Model

/-! ### Rules on texts with trees -/

namespace Rule

variable {α : Type} {rule : Rule} {language : Language} {text : String} {root : Tree}
  {view : SourceFile → Violation → α}

/-- What is seen of each violation that a rule reports for a text with a tree. -/
def reported (rule : Rule) (language : Language) (text : String) (root : Tree)
    (view : SourceFile → Violation → α) : Option (List α) := do
  let source ← (SourceFile.ofTree default language text ⟨root, false⟩).toOption
  let vs ← (rule.visitPlain source).toOption
  pure (vs.map (view source))

theorem exists_of_reported_eq {xs : List α} (h : rule.reported language text root view = some xs) :
    ∃ source vs, SourceFile.ofTree default language text ⟨root, false⟩ = .ok source ∧
      rule.visitPlain source = .ok vs ∧ vs.map (view source) = xs := by
  obtain ⟨source, hsource, h⟩ := Option.bind_eq_some_iff.1 h
  obtain ⟨vs, hvs, h⟩ := Option.bind_eq_some_iff.1 h
  exact ⟨source, vs, Outcome.eq_ok_of_toOption_eq_some hsource,
    Outcome.eq_ok_of_toOption_eq_some hvs, Option.some.inj h⟩

theorem exists_of_reported {x : α} (h : rule.reported language text root view = some [x]) :
    ∃ source v, SourceFile.ofTree default language text ⟨root, false⟩ = .ok source ∧
      rule.visitPlain source = .ok [v] ∧ view source v = x := by
  obtain ⟨source, vs, hsource, hvs, h⟩ := exists_of_reported_eq h
  obtain ⟨v, rfl, hv⟩ := List.map_eq_singleton_iff.1 h
  exact ⟨source, v, hsource, hvs, hv⟩

end Rule

end TsxLint
