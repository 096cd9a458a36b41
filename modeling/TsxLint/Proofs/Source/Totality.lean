/-
Module: TsxLint.Proofs.Source.Totality
Purpose: Texts whose parse trees are turned into source files without fault, syntax errors or not.
Main exports: Tree.HasMarks, Model.readsWithoutFault, Session.exists_parse_eq_ok
-/
import TsxLint.Engine.Session
import TsxLint.Proofs.Engine.Reached
import TsxLint.Proofs.Source.ParseFaults
import TsxLint.Proofs.Source.Slices

namespace TsxLint

/-!
The nodes of a well-formed tree are cut between characters, so their texts can be read.  The chunks
of a template string are cut by counting: the first one begins one byte behind the beginning of the
string, the last one ends one byte before its end, as if a mark of one byte stood at either place.
Where a mark is missing, that place may lie inside a character, and then parsing fails.
-/

/-! ### Chunks -/

/-- A template string does not end where the text begins, and unless it is empty, the places
behind its first byte and before its last one are between characters. -/
def Tree.HasMarks (text : String) (t : Tree) : Prop :=
  t.type = "template_string" →
    0 < t.stop ∧ (t.start < t.stop →
      (String.Pos.Raw.mk (t.start + 1)).IsValid text ∧ (String.Pos.Raw.mk (t.stop - 1)).IsValid text)

instance (text : String) : DecidablePred (Tree.HasMarks text) := fun t =>
  inferInstanceAs (Decidable (t.type = "template_string" → _ ∧ (_ → _ ∧ _)))

namespace Model

/-- A chunk begins at the cursor or behind a substitution, and ends at the stop or before one. -/
theorem ends_of_mem_chunkRanges {stop cursor : Int} {ts : List Tree} {r : Int × Int}
    (h : r ∈ chunkRanges stop cursor ts) :
    (r.1 = cursor ∨ ∃ c ∈ ts, r.1 = c.stop) ∧ (r.2 = stop ∨ ∃ c ∈ ts, r.2 = c.start) := by
  induction ts generalizing cursor with
  | nil =>
    cases List.mem_singleton.1 h
    exact ⟨.inl rfl, .inl rfl⟩
  | cons t rest ih =>
    rcases List.mem_cons.1 h with rfl | h
    · exact ⟨.inl rfl, .inr ⟨t, List.mem_cons_self, rfl⟩⟩
    · obtain ⟨hfirst, hlast⟩ := ih h
      constructor
      · rcases hfirst with hfirst | ⟨c, hc, hfirst⟩
        · exact .inr ⟨t, List.mem_cons_self, hfirst⟩
        · exact .inr ⟨c, List.mem_cons_of_mem t hc, hfirst⟩
      · rcases hlast with hlast | ⟨c, hc, hlast⟩
        · exact .inl hlast
        · exact .inr ⟨c, List.mem_cons_of_mem t hc, hlast⟩

/-- The substitutions of a template string are well-formed and lie inside it. -/
theorem wellFormed_of_mem_substitutionTrees {text : String} {t c : Tree} (ht : t.WellFormed text)
    (hc : c ∈ substitutionTrees t) : c.WellFormed text ∧ t.start ≤ c.start ∧ c.stop ≤ t.stop := by
  have hchild : c ∈ t.children := List.mem_of_mem_filter hc
  exact ⟨ht.of_mem (Tree.mem_subtrees_of_mem_children hchild), ht.isLaidOut.inside c hchild⟩

/-- Between its marks, a template string is cut between characters. -/
theorem exists_valid_of_mem_chunkRanges {text : String} {t : Tree} (ht : t.WellFormed text)
    (hsome : t.start < t.stop) (hbehind : (String.Pos.Raw.mk (t.start + 1)).IsValid text)
    (hbefore : (String.Pos.Raw.mk (t.stop - 1)).IsValid text) {r : Int × Int}
    (h : r ∈ chunkRanges ((t.stop : Int) - 1) (t.start + 1) (substitutionTrees t)) :
    ∃ first last : Nat, r = (↑first, ↑last) ∧ (String.Pos.Raw.mk first).IsValid text ∧
      (String.Pos.Raw.mk last).IsValid text := by
  obtain ⟨hfirst, hlast⟩ := ends_of_mem_chunkRanges h
  have hstart : ∃ first : Nat, r.1 = first ∧ (String.Pos.Raw.mk first).IsValid text := by
    rcases hfirst with hfirst | ⟨c, hc, hfirst⟩
    · exact ⟨t.start + 1, hfirst, hbehind⟩
    · obtain ⟨hwell, -⟩ := wellFormed_of_mem_substitutionTrees ht hc
      exact ⟨c.stop, hfirst, hwell.isLaidOut.stop_isValid⟩
  have hstop : ∃ last : Nat, r.2 = last ∧ (String.Pos.Raw.mk last).IsValid text := by
    rcases hlast with hlast | ⟨c, hc, hlast⟩
    · refine ⟨t.stop - 1, ?_, hbefore⟩
      rw [hlast]
      omega
    · obtain ⟨hwell, -⟩ := wellFormed_of_mem_substitutionTrees ht hc
      exact ⟨c.start, hlast, hwell.isLaidOut.start_isValid⟩
  obtain ⟨first, hfirst, hfirstValid⟩ := hstart
  obtain ⟨last, hlast, hlastValid⟩ := hstop
  exact ⟨first, last, Prod.ext hfirst hlast, hfirstValid, hlastValid⟩

/-- The substitutions of an empty template string are empty, and no chunk of it has an extent. -/
theorem le_of_mem_chunkRanges {text : String} {t : Tree} (ht : t.WellFormed text)
    (hnone : ¬ t.start < t.stop) (hpos : 0 < t.stop) {r : Int × Int}
    (h : r ∈ chunkRanges ((t.stop : Int) - 1) (t.start + 1) (substitutionTrees t)) :
    0 ≤ r.2 ∧ r.2 ≤ r.1 := by
  have hle := ht.isLaidOut.start_le_stop
  obtain ⟨hfirst, hlast⟩ := ends_of_mem_chunkRanges h
  have hstart : (t.start : Int) ≤ r.1 := by
    rcases hfirst with hfirst | ⟨c, hc, hfirst⟩
    · omega
    · obtain ⟨hwell, hinside⟩ := wellFormed_of_mem_substitutionTrees ht hc
      have := hwell.isLaidOut.start_le_stop
      omega
  have hstop : 0 ≤ r.2 ∧ r.2 ≤ t.start := by
    rcases hlast with hlast | ⟨c, hc, hlast⟩
    · omega
    · obtain ⟨hwell, hinside⟩ := wellFormed_of_mem_substitutionTrees ht hc
      have := hwell.isLaidOut.start_le_stop
      omega
  omega

/-- The chunks of a template string that has its marks can be read. -/
theorem exists_slice_of_mem_chunkRanges {text : String} {t : Tree} (ht : t.WellFormed text)
    (htype : t.type = "template_string") (hmarks : t.HasMarks text) {r : Int × Int}
    (h : r ∈ chunkRanges ((t.stop : Int) - 1) (t.start + 1) (substitutionTrees t)) :
    ∃ s, (Document.ofText text).slice r.1 r.2 = .ok s := by
  obtain ⟨hpos, hinner⟩ := hmarks htype
  by_cases hsome : t.start < t.stop
  · obtain ⟨hbehind, hbefore⟩ := hinner hsome
    obtain ⟨first, last, rfl, hfirst, hlast⟩ :=
      exists_valid_of_mem_chunkRanges ht hsome hbehind hbefore h
    exact Document.exists_slice_eq_ok hfirst hlast
  · obtain ⟨hlast, hle⟩ := le_of_mem_chunkRanges ht hsome hpos h
    exact ⟨"", Document.slice_of_le hlast hle⟩

/-- Nothing that is read of a well-formed tree cuts a character if its template strings have their
marks. -/
theorem readsWithoutFault {text : String} {root : Tree} (ht : root.WellFormed text)
    (hmarks : root.Everywhere (Tree.HasMarks text)) :
    ReadsWith (fun _ => False) (Document.ofText text) root where
  texts u hu := by
    have hu := (ht.of_mem hu).isLaidOut
    obtain ⟨s, hs⟩ := Document.exists_slice_eq_ok hu.start_isValid hu.stop_isValid
    rw [textOf, hs]
    exact .ok s
  chunks u hu htype r hr := by
    obtain ⟨s, hs⟩ := exists_slice_of_mem_chunkRanges (ht.of_mem hu) htype (hmarks u hu) hr
    rw [hs]
    exact .ok s

end Model

/-! ### Parsing -/

/-- A language is found for a path alone, and for each of three names. -/
theorem Language.exists_resolve_eq_ok {given : String}
    (h : given ∈ ["", "tsx", "typescript", "javascript"]) (path : FilePath) :
    ∃ language, resolve given path = .ok language := by
  simp only [List.mem_cons, List.not_mem_nil, or_false] at h
  rcases h with rfl | rfl | rfl | rfl
  · exact ⟨ofPath path, rfl⟩
  · exact ⟨.tsx, rfl⟩
  · exact ⟨.typescript, rfl⟩
  · exact ⟨.javascript, rfl⟩

namespace Session

variable {σ : Type}

theorem outcome_ask (grammar : Grammar σ) (text : String) (language : Language) (desk : Desk σ) :
    (ask grammar text language).outcome desk = (grammar.parse desk.supply text language).1 := by
  cases h : grammar.parse desk.supply text language with
  | mk tree supply =>
    unfold ask
    change (ofOutcome (grammar.parse desk.supply text language).1).outcome _ = _
    rw [outcome_ofOutcome, h]

/-- Parsing is asking the grammar for a tree of the text and making a source file of it. -/
theorem outcome_parse {grammar : Grammar σ} {input : Input} {desk : Desk σ} {language : Language}
    {tree : ParseTree} (hlanguage : Language.resolve input.language input.path = .ok language)
    (htree : (grammar.parse desk.supply input.text language).1 = .ok tree) :
    (parse grammar input).outcome desk =
      SourceFile.ofTree input.path language input.text tree := by
  rw [parse, outcome_ofOutcome_bind, hlanguage, Outcome.ok_bind, outcome_bind, outcome_ask, htree,
    Outcome.ok_bind, outcome_ofOutcome]

/-- A text in a language that is known is parsed without fault if the tree that the grammar finds
in it is well-formed and the template strings in the tree have their marks.  That the tree has
syntax errors or empty nodes is no obstacle. -/
theorem exists_parse_eq_ok (grammar : Grammar σ) (input : Input) (desk : Desk σ) (tree : ParseTree)
    (hlanguage : input.language ∈ ["", "tsx", "typescript", "javascript"])
    (htree : ∀ language, Language.resolve input.language input.path = .ok language →
      (grammar.parse desk.supply input.text language).1 = .ok tree)
    (laidOut : tree.root.WellFormed input.text)
    (hmarks : tree.root.Everywhere (Tree.HasMarks input.text)) :
    ∃ source, (parse grammar input).outcome desk = .ok source ∧
      source.path = input.path ∧ source.text = input.text ∧ source.hasErrors = tree.hasErrors := by
  obtain ⟨language, hresolve⟩ := Language.exists_resolve_eq_ok hlanguage input.path
  have hread := Model.readsWithoutFault laidOut hmarks
  obtain ⟨source, hsource⟩ :=
    (SourceFile.failsOnly_ofTree_of_readsWith input.path language input.text tree hread).exists_ok
  refine ⟨source, (outcome_parse hresolve (htree language hresolve)).trans hsource, ?_⟩
  obtain ⟨program, -, hsource⟩ := Outcome.exists_of_bind_eq_ok hsource
  obtain ⟨tokens, -, hsource⟩ := Outcome.exists_of_bind_eq_ok hsource
  cases hsource
  exact ⟨rfl, rfl, rfl⟩

/-! ### Template strings that are not closed -/

/-- The tree of a template string with one piece, from its opening mark to a missing one. -/
def unclosedTree (stop : Nat) : ParseTree :=
  ⟨.node "program" true "" 0 stop
    [.node "expression_statement" true "" 0 stop
      [.node "template_string" true "" 0 stop
        [.node "\x60" false "" 0 1 [], .node "string_fragment" true "" 1 stop [],
          .node "\x60" false "" stop stop []]]], true⟩

/-- The missing mark takes the last letter for itself if that is one byte. -/
theorem exists_parse_eq_ok_unclosed :
    ∃ source,
      (parse (.ofFunction fun _ _ => unclosedTree 4) ⟨⟨"", ["a.tsx"]⟩, "\x60éa", "tsx"⟩).outcome
        ⟨(), []⟩ = .ok source ∧
      source.path = ⟨"", ["a.tsx"]⟩ ∧ source.text = "\x60éa" ∧ source.hasErrors = true :=
  exists_parse_eq_ok (.ofFunction fun _ _ => unclosedTree 4) ⟨⟨"", ["a.tsx"]⟩, "\x60éa", "tsx"⟩
    ⟨(), []⟩ (unclosedTree 4) (by simp) (fun _ _ => rfl) (by decide +kernel)
    (by decide +kernel)

/-- A template string that is not closed behind a letter of two bytes is not parsed. -/
theorem parse_fails_at_missing_mark :
    ¬ ∀ (grammar : Grammar Unit) (input : Input) (desk : Desk Unit) (tree : ParseTree),
      input.language ∈ ["", "tsx", "typescript", "javascript"] →
      (∀ language, Language.resolve input.language input.path = .ok language →
        (grammar.parse desk.supply input.text language).1 = .ok tree) →
      tree.root.WellFormed input.text →
      ∃ source, (parse grammar input).outcome desk = .ok source := by
  intro hall
  obtain ⟨source, hsource⟩ := hall (.ofFunction fun _ _ => unclosedTree 3)
    ⟨⟨"", ["a.tsx"]⟩, "\x60é", "tsx"⟩ ⟨(), []⟩ (unclosedTree 3) (by simp) (fun _ _ => rfl)
    (by decide +kernel)
  have hfault :
      (SourceFile.ofTree ⟨"", ["a.tsx"]⟩ .tsx "\x60é" (unclosedTree 3)).toOption.isNone := by
    decide +kernel
  have hresolve : Language.resolve "tsx" ⟨"", ["a.tsx"]⟩ = .ok .tsx := rfl
  rw [outcome_parse hresolve rfl] at hsource
  rw [hsource] at hfault
  cases hfault

end Session

end TsxLint
