/-
Module: TsxLint.Proofs.Rules.ClassLists
Purpose: Which template strings keep their classes when they become a call of the helper.
Main exports: ClassNames.lineUp, ClassNames.passed, ClassNames.Rewrites,
  ClassNames.classes_kept_iff, ClassNames.classes_may_change
-/
import TsxLint.Proofs.Rules.ClassNames
import TsxLint.Proofs.Rules.QuotedChunks
import TsxLint.Proofs.Source.Templates
import TsxLint.Proofs.Text.Words

namespace TsxLint.ClassNames

open Text (SetApart beginsBlank endsBlank words)

/-!
The helper joins what it is passed with spaces, and the words of the result are the classes.  A
template string puts its chunks and what is substituted together without spaces.  So the classes are
kept if blanks in the chunks set a substitution apart from what comes before and behind it, and
they change if a class is written in parts, such as the prefix of a name in front of a
substitution.
-/

/-! ### Chunks and substitutions in turn -/

/-- Pieces and substitutions in turn, beginning with a piece. -/
def weave {α : Type} : List α → List α → List α
  | [], _ => []
  | piece :: pieces, [] => piece :: weave pieces []
  | piece :: pieces, s :: substitutions => piece :: s :: weave pieces substitutions

/-- The chunk as an argument, none if it is empty. -/
def written (raw : String) : List String := if raw = "" then [] else [quoteChunk raw]

/-- Arguments from chunks in turn with one for each substitution. -/
def lineUp (chunks : List (List String)) (substitutions : List String) : List String :=
  (weave chunks (substitutions.map fun s => [s])).flatten

theorem lineUp_cons_nil (chunk : List String) (chunks : List (List String)) :
    lineUp (chunk :: chunks) [] = chunk ++ lineUp chunks [] := rfl

theorem lineUp_cons_cons (chunk : List String) (chunks : List (List String)) (s : String)
    (substitutions : List String) :
    lineUp (chunk :: chunks) (s :: substitutions) = chunk ++ s :: lineUp chunks substitutions := rfl

/-- The arguments of a call are the chunks in quotes, but for empty ones, in turn with the texts of
the substitutions. -/
theorem interleaved_eq (source : SourceFile) {chunks : List Chunk} {expressions : List Node}
    (h : chunks.length = expressions.length + 1) :
    interleaved source chunks expressions =
      (expressions.mapM fun e => source.textOf e.span).map
        (lineUp ((chunks.map Chunk.raw).map written)) := by
  induction expressions generalizing chunks with
  | nil =>
    obtain ⟨last, rfl⟩ := List.length_eq_one_iff.1 h
    rfl
  | cons e rest ih =>
    cases chunks with
    | nil => simp at h
    | cons c more =>
      have hmore : more.length = rest.length + 1 := by simpa using h
      rw [interleaved, ih hmore, List.mapM_cons]
      cases source.textOf e.span with
      | error fault => rfl
      | ok text =>
        cases rest.mapM fun e => source.textOf e.span with
        | error fault => rfl
        | ok texts => rfl

/-! ### What a template string and a call stand for -/

/-- What a template string stands for when its substitutions stand for the given texts. -/
def value (t : Template Node) (values : List String) : String :=
  String.join (weave (t.chunks.map Chunk.raw) values)

/-- What the call passes when the substitutions stand for the given texts: these, and of a chunk
what is between its quotes. -/
def passed (t : Template Node) (values : List String) : List String :=
  lineUp ((t.chunks.map Chunk.raw).map fun raw => (written raw).map Model.unquote) values

/-- The text that the helper makes of what it is passed. -/
def joined (t : Template Node) (values : List String) : String :=
  " ".intercalate (passed t values)

/-- A chunk without escapes, double quotes and line breaks. -/
def IsPlain (raw : String) : Prop := ∀ c ∈ raw.toList, c ∉ ['\\', '\x22', '\n', '\r']

/-- A plain chunk is between its quotes as it is. -/
theorem unquote_quoteChunk {raw : String} (h : IsPlain raw) :
    Model.unquote (quoteChunk raw) = raw := by
  have hquoted : quotedChars raw.toList = raw.toList := by
    simpa [quotedChars] using quotedChars_plain_append h []
  rw [unquote_quoteChunk_eq, hquoted, String.ofList_toList]

theorem map_unquote_written {raw : String} (h : IsPlain raw) :
    (written raw).map Model.unquote = if raw = "" then [] else [raw] := by
  unfold written
  split
  · rfl
  · rw [List.map_singleton, unquote_quoteChunk h]

/-- The words that are passed are those of the chunks and the substitutions. -/
theorem flatMap_words_lineUp {raws : List String} (h : ∀ raw ∈ raws, IsPlain raw)
    (values : List String) :
    (lineUp (raws.map fun raw => (written raw).map Model.unquote) values).flatMap words =
      (weave raws values).flatMap words := by
  induction raws generalizing values with
  | nil => rfl
  | cons raw rest ih =>
    obtain ⟨hraw, hrest⟩ := List.forall_mem_cons.1 h
    have hwords : ((written raw).map Model.unquote).flatMap words = words raw := by
      rw [map_unquote_written hraw]
      split
      · next hempty =>
        rw [hempty]
        rfl
      · exact List.flatMap_singleton _ _
    cases values with
    | nil =>
      rw [List.map_cons, lineUp_cons_nil, List.flatMap_append, hwords, ih hrest]
      rfl
    | cons v values =>
      rw [List.map_cons, lineUp_cons_cons, List.flatMap_append, hwords, List.flatMap_cons,
        ih hrest]
      rfl

/-- The call keeps the classes for some values of the substitutions exactly if, among the chunks
and values that are not empty, each is set apart from the next. -/
theorem words_joined_eq_iff {t : Template Node} (h : ∀ raw ∈ t.chunks.map Chunk.raw, IsPlain raw)
    (values : List String) :
    words (joined t values) = words (value t values) ↔
      ((weave (t.chunks.map Chunk.raw) values).filter (· != "")).IsChain SetApart := by
  rw [joined, Text.words_intercalate, passed, flatMap_words_lineUp h, ← Text.words_join_eq_iff,
    eq_comm]
  rfl

/-! ### All values at once -/

/-- Chunks behind a substitution set it apart from what follows, and the next ones as well. -/
def SetsApartBehind (middle : List String) (last : String) : Prop :=
  (∀ s ∈ middle, beginsBlank s = true ∧ endsBlank s = true) ∧ (last = "" ∨ beginsBlank last = true)

theorem ne_empty_of_beginsBlank {s : String} (h : beginsBlank s = true) : s ≠ "" := by
  rintro rfl
  exact absurd h (by decide)

/-- What may follow any text may follow a value, whether it is empty or not. -/
theorem isChain_filter_cons {rest : List String}
    (hrest : ∀ front, (front :: rest.filter (· != "")).IsChain SetApart) (v : String) :
    ((v :: rest).filter (· != "")).IsChain SetApart := by
  by_cases hv : v = ""
  · rw [List.filter_cons_of_neg (by simp [hv])]
    exact (hrest "").tail
  · rw [List.filter_cons_of_pos (by simp [hv])]
    exact hrest v

theorem isChain_cons_filter_cons {front : String} (hends : endsBlank front = true)
    {rest : List String} (hrest : ∀ front, (front :: rest.filter (· != "")).IsChain SetApart)
    (v : String) : (front :: (v :: rest).filter (· != "")).IsChain SetApart := by
  by_cases hv : v = ""
  · rw [List.filter_cons_of_neg (by simp [hv])]
    exact hrest front
  · rw [List.filter_cons_of_pos (by simp [hv]), List.isChain_cons_cons]
    exact ⟨.inl hends, hrest v⟩

/-- Chunks that set substitutions apart do so for all values, and from any text in front. -/
theorem isChain_of_setsApartBehind {middle : List String} {last : String}
    (h : SetsApartBehind middle last) (values : List String)
    (hlength : values.length = middle.length) (front : String) :
    (front :: (weave (middle ++ [last]) values).filter (· != "")).IsChain SetApart := by
  induction middle generalizing values front with
  | nil =>
    cases List.eq_nil_of_length_eq_zero hlength
    rcases h.2 with hlast | hlast
    · simp [weave, hlast]
    · simp [weave, ne_empty_of_beginsBlank hlast, SetApart, hlast]
  | cons s rest ih =>
    obtain ⟨⟨hbegins, hends⟩, hrest⟩ := List.forall_mem_cons.1 h.1
    cases values with
    | nil => simp at hlength
    | cons v values =>
      have ih := ih ⟨hrest, h.2⟩ values (by simpa using hlength)
      have hsome : s ≠ "" := ne_empty_of_beginsBlank hbegins
      rw [List.cons_append, weave, List.filter_cons_of_pos (by simp [hsome]),
        List.isChain_cons_cons]
      exact ⟨.inr hbegins, isChain_cons_filter_cons hends ih v⟩

/-- A text without blanks in the place of every substitution tells which chunks set apart. -/
theorem setsApartBehind_of_isChain {middle : List String} {last : String}
    (h : ("x" :: (weave (middle ++ [last]) (List.replicate middle.length "x")).filter
      (· != "")).IsChain SetApart) : SetsApartBehind middle last := by
  have hends : endsBlank "x" = false := by decide
  have hbegins : beginsBlank "x" = false := by decide
  induction middle with
  | nil =>
    refine ⟨by simp, ?_⟩
    by_cases hlast : last = ""
    · exact .inl hlast
    · simpa [weave, hlast, SetApart, hends] using h
  | cons s rest ih =>
    rw [List.length_cons, List.replicate_succ, List.cons_append, weave] at h
    by_cases hs : s = ""
    · -- two substitutions meet
      rw [hs, List.filter_cons_of_neg (by simp), List.filter_cons_of_pos (by decide),
        List.isChain_cons_cons] at h
      simp [SetApart, hends, hbegins] at h
    · rw [List.filter_cons_of_pos (by simp [hs]), List.filter_cons_of_pos (by decide),
        List.isChain_cons_cons, List.isChain_cons_cons] at h
      obtain ⟨hfront, hbehind, h⟩ := h
      obtain ⟨hmiddle, hlast⟩ := ih h
      refine ⟨List.forall_mem_cons.2 ⟨⟨?_, ?_⟩, hmiddle⟩, hlast⟩
      · exact hfront.resolve_left (by simp [hends])
      · exact hbehind.resolve_right (by simp [hbegins])

/-- The call keeps the classes whatever the substitutions stand for exactly if every chunk has a
blank at each end that is next to a substitution; only the first and the last may be empty. -/
theorem kept_for_all_iff {t : Template Node} (h : ∀ raw ∈ t.chunks.map Chunk.raw, IsPlain raw)
    {first last : Chunk} {middle : List Chunk} (hchunks : t.chunks = first :: (middle ++ [last])) :
    (∀ values : List String, values.length = middle.length + 1 →
        words (joined t values) = words (value t values)) ↔
      (first.raw = "" ∨ endsBlank first.raw = true) ∧
        SetsApartBehind (middle.map Chunk.raw) last.raw := by
  have hweave (v : String) (values : List String) :
      weave (t.chunks.map Chunk.raw) (v :: values) =
        first.raw :: v :: weave (middle.map Chunk.raw ++ [last.raw]) values := by
    rw [hchunks, List.map_cons, List.map_append]
    rfl
  have hmiddle : middle.length = (middle.map Chunk.raw).length := (List.length_map _).symm
  constructor
  · intro hall
    have hchain := (words_joined_eq_iff h _).1
      (hall (List.replicate (middle.length + 1) "x") List.length_replicate)
    rw [List.replicate_succ, hweave, hmiddle] at hchain
    by_cases hfirst : first.raw = ""
    · rw [List.filter_cons_of_neg (by simp [hfirst]), List.filter_cons_of_pos (by decide)]
        at hchain
      exact ⟨.inl hfirst, setsApartBehind_of_isChain hchain⟩
    · rw [List.filter_cons_of_pos (by simp [hfirst]), List.filter_cons_of_pos (by decide),
        List.isChain_cons_cons] at hchain
      obtain ⟨hapart, hchain⟩ := hchain
      exact ⟨.inr (hapart.resolve_right (by decide)), setsApartBehind_of_isChain hchain⟩
  · rintro ⟨hfirst, hbehind⟩ values hlength
    cases values with
    | nil => simp at hlength
    | cons v values =>
      have hlength : values.length = (middle.map Chunk.raw).length := by
        simpa [← hmiddle] using hlength
      have hchain := isChain_of_setsApartBehind hbehind values hlength
      rw [words_joined_eq_iff h, hweave]
      by_cases hempty : first.raw = ""
      · rw [List.filter_cons_of_neg (by simp [hempty])]
        exact isChain_filter_cons hchain v
      · rw [List.filter_cons_of_pos (by simp [hempty])]
        exact isChain_cons_filter_cons (hfirst.resolve_left hempty) hchain v

/-! ### What is reported -/

variable {text : String} {root : Tree} {source : SourceFile} {options : Options}
  {found vs : List Violation} {v : Violation}

/-- The template string in the attribute that a violation is on. -/
def templateOf? (v : Violation) : Option (Template Node) :=
  match v.node with
  | .attr a => (template? a).map (·.2)
  | _ => none

/-- A violation puts a call with the chunks and substitutions of a template string in its
place. -/
structure Rewrites (source : SourceFile) (options : Options) (v : Violation) (t : Template Node)
    (texts : List String) : Prop where
  template : templateOf? v = some t
  alternates : t.chunks.length = t.expressions.length + 1
  substitutes : t.expressions ≠ []
  texts_eq : (t.expressions.mapM fun e => source.textOf e.span) = .ok texts
  edit : ∃ helper, options.need "helper" = .ok helper ∧ ∃ e ∈ v.edits,
    e.text = "\x7b" ++ (helper.display ++ "(" ++
      ", ".intercalate (lineUp ((t.chunks.map Chunk.raw).map written) texts) ++ ")") ++ "\x7d"

theorem template_of_template? {a : Attribute Node} {c : Container Node} {t : Template Node}
    (h : template? a = some (c, t)) :
    c.expression = some (.template t) ∧ t.expressions ≠ [] := by
  unfold template? at h
  split at h
  · split at h
    · next template hexpression =>
      split at h
      · cases h
      · next hsubstitutes =>
        cases h
        exact ⟨hexpression, by simpa using hsubstitutes⟩
    · cases h
  · cases h

/-- The template string in an attribute of a file is in the file. -/
theorem template_mem_preorder {a : Attribute Node} {c : Container Node} {t : Template Node}
    (h : template? a = some (c, t)) {n : Node} (ha : .attr a ∈ n.preorder) :
    .template t ∈ n.preorder := by
  have hcontainer : .container c ∈ n.preorder :=
    Node.mem_preorder_of_mem_children ha (by simp [Node.children, value_of_template? h])
  exact Node.mem_preorder_of_mem_children hcontainer
    (by simp [Node.children, (template_of_template? h).1])

/-- Every violation of this rule rewrites a template string. -/
theorem exists_rewrites (hs : source.Parsed text root) (h : rule.visit source options = .ok vs)
    (hv : v ∈ vs) : ∃ t texts, Rewrites source options v t texts := by
  obtain ⟨a, c, t, edit, imported, ha, hmade⟩ := exists_isMade h hv
  obtain ⟨helper, replacement, hhelper, hcall, hedit⟩ := hmade.edit_eq
  have halternates := hs.alternates (template_mem_preorder hmade.template_eq ha)
  have hsubstitutes := (template_of_template? hmade.template_eq).2
  obtain ⟨args, hargs, hcall⟩ := Outcome.exists_of_bind_eq_ok hcall
  cases hcall
  rw [arguments, interleaved_eq source halternates] at hargs
  obtain ⟨texts, htexts, rfl⟩ := Outcome.exists_of_map_eq_ok hargs
  refine ⟨t, texts, ?_, halternates, hsubstitutes, htexts, helper, hhelper, edit, ?_,
    (Edit.between_eq_ok_iff.1 hedit).2.2⟩
  · simp [templateOf?, hmade.node_eq, hmade.template_eq]
  · simp [hmade.edits_eq]

/-- A template string with substitutions has a first and a last chunk. -/
theorem Rewrites.exists_chunks {t : Template Node} {texts : List String}
    (h : Rewrites source options v t texts) :
    ∃ first middle last, t.chunks = first :: (middle ++ [last]) ∧
      t.expressions.length = middle.length + 1 := by
  obtain ⟨e, rest, hexpressions⟩ := List.exists_cons_of_ne_nil h.substitutes
  have hlength := h.alternates
  rw [hexpressions, List.length_cons] at hlength
  obtain ⟨first, others, hchunks⟩ := List.exists_cons_of_length_eq_add_one hlength
  have hothers : others ≠ [] := by
    rintro rfl
    simp [hchunks] at hlength
  obtain ⟨middle, last, rfl⟩ := (List.eq_nil_or_concat' others).resolve_left hothers
  have hmiddle : middle.length = rest.length := by simpa [hchunks] using hlength
  exact ⟨first, middle, last, hchunks, by rw [hexpressions, List.length_cons, hmiddle]⟩

/-- Every violation of this rule rewrites a template string as a call of the helper.  If the chunks
are plain, the classes are kept exactly if no two neighbours among the chunks and the values of the
substitutions meet without a blank, the empty ones left out.  So they are kept for all values of
the substitutions exactly if every chunk has blanks at the ends that are next to one. -/
theorem classes_kept_iff (hs : source.Parsed text root) (h : rule.visit source options = .ok vs)
    (hv : v ∈ vs) :
    ∃ t texts, Rewrites source options v t texts ∧
      ((∀ raw ∈ t.chunks.map Chunk.raw, IsPlain raw) →
        (∀ values : List String, values.length = t.expressions.length →
          (words (joined t values) = words (value t values) ↔
            ((weave (t.chunks.map Chunk.raw) values).filter (· != "")).IsChain SetApart)) ∧
        ∃ first middle last, t.chunks = first :: (middle ++ [last]) ∧
          ((∀ values : List String, values.length = t.expressions.length →
              words (joined t values) = words (value t values)) ↔
            (first.raw = "" ∨ endsBlank first.raw = true) ∧
              SetsApartBehind (middle.map Chunk.raw) last.raw)) := by
  obtain ⟨t, texts, hrewrites⟩ := exists_rewrites hs h hv
  refine ⟨t, texts, hrewrites, fun hplain =>
    ⟨fun values _ => words_joined_eq_iff hplain values, ?_⟩⟩
  obtain ⟨first, middle, last, hchunks, hlength⟩ := hrewrites.exists_chunks
  refine ⟨first, middle, last, hchunks, ?_⟩
  rw [hlength]
  exact kept_for_all_iff hplain hchunks

/-! ### A prefix in front of a substitution -/

/-- An element with a class attribute: a template string of a chunk and a substitution. -/
def prefixedText (chunk : String) : String := "<a className=\x7b`" ++ chunk ++ "$\x7bb\x7d`\x7d />"

/-- The tree of that text, by the length of the chunk. -/
def prefixedTree (n : Nat) : Tree :=
  .node "program" true "" 0 (n + 24)
    [.node "expression_statement" true "" 0 (n + 24)
      [.node "jsx_self_closing_element" true "" 0 (n + 24)
        [.node "identifier" true "name" 1 2 [],
          .node "jsx_attribute" true "" 3 (n + 21)
            [.node "property_identifier" true "" 3 12 [],
              .node "jsx_expression" true "" 13 (n + 21)
                [.node "template_string" true "" 14 (n + 20)
                  [.node "template_substitution" true "" (n + 15) (n + 19)
                    [.node "identifier" true "" (n + 17) (n + 18) []]]]]]]]

/-- The chunks of each template string that the rule reports for a text. -/
def reportedChunks (text : String) (root : Tree) : Option (List (Option (List String))) := do
  let source ← (SourceFile.ofTree default .tsx text ⟨root, false⟩).toOption
  let vs ← (rule.visitPlain source).toOption
  pure (vs.map fun v => (templateOf? v).map fun t => t.chunks.map Chunk.raw)

theorem exists_of_reportedChunks {raws : List String}
    (h : reportedChunks text root = some [some raws]) :
    ∃ source v t, SourceFile.ofTree default .tsx text ⟨root, false⟩ = .ok source ∧
      rule.visitPlain source = .ok [v] ∧ templateOf? v = some t ∧
      t.chunks.map Chunk.raw = raws := by
  obtain ⟨source, hsource, h⟩ := Option.bind_eq_some_iff.1 h
  obtain ⟨vs, hvs, h⟩ := Option.bind_eq_some_iff.1 h
  obtain ⟨v, rfl, ht⟩ := List.map_eq_singleton_iff.1 (Option.some.inj h)
  obtain ⟨t, ht, hraws⟩ := Option.map_eq_some_iff.1 ht
  exact ⟨source, v, t, Outcome.eq_ok_of_toOption_eq_some hsource,
    Outcome.eq_ok_of_toOption_eq_some hvs, ht, hraws⟩

/-- A chunk that ends with a blank keeps the classes, whatever is behind it. -/
theorem classes_kept_behind_blank :
    ∃ source v t, SourceFile.ofTree default .tsx (prefixedText "btn ") ⟨prefixedTree 4, false⟩ =
        .ok source ∧ rule.visitPlain source = .ok [v] ∧ templateOf? v = some t ∧
      t.chunks.map Chunk.raw = ["btn ", ""] ∧
      ∀ size, words (joined t [size]) = words (value t [size]) := by
  have hchunks :
      reportedChunks (prefixedText "btn ") (prefixedTree 4) = some [some ["btn ", ""]] := by
    decide +kernel
  obtain ⟨source, v, t, hsource, hvisit, ht, hraws⟩ := exists_of_reportedChunks hchunks
  refine ⟨source, v, t, hsource, hvisit, ht, hraws, fun size => ?_⟩
  obtain ⟨t', texts, hrewrites, hkept⟩ :=
    classes_kept_iff (SourceFile.parsed_of_ofTree hsource) hvisit List.mem_cons_self
  cases ht.symm.trans hrewrites.template
  have hplain : ∀ raw ∈ t.chunks.map Chunk.raw, IsPlain raw := by
    simp [hraws, IsPlain]
  have hlength : t.expressions.length = 1 := by
    have := congrArg List.length hraws
    rw [List.length_map, hrewrites.alternates] at this
    simpa using this
  rw [(hkept hplain).1 [size] (by rw [hlength]; rfl), hraws]
  by_cases hsize : size = ""
  · simp [weave, hsize]
  · have hapart : SetApart "btn " size := .inl (by decide)
    simpa [weave, hsize] using hapart

/-- A chunk that is the beginning of a class loses it: the class becomes two. -/
theorem classes_may_change :
    ∃ source v t texts,
      SourceFile.ofTree default .tsx (prefixedText "text-") ⟨prefixedTree 5, false⟩ = .ok source ∧
      rule.visitPlain source = .ok [v] ∧ Rewrites source rule.parameters v t texts ∧
      (∀ raw ∈ t.chunks.map Chunk.raw, IsPlain raw) ∧
      words (value t ["lg"]) = ["text-lg"] ∧ words (joined t ["lg"]) = ["text-", "lg"] := by
  have hchunks : reportedChunks (prefixedText "text-") (prefixedTree 5) =
      some [some ["text-", ""]] := by
    decide +kernel
  obtain ⟨source, v, t, hsource, hvisit, ht, hraws⟩ := exists_of_reportedChunks hchunks
  obtain ⟨t', texts, hrewrites⟩ :=
    exists_rewrites (SourceFile.parsed_of_ofTree hsource) hvisit List.mem_cons_self
  cases ht.symm.trans hrewrites.template
  refine ⟨source, v, t, texts, hsource, hvisit, hrewrites, ?_, ?_, ?_⟩
  · simp [hraws, IsPlain]
  · rw [value, hraws]
    decide
  · rw [joined, passed, hraws]
    decide

end TsxLint.ClassNames
