/-
Module: TsxLint.Proofs.Rules.HelperArguments
Purpose: With which arguments a call of the helper is read.
Main exports: ClassNames.isArgument_quoteChunk_iff, ClassNames.arguments_read_as,
  ClassNames.arguments_may_come_apart
-/
import TsxLint.Proofs.Rules.ClassLists
import TsxLint.Proofs.Text.ArgumentLists

namespace TsxLint.ClassNames

open Text (Inside Reading IsArgument readArguments?)
open Text.Reading (outside)

/-!
The arguments of the call are put next to each other with commas between them.  A chunk in quotes
stays one argument, since nothing in it closes the literal.  A substitution is put there as it is
written, and whether it stays one argument depends on its text: in a template string an expression
may have a comma outside brackets, and in a call that comma parts it into several arguments.
-/

/-! ### Chunks in quotes -/

/-- Between the quotes of an argument. -/
def inQuotes : Reading := ⟨.string '\x22' false, []⟩

theorem through?_quotedUnit {c : Char} (h : c ≠ '\\') :
    inQuotes.through? (quotedUnit [c]) = some inQuotes := by
  by_cases hc : c ∈ ['\x22', '\n', '\r']
  · simp only [List.mem_cons, List.not_mem_nil, or_false] at hc
    rcases hc with rfl | rfl | rfl <;> rfl
  · rw [quotedUnit_single hc]
    simp only [List.mem_cons, List.not_mem_nil, or_false, not_or] at hc
    simp [Reading.through?, Reading.next?, Reading.isOutside, Reading.after, inQuotes, h, hc.1]

/-- Nothing in a chunk closes the literal. -/
theorem through?_quotedChars {cs : List Char} (h : Paired cs) :
    inQuotes.through? (quotedChars cs) = some inQuotes := by
  induction h with
  | nil => rfl
  | pair c _ ih =>
    rw [quotedChars_pair]
    exact ih
  | single hc _ ih =>
    rw [quotedChars_cons hc, Reading.through?_append (through?_quotedUnit hc), ih]

theorem through?_quoteChunk {raw : String} {front back : List Char}
    (hraw : raw.toList = front ++ back) (h : Paired front) :
    outside.through? (quoteChunk raw).toList =
      inQuotes.through? (quotedChars back ++ ['\x22']) := by
  have hquote : outside.through? ['\x22'] = some inQuotes := rfl
  rw [quoteChunk, String.toList_ofList, hraw, quotedChars_append h, List.cons_append,
    ← List.singleton_append, Reading.through?_append hquote, List.append_assoc,
    Reading.through?_append (through?_quotedChars h)]

/-- A chunk in quotes is one argument exactly if it does not end open. -/
theorem isArgument_quoteChunk_iff {raw : String} :
    IsArgument (quoteChunk raw).toList ↔ ¬ EndsOpen raw.toList := by
  constructor
  · -- the last backslash leaves the literal open
    rintro ⟨r, hread, houtside⟩ hopen
    obtain ⟨front, hraw, hfront⟩ := exists_of_endsOpen hopen
    rw [through?_quoteChunk hraw hfront] at hread
    cases hread
    cases houtside
  · intro hclosed
    have hpaired := paired_of_not_endsOpen hclosed
    refine ⟨outside, ?_, rfl⟩
    rw [through?_quoteChunk (List.append_nil _).symm hpaired]
    rfl

/-! ### Chunks and substitutions in turn -/

theorem mem_written {raw arg : String} : arg ∈ written raw ↔ raw ≠ "" ∧ arg = quoteChunk raw := by
  unfold written
  split
  · next hempty => simp [hempty]
  · next hsome => simp [hsome]

theorem mem_lineUp_iff {chunks : List (List String)} {texts : List String}
    (h : texts.length ≤ chunks.length) {arg : String} :
    arg ∈ lineUp chunks texts ↔ arg ∈ chunks.flatten ∨ arg ∈ texts := by
  induction chunks generalizing texts with
  | nil =>
    cases List.eq_nil_of_length_eq_zero (Nat.le_zero.1 h)
    simp [lineUp, weave]
  | cons chunk chunks ih =>
    cases texts with
    | nil => simp [lineUp_cons_nil, ih]
    | cons s texts =>
      rw [lineUp_cons_cons, List.mem_append, List.mem_cons, ih (by simpa using h),
        List.flatten_cons, List.mem_append, List.mem_cons]
      tauto

/-- There is one argument for each chunk that is not empty and one for each substitution. -/
theorem length_lineUp {raws texts : List String} (h : texts.length ≤ raws.length) :
    (lineUp (raws.map written) texts).length = raws.countP (· != "") + texts.length := by
  induction raws generalizing texts with
  | nil =>
    cases List.eq_nil_of_length_eq_zero (Nat.le_zero.1 h)
    rfl
  | cons raw raws ih =>
    have hwritten : (written raw).length = if raw != "" then 1 else 0 := by
      unfold written
      by_cases hraw : raw = "" <;> simp [hraw]
    cases texts with
    | nil =>
      rw [List.map_cons, lineUp_cons_nil, List.length_append, ih (Nat.zero_le _), List.countP_cons,
        hwritten]
      omega
    | cons s texts =>
      rw [List.map_cons, lineUp_cons_cons, List.length_append, List.length_cons,
        ih (by simpa using h), List.countP_cons, hwritten, List.length_cons]
      omega

theorem forall_isArgument_lineUp_iff {raws texts : List String} (h : texts.length ≤ raws.length) :
    (∀ arg ∈ lineUp (raws.map written) texts, IsArgument arg.toList) ↔
      (∀ raw ∈ raws, ¬ EndsOpen raw.toList) ∧ ∀ s ∈ texts, IsArgument s.toList := by
  have hlength : texts.length ≤ (raws.map written).length := by simpa using h
  constructor
  · intro hall
    refine ⟨fun raw hraw hopen => ?_, fun s hs => hall s ((mem_lineUp_iff hlength).2 (.inr hs))⟩
    have hne : raw ≠ "" := by
      rintro rfl
      exact not_endsOpen_nil hopen
    have hmem : quoteChunk raw ∈ lineUp (raws.map written) texts :=
      (mem_lineUp_iff hlength).2 (.inl (List.mem_flatten_of_mem (List.mem_map_of_mem hraw)
        (mem_written.2 ⟨hne, rfl⟩)))
    exact isArgument_quoteChunk_iff.1 (hall _ hmem) hopen
  · rintro ⟨hraws, htexts⟩ arg harg
    rcases (mem_lineUp_iff hlength).1 harg with harg | harg
    · obtain ⟨chunk, hchunk, harg⟩ := List.mem_flatten.1 harg
      obtain ⟨raw, hraw, rfl⟩ := List.mem_map.1 hchunk
      obtain ⟨-, rfl⟩ := mem_written.1 harg
      exact isArgument_quoteChunk_iff.2 (hraws raw hraw)
    · exact htexts arg harg

/-! ### How the arguments are read -/

/-- How texts are read each on its own, as the arguments of a call. -/
abbrev ReadAs (texts : List String) (read : List (List String)) : Prop :=
  List.Forall₂ (fun s pieces => readArguments? (s ++ ")") = some (pieces, "")) texts read

theorem readAs_written {raw : String} (h : ¬ EndsOpen raw.toList) :
    ReadAs (written raw) ((written raw).map fun arg => [arg]) := by
  refine List.forall₂_map_right_iff.2 (List.forall₂_same.2 fun arg harg => ?_)
  obtain ⟨-, rfl⟩ := mem_written.1 harg
  exact Text.isArgument_iff_read.1 (isArgument_quoteChunk_iff.2 h)

/-- The arguments are read in turn, the chunks as they are. -/
theorem exists_readAs_lineUp {raws texts : List String} {read : List (List String)}
    (hraws : ∀ raw ∈ raws, ¬ EndsOpen raw.toList) (h : ReadAs texts read) :
    ∃ pieces, ReadAs (lineUp (raws.map written) texts) pieces ∧
      pieces.flatten = (weave (raws.map written) read).flatten := by
  induction raws generalizing texts read with
  | nil => exact ⟨[], .nil, rfl⟩
  | cons raw raws ih =>
    obtain ⟨hraw, hraws⟩ := List.forall_mem_cons.1 hraws
    have hwritten := readAs_written hraw
    have hflatten : ((written raw).map fun arg => [arg]).flatten = written raw := by
      rw [← List.flatMap_def, List.flatMap_singleton']
    cases h with
    | nil =>
      obtain ⟨pieces, hpieces, heq⟩ := ih hraws .nil
      refine ⟨_, List.rel_append hwritten hpieces, ?_⟩
      rw [List.flatten_append, hflatten, heq]
      rfl
    | cons hs htexts =>
      obtain ⟨pieces, hpieces, heq⟩ := ih hraws htexts
      refine ⟨_, List.rel_append hwritten (.cons hs hpieces), ?_⟩
      rw [List.flatten_append, hflatten, List.flatten_cons, heq]
      rfl

variable {text : String} {root : Tree} {source : SourceFile} {options : Options}
  {vs : List Violation} {v : Violation}

theorem Rewrites.arguments_eq {t : Template Node} {texts : List String}
    (h : Rewrites source options v t texts) :
    arguments source t = .ok (lineUp ((t.chunks.map Chunk.raw).map written) texts) := by
  rw [arguments, interleaved_eq source h.alternates, h.texts_eq]
  rfl

/-- Every violation of this rule has a call of one argument for each chunk that is not empty and
one for each substitution, in their order.  The call is read as these arguments exactly if no
chunk ends open and every substitution is a text of one argument.  In any case it is read as the
chunks in turn with whatever each substitution is read as on its own. -/
theorem arguments_read_as (hs : source.Parsed text root) (h : rule.visit source options = .ok vs)
    (hv : v ∈ vs) :
    ∃ t texts args, Rewrites source options v t texts ∧ arguments source t = .ok args ∧
      args = lineUp ((t.chunks.map Chunk.raw).map written) texts ∧
      args.length = (t.chunks.map Chunk.raw).countP (· != "") + t.expressions.length ∧
      ∃ helper, options.need "helper" = .ok helper ∧ ∃ e ∈ v.edits, ∃ behind,
        e.text = "\x7b" ++ helper.display ++ "(" ++ behind ∧
        (readArguments? behind = some (args, "\x7d") ↔
          (∀ raw ∈ t.chunks.map Chunk.raw, ¬ EndsOpen raw.toList) ∧
            ∀ s ∈ texts, IsArgument s.toList) ∧
        ((∀ raw ∈ t.chunks.map Chunk.raw, ¬ EndsOpen raw.toList) →
          ∀ read, ReadAs texts read →
            readArguments? behind =
              some ((weave ((t.chunks.map Chunk.raw).map written) read).flatten, "\x7d")) := by
  obtain ⟨t, texts, hrewrites⟩ := exists_rewrites hs h hv
  obtain ⟨helper, hhelper, e, he, htext⟩ := hrewrites.edit
  have hexpressions : texts.length = t.expressions.length :=
    (Outcome.mapM_eq_ok_iff.1 hrewrites.texts_eq).length_eq.symm
  have hlength : texts.length ≤ (t.chunks.map Chunk.raw).length := by
    rw [List.length_map, hrewrites.alternates, hexpressions]
    exact Nat.le_succ _
  have hne : lineUp ((t.chunks.map Chunk.raw).map written) texts ≠ [] := by
    rw [← List.length_pos_iff, length_lineUp hlength, hexpressions]
    exact Nat.add_pos_right _ (List.length_pos_iff.2 hrewrites.substitutes)
  refine ⟨t, texts, _, hrewrites, hrewrites.arguments_eq, rfl,
    by rw [length_lineUp hlength, hexpressions], helper, hhelper, e, he,
    ", ".intercalate (lineUp ((t.chunks.map Chunk.raw).map written) texts) ++ ")" ++ "\x7d",
    ?_, ?_, ?_⟩
  · simp [htext, String.append_assoc]
  · rw [Text.readArguments?_intercalate_iff hne, forall_isArgument_lineUp_iff hlength]
  · intro hraws read hread
    obtain ⟨pieces, hpieces, hflatten⟩ := exists_readAs_lineUp hraws hread
    rw [Text.readArguments?_intercalate hne hpieces, hflatten]

/-! ### A comma in a substitution -/

/-- An element with a class attribute: a template string of a class and a substitution. -/
def substitutedText (inner : String) : String :=
  "<a className=\x7b`x $\x7b" ++ inner ++ "\x7d`\x7d />"

/-- The tree of that text, by the length and the tree of what is substituted. -/
def substitutedTree (n : Nat) (inner : Tree) : Tree :=
  .node "program" true "" 0 (n + 25)
    [.node "expression_statement" true "" 0 (n + 25)
      [.node "jsx_self_closing_element" true "" 0 (n + 25)
        [.node "identifier" true "name" 1 2 [],
          .node "jsx_attribute" true "" 3 (n + 22)
            [.node "property_identifier" true "" 3 12 [],
              .node "jsx_expression" true "" 13 (n + 22)
                [.node "template_string" true "" 14 (n + 21)
                  [.node "template_substitution" true "" 17 (n + 20) [inner]]]]]]]

/-- The tree of `f(a, b)` as what is substituted. -/
def callTree : Tree :=
  .node "call_expression" true "" 19 26
    [.node "identifier" true "function" 19 20 [],
      .node "arguments" true "arguments" 20 26
        [.node "identifier" true "" 21 22 [], .node "identifier" true "" 24 25 []]]

/-- The tree of `a, b` as what is substituted. -/
def sequenceTree : Tree :=
  .node "sequence_expression" true "" 19 23
    [.node "identifier" true "left" 19 20 [], .node "identifier" true "right" 22 23 []]

/-- The chunks and the texts of the substitutions in each template string that the rule reports. -/
def reportedParts (text : String) (root : Tree) :
    Option (List (Option (List String × List String))) := do
  let source ← (SourceFile.ofTree default .tsx text ⟨root, false⟩).toOption
  let vs ← (rule.visitPlain source).toOption
  pure (vs.map fun v => do
    let t ← templateOf? v
    let texts ← (t.expressions.mapM fun e => source.textOf e.span).toOption
    pure (t.chunks.map Chunk.raw, texts))

theorem exists_of_reportedParts {raws texts : List String}
    (h : reportedParts text root = some [some (raws, texts)]) :
    ∃ source v, SourceFile.ofTree default .tsx text ⟨root, false⟩ = .ok source ∧
      rule.visitPlain source = .ok [v] ∧
      ∀ t texts', Rewrites source rule.parameters v t texts' →
        t.chunks.map Chunk.raw = raws ∧ texts' = texts := by
  obtain ⟨source, hsource, h⟩ := Option.bind_eq_some_iff.1 h
  obtain ⟨vs, hvs, h⟩ := Option.bind_eq_some_iff.1 h
  obtain ⟨v, rfl, hparts⟩ := List.map_eq_singleton_iff.1 (Option.some.inj h)
  obtain ⟨t, ht, hparts⟩ := Option.bind_eq_some_iff.1 hparts
  obtain ⟨found, hfound, hparts⟩ := Option.bind_eq_some_iff.1 hparts
  cases hparts
  refine ⟨source, v, Outcome.eq_ok_of_toOption_eq_some hsource,
    Outcome.eq_ok_of_toOption_eq_some hvs, fun t' texts' hrewrites => ?_⟩
  cases ht.symm.trans hrewrites.template
  refine ⟨rfl, ?_⟩
  exact Except.ok.inj
    (hrewrites.texts_eq.symm.trans (Outcome.eq_ok_of_toOption_eq_some hfound))

/-- A comma inside brackets does not part an argument. -/
theorem arguments_read_as_nested :
    ∃ source v, SourceFile.ofTree default .tsx (substitutedText "f(a, b)")
        ⟨substitutedTree 7 callTree, false⟩ = .ok source ∧ rule.visitPlain source = .ok [v] ∧
      ∃ e ∈ v.edits, ∃ behind, e.text = "\x7bcn(" ++ behind ∧
        readArguments? behind = some (["\x22x \x22", "f(a, b)"], "\x7d") := by
  have hparts : reportedParts (substitutedText "f(a, b)") (substitutedTree 7 callTree) =
      some [some (["x ", ""], ["f(a, b)"])] := by decide +kernel
  obtain ⟨source, v, hsource, hvisit, hrewritten⟩ := exists_of_reportedParts hparts
  obtain ⟨t, texts, args, hrewrites, -, hargs, -, helper, hhelper, e, he, behind, htext, hread,
    -⟩ := arguments_read_as (SourceFile.parsed_of_ofTree hsource) hvisit List.mem_cons_self
  obtain ⟨hraws, htexts⟩ := hrewritten t texts hrewrites
  have hcn : rule.parameters.need "helper" = .ok (.str "cn") := by rfl
  cases hhelper.symm.trans hcn
  refine ⟨source, v, hsource, hvisit, e, he, behind, htext, ?_⟩
  have hline : args = ["\x22x \x22", "f(a, b)"] := by
    rw [hargs, hraws, htexts]
    decide +kernel
  rw [← hline, hread, hraws, htexts]
  refine ⟨by decide +kernel, ?_⟩
  rw [List.forall_mem_singleton]
  exact ⟨outside, by decide +kernel, rfl⟩

/-- An expression with a comma outside brackets is passed as two arguments. -/
theorem arguments_may_come_apart :
    ∃ source v t texts, SourceFile.ofTree default .tsx (substitutedText "a, b")
        ⟨substitutedTree 4 sequenceTree, false⟩ = .ok source ∧
      rule.visitPlain source = .ok [v] ∧ Rewrites source rule.parameters v t texts ∧
      arguments source t = .ok ["\x22x \x22", "a, b"] ∧
      ∃ e ∈ v.edits, ∃ behind, e.text = "\x7bcn(" ++ behind ∧
        readArguments? behind = some (["\x22x \x22", "a", "b"], "\x7d") := by
  have hparts : reportedParts (substitutedText "a, b") (substitutedTree 4 sequenceTree) =
      some [some (["x ", ""], ["a, b"])] := by decide +kernel
  obtain ⟨source, v, hsource, hvisit, hrewritten⟩ := exists_of_reportedParts hparts
  obtain ⟨t, texts, hrewrites⟩ :=
    exists_rewrites (SourceFile.parsed_of_ofTree hsource) hvisit List.mem_cons_self
  obtain ⟨hraws, rfl⟩ := hrewritten t texts hrewrites
  obtain ⟨helper, hhelper, e, he, htext⟩ := hrewrites.edit
  have hcn : rule.parameters.need "helper" = .ok (.str "cn") := by rfl
  cases hhelper.symm.trans hcn
  have hline : lineUp ((t.chunks.map Chunk.raw).map written) ["a, b"] = ["\x22x \x22", "a, b"] := by
    rw [hraws]
    decide +kernel
  refine ⟨source, v, t, _, hsource, hvisit, hrewrites, ?_, e, he,
    "\x22x \x22, a, b)\x7d", ?_, by decide +kernel⟩
  · rw [hrewrites.arguments_eq, hline]
  · rw [htext, hline]
    decide +kernel

end TsxLint.ClassNames
