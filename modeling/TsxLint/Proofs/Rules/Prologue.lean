/-
Module: TsxLint.Proofs.Rules.Prologue
Purpose: Where the import of the helper stands to the directives at the front of a program.
Main exports: Tree.prologue, Tree.holdsEscape, ClassNames.isDirective_eq,
  ClassNames.import_behind_prologue_iff
-/
import TsxLint.Proofs.Rules.Applicable
import TsxLint.Proofs.Rules.HelperImport
import TsxLint.Proofs.Source.Statements
import TsxLint.Proofs.Source.Totality

namespace TsxLint

/-!
A program may begin with directives, which are strings on their own.  They count as directives only
in front of everything else, so a statement in front of them takes their effect.  Whether a statement
is one shows in the tree, by the types of the statement and of what is in it.

The search for a place skips the statements that are directives in the model.  There a string with
an escape is no literal, so the search stops at a directive with one.  This is the only way in which
the import comes in front of a directive, and an import that the program has already leaves no room
for it: the place is behind that import then.
-/

namespace Tree

/-- A statement that is a string on its own, whatever the string holds. -/
def isStringStatement (t : Tree) : Bool :=
  t.type == "expression_statement" && t.kids.head?.any (·.type == "string")

/-- The directives at the front of a program. -/
def prologue (root : Tree) : List Tree := root.kids.takeWhile isStringStatement

/-- There is a backslash between the quotes of a string. -/
def hasBackslash (text : String) (string : Tree) : Bool :=
  match Model.textOf (Document.ofText text) string with
  | .ok raw => (Model.unquote raw).toList.contains '\\'
  | .error _ => false

/-- The string that a statement begins with holds an escape. -/
def holdsEscape (text : String) (t : Tree) : Bool := t.kids.head?.any (hasBackslash text)

/-- A directive that the model keeps as a literal. -/
def isPlainDirective (text : String) (t : Tree) : Bool :=
  t.isStringStatement && !t.holdsEscape text

end Tree

namespace ClassNames

variable {text : String} {root t : Tree} {n : Node} {source : SourceFile} {options : Options}
  {vs : List Violation} {v : Violation} {e : Edit}

/-! ### Directives of the model -/

/-- A literal whose value is a text. -/
def isTextLiteral (n : Node) : Bool :=
  match n with
  | .literal ⟨_, .str _, _⟩ => true
  | _ => false

theorem isDirective_statement (s : Span) (expression : Option Node) :
    isDirective (.statement ⟨s, expression⟩) = expression.any isTextLiteral := by
  cases expression with
  | none => rfl
  | some m =>
    cases m with
    | literal l =>
      obtain ⟨_, value, _⟩ := l
      cases value <;> rfl
    | _ => rfl

/-- A number is no text. -/
theorem isTextLiteral_number {s : Span} {raw : String} {value : Value}
    (h : Literal.readNumber? raw = some value) : isTextLiteral (.literal ⟨s, value, raw⟩) = false := by
  unfold Literal.readNumber? at h
  split at h
  · cases h
    rfl
  · obtain ⟨x, -, rfl⟩ := Option.map_eq_some_iff.1 h
    rfl

/-- A keyword is no text. -/
theorem isTextLiteral_keyword {s : Span} (type raw : String) :
    isTextLiteral (.literal ⟨s, Model.keywordValue type, raw⟩) = false := by
  unfold Model.keywordValue
  split
  · rfl
  · split <;> rfl

/-- A string is kept whole if there is a backslash between its quotes. -/
theorem isKeptWhole_string (htype : t.type = "string") :
    Model.isKeptWhole (Document.ofText text) t = t.hasBackslash text := by
  have hconstruct : Construct.ofType t.type = .string := by rw [htype]; rfl
  rw [Model.isKeptWhole, hconstruct, Tree.hasBackslash]
  cases hraw : Model.textOf (Document.ofText text) t with
  | error _ =>
    simp only [Model.stringLiteral, hraw]
    rfl
  | ok raw =>
    simp only [Model.stringLiteral, hraw, Outcome.ok_bind]
    cases (Model.unquote raw).toList.contains '\\' <;> rfl

/-- A node is a text exactly if it is built of a string without an escape. -/
theorem isTextLiteral_eq (h : Model.IsBuilt (Document.ofText text) t n) :
    isTextLiteral n = (t.type == "string" && !t.hasBackslash text) := by
  cases h.assembled with
  | @string raw htype hraw hplain =>
    have hfree : t.hasBackslash text = false := by
      rw [Tree.hasBackslash, hraw]
      exact hplain
    simp [htype, hfree, isTextLiteral]
  | number htype _ hvalue => simp [htype, isTextLiteral_number hvalue]
  | keyword htype =>
    rw [isTextLiteral_keyword]
    grind
  | other =>
    have hwhole := h.isKeptWhole_of_other rfl
    by_cases htype : t.type = "string"
    · rw [isKeptWhole_string htype] at hwhole
      simp [hwhole, isTextLiteral]
    · simp [htype, isTextLiteral]
  | _ => grind [isTextLiteral]

/-- A directive of the model is what is built of a directive without an escape. -/
theorem isDirective_eq (h : Model.IsBuilt (Document.ofText text) t n) :
    isDirective n = t.isPlainDirective text := by
  cases h.assembled with
  | @statement expression htype hexpression =>
    rw [isDirective_statement]
    cases hkid : t.kids.head? with
    | none =>
      rw [hkid] at hexpression
      cases hexpression
      simp [Tree.isPlainDirective, Tree.isStringStatement, hkid]
    | some c =>
      have hc : c ∈ t.children := Tree.mem_children_of_mem_kids (List.mem_of_mem_head? hkid)
      rw [hkid] at hexpression
      cases hexpression with
      | some hbuilt =>
        simp [Tree.isPlainDirective, Tree.isStringStatement, Tree.holdsEscape, hkid, htype,
          isTextLiteral_eq (hbuilt hc)]
  | other hother =>
    have hne : t.type ≠ "expression_statement" := by
      intro htype
      rw [htype] at hother
      exact absurd hother (by decide)
    simp [Tree.isPlainDirective, Tree.isStringStatement, hne, isDirective]
  | _ => grind [isDirective, Tree.isPlainDirective, Tree.isStringStatement]

/-! ### The place of the import -/

/-- The place of an insertion is behind an import of the program, and if it has none, in front of
the first statement that is no directive. -/
theorem start_of_insertion? {statement : String}
    (h : insertion? source statement = .ok (some e)) :
    (∃ i ∈ source.program.body, i.kind = .importDeclaration ∧ (e.start : Int) = i.stop) ∨
      (∀ i ∈ source.program.body, i.kind ≠ .importDeclaration) ∧
        ∃ first rest, source.program.body.dropWhile isDirective = first :: rest ∧
          (e.start : Int) = first.start := by
  rw [insertion?] at h
  cases hlast : lastImportEnd? source.program.body with
  | some place =>
    rw [hlast] at h
    obtain ⟨edit, hedit, heq⟩ := Outcome.exists_of_map_eq_ok h
    cases heq
    obtain ⟨i, hi, rfl⟩ := Option.map_eq_some_iff.1 hlast
    have hkind : i.kind = .importDeclaration := by simpa using List.find?_some hi
    exact .inl ⟨i, List.mem_reverse.1 (List.mem_of_find?_eq_some hi), hkind,
      (Edit.between_eq_ok_iff.1 hedit).1⟩
  | none =>
    have hnone : ∀ i ∈ source.program.body, i.kind ≠ .importDeclaration := by
      rw [lastImportEnd?, Option.map_eq_none_iff, List.find?_eq_none] at hlast
      simpa using hlast
    rw [hlast] at h
    cases hdrop : source.program.body.dropWhile isDirective with
    | nil =>
      simp only [hdrop] at h
      cases h
    | cons first rest =>
      simp only [hdrop] at h
      obtain ⟨edit, hedit, heq⟩ := Outcome.exists_of_map_eq_ok h
      cases heq
      exact .inr ⟨hnone, first, rest, rfl, (Edit.between_eq_ok_iff.1 hedit).1⟩

theorem exists_insertion?_of_importEdit? (h : importEdit? source options = .ok (some e)) :
    ∃ statement, insertion? source statement = .ok (some e) := by
  obtain ⟨helper, -, h⟩ := Outcome.exists_of_bind_eq_ok h
  split at h
  · cases h
  · obtain ⟨module, -, h⟩ := Outcome.exists_of_bind_eq_ok h
    exact ⟨_, h⟩

/-! ### Statements in order -/

/-- What a sorted list begins with comes before what it does not begin with. -/
theorem rel_of_mem_takeWhile {α : Type} {R : α → α → Prop} {p : α → Bool} {xs : List α}
    (h : xs.Pairwise R) {x y : α} (hx : x ∈ xs.takeWhile p) (hy : y ∈ xs) (hp : p y = false) :
    R x y := by
  rw [← List.takeWhile_append_dropWhile (p := p) (l := xs)] at h hy
  rcases List.mem_append.1 hy with hy | hy
  · rw [List.all_eq_true.1 List.all_takeWhile y hy] at hp
    cases hp
  · exact (List.pairwise_append.1 h).2.2 x hx y hy

/-- Of two related lists the same is dropped. -/
theorem forall₂_dropWhile {α β : Type} {R : α → β → Prop} {p : α → Bool} {q : β → Bool}
    (hpq : ∀ x y, R x y → q y = p x) {xs : List α} {ys : List β} (h : List.Forall₂ R xs ys) :
    List.Forall₂ R (xs.dropWhile p) (ys.dropWhile q) := by
  induction h with
  | nil => exact .nil
  | @cons x y xs ys hxy hrest ih =>
    rw [List.dropWhile_cons, List.dropWhile_cons, hpq x y hxy]
    split
    · exact ih
    · exact .cons hxy hrest

/-- An import of the program is behind its directives. -/
theorem prologue_before_import (hs : source.Parsed text root) (ht : root.WellFormed text)
    (htop : root.type ∈ ["program", "ERROR"]) {i : Node} (hi : i ∈ source.program.body)
    (hkind : i.kind = .importDeclaration) : ∀ t ∈ root.prologue, (t.stop : Int) ≤ i.stop := by
  intro t htmem
  obtain ⟨u, hu, hbuilt⟩ := Outcome.exists_left_of_mem (hs.forall₂_isBuilt_body htop) hi
  have htype : u.type = "import_statement" := by
    cases hbuilt.assembled with
    | importDeclaration htype => exact htype
    | _ => simp [Node.kind] at hkind
  have hno : u.isStringStatement = false := by simp [Tree.isStringStatement, htype]
  have hbefore : t.stop ≤ u.start := rel_of_mem_takeWhile ht.ordered_kids htmem hu hno
  have hsub := Tree.mem_subtrees_of_mem_children (Tree.mem_children_of_mem_kids hu)
  have hrange := (ht.of_mem hsub).isLaidOut.start_le_stop
  rw [hbuilt.stop_eq]
  exact Int.ofNat_le.2 (Nat.le_trans hbefore hrange)

/-- A string with a backslash is not empty. -/
theorem start_lt_stop_of_hasBackslash {string : Tree} (h : string.hasBackslash text = true) :
    string.start < string.stop := by
  by_contra hle
  have hempty : Model.textOf (Document.ofText text) string = .ok "" :=
    Document.slice_of_le (by omega) (by omega)
  rw [Tree.hasBackslash, hempty] at h
  cases h

/-- A statement with an escape is not empty. -/
theorem start_lt_stop_of_holdsEscape (ht : t.WellFormed text) (h : t.holdsEscape text = true) :
    t.start < t.stop := by
  rw [Tree.holdsEscape] at h
  obtain ⟨string, hstring, hbackslash⟩ := (Option.any_eq_true _ _).1 h
  have hkid : string ∈ t.kids := List.mem_of_mem_head? hstring
  obtain ⟨hstart, hstop⟩ := ht.isLaidOut.inside string (Tree.mem_children_of_mem_kids hkid)
  have := start_lt_stop_of_hasBackslash hbackslash
  omega

/-- The directives of a program are the plain ones that it begins with, and from the first statement
that is no plain directive on, what is left of them. -/
theorem prologue_eq {u : Tree} {us : List Tree}
    (hdrop : root.kids.dropWhile (Tree.isPlainDirective text) = u :: us) :
    root.prologue = root.kids.takeWhile (Tree.isPlainDirective text) ++
      (u :: us).takeWhile Tree.isStringStatement := by
  have hplain : ∀ t ∈ root.kids.takeWhile (Tree.isPlainDirective text),
      t.isStringStatement = true := by
    intro t ht
    have hplain := List.all_eq_true.1 List.all_takeWhile t ht
    exact (Bool.and_eq_true_iff.1 hplain).1
  have hkids := List.takeWhile_append_dropWhile (p := Tree.isPlainDirective text) (l := root.kids)
  rw [hdrop] at hkids
  conv_lhs => rw [Tree.prologue, ← hkids]
  exact List.takeWhile_append_of_pos hplain

/-- The first statement that is no directive of the model is behind all directives, of which none
holds an escape, or it is the first one that does. -/
theorem start_of_dropWhile_isDirective (hs : source.Parsed text root) (ht : root.WellFormed text)
    (htop : root.type ∈ ["program", "ERROR"]) {first : Node} {rest : List Node}
    (hfirst : source.program.body.dropWhile isDirective = first :: rest) :
    (∀ t ∈ root.prologue, (t.stop : Int) ≤ first.start ∧ t.holdsEscape text = false) ∨
      ∃ t ∈ root.prologue, t.holdsEscape text = true ∧ first.start = t.start := by
  have hsame : ∀ t n, Model.IsBuilt (Document.ofText text) t n →
      isDirective n = t.isPlainDirective text := fun _ _ => isDirective_eq
  have hdropped := forall₂_dropWhile hsame (hs.forall₂_isBuilt_body htop)
  rw [hfirst] at hdropped
  cases hdrop : root.kids.dropWhile (Tree.isPlainDirective text) with
  | nil =>
    rw [hdrop] at hdropped
    cases hdropped
  | cons u us =>
    rw [hdrop] at hdropped
    obtain ⟨hbuilt, -⟩ := List.forall₂_cons.1 hdropped
    have hnot : u.isPlainDirective text = false := by
      have := List.head?_dropWhile_not (Tree.isPlainDirective text) root.kids
      rwa [hdrop] at this
    have hprologue := prologue_eq hdrop
    cases hstring : u.isStringStatement with
    | true =>
      refine .inr ⟨u, ?_, ?_, hbuilt.start_eq⟩
      · rw [hprologue, List.takeWhile_cons_of_pos hstring]
        exact List.mem_append_right _ List.mem_cons_self
      · simpa [Tree.isPlainDirective, hstring] using hnot
    | false =>
      refine .inl ?_
      intro t htmem
      rw [hprologue, List.takeWhile_cons_of_neg (by simp [hstring]), List.append_nil] at htmem
      have hplain := List.all_eq_true.1 List.all_takeWhile t htmem
      have hu : u ∈ root.kids := (List.dropWhile_suffix _).subset (hdrop ▸ List.mem_cons_self)
      have hbefore : t.stop ≤ u.start := rel_of_mem_takeWhile ht.ordered_kids htmem hu hnot
      constructor
      · rw [hbuilt.start_eq]
        exact Int.ofNat_le.2 hbefore
      · simpa using (Bool.and_eq_true_iff.1 hplain).2

/-- The import of the helper is inserted behind the last directive of a program exactly if the
program has an import already or no directive holds an escape.  Otherwise it is inserted in front of
a directive with an escape. -/
theorem import_behind_prologue_iff (hs : source.Parsed text root) (ht : root.WellFormed text)
    (htop : root.type ∈ ["program", "ERROR"]) (h : rule.visit source options = .ok vs) (hv : v ∈ vs)
    (he : e ∈ v.edits) (himports : ImportsHelper source options e) :
    ((∀ t ∈ root.prologue, t.stop ≤ e.start) ↔
      (∃ i ∈ source.program.body, i.kind = .importDeclaration) ∨
        ∀ t ∈ root.prologue, t.holdsEscape text = false) ∧
    ((∃ t ∈ root.prologue, e.start < t.stop) →
      ∃ t ∈ root.prologue, t.holdsEscape text = true ∧ e.start = t.start) := by
  obtain ⟨_, _, _, _, imported, -, hmade⟩ := exists_isMade h hv
  obtain rfl : imported = some e := (hmade.importsHelper_iff e).1 ⟨he, himports⟩
  obtain ⟨statement, hinsertion⟩ := exists_insertion?_of_importEdit? hmade.imported_eq
  have hnever : (∀ t ∈ root.prologue, t.stop ≤ e.start) → ¬ ∃ t ∈ root.prologue, e.start < t.stop := by
    rintro hbehind ⟨t, htmem, hlt⟩
    exact Nat.not_lt_of_le (hbehind t htmem) hlt
  rcases start_of_insertion? hinsertion with
    ⟨i, hi, hkind, hplace⟩ | ⟨hnone, first, rest, hfirst, hplace⟩
  · -- behind an import, which is behind the directives
    have hbehind : ∀ t ∈ root.prologue, t.stop ≤ e.start := by
      intro t htmem
      have := prologue_before_import hs ht htop hi hkind t htmem
      omega
    exact ⟨iff_of_true hbehind (.inl ⟨i, hi, hkind⟩), fun hcut => absurd hcut (hnever hbehind)⟩
  · rcases start_of_dropWhile_isDirective hs ht htop hfirst with
      hclean | ⟨t, htmem, hescape, hstart⟩
    · have hbehind : ∀ t ∈ root.prologue, t.stop ≤ e.start := by
        intro t htmem
        have := (hclean t htmem).1
        omega
      exact ⟨iff_of_true hbehind (.inr fun t htmem => (hclean t htmem).2),
        fun hcut => absurd hcut (hnever hbehind)⟩
    · have hstart : e.start = t.start := by omega
      refine ⟨iff_of_false ?_ ?_, fun _ => ⟨t, htmem, hescape, hstart⟩⟩
      · -- a directive with an escape does not end where it begins
        intro hbehind
        have hkid : t ∈ root.kids := (List.takeWhile_prefix _).subset htmem
        have hsub := Tree.mem_subtrees_of_mem_children (Tree.mem_children_of_mem_kids hkid)
        have hextent := start_lt_stop_of_holdsEscape (ht.of_mem hsub) hescape
        have hstop := hbehind t htmem
        omega
      · rintro (⟨i, hi, hkind⟩ | hplain)
        · exact hnone i hi hkind
        · rw [hplain t htmem] at hescape
          cases hescape

/-! ### Two directives in front of an element -/

/-- A directive whose string has a width. -/
def directiveAt (start width : Nat) : Tree :=
  .node "expression_statement" true "" start (start + width + 1)
    [.node "string" true "" start (start + width) []]

/-- Two directives and an element behind them. -/
def directedTree (width width' : Nat) : Tree :=
  .node "program" true "" 0 (width + width' + 26)
    [directiveAt 0 width, directiveAt (width + 1) width', elementAt (width + width' + 2)]

/-- The import that a violation with two edits brings along is the first of them. -/
theorem exists_of_reportedEdits_pair {f : Edit} {others : List (List Edit)}
    (h : Catalog.reportedEdits rule text root = some ([e, f] :: others)) :
    ∃ path language source vs v,
      SourceFile.ofTree path language text ⟨root, false⟩ = .ok source ∧
      rule.visitPlain source = .ok vs ∧ v ∈ vs ∧ e ∈ v.edits ∧
      ImportsHelper source rule.parameters e := by
  obtain ⟨v, ⟨path, language, source, vs, hsource, hvs, hv⟩, hedits⟩ :=
    Catalog.exists_of_reportedEdits h
  obtain ⟨_, _, _, _, imported, -, hmade⟩ := exists_isMade hvs hv
  have hpair := hmade.edits_eq.symm.trans hedits
  obtain rfl : imported = some e := by
    cases imported with
    | none => simp at hpair
    | some x => exact congrArg some (List.cons.inj hpair).1
  obtain ⟨he, himports⟩ := (hmade.importsHelper_iff e).2 rfl
  exact ⟨path, language, source, vs, v, hsource, hvs, hv, he, himports⟩

/-- The import comes behind two directives without an escape. -/
theorem import_behind_prologue_plain :
    ∃ path language source vs v e,
      SourceFile.ofTree path language ("'use client';'use strict';" ++ prefixedText "")
        ⟨directedTree 12 12, false⟩ = .ok source ∧
      rule.visitPlain source = .ok vs ∧ v ∈ vs ∧ e ∈ v.edits ∧
      ImportsHelper source rule.parameters e ∧ (directedTree 12 12).prologue.length = 2 ∧
      ∀ t ∈ (directedTree 12 12).prologue, t.stop ≤ e.start := by
  have hreported : Catalog.reportedEdits rule ("'use client';'use strict';" ++ prefixedText "")
      (directedTree 12 12) =
        some [[⟨26, 26, "import \x7bcn\x7d from '@/lib/utils';\n\n", by decide⟩,
          ⟨39, 47, "\x7bcn(b)\x7d", by decide⟩]] := by decide +kernel
  have hlaidOut :
      (directedTree 12 12).WellFormed ("'use client';'use strict';" ++ prefixedText "") := by
    decide +kernel
  have hplain : ∀ t ∈ (directedTree 12 12).prologue,
      t.holdsEscape ("'use client';'use strict';" ++ prefixedText "") = false := by decide +kernel
  obtain ⟨path, language, source, vs, v, hsource, hvs, hv, he, himports⟩ :=
    exists_of_reportedEdits_pair hreported
  obtain ⟨hiff, -⟩ := import_behind_prologue_iff (SourceFile.parsed_of_ofTree hsource) hlaidOut
    (by decide) hvs hv he himports
  exact ⟨path, language, source, vs, v, _, hsource, hvs, hv, he, himports, by decide,
    hiff.2 (.inr hplain)⟩

/-- A directive that is a line break in quotes, written as an escape, has the import put in front of
it.  The directive behind it is then no directive any more. -/
theorem prologue_may_be_cut :
    ∃ path language source vs v e,
      SourceFile.ofTree path language ("'\\n';'use strict';" ++ prefixedText "")
        ⟨directedTree 4 12, false⟩ = .ok source ∧
      rule.visitPlain source = .ok vs ∧ v ∈ vs ∧ e ∈ v.edits ∧
      ImportsHelper source rule.parameters e ∧
      (directedTree 4 12).WellFormed ("'\\n';'use strict';" ++ prefixedText "") ∧
      ∃ t ∈ (directedTree 4 12).prologue, e.start < t.stop := by
  have hreported : Catalog.reportedEdits rule ("'\\n';'use strict';" ++ prefixedText "")
      (directedTree 4 12) =
        some [[⟨0, 0, "import \x7bcn\x7d from '@/lib/utils';\n\n", by decide⟩,
          ⟨31, 39, "\x7bcn(b)\x7d", by decide⟩]] := by decide +kernel
  obtain ⟨path, language, source, vs, v, hsource, hvs, hv, he, himports⟩ :=
    exists_of_reportedEdits_pair hreported
  exact ⟨path, language, source, vs, v, _, hsource, hvs, hv, he, himports, by decide +kernel,
    by decide⟩

end ClassNames

end TsxLint
