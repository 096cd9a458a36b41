/-
Module: TsxLint.Proofs.Rules.LayoutClasses
Purpose: Which classes keep an element from being taken for a wrapper.
Main exports: Wrapper.IsWritten, Wrapper.isLayoutClass_iff, Wrapper.LacksLayout,
  Wrapper.wrapper_reported_iff
-/
import TsxLint.Proofs.Rules.WrapperReports
import TsxLint.Proofs.Source.Files

namespace TsxLint.Wrapper

/-!
A class is a name with variants in front, each with a colon behind it, and importance marks between
them and the name.  A name may hold colons itself, inside square brackets.  There is then more than
one way to part the class, and the rule knows only the one with the shortest name: what follows the
last colon.  So it sees that a class is layout exactly if the class can be parted into variants,
marks and a layout name without a colon.
-/

/-! ### The parts of a class -/

/-- A class is written as variants without colons, importance marks and a name. -/
structure IsWritten (word : String) (variants : List String) (marks : Nat) (name : String) :
    Prop where
  plain : ∀ variant ∈ variants, ':' ∉ variant.toList
  word_eq : word.toList = variants.flatMap (fun variant => variant.toList ++ [':']) ++
    (List.replicate marks '!' ++ name.toList)

/-- Every text is variants and a rest without colons. -/
theorem exists_variants (cs : List Char) :
    ∃ (variants : List String) (rest : List Char), (∀ variant ∈ variants, ':' ∉ variant.toList) ∧
      ':' ∉ rest ∧ cs = variants.flatMap (fun variant => variant.toList ++ [':']) ++ rest := by
  induction cs with
  | nil => exact ⟨[], [], by simp, by simp, rfl⟩
  | cons c cs ih =>
    obtain ⟨variants, rest, hplain, hrest, rfl⟩ := ih
    by_cases hc : c = ':'
    · subst hc
      exact ⟨"" :: variants, rest, List.forall_mem_cons.2 ⟨by simp, hplain⟩, hrest, by simp⟩
    · -- the character goes in front of the first variant, or of the rest if there is none
      cases variants with
      | nil => exact ⟨[], c :: rest, by simp, by simp [Ne.symm hc, hrest], rfl⟩
      | cons first variants =>
        obtain ⟨hfirst, hplain⟩ := List.forall_mem_cons.1 hplain
        refine ⟨String.ofList (c :: first.toList) :: variants, rest, ?_, hrest, by simp⟩
        exact List.forall_mem_cons.2 ⟨by simp [Ne.symm hc, hfirst], hplain⟩

/-- What follows the last colon is the rest behind the variants. -/
theorem behind_variants {rest : List Char} (hrest : ':' ∉ rest) (variants : List String) :
    ((variants.flatMap (fun variant => variant.toList ++ [':']) ++ rest).reverse.takeWhile
      (· != ':')).reverse = rest := by
  have hall : ∀ c ∈ rest.reverse, (c != ':') = true := by
    intro c hc
    rw [bne_iff_ne]
    rintro rfl
    exact hrest (List.mem_reverse.1 hc)
  rw [List.reverse_append, List.takeWhile_append_of_pos hall]
  rcases List.eq_nil_or_concat variants with rfl | ⟨before, last, rfl⟩
  · simp
  · simp [List.flatMap_append]

theorem utility_eq {word : String} {variants : List String} {rest : List Char}
    (hrest : ':' ∉ rest)
    (hword : word.toList = variants.flatMap (fun variant => variant.toList ++ [':']) ++ rest) :
    utility word = String.ofList (rest.dropWhile (· == '!')) := by
  rw [utility, hword, behind_variants hrest]

theorem exists_marks (cs : List Char) :
    ∃ marks, cs = List.replicate marks '!' ++ cs.dropWhile (· == '!') := by
  refine ⟨(cs.takeWhile (· == '!')).length, ?_⟩
  have hmarks : ∀ c ∈ cs.takeWhile (· == '!'), c = '!' := by
    intro c hc
    exact eq_of_beq (List.all_eq_true.1 List.all_takeWhile c hc)
  rw [← List.eq_replicate_of_mem hmarks, List.takeWhile_append_dropWhile]

/-- A class can be written with the name that the rule reads. -/
theorem exists_isWritten_utility (word : String) :
    ∃ variants marks, IsWritten word variants marks (utility word) ∧
      ':' ∉ (utility word).toList := by
  obtain ⟨variants, rest, hplain, hrest, hword⟩ := exists_variants word.toList
  obtain ⟨marks, hmarks⟩ := exists_marks rest
  rw [utility_eq hrest hword]
  refine ⟨variants, marks, ⟨hplain, ?_⟩, ?_⟩
  · rw [String.toList_ofList, ← hmarks]
    exact hword
  · rw [String.toList_ofList]
    exact fun h => hrest ((List.dropWhile_sublist _).subset h)

/-- No layout name begins with an importance mark. -/
theorem dropWhile_of_layout {name : String} (h : beginsWithAny layoutBeginnings name = true) :
    name.toList.dropWhile (· == '!') = name.toList := by
  obtain ⟨b, hb, hprefix⟩ := List.any_eq_true.1 h
  obtain ⟨behind, hname⟩ := List.isPrefixOf_iff_prefix.1 hprefix
  have hfirst : layoutBeginnings.all (fun b => b.toList.head?.any (· != '!')) = true := rfl
  obtain ⟨c, hc, hmark⟩ := (Option.any_eq_true _ _).1 (List.all_eq_true.1 hfirst b hb)
  obtain ⟨others, hothers⟩ := List.head?_eq_some_iff.1 hc
  have hkept : (c == '!') = false := by simpa using hmark
  rw [← hname, hothers]
  simp [hkept]

/-- A class that is written with a layout name without a colon is read that way. -/
theorem IsWritten.utility_eq {word name : String} {variants : List String} {marks : Nat}
    (h : IsWritten word variants marks name) (hname : beginsWithAny layoutBeginnings name = true)
    (hcolon : ':' ∉ name.toList) : utility word = name := by
  have hrest : ':' ∉ List.replicate marks '!' ++ name.toList := by
    simp [hcolon]
  rw [Wrapper.utility_eq hrest h.word_eq, List.dropWhile_append_of_pos (by simp),
    dropWhile_of_layout hname, String.ofList_toList]

/-- A class is taken for layout exactly if it can be written with a layout name without a colon. -/
theorem isLayoutClass_iff (word : String) :
    isLayoutClass word = true ↔ ∃ variants marks name, IsWritten word variants marks name ∧
      beginsWithAny layoutBeginnings name = true ∧ ':' ∉ name.toList := by
  constructor
  · intro h
    obtain ⟨variants, marks, hwritten, hcolon⟩ := exists_isWritten_utility word
    exact ⟨variants, marks, utility word, hwritten, h, hcolon⟩
  · rintro ⟨variants, marks, name, hwritten, hname, hcolon⟩
    rw [isLayoutClass, hwritten.utility_eq hname hcolon]
    exact hname

/-! ### The classes of an element -/

/-- The classes that an attribute spells out. -/
def classes? (a : Attribute Node) : Option String :=
  match a.value with
  | some (.literal ⟨_, .str classes, _⟩) => some classes
  | _ => none

/-- An attribute holds no classes, or spells out classes none of which has a layout name, however
it is written, unless there is a colon in the name. -/
inductive LacksLayout (a : Attribute Node) : Prop
  | bare (h : a.value = none)
  | spelt {classes : String} (h : classes? a = some classes)
      (colon : ∀ word ∈ Text.words classes, ∀ variants marks name,
        IsWritten word variants marks name → beginsWithAny layoutBeginnings name = true →
          ':' ∈ name.toList)

theorem any_isLayoutClass_eq_false_iff (classes : String) :
    (Text.words classes).any isLayoutClass = false ↔
      ∀ word ∈ Text.words classes, ∀ variants marks name, IsWritten word variants marks name →
        beginsWithAny layoutBeginnings name = true → ':' ∈ name.toList := by
  rw [List.any_eq_false]
  refine forall₂_congr fun word _ => ?_
  rw [isLayoutClass_iff]
  push Not
  rfl

theorem carriesLayout_eq_false_iff (a : Attribute Node) :
    carriesLayout a = false ↔ LacksLayout a := by
  rw [carriesLayout]
  split
  · next h => exact ⟨fun _ => .bare h, fun _ => rfl⟩
  · next span classes raw h =>
    have hclasses : classes? a = some classes := by rw [classes?, h]
    rw [any_isLayoutClass_eq_false_iff]
    refine ⟨.spelt hclasses, fun hlacks => ?_⟩
    cases hlacks with
    | bare hnone => rw [hnone] at h; cases h
    | spelt hspelt colon =>
      cases hspelt.symm.trans hclasses
      exact colon
  · next value hother h =>
    refine ⟨nofun, fun hlacks => ?_⟩
    cases hlacks with
    | bare hnone => rw [hnone] at h; cases h
    | @spelt classes hspelt colon =>
      rw [classes?] at hspelt
      split at hspelt
      · next span classes raw hvalue =>
        exact (hother span classes raw (Option.some.inj (h.symm.trans hvalue))).elim
      · cases hspelt

theorem servesLayout_eq_false_iff (e : Element Node) :
    servesLayout e = false ↔
      ∀ name ∈ ["className", "class"], ∀ a, e.attribute? name = some a → LacksLayout a := by
  rw [servesLayout, List.any_eq_false]
  refine forall₂_congr fun name _ => ?_
  cases e.attribute? name with
  | none => simp
  | some a => simp [carriesLayout_eq_false_iff]

/-- An element is reported exactly if it has a closing tag and a covered name, no attribute of it
gives it a purpose, neither of the attributes for classes that is looked up has a layout class
without a colon in its name, and its only child that counts is an element or an expression. -/
theorem wrapper_reported_iff {source : SourceFile} {options : Options} {vs : List Violation}
    (h : rule.visit source options = .ok vs) {e : Element Node} (he : .element e ∈ source.nodes) :
    (∃ v ∈ vs, v.node = .element e) ↔
      e.selfClosing = false ∧
      (∃ elements, options.need "elements" = .ok elements ∧
        elements.holds e.name = .ok true) ∧
      hasMeaningfulAttribute e = false ∧
      (∀ name ∈ ["className", "class"], ∀ a, e.attribute? name = some a → LacksLayout a) ∧
      ∃ child, e.significantChildren = [child] ∧
        (child.kind = .element ∨ child.kind = .container) := by
  rw [← servesLayout_eq_false_iff]
  constructor
  · rintro ⟨v, hv, hnode⟩
    obtain ⟨f, child, -, hwrapper, hreport⟩ := exists_isReport h hv
    cases hreport.node_eq.symm.trans hnode
    exact ⟨hwrapper.tagged, hwrapper.covered, hwrapper.purposeless, hwrapper.unlaid, child,
      hwrapper.sole, hwrapper.shape⟩
  · rintro ⟨htagged, hcovered, hpurposeless, hunlaid, child, hsole, hshape⟩
    obtain ⟨v, hv, hreport⟩ := isReport_of_mem h he
      ⟨htagged, hcovered, hpurposeless, hunlaid, hsole, hshape⟩
    exact ⟨v, hv, hreport.node_eq⟩

/-! ### A class with a variant and a mark, and one with a colon in its name -/

/-- An element with classes of a certain length that holds another. -/
def styledTree (start length : Nat) (child : Tree) : Tree :=
  .node "jsx_element" true "" start (child.stop + 6)
    [.node "jsx_opening_element" true "open_tag" start (start + length + 18)
      [.node "identifier" true "name" (start + 1) (start + 4) [],
        .node "jsx_attribute" true "" (start + 5) (start + length + 17)
          [.node "property_identifier" true "" (start + 5) (start + 14) [],
            .node "string" true "" (start + 15) (start + length + 17) []]],
      child,
      .node "jsx_closing_element" true "close_tag" child.stop (child.stop + 6)
        [.node "identifier" true "name" (child.stop + 2) (child.stop + 5) []]]

/-- The classes that the elements of a file spell out. -/
def classesOf (source : SourceFile) : List String :=
  source.nodes.filterMap fun n =>
    match n with
    | .element e => (e.attribute? "className").bind classes?
    | _ => none

theorem exists_of_mem_classesOf {source : SourceFile} {classes : String}
    (h : classes ∈ classesOf source) : ∃ e a, .element e ∈ source.nodes ∧
      e.attribute? "className" = some a ∧ classes? a = some classes := by
  obtain ⟨n, hn, hclasses⟩ := List.mem_filterMap.1 h
  cases n with
  | element e =>
    obtain ⟨a, ha, hclasses⟩ := Option.bind_eq_some_iff.1 hclasses
    exact ⟨e, a, hn, ha, hclasses⟩
  | _ => cases hclasses

/-- Of two elements, one in the other, the inner one is reported; the outer one has a class with a
variant and a mark in front of a layout name. -/
theorem wrapper_with_marked_class_kept :
    ∃ source v e a, SourceFile.ofTree default .tsx
        "<div className=\x22md:!p-4\x22><div className=\x22card\x22><b/></div></div>"
        ⟨soleFile (styledTree 0 7 (styledTree 25 4 (tagTree 47))), false⟩ = .ok source ∧
      rule.visitPlain source = .ok [v] ∧ .element e ∈ source.nodes ∧
      e.attribute? "className" = some a ∧ classes? a = some "md:!p-4" ∧
      IsWritten "md:!p-4" ["md"] 1 "p-4" ∧ ¬ ∃ w ∈ [v], w.node = .element e := by
  have hreported : rule.reported .tsx
      "<div className=\x22md:!p-4\x22><div className=\x22card\x22><b/></div></div>"
      (soleFile (styledTree 0 7 (styledTree 25 4 (tagTree 47))))
      (fun source _ => classesOf source) =
        some [["md:!p-4", "card"]] := by
    decide +kernel
  obtain ⟨source, v, hsource, hvisit, hclasses⟩ := Rule.exists_of_reported hreported
  obtain ⟨e, a, he, ha, hspelt⟩ : ∃ e a, .element e ∈ source.nodes ∧
      e.attribute? "className" = some a ∧ classes? a = some "md:!p-4" := by
    apply exists_of_mem_classesOf
    rw [hclasses]
    exact List.mem_cons_self
  have hwritten : IsWritten "md:!p-4" ["md"] 1 "p-4" := ⟨by decide, by decide⟩
  refine ⟨source, v, e, a, hsource, hvisit, he, ha, hspelt, hwritten, fun hfound => ?_⟩
  obtain ⟨-, -, -, hlacks, -⟩ := (wrapper_reported_iff hvisit he).1 hfound
  cases hlacks "className" (by simp) a ha with
  | bare hnone => rw [classes?, hnone] at hspelt; cases hspelt
  | spelt h colon =>
    cases h.symm.trans hspelt
    have := colon "md:!p-4" (by decide) ["md"] 1 "p-4" hwritten (by decide)
    exact absurd this (by decide)

/-- An element whose class is a layout name with a colon in square brackets is reported. -/
theorem wrapper_with_bracketed_class_reported :
    ∃ source v e a, (soleFile (styledTree 0 14 (tagTree 32))).WellFormed
        "<div className=\x22bg-[color:red]\x22><b/></div>" ∧
      SourceFile.ofTree default .tsx "<div className=\x22bg-[color:red]\x22><b/></div>"
        ⟨soleFile (styledTree 0 14 (tagTree 32)), false⟩ = .ok source ∧
      .element e ∈ source.nodes ∧ e.attribute? "className" = some a ∧
      classes? a = some "bg-[color:red]" ∧ "bg-[color:red]" ∈ Text.words "bg-[color:red]" ∧
      beginsWithAny layoutBeginnings "bg-[color:red]" = true ∧
      rule.visitPlain source = .ok [v] ∧ v.node = .element e := by
  have hreported : rule.reported .tsx "<div className=\x22bg-[color:red]\x22><b/></div>"
      (soleFile (styledTree 0 14 (tagTree 32))) (fun _ v => match v.node with
        | .element e => (e.attribute? "className").bind classes?
        | _ => none) = some [some "bg-[color:red]"] := by
    decide +kernel
  have hwell : (soleFile (styledTree 0 14 (tagTree 32))).WellFormed
      "<div className=\x22bg-[color:red]\x22><b/></div>" := by
    decide
  obtain ⟨source, v, hsource, hvisit, hclasses⟩ := Rule.exists_of_reported hreported
  obtain ⟨e, child, he, -, hreport⟩ := exists_isReport hvisit List.mem_cons_self
  rw [hreport.node_eq] at hclasses
  obtain ⟨a, ha, hspelt⟩ := Option.bind_eq_some_iff.1 hclasses
  exact ⟨source, v, e, a, hwell, hsource, he, ha, hspelt, by decide, by decide, hvisit,
    hreport.node_eq⟩

end TsxLint.Wrapper
