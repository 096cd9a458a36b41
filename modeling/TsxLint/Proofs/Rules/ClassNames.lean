/-
Module: TsxLint.Proofs.Rules.ClassNames
Purpose: The import of the helper is inserted away from the attribute that is rewritten.
Main exports: ClassNames.insertion_cases, ClassNames.exists_isMade, ClassNames.isApplicable
-/
import TsxLint.Proofs.Rules.SingleEdits

namespace TsxLint.ClassNames

/-!
A violation of this rule may carry two edits: the value of the attribute is rewritten, and the
helper is imported at the top of the file.  The insertion is at the end of the last declaration
that imports, or at the beginning of the first statement that is no directive.  Neither has
attributes, so the attribute is in another statement or behind the place in the same one; and the
name of the attribute keeps its value away from the beginning of the statement.
-/

variable {text : String} {root : Tree} {source : SourceFile} {options : Options}
  {found vs : List Violation} {v : Violation}

/-- A statement of the file whose children come in the order of the tree, or a file without
attributes. -/
theorem childrenInOrder_body (hs : source.Parsed text root) (ht : Model.Readable text root)
    (htop : root.type ∉ Model.reorderedTypes) {a : Attribute Node}
    (ha : .attr a ∈ source.root.preorder) :
    Model.ChildrenInOrder (Document.ofText text) root source.program.body := by
  obtain ⟨n, hn, -, hbody⟩ := hs.exists_build
  rcases Model.childrenInOrder_of_assembled (Model.assembled_of_build hn) ht htop with hkind | horder
  · -- a declaration has bare children only, none of which is an attribute
    exfalso
    rcases Node.mem_preorder_iff.1 ha with heq | ⟨c, hc, ha⟩
    · cases heq
    · have hc : c ∈ source.program.body := hc
      rw [hbody] at hc
      have hbare : Model.IsBare c := by
        cases n with
        | importDeclaration x => exact Model.isBare_of_mem_children (n := x) hc
        | exportDeclaration x => exact Model.isBare_of_mem_children (n := x) hc
        | _ => simp [Node.kind] at hkind
      rw [← hbare.eq_of_mem_preorder ha] at hbare
      have := hbare.2
      simp [Node.kind] at this
  · rw [hbody]
    exact horder

/-! ### Where the attribute lies -/

/-- The braces of an attribute lie behind the beginning of the attribute, since its name is not
empty. -/
theorem container_place (hs : source.Parsed text root) (ht : Model.Readable text root)
    (hextent : root.Everywhere Tree.HasExtent) {a : Attribute Node} {c : Container Node}
    (ha : .attr a ∈ source.root.preorder) (hc : a.value = some (.container c)) :
    (a.span.start < c.span.start ∧ c.span.stop ≤ a.span.stop) ∧
      root.IsEnd c.span.start ∧ root.IsEnd c.span.stop := by
  obtain ⟨u, hu, hstems⟩ := hs.exists_stems ht ha (by simp [Node.kind])
  obtain ⟨htype, hvalue⟩ := hstems.suits_self
  obtain ⟨w, hw, hspan⟩ := hvalue _ hc
  obtain ⟨hone, rfl⟩ := List.getElem?_eq_some_iff.1 hw
  have hzero : 0 < u.kids.length := Nat.lt_trans Nat.zero_lt_one hone
  have hu' := ht.wellFormed.of_mem hu
  have hname : u.kids[0].start < u.kids[0].stop := by
    refine (hextent u hu).2 htype _ ?_
    rw [List.head?_eq_getElem?, List.getElem?_eq_getElem hzero]
    rfl
  have hbehind : u.kids[0].stop ≤ u.kids[1].start :=
    List.pairwise_iff_getElem.1 hu'.ordered_kids 0 1 hzero hone Nat.zero_lt_one
  have hinside := hu'.isLaidOut.inside _ (Tree.mem_children_of_mem_kids (List.getElem_mem hzero))
  have hinside' := hu'.isLaidOut.inside _ (Tree.mem_children_of_mem_kids (List.getElem_mem hone))
  have hmem : u.kids[1] ∈ root.subtrees :=
    Tree.mem_subtrees_trans (Tree.mem_subtrees_of_mem_children
      (Tree.mem_children_of_mem_kids (List.getElem_mem hone))) hu
  have hstart : a.span.start = u.start := hstems.start_eq
  have hstop : a.span.stop = u.stop := hstems.stop_eq
  have hcspan : c.span = Model.spanOf (Document.ofText text) u.kids[1] := hspan
  refine ⟨?_, ⟨_, hmem, .inl (by rw [hcspan]; rfl)⟩, ⟨_, hmem, .inr (by rw [hcspan]; rfl)⟩⟩
  rw [hstart, hstop, hcspan]
  constructor
  · exact Int.ofNat_lt.2 (Nat.lt_of_le_of_lt hinside.1 (Nat.lt_of_lt_of_le hname hbehind))
  · exact Int.ofNat_le.2 hinside'.2

/-- An attribute lies inside the statement that it is in. -/
theorem attr_inside_statement {d : Document} (ht : Model.Readable text root) {x : Node} {t : Tree}
    (htmem : t ∈ root.subtrees) (hx : Model.Stems d t x) {a : Attribute Node}
    (ha : .attr a ∈ x.preorder) : x.start ≤ a.span.start ∧ a.span.stop ≤ x.stop := by
  obtain ⟨u, hu, hstems⟩ := hx.exists_of_kind ha (by simp [Node.kind])
  obtain ⟨hstart, hstop⟩ := (ht.wellFormed.of_mem htmem).inside hu
  have hastart : a.span.start = u.start := hstems.start_eq
  have hastop : a.span.stop = u.stop := hstems.stop_eq
  rw [hx.start_eq, hx.stop_eq, hastart, hastop]
  exact ⟨Int.ofNat_le.2 hstart, Int.ofNat_le.2 hstop⟩

/-! ### Where the import is inserted -/

/-- The statement that imports the helper, on a line behind what there is or with an empty line
behind it. -/
def IsImportText (source : SourceFile) (options : Options) (text : String) : Prop :=
  ∃ helper module, options.need "helper" = .ok helper ∧ options.need "module" = .ok module ∧
    (text = source.newline ++ importStatement helper module ∨
      text = importStatement helper module ++ source.newline ++ source.newline)

/-- The import is inserted at the end of an import, or at the beginning of the first statement
that is no directive. -/
theorem insertion_cases {e : Edit} (h : importEdit? source options = .ok (some e)) :
    ∃ place statement, Edit.between place place statement = .ok e ∧
      IsImportText source options statement ∧
      ((∃ i ∈ source.program.body, i.kind = .importDeclaration ∧ place = i.stop) ∨
        ∃ first rest, source.program.body.dropWhile isDirective = first :: rest ∧
          place = first.start) := by
  obtain ⟨helper, hhelper, h⟩ := Outcome.exists_of_bind_eq_ok h
  split at h
  · cases h
  · obtain ⟨module, hmodule, h⟩ := Outcome.exists_of_bind_eq_ok h
    rw [insertion?] at h
    cases hlast : lastImportEnd? source.program.body with
    | some place =>
      rw [hlast] at h
      obtain ⟨edit, hedit, heq⟩ := Outcome.exists_of_map_eq_ok h
      cases heq
      obtain ⟨i, hi, rfl⟩ := Option.map_eq_some_iff.1 hlast
      refine ⟨_, _, hedit, ⟨helper, module, hhelper, hmodule, .inl rfl⟩, .inl ⟨i, ?_, ?_, rfl⟩⟩
      · exact List.mem_reverse.1 (List.mem_of_find?_eq_some hi)
      · have := List.find?_some hi
        simpa using this
    | none =>
      rw [hlast] at h
      cases hdrop : source.program.body.dropWhile isDirective with
      | nil =>
        simp only [hdrop] at h
        cases h
      | cons first rest =>
        simp only [hdrop] at h
        obtain ⟨edit, hedit, heq⟩ := Outcome.exists_of_map_eq_ok h
        cases heq
        exact ⟨_, _, hedit, ⟨helper, module, hhelper, hmodule, .inr rfl⟩,
          .inr ⟨first, rest, rfl, rfl⟩⟩

/-- There is no attribute in a directive. -/
theorem attr_not_mem_of_isDirective {x : Node} (h : isDirective x = true) {a : Attribute Node} :
    .attr a ∉ x.preorder := by
  intro ha
  unfold isDirective at h
  split at h
  · simp [Node.preorder_eq, Node.children] at ha
  · cases h

/-- There is no attribute in an import. -/
theorem attr_not_mem_of_importDeclaration {x : Node} (h : x.kind = .importDeclaration)
    {a : Attribute Node} : .attr a ∉ x.preorder := by
  intro ha
  cases x with
  | importDeclaration d =>
    rcases Node.mem_preorder_iff.1 ha with heq | ⟨c, hc, ha⟩
    · cases heq
    · have hbare := Model.isBare_of_mem_children (n := d) hc
      rw [← hbare.eq_of_mem_preorder ha] at hbare
      have := hbare.2
      simp [Node.kind] at this
  | _ => simp [Node.kind] at h

/-- Statements in order lie beside each other. -/
theorem statements_beside {d : Document} {body : List Node}
    (h : Model.ChildrenInOrder d root body) {x y : Node} (hx : x ∈ body) (hy : y ∈ body)
    (hne : x ≠ y) : x.span.Beside y.span := by
  obtain ⟨us, hus, -, hstems⟩ := h
  have hbody : body.Pairwise fun x y => x.span.Beside y.span := by
    refine pairwise_of_forall₂ hstems hus ?_
    intro t _ u _ x y htu hx hy
    refine .inl ?_
    rw [hx.span_eq, hy.span_eq]
    exact Int.ofNat_le.2 htu
  have : Std.Symm fun x y : Node => x.span.Beside y.span := ⟨fun _ _ => Span.Beside.symm⟩
  exact hbody.forall hx hy hne

/-- A statement comes no earlier than the first of those it is among. -/
theorem first_start_le {d : Document} (ht : Model.Readable text root) {first x : Node}
    {rest : List Node} (h : Model.ChildrenInOrder d root (first :: rest))
    (hx : x ∈ first :: rest) : first.start ≤ x.start := by
  obtain ⟨us, hus, hbelow, hstems⟩ := h
  cases hstems with
  | @cons t _ us _ hfirst hrest =>
    rcases List.mem_cons.1 hx with rfl | hx
    · exact Int.le_refl _
    · obtain ⟨u, hu, hxstems⟩ := Outcome.exists_left_of_mem hrest hx
      have hrange := (ht.wellFormed.of_mem (hbelow t List.mem_cons_self)).isLaidOut.start_le_stop
      have horder := List.rel_of_pairwise_cons hus hu
      rw [hfirst.start_eq, hxstems.start_eq]
      exact Int.ofNat_le.2 (Nat.le_trans hrange horder)

/-- What is dropped from the front leaves statements in order. -/
theorem childrenInOrder_dropWhile {d : Document} {body : List Node} (p : Node → Bool)
    (h : Model.ChildrenInOrder d root body) : Model.ChildrenInOrder d root (body.dropWhile p) := by
  obtain ⟨us, hus, hbelow, hstems⟩ := h
  induction hstems with
  | nil => exact Model.childrenInOrder_nil
  | @cons t x us body hx hrest ih =>
    by_cases hp : p x = true
    · rw [List.dropWhile_cons_of_pos hp]
      exact ih hus.of_cons fun u hu => hbelow u (List.mem_cons_of_mem _ hu)
    · rw [List.dropWhile_cons_of_neg hp]
      exact ⟨t :: us, hus, hbelow, .cons hx hrest⟩

/-- The place of the insertion is before the braces of an attribute or behind them. -/
theorem place_apart (hs : source.Parsed text root) (ht : Model.Readable text root)
    (hextent : root.Everywhere Tree.HasExtent) (htop : root.type ∉ Model.reorderedTypes)
    {a : Attribute Node} {c : Container Node} (ha : .attr a ∈ source.root.preorder)
    (hc : a.value = some (.container c)) {place : Int}
    (hplace : (∃ i ∈ source.program.body, i.kind = .importDeclaration ∧ place = i.stop) ∨
      ∃ first rest, source.program.body.dropWhile isDirective = first :: rest ∧
        place = first.start) :
    root.IsEnd place ∧ (place < c.span.start ∨ c.span.stop < place) := by
  have horder := childrenInOrder_body hs ht htop ha
  obtain ⟨⟨hcstart, hcstop⟩, -, -⟩ := container_place hs ht hextent ha hc
  obtain ⟨x, hx, hax⟩ : ∃ x ∈ source.program.body, .attr a ∈ x.preorder := by
    rcases Node.mem_preorder_iff.1 ha with heq | hbelow
    · cases heq
    · exact hbelow
  have hstems : ∀ y ∈ source.program.body, ∃ t ∈ root.subtrees,
      Model.Stems (Document.ofText text) t y := by
    intro y hy
    obtain ⟨us, -, hbelow, hall⟩ := horder
    obtain ⟨t, ht, hty⟩ := Outcome.exists_left_of_mem hall hy
    exact ⟨t, hbelow t ht, hty⟩
  obtain ⟨t, htmem, htx⟩ := hstems x hx
  obtain ⟨hxstart, hxstop⟩ := attr_inside_statement ht htmem htx hax
  rcases hplace with ⟨i, hi, hkind, rfl⟩ | ⟨first, rest, hdrop, rfl⟩
  · obtain ⟨u, hu, hui⟩ := hstems i hi
    refine ⟨hui.isEnd_stop hu, ?_⟩
    have htype : u.type = "import_statement" := by
      cases i with
      | importDeclaration d => exact hui.suits_self
      | _ => simp [Node.kind] at hkind
    have hnonempty : i.start < i.stop := by
      rw [hui.start_eq, hui.stop_eq]
      exact Int.ofNat_lt.2 ((hextent u hu).1 (.inl htype))
    have hne : i ≠ x := by
      rintro rfl
      exact attr_not_mem_of_importDeclaration hkind hax
    rcases statements_beside horder hi hx hne with hbefore | hbehind
    · exact .inl (Int.lt_of_le_of_lt (Int.le_trans hbefore hxstart) hcstart)
    · have hbehind : x.stop ≤ i.start := hbehind
      exact .inr (Int.lt_of_le_of_lt
        (Int.le_trans hcstop (Int.le_trans hxstop hbehind)) hnonempty)
  · have hdropped := childrenInOrder_dropWhile isDirective horder
    rw [hdrop] at hdropped
    have hfirst : first ∈ source.program.body := by
      have hmem : first ∈ source.program.body.dropWhile isDirective := by
        rw [hdrop]
        exact List.mem_cons_self
      exact (List.dropWhile_suffix _).subset hmem
    obtain ⟨u, hu, hufirst⟩ := hstems first hfirst
    refine ⟨hufirst.isEnd_start hu, .inl ?_⟩
    have hxrest : x ∈ first :: rest := by
      rw [← hdrop]
      rw [← List.takeWhile_append_dropWhile (p := isDirective) (l := source.program.body)] at hx
      rcases List.mem_append.1 hx with hx | hx
      · exact absurd hax (attr_not_mem_of_isDirective (List.all_eq_true.1 List.all_takeWhile x hx))
      · exact hx
    exact Int.lt_of_le_of_lt (Int.le_trans (first_start_le ht hdropped hxrest) hxstart) hcstart

/-! ### What a violation is made of -/

/-- A violation on an attribute, with the edit of the attribute's value and the import of the helper
if there is one. -/
structure IsMade (source : SourceFile) (options : Options) (a : Attribute Node) (v : Violation)
    (c : Container Node) (t : Template Node) (edit : Edit) (imported : Option Edit) : Prop where
  node_eq : v.node = .attr a
  edits_eq : v.edits = imported.toList ++ [edit]
  template_eq : template? a = some (c, t)
  edit_eq : ∃ helper replacement, options.need "helper" = .ok helper ∧
    call source helper t = .ok replacement ∧
    Edit.between c.span.start c.span.stop ("\x7b" ++ replacement ++ "\x7d") = .ok edit
  imported_eq : importEdit? source options = .ok imported

theorem exists_isMade_of_checkAttribute {a : Attribute Node}
    (h : checkAttribute source options a = .ok found) (hv : v ∈ found) :
    ∃ c t edit imported, IsMade source options a v c t edit imported := by
  obtain ⟨covering, -, h⟩ := Outcome.exists_of_bind_eq_ok h
  obtain ⟨covered, -, h⟩ := Outcome.exists_of_bind_eq_ok h
  split at h
  · cases h
    cases hv
  · cases htemplate : template? a with
    | none =>
      rw [htemplate] at h
      cases h
      cases hv
    | some p =>
      obtain ⟨c, t⟩ := p
      simp only [htemplate] at h
      obtain ⟨helper, hhelper, h⟩ := Outcome.exists_of_bind_eq_ok h
      obtain ⟨replacement, hcall, h⟩ := Outcome.exists_of_bind_eq_ok h
      obtain ⟨edit, hedit, h⟩ := Outcome.exists_of_bind_eq_ok h
      obtain ⟨imported, himported, h⟩ := Outcome.exists_of_bind_eq_ok h
      cases h
      cases List.mem_singleton.1 hv
      exact ⟨c, t, edit, imported, rfl, rfl, htemplate,
        ⟨helper, replacement, hhelper, hcall, hedit⟩, himported⟩

/-- Every violation of the rule is made for an attribute of the file. -/
theorem exists_isMade (h : rule.visit source options = .ok vs) (hv : v ∈ vs) :
    ∃ a c t edit imported, .attr a ∈ source.root.preorder ∧
      IsMade source options a v c t edit imported := by
  obtain ⟨way, n, found, hvisit, hreport, hv⟩ := Listener.exists_of_mem_run_atNodes h hv
  cases n with
  | attr a =>
    obtain ⟨c, t, edit, imported, hmade⟩ := exists_isMade_of_checkAttribute hreport hv
    exact ⟨a, c, t, edit, imported, Node.mem_preorder_of_mem_visits hvisit, hmade⟩
  | _ =>
    cases hreport
    cases hv

/-! ### The edits together -/

theorem value_of_template? {a : Attribute Node} {c : Container Node} {t : Template Node}
    (h : template? a = some (c, t)) : a.value = some (.container c) := by
  unfold template? at h
  split at h
  · next container hvalue =>
    split at h
    · split at h
      · cases h
      · cases h
        exact hvalue
    · cases h
  · cases h

/-- An insertion at a place outside a range does not overlap with an edit of the range. -/
theorem insertion_overlaps_eq_false {place start stop : Int} {statement replacement : String}
    {e f : Edit} (he : Edit.between place place statement = .ok e)
    (hf : Edit.between start stop replacement = .ok f) (h : place < start ∨ stop < place) :
    e.overlaps f = false := by
  obtain ⟨hestart, hestop, -⟩ := Edit.between_eq_ok_iff.1 he
  obtain ⟨hfstart, hfstop, -⟩ := Edit.between_eq_ok_iff.1 hf
  have hrange := f.start_le_stop
  rw [Edit.overlaps_eq_false_iff]
  rcases h with hbefore | hbehind
  · left
    constructor <;> omega
  · right
    constructor <;> omega

/-- The edits of a violation can be applied, with or without the import of the helper. -/
theorem isApplicable (hs : source.Parsed text root) (ht : Model.Readable text root)
    (hextent : root.Everywhere Tree.HasExtent) (htop : root.type ∉ Model.reorderedTypes)
    (h : rule.visit source options = .ok vs) (hv : v ∈ vs) : v.IsApplicable text := by
  obtain ⟨a, c, t, edit, imported, ha, hmade⟩ := exists_isMade h hv
  obtain ⟨helper, replacement, -, -, hedit⟩ := hmade.edit_eq
  have hc := value_of_template? hmade.template_eq
  obtain ⟨-, hstart, hstop⟩ := container_place hs ht hextent ha hc
  have haligned : edit.IsAligned text := Tree.IsEnd.isAligned ht.wellFormed hstart hstop hedit
  have hedits := hmade.edits_eq
  cases imported with
  | none =>
    constructor
    · rw [hedits]
      exact List.pairwise_singleton _ _
    · rw [hedits]
      intro e he
      cases List.mem_singleton.1 he
      exact haligned
  | some insertion =>
    obtain ⟨place, statement, hinsertion, -, hplace⟩ := insertion_cases hmade.imported_eq
    obtain ⟨hend, hapart⟩ := place_apart hs ht hextent htop ha hc hplace
    constructor
    · rw [hedits]
      refine List.pairwise_cons.2 ⟨fun e he => ?_, List.pairwise_singleton _ _⟩
      cases List.mem_singleton.1 he
      exact insertion_overlaps_eq_false hinsertion hedit hapart
    · rw [hedits]
      intro e he
      rcases List.mem_cons.1 he with rfl | he
      · exact Tree.IsEnd.isAligned ht.wellFormed hend hend hinsertion
      · cases List.mem_singleton.1 he
        exact haligned

end TsxLint.ClassNames
