/-
Module: TsxLint.Proofs.Rules.AttributeRemoval
Purpose: What goes with an attribute that is taken out, and what runs together behind it.
Main exports: DefaultProps.Widens, DefaultProps.Removes, DefaultProps.exists_removes,
  DefaultProps.names_kept_iff
-/
import TsxLint.Proofs.Edit.Cuts
import TsxLint.Proofs.Rules.PropMaps
import TsxLint.Proofs.Source.Slices
import TsxLint.Proofs.Text.Names

namespace TsxLint

/-!
An attribute goes together with the white space on one side of it, up to its neighbour there: the
attribute before it, or the one behind it for the first of several, or the name of the element for
the only one.  White space on the other side stays, but there need not be any: behind a value in
quotes the next attribute may follow at once.  Then what is in front of the white space and what is
behind the attribute meet, and two names become one.
-/

/-! ### Values of literals -/

/-- A value that has no parts. -/
def Value.IsScalar : Value → Prop
  | .list _ | .object _ => False
  | _ => True

theorem Value.equal_self_of_same {v w : Value} (hv : v.IsScalar) (h : Value.same v w = true) :
    Value.equal v v = true := by
  cases v with
  | float x =>
    -- a number that is the same as another is a number
    have hx : x.isNaN = false := by
      cases w with
      | int b =>
        have hfinite : x.isFinite = true := by
          simp only [Value.same, Binary64.equalInt, Bool.and_eq_true] at h
          exact h.1.1
        rw [Binary64.isFinite, bne_iff_ne] at hfinite
        simp [Binary64.isNaN, hfinite]
      | float y =>
        simp only [Value.same, Binary64.equal, Bool.and_eq_true, Bool.not_eq_true'] at h
        exact h.1.1
      | _ => simp [Value.same] at h
    simp [Value.equal, Value.numeral?, Value.Numeral.equal, Binary64.equal, hx]
  | list items => exact hv.elim
  | object members => exact hv.elim
  | _ => simp [Value.equal, Value.numeral?, Value.Numeral.equal]

namespace Model

variable {d : Document} {part : Tree → Node → Prop} {t : Tree}

theorem isScalar_of_readNumber? {s : String} {v : Value} (h : Literal.readNumber? s = some v) :
    v.IsScalar := by
  rw [Literal.readNumber?] at h
  split at h
  · cases h
    trivial
  · obtain ⟨x, -, rfl⟩ := Option.map_eq_some_iff.1 h
    trivial

theorem isScalar_of_assembled {l : Literal} (h : Assembled d part t (.literal l)) :
    l.value.IsScalar := by
  cases h with
  | string type hraw plain => trivial
  | number type hraw hvalue => exact isScalar_of_readNumber? hvalue
  | keyword type =>
    change (keywordValue t.type).IsScalar
    rw [keywordValue]
    split
    · trivial
    · split <;> trivial

/-- The literal that an attribute passes has no parts. -/
theorem isScalar_of_attributeFrom {a : Attribute Node} {l : Literal}
    (h : AttributeFrom d (IsFrom d) t (.attr a)) (hl : DefaultProps.literal? a.value = some l) :
    l.value.IsScalar := by
  cases h with
  | attr type hvalue hname =>
    generalize t.kids[1]? = u at hvalue
    cases hvalue with
    | missing => cases hl
    | string type text =>
      cases hl
      trivial
    | @part _ n type built =>
      cases n with
      | literal m =>
        cases hl
        exact isScalar_of_assembled (built.assembled (by simp [Node.kind]))
      | container c =>
        cases built.assembled (by simp [Node.kind]) with
        | @container expression type hexpression =>
          cases expression with
          | none => cases hl
          | some m =>
            obtain ⟨w, -, hm⟩ := exists_of_rel_some hexpression
            cases m with
            | literal m =>
              cases hl
              exact isScalar_of_assembled (hm.assembled (by simp [Node.kind]))
            | _ => cases hl
      | _ => cases hl

end Model

namespace DefaultProps

open Edit (Cut bytesOf)

variable {text : String} {root : Tree} {source : SourceFile} {options : Options}
  {vs : List Violation} {v : Violation} {e : Element Node} {a : Attribute Node}

/-! ### The range that goes -/

theorem isSame_self {l : Literal} (hl : literal? a.value = some l)
    (hequal : Value.equal l.value l.value = true) : isSame a (.attr a) = true := by
  have hvalue : isSameValue a.value a.value = true := by
    cases hv : a.value with
    | none => simp [hv, literal?] at hl
    | some n =>
      rw [hv] at hl
      cases n with
      | literal m =>
        cases hl
        simp [isSameValue, isSameLiteral, hequal]
      | container c =>
        cases hc : c.expression with
        | none => simp [literal?, hc] at hl
        | some m =>
          cases m with
          | literal m =>
            have hm : m = l := by simpa [literal?, hc] using hl
            simp [isSameValue, isSameLiteral, hc, hm, hequal]
          | _ => simp [literal?, hc] at hl
      | _ => cases hl
  simp [isSame, hvalue]

theorem span_of_isSame {n : Node} (h : isSame a n = true) : n.span = a.span := by
  cases n with
  | attr b =>
    simp only [isSame, Bool.and_eq_true, beq_iff_eq] at h
    exact h.1.1.1.symm
  | _ => cases h

/-- The range of an attribute, or that with the white space up to a neighbour on one side: the
attribute before it, the name in the tag if there is no other attribute, or the second attribute. -/
inductive Widens (d : Document) (e : Element Node) (index : Nat) (start stop : Int) :
    Int × Int → Prop
  | alone : Widens d e index start stop (start, stop)
  | toAttribute {i : Nat} {n : Node} {gap : String} (hindex : index = i + 1)
      (hn : e.attributes[i]? = some n) (hgap : d.slice n.stop start = .ok gap)
      (blank : Text.isBlankRun gap = true) : Widens d e index start stop (n.stop, stop)
  | toName {s : Span} {gap : String} (hindex : index = 0) (single : e.attributes[1]? = none)
      (hname : e.nameSpan = some s) (hgap : d.slice s.stop start = .ok gap)
      (blank : Text.isBlankRun gap = true) : Widens d e index start stop (s.stop, stop)
  | toNext {n : Node} {gap : String} (hindex : index = 0) (hn : e.attributes[1]? = some n)
      (hgap : d.slice stop n.start = .ok gap) (blank : Text.isBlankRun gap = true) :
      Widens d e index start stop (start, n.start)

theorem widens_of_removedRange {index : Nat} {start stop : Int} {range : Int × Int}
    (h : removedRange source e index start stop = .ok range) :
    Widens source.document e index start stop range := by
  cases index with
  | succ i =>
    rw [removedRange] at h
    cases hi : e.attributes[i]? with
    | none =>
      rw [hi] at h
      cases h
      exact .alone
    | some n =>
      rw [hi] at h
      obtain ⟨gap, hgap, h⟩ := Outcome.exists_of_bind_eq_ok h
      cases h
      by_cases hblank : Text.isBlankRun gap = true
      · rw [if_pos hblank]
        exact .toAttribute rfl hi hgap hblank
      · rw [if_neg hblank]
        exact .alone
  | zero =>
    rw [removedRange] at h
    cases hone : e.attributes[1]? with
    | some n =>
      simp only [hone] at h
      obtain ⟨gap, hgap, h⟩ := Outcome.exists_of_bind_eq_ok h
      cases h
      by_cases hblank : Text.isBlankRun gap = true
      · rw [if_pos hblank]
        exact .toNext rfl hone hgap hblank
      · rw [if_neg hblank]
        exact .alone
    | none =>
      cases hspan : e.nameSpan with
      | none =>
        simp only [hone, hspan] at h
        cases h
        exact .alone
      | some s =>
        simp only [hone, hspan] at h
        obtain ⟨gap, hgap, h⟩ := Outcome.exists_of_bind_eq_ok h
        cases h
        by_cases hblank : Text.isBlankRun gap = true
        · rw [if_pos hblank]
          exact .toName rfl hone hspan hgap hblank
        · rw [if_neg hblank]
          exact .alone

/-- Something that is not empty is read of a range only if the range is not. -/
theorem lt_of_isBlankRun {first last : Nat} {gap : String}
    (hgap : (Document.ofText text).slice first last = .ok gap)
    (blank : Text.isBlankRun gap = true) : first < last := by
  have hbytes := Document.slice_eq_ok_iff.1 hgap
  by_contra hle
  have hnone : gap = "" := by
    apply Edit.bytesOf_injective
    rw [← hbytes, List.drop_eq_nil_of_le]
    · rfl
    · rw [List.length_take]
      omega
  rw [hnone] at blank
  cases blank

/-! ### What is taken out -/

/-- What is taken out of a text around an attribute: the attribute with white space on at most one
side of it, which reaches to the neighbour on that side. -/
structure Removes (e : Element Node) (a : Attribute Node) (c : Cut) : Prop where
  start_eq : a.span.start = (c.front ++ c.before).utf8ByteSize
  stop_eq : a.span.stop = (c.front ++ c.before ++ c.own).utf8ByteSize
  blank_before : Text.isBlankText c.before = true
  blank_behind : Text.isBlankText c.behind = true
  oneSided : c.before = "" ∨ c.behind = ""
  neighbour_before : c.before ≠ "" →
    (∃ i m n, e.attributes[i + 1]? = some m ∧ m.span = a.span ∧ e.attributes[i]? = some n ∧
      n.stop = (c.front.utf8ByteSize : Int)) ∨
    ∃ m s, e.attributes = [m] ∧ m.span = a.span ∧ e.nameSpan = some s ∧
      s.stop = (c.front.utf8ByteSize : Int)
  neighbour_behind : c.behind ≠ "" → ∃ m n others, e.attributes = m :: n :: others ∧
    m.span = a.span ∧ n.start = ((c.front ++ c.before ++ c.own ++ c.behind).utf8ByteSize : Int)

/-- The name of an element and its attributes have places in the tree. -/
theorem exists_places (hs : source.Parsed text root) (he : .element e ∈ source.root.preorder) :
    (∀ n ∈ e.attributes, ∃ u ∈ root.subtrees, n.span = Model.spanOf (Document.ofText text) u) ∧
      ∀ s ∈ e.nameSpan, ∃ u ∈ root.subtrees, s = Model.spanOf (Document.ofText text) u := by
  obtain ⟨tag, -, htag, hname, hattributes, -⟩ := hs.exists_tag he
  constructor
  · intro n hn
    obtain ⟨u, hu, hfrom⟩ := Outcome.exists_left_of_mem hattributes hn
    refine ⟨u, Model.mem_subtrees_of_mem_attributeTrees htag hu, ?_⟩
    cases hfrom <;> rfl
  · intro s hspan
    rw [Model.tagName] at hname
    cases hfield : tag.bind (·.field? "name") with
    | none =>
      rw [hfield] at hname
      rw [← (Prod.mk.inj (Except.ok.inj hname)).2] at hspan
      cases hspan
    | some u =>
      rw [hfield] at hname
      obtain ⟨name, -, hname⟩ := Outcome.exists_of_bind_eq_ok hname
      rw [← (Prod.mk.inj (Except.ok.inj hname)).2] at hspan
      cases hspan
      obtain ⟨c, hc, hu⟩ := Option.bind_eq_some_iff.1 hfield
      exact ⟨u, Tree.mem_subtrees_trans
        (Tree.mem_subtrees_of_mem_children (Tree.mem_children_of_field? hu)) (htag c hc), rfl⟩

/-- An attribute that is reported is found among the attributes of its element, by its place. -/
theorem exists_index (hs : source.Parsed text root) {known : Options} {l : Literal}
    (h : IsReport source options v e a known l) :
    ∃ m, e.attributes[(e.attributes.findIdx? (isSame a)).getD 0]? = some m ∧ m.span = a.span := by
  obtain ⟨default, -, hsame⟩ := h.exists_default
  obtain ⟨tag, -, -, -, hattributes, -⟩ := hs.exists_tag h.element_mem
  obtain ⟨u, -, hfrom⟩ := Outcome.exists_left_of_mem hattributes h.attr_mem
  have hself : isSame a (.attr a) = true := isSame_self h.literal_eq
    (Value.equal_self_of_same (Model.isScalar_of_attributeFrom hfrom h.literal_eq) hsame)
  cases hfound : e.attributes.findIdx? (isSame a) with
  | none =>
    have := List.findIdx?_eq_none_iff.1 hfound _ h.attr_mem
    rw [hself] at this
    cases this
  | some i =>
    obtain ⟨hi, hisame, -⟩ := List.findIdx?_eq_some_iff_getElem.1 hfound
    exact ⟨_, List.getElem?_eq_getElem hi, span_of_isSame hisame⟩

theorem isBlankText_of_isBlankRun {s : String} (h : Text.isBlankRun s = true) :
    Text.isBlankText s = true := by
  rw [Text.isBlankRun, Bool.and_eq_true] at h
  exact h.2

section Margins

variable {u : Tree} {gap : String}

/-- A cut in front of white space before a node. -/
theorem exists_cut_before (hu : u.IsLaidOut text) {first : Nat}
    (hfirst : (String.Pos.Raw.mk first).IsValid text)
    (hgap : (Document.ofText text).slice first u.start = .ok gap)
    (blank : Text.isBlankRun gap = true) :
    ∃ c : Cut, c.IsAt text first u.start u.stop u.stop ∧ Text.isBlankText c.before = true ∧
      c.behind = "" := by
  obtain ⟨c, hcut⟩ := Edit.exists_cut hfirst hu.start_isValid hu.stop_isValid hu.stop_isValid
    (Nat.le_of_lt (lt_of_isBlankRun hgap blank)) hu.start_le_stop (Nat.le_refl _)
  refine ⟨c, hcut, ?_, hcut.behind_eq_empty rfl⟩
  rw [← Edit.bytesOf_injective ((Document.slice_eq_ok_iff.1 hgap).symm.trans hcut.before_eq)]
  exact isBlankText_of_isBlankRun blank

/-- A cut behind white space behind a node. -/
theorem exists_cut_behind (hu : u.IsLaidOut text) {last : Nat}
    (hlast : (String.Pos.Raw.mk last).IsValid text)
    (hgap : (Document.ofText text).slice u.stop last = .ok gap)
    (blank : Text.isBlankRun gap = true) :
    ∃ c : Cut, c.IsAt text u.start u.start u.stop last ∧ c.before = "" ∧
      Text.isBlankText c.behind = true := by
  obtain ⟨c, hcut⟩ := Edit.exists_cut hu.start_isValid hu.start_isValid hu.stop_isValid hlast
    (Nat.le_refl _) hu.start_le_stop (Nat.le_of_lt (lt_of_isBlankRun hgap blank))
  refine ⟨c, hcut, hcut.before_eq_empty rfl, ?_⟩
  rw [← Edit.bytesOf_injective ((Document.slice_eq_ok_iff.1 hgap).symm.trans hcut.behind_eq)]
  exact isBlankText_of_isBlankRun blank

end Margins

/-- The range that goes is the middle of a cut, with white space on at most one side. -/
theorem exists_removes_of_widens (hs : source.Parsed text root) (hroot : root.WellFormed text)
    (he : .element e ∈ source.root.preorder) {u : Tree} (hu : u.IsLaidOut text)
    (ha : a.span = Model.spanOf (Document.ofText text) u) {index : Nat} {m : Node}
    (hm : e.attributes[index]? = some m) (hspan : m.span = a.span) {range : Int × Int}
    (h : Widens (Document.ofText text) e index u.start u.stop range) :
    ∃ (c : Cut) (first last : Nat), range = ((first : Int), (last : Int)) ∧
      c.IsAt text first u.start u.stop last ∧ Removes e a c := by
  obtain ⟨hplaced, hnamed⟩ := exists_places hs he
  have hends : ∀ {c : Cut} {first last : Nat}, c.IsAt text first u.start u.stop last →
      a.span.start = (c.front ++ c.before).utf8ByteSize ∧
        a.span.stop = (c.front ++ c.before ++ c.own).utf8ByteSize := by
    intro c first last hcut
    rw [ha, hcut.start_eq, hcut.stop_eq]
    exact ⟨rfl, rfl⟩
  cases h with
  | alone =>
    obtain ⟨c, hcut⟩ := Edit.exists_cut hu.start_isValid hu.start_isValid hu.stop_isValid
      hu.stop_isValid (Nat.le_refl _) hu.start_le_stop (Nat.le_refl _)
    have hbefore := hcut.before_eq_empty rfl
    have hbehind := hcut.behind_eq_empty rfl
    refine ⟨c, _, _, rfl, hcut, (hends hcut).1, (hends hcut).2, ?_, ?_, .inl hbefore,
      absurd hbefore, absurd hbehind⟩
    · rw [hbefore]
      rfl
    · rw [hbehind]
      rfl
  | @toAttribute i n gap hindex hn hgap blank =>
    obtain ⟨w, hw, hnspan⟩ := hplaced n (List.mem_of_getElem? hn)
    have hstop : n.stop = (w.stop : Int) := congrArg Span.stop hnspan
    rw [hstop] at hgap
    obtain ⟨c, hcut, hblank, hbehind⟩ :=
      exists_cut_before hu (hroot.of_mem hw).isLaidOut.stop_isValid hgap blank
    refine ⟨c, w.stop, _, by rw [hstop], hcut, (hends hcut).1, (hends hcut).2, hblank, ?_,
      .inr hbehind, fun _ => .inl ⟨i, m, n, hindex ▸ hm, hspan, hn, ?_⟩, absurd hbehind⟩
    · rw [hbehind]
      rfl
    · rw [hcut.first_eq, hstop]
  | @toName s gap hindex single hname hgap blank =>
    obtain ⟨w, hw, rfl⟩ := hnamed s hname
    obtain ⟨c, hcut, hblank, hbehind⟩ :=
      exists_cut_before hu (hroot.of_mem hw).isLaidOut.stop_isValid hgap blank
    have honly : e.attributes = [m] := by
      rw [hindex] at hm
      match hlist : e.attributes with
      | [] => simp [hlist] at hm
      | [x] => simpa [hlist] using hm
      | x :: y :: others => simp [hlist] at single
    refine ⟨c, w.stop, _, rfl, hcut, (hends hcut).1, (hends hcut).2, hblank, ?_,
      .inr hbehind, fun _ => .inr ⟨m, _, honly, hspan, hname, ?_⟩, absurd hbehind⟩
    · rw [hbehind]
      rfl
    · rw [hcut.first_eq]
      rfl
  | @toNext n gap hindex hn hgap blank =>
    obtain ⟨w, hw, hnspan⟩ := hplaced n (List.mem_of_getElem? hn)
    have hstart : n.start = (w.start : Int) := congrArg Span.start hnspan
    rw [hstart] at hgap
    obtain ⟨c, hcut, hbefore, hblank⟩ :=
      exists_cut_behind hu (hroot.of_mem hw).isLaidOut.start_isValid hgap blank
    have hfirst : ∃ others, e.attributes = m :: n :: others := by
      rw [hindex] at hm
      match hlist : e.attributes with
      | [] => simp [hlist] at hm
      | [x] => simp [hlist] at hn
      | x :: y :: others =>
        rw [hlist] at hm hn
        cases hm
        cases hn
        exact ⟨others, rfl⟩
    obtain ⟨others, hlist⟩ := hfirst
    refine ⟨c, _, w.start, by rw [hstart], hcut, (hends hcut).1, (hends hcut).2, ?_, hblank,
      .inl hbefore, absurd hbefore, fun _ => ⟨m, n, others, hlist, hspan, ?_⟩⟩
    · rw [hbefore]
      rfl
    · rw [hcut.last_eq, hstart]

/-- The edit of a violation takes out the attribute with white space on at most one side. -/
theorem exists_removes (hs : source.Parsed text root) (hroot : root.WellFormed text)
    {known : Options} {l : Literal} (h : IsReport source options v e a known l) :
    ∃ edit c first start stop last, v.edits = [edit] ∧ c.IsAt text first start stop last ∧
      edit.start = first ∧ edit.stop = last ∧ edit.text = "" ∧ Removes e a c := by
  obtain ⟨edit, hedit, hedits⟩ := h.exists_edit
  obtain ⟨range, hrange, hedit⟩ := Outcome.exists_of_bind_eq_ok hedit
  obtain ⟨m, hm, hspan⟩ := exists_index hs h
  obtain ⟨u, hu, ha⟩ := (exists_places hs h.element_mem).1 _ h.attr_mem
  have ha : a.span = Model.spanOf (Document.ofText text) u := ha
  have hwidens := widens_of_removedRange hrange
  rw [hs.document_eq, ha] at hwidens
  obtain ⟨c, first, last, rfl, hcut, hremoves⟩ :=
    exists_removes_of_widens hs hroot h.element_mem (hroot.of_mem hu).isLaidOut ha hm hspan hwidens
  obtain ⟨hfirst, hlast, htext⟩ := Edit.between_eq_ok_iff.1 hedit
  exact ⟨edit, c, first, u.start, u.stop, last, hedits, hcut, Int.ofNat_inj.1 hfirst,
    Int.ofNat_inj.1 hlast, htext, hremoves⟩

/-- Every violation of this rule takes out an attribute with white space on at most one side, up to
the neighbour there.  If the attribute does not go on with a name in front of it, the names in what
is left are as before, unless the white space in front goes, and there is a name in front of it and
another one right behind the attribute. -/
theorem names_kept_iff (hs : source.Parsed text root) (hroot : root.WellFormed text)
    (h : rule.visit source options = .ok vs) (hv : v ∈ vs) :
    ∃ e a edit c, v.node = .attr a ∧ .element e ∈ source.root.preorder ∧
      .attr a ∈ e.attributes ∧ v.edits = [edit] ∧ c.whole = text ∧ Removes e a c ∧
      edit.start = c.front.utf8ByteSize ∧
      edit.stop = (c.front ++ c.before ++ c.own ++ c.behind).utf8ByteSize ∧
      Edit.apply text [edit] = .ok (c.front ++ c.rest) ∧
      (Text.endsName (c.front ++ c.before) = false →
        (Text.names (c.front ++ c.rest) = Text.names c.front ++ Text.names c.rest ↔
          ¬ (c.before ≠ "" ∧ Text.endsName c.front = true ∧ Text.beginsName c.rest = true))) := by
  obtain ⟨e, a, known, l, hreport⟩ := exists_isReport hs h hv
  obtain ⟨edit, c, first, start, stop, last, hedits, hcut, hfirst, hlast, htext, hremoves⟩ :=
    exists_removes hs hroot hreport
  refine ⟨e, a, edit, c, hreport.node_eq, hreport.element_mem, hreport.attr_mem, hedits,
    hcut.whole_eq, hremoves, hfirst.trans hcut.first_eq.symm, hlast.trans hcut.last_eq.symm,
    hcut.apply_eq_ok hfirst hlast htext, fun hparted => ?_⟩
  rw [Text.names_append_iff, not_iff_not]
  constructor
  · rintro ⟨hends, hbegins⟩
    refine ⟨fun hbefore => ?_, hends, hbegins⟩
    rw [hbefore, String.append_empty, hends] at hparted
    cases hparted
  · rintro ⟨-, hends, hbegins⟩
    exact ⟨hends, hbegins⟩

/-! ### An attribute between two others -/

/-- An element with an attribute between two others, and something between it and the last one. -/
def besideText (gap : String) : String := "<A x variant=\"default\"" ++ gap ++ "y/>"

/-- The tree of that text, by the size of what is in between. -/
def besideTree (n : Nat) : Tree :=
  .node "program" true "" 0 (n + 25)
    [.node "expression_statement" true "" 0 (n + 25)
      [.node "jsx_self_closing_element" true "" 0 (n + 25)
        [.node "identifier" true "name" 1 2 [],
          .node "jsx_attribute" true "" 3 4 [.node "property_identifier" true "" 3 4 []],
          .node "jsx_attribute" true "" 5 22
            [.node "property_identifier" true "" 5 12 [], .node "string" true "" 13 22 []],
          .node "jsx_attribute" true "" (n + 22) (n + 23)
            [.node "property_identifier" true "" (n + 22) (n + 23) []]]]]

/-- Where a reported attribute begins, and the edits that take it out. -/
def removalOf (v : Violation) : Int × List Edit := (v.node.start, v.edits)

/-- With white space on both sides of an attribute, the other two keep apart. -/
theorem names_kept_between_blanks :
    ∃ source v edit, SourceFile.ofTree default .tsx (besideText " ") ⟨besideTree 1, false⟩ =
        .ok source ∧ rule.visitPlain source = .ok [v] ∧ v.edits = [edit] ∧
      Edit.apply (besideText " ") [edit] = .ok ("<A x" ++ " y/>") ∧
      Text.names ("<A x" ++ " y/>") = Text.names "<A x" ++ Text.names " y/>" := by
  have hreported : rule.reported .tsx (besideText " ") (besideTree 1)
      (fun _ => removalOf) = some [(5, [⟨4, 22, "", by omega⟩])] := by
    decide +kernel
  have hwell : (besideTree 1).WellFormed (besideText " ") := by
    decide
  obtain ⟨source, v, hsource, hvisit, hremoval⟩ := Rule.exists_of_reported hreported
  obtain ⟨hnode, hone⟩ : v.node.start = 5 ∧ v.edits = _ := Prod.mk.inj hremoval
  obtain ⟨e, a, edit, c, hv, -, -, hedits, hwhole, hremoves, hfirst, hlast, happly, hkept⟩ :=
    names_kept_iff (SourceFile.parsed_of_ofTree hsource) hwell hvisit List.mem_cons_self
  cases List.singleton_inj.1 (hedits.symm.trans hone)
  -- the pieces are told by where they end
  have hpieces : (c.front ++ c.before ++ c.own ++ c.behind) ++ c.rest =
      "<A x variant=\"default\"" ++ " y/>" := hwhole
  obtain ⟨hfront, hrest⟩ := Edit.append_inj_of_size hpieces (by rw [← hlast]; decide)
  have hstart : ((c.front ++ c.before).utf8ByteSize : Int) = 5 := by
    rw [← hremoves.start_eq, ← hnode, hv]
    rfl
  have hinner : c.front ++ c.before ++ (c.own ++ c.behind) = "<A x " ++ "variant=\"default\"" := by
    rw [← String.append_assoc, hfront]
    decide
  obtain ⟨hbefore, -⟩ := Edit.append_inj_of_size hinner (by rw [Int.ofNat_inj.1 hstart]; decide)
  have houter : c.front ++ c.before = "<A x" ++ " " := hbefore
  obtain ⟨hfront, -⟩ := Edit.append_inj_of_size houter (by rw [← hfirst]; decide)
  rw [hfront, hrest] at happly hkept
  refine ⟨source, v, _, hsource, hvisit, hedits, happly, (hkept ?_).2 ?_⟩
  · rw [← hfront, hbefore]
    decide +kernel
  · rintro ⟨-, -, hbegins⟩
    exact absurd hbegins (by decide +kernel)

/-- Behind a value in quotes the next attribute may follow at once.  The white space in front goes,
and the names of the other two attributes become one. -/
theorem names_run_together :
    ∃ source v edit, (besideTree 0).WellFormed (besideText "") ∧
      SourceFile.ofTree default .tsx (besideText "") ⟨besideTree 0, false⟩ = .ok source ∧
      rule.visitPlain source = .ok [v] ∧ v.edits = [edit] ∧
      besideText "" = "<A x" ++ " variant=\"default\"" ++ "y/>" ∧
      edit.start = "<A x".utf8ByteSize ∧
      edit.stop = ("<A x" ++ " variant=\"default\"").utf8ByteSize ∧
      Edit.apply (besideText "") [edit] = .ok "<A xy/>" ∧
      Text.endsName "<A x" = true ∧ Text.beginsName "y/>" = true := by
  have hreported : rule.reported .tsx (besideText "") (besideTree 0)
      (fun _ => removalOf) = some [(5, [⟨4, 22, "", by omega⟩])] := by
    decide +kernel
  obtain ⟨source, v, hsource, hvisit, hremoval⟩ := Rule.exists_of_reported hreported
  obtain ⟨-, hedits⟩ : v.node.start = 5 ∧ v.edits = _ := Prod.mk.inj hremoval
  have happly : Edit.apply (besideText "") [⟨4, 22, "", by omega⟩] = .ok "<A xy/>" :=
    Outcome.eq_ok_of_toOption_eq_some (by decide +kernel)
  refine ⟨source, v, _, ?_, hsource, hvisit, hedits, ?_, rfl, ?_, happly, ?_, ?_⟩
  all_goals decide +kernel

end DefaultProps

end TsxLint
