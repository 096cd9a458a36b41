/-
Module: TsxLint.Proofs.Rules.WrapperReports
Purpose: Which elements are reported as wrappers, and what is put in their place.
Main exports: Wrapper.IsWrapper, Wrapper.IsReport, Wrapper.exists_isReport, Wrapper.isReport_of_mem
-/
import TsxLint.Proofs.Edit.Overlap
import TsxLint.Proofs.Rule.Answers
import TsxLint.Rules.Wrapper

namespace TsxLint.Wrapper

/-!
An element is reported on account of itself alone: nothing above it and nothing below its only
child counts.  Only what takes its place depends on where it stands, since an expression can stand
by itself in markup and nowhere else.
-/

variable {source : SourceFile} {options : Options} {visit : Visit Unit} {e : Element Node}
  {child : Node} {found vs : List Violation} {v : Violation}

/-- An element of a covered name does nothing but hold one child. -/
structure IsWrapper (options : Options) (e : Element Node) (child : Node) : Prop where
  tagged : e.selfClosing = false
  covered : ∃ elements, options.need "elements" = .ok elements ∧ elements.holds e.name = .ok true
  purposeless : hasMeaningfulAttribute e = false
  unlaid : servesLayout e = false
  sole : e.significantChildren = [child]
  shape : child.kind = .element ∨ child.kind = .container

/-- A violation is about an element.  With an edit, it puts the source text of a child in the
place of the element. -/
structure IsReport (source : SourceFile) (e : Element Node) (child : Node) (v : Violation) :
    Prop where
  node_eq : v.node = .element e
  edits_eq : v.edits = [] ∨ ∃ edit, v.edits = [edit] ∧
    source.textOf child.span = .ok edit.text ∧ (edit.start : Int) = e.span.start ∧
      (edit.stop : Int) = e.span.stop

/-- A report is one violation. -/
theorem exists_of_report (h : report visit e child = .ok found) :
    ∃ v, found = [v] ∧ IsReport visit.source e child v := by
  rw [report] at h
  by_cases hreplaces : isReplacement visit.parent? child = true
  · rw [if_pos hreplaces] at h
    obtain ⟨replacement, htext, h⟩ := Outcome.exists_of_bind_eq_ok h
    obtain ⟨edit, hedit, h⟩ := Outcome.exists_of_bind_eq_ok h
    cases h
    obtain ⟨hstart, hstop, rfl⟩ := Edit.between_eq_ok_iff.1 hedit
    exact ⟨_, rfl, rfl, .inr ⟨edit, rfl, htext, hstart, hstop⟩⟩
  · rw [if_neg hreplaces] at h
    cases h
    exact ⟨_, rfl, rfl, .inl rfl⟩

/-- A wrapper is reported. -/
theorem IsWrapper.checkElement_eq (h : IsWrapper visit.options e child) :
    checkElement visit e = report visit e child := by
  obtain ⟨elements, helements, hcovered⟩ := h.covered
  rw [checkElement, if_neg (by simp [h.tagged]), helements]
  simp only [Outcome.ok_bind, hcovered, h.purposeless, h.unlaid, h.sole]
  rcases h.shape with hkind | hkind
  · cases child <;> first | rfl | cases hkind
  · cases child <;> first | rfl | cases hkind

/-- What is reported is a wrapper. -/
theorem exists_isWrapper (h : checkElement visit e = .ok found) (hv : v ∈ found) :
    ∃ child, IsWrapper visit.options e child ∧ report visit e child = .ok found := by
  rw [checkElement] at h
  by_cases hself : e.selfClosing = true
  · rw [if_pos hself] at h
    cases h
    cases hv
  · rw [if_neg hself] at h
    obtain ⟨elements, helements, h⟩ := Outcome.exists_of_bind_eq_ok h
    obtain ⟨covered, hcovered, h⟩ := Outcome.exists_of_bind_eq_ok h
    by_cases hexempt : (!covered || hasMeaningfulAttribute e || servesLayout e) = true
    · rw [if_pos hexempt] at h
      cases h
      cases hv
    · rw [if_neg hexempt] at h
      simp only [Bool.or_eq_true, Bool.not_eq_true', not_or, Bool.not_eq_false,
        Bool.not_eq_true] at hexempt
      obtain ⟨⟨rfl, hpurposeless⟩, hunlaid⟩ := hexempt
      have hwrapper : ∀ {child : Node}, e.significantChildren = [child] →
          child.kind = .element ∨ child.kind = .container → IsWrapper visit.options e child :=
        fun hsole hshape => ⟨Bool.eq_false_iff.2 hself, ⟨elements, helements, hcovered⟩,
          hpurposeless, hunlaid, hsole, hshape⟩
      split at h
      · next hsole => exact ⟨_, hwrapper hsole (.inl rfl), h⟩
      · next hsole => exact ⟨_, hwrapper hsole (.inr rfl), h⟩
      · cases h
        cases hv

/-! ### Whole files -/

/-- Every violation of this rule is the report on an element of the file that is a wrapper. -/
theorem exists_isReport (h : rule.visit source options = .ok vs) (hv : v ∈ vs) :
    ∃ e child, .element e ∈ source.nodes ∧ IsWrapper options e child ∧
      IsReport source e child v := by
  obtain ⟨way, n, found, hvisit, hreport, hv⟩ := Listener.exists_of_mem_run_atNodes h hv
  cases n with
  | element e =>
    obtain ⟨child, hwrapper, hreport⟩ := exists_isWrapper hreport hv
    obtain ⟨w, rfl, hw⟩ := exists_of_report hreport
    cases List.mem_singleton.1 hv
    exact ⟨e, child, Node.mem_preorder_of_mem_visits hvisit, hwrapper, hw⟩
  | _ =>
    cases hreport
    cases hv

/-- Every wrapper of the file is reported. -/
theorem isReport_of_mem (h : rule.visit source options = .ok vs) (he : .element e ∈ source.nodes)
    (hwrapper : IsWrapper options e child) : ∃ v ∈ vs, IsReport source e child v := by
  obtain ⟨way, found, hanswer, hsubset⟩ := Listener.exists_answer_of_mem h he
  cases hanswer with
  | heard kind answer =>
    have hreport : report ⟨source, options, (), way⟩ e child = .ok found :=
      (IsWrapper.checkElement_eq hwrapper).symm.trans answer
    obtain ⟨v, rfl, hv⟩ := exists_of_report hreport
    exact ⟨v, hsubset List.mem_cons_self, hv⟩
  | unheard kind => exact absurd (List.mem_singleton_self _) kind

/-! ### Small trees -/

/-- A file that is one expression. -/
def soleFile (t : Tree) : Tree :=
  .node "program" true "" t.start t.stop
    [.node "expression_statement" true "" t.start t.stop [t]]

/-- An element of one tag, with a name of one letter. -/
def tagTree (start : Nat) : Tree :=
  .node "jsx_self_closing_element" true "" start (start + 4)
    [.node "identifier" true "name" (start + 1) (start + 2) []]

/-- An element with a name of some length around contents. -/
def pairTree (length start stop : Nat) (contents : List Tree) : Tree :=
  .node "jsx_element" true "" start stop
    (.node "jsx_opening_element" true "open_tag" start (start + length + 2)
        [.node "identifier" true "name" (start + 1) (start + length + 1) []] ::
      (contents ++ [.node "jsx_closing_element" true "close_tag" (stop - length - 3) stop
        [.node "identifier" true "name" (stop - length - 1) (stop - 1) []]]))

end TsxLint.Wrapper
