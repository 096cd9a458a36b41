/-
Module: TsxLint.Proofs.Source.TokenLookup
Purpose: Looking up the first and the last token of a span compared with a scan of all tokens.
Main exports: SourceFile.tokensIn, Span.Cuts, SourceFile.HasTokensInOrder.firstToken?_eq_head?,
  SourceFile.HasTokensInOrder.lastToken?_eq_getLast?_iff,
  SourceFile.HasTokensInOrder.lookup_compared_with_scan
-/
import TsxLint.Proofs.Source.Tokens

namespace TsxLint

/-!
A scan of all tokens keeps those that lie inside a span, and its first and last ones are what the
two bisections are to find.  The bisection for the first token finds a token that begins in the span
and then looks at where it ends, so it agrees with the scan for any span.  The bisection for the
last one only compares beginnings: if a token begins in the span and reaches beyond it, this token
is found, though no part of the scan.  For all other spans the two agree, also for those that lie in
the middle of a token or in a gap.
-/

/-- A span ends in the middle of another one that begins in it. -/
def Span.Cuts (a b : Span) : Prop := a.start ≤ b.start ∧ b.start < a.stop ∧ a.stop < b.stop

instance : DecidableRel Span.Within := fun a b =>
  inferInstanceAs (Decidable (b.start ≤ a.start ∧ a.stop ≤ b.stop))

namespace SourceFile

variable {source : SourceFile} {s : Span} {x : Token}

/-- The tokens inside a span, as a scan of all tokens finds them. -/
def tokensIn (source : SourceFile) (s : Span) : List Token :=
  source.tokens.toList.filter fun x => x.span.Within s

theorem mem_tokensIn_iff : x ∈ source.tokensIn s ↔ x ∈ source.tokens ∧ x.span.Within s := by
  rw [tokensIn, List.mem_filter, Array.mem_toList_iff, decide_eq_true_eq]

theorem tokensIn_eq_nil_iff :
    source.tokensIn s = [] ↔ ∀ x ∈ source.tokens, ¬ x.span.Within s := by
  simp [List.eq_nil_iff_forall_not_mem, mem_tokensIn_iff]

namespace HasTokensInOrder

theorem pairwise_tokensIn (h : source.HasTokensInOrder) (s : Span) :
    (source.tokensIn s).Pairwise fun x y => x.span.stop ≤ y.span.start :=
  h.ordered.sublist List.filter_sublist

theorem isFirstIn_of_head?_eq (h : source.HasTokensInOrder)
    (hx : (source.tokensIn s).head? = some x) : source.IsFirstIn s x := by
  obtain ⟨rest, hscan⟩ := List.head?_eq_some_iff.1 hx
  have hpairwise := h.pairwise_tokensIn s
  obtain ⟨hmem, hwithin⟩ := mem_tokensIn_iff.1 (List.mem_of_head? hx)
  refine ⟨hmem, hwithin, fun y hy hywithin => ?_⟩
  have hyscan := mem_tokensIn_iff.2 ⟨hy, hywithin⟩
  rw [hscan] at hpairwise hyscan
  rcases List.mem_cons.1 hyscan with rfl | hrest
  · exact Int.le_refl _
  · have hbehind := List.rel_of_pairwise_cons hpairwise hrest
    have hextent := h.extent x hmem
    omega

theorem isLastIn_of_getLast?_eq (h : source.HasTokensInOrder)
    (hx : (source.tokensIn s).getLast? = some x) : source.IsLastIn s x := by
  obtain ⟨front, hscan⟩ := List.getLast?_eq_some_iff.1 hx
  have hpairwise := h.pairwise_tokensIn s
  obtain ⟨hmem, hwithin⟩ := mem_tokensIn_iff.1 (List.mem_of_getLast? hx)
  refine ⟨hmem, hwithin, fun y hy hywithin => ?_⟩
  have hyscan := mem_tokensIn_iff.2 ⟨hy, hywithin⟩
  rw [hscan] at hpairwise hyscan
  rcases List.mem_append.1 hyscan with hfront | hlast
  · have hbehind := (List.pairwise_append.1 hpairwise).2.2 y hfront x List.mem_cons_self
    have hextent := h.extent x hmem
    omega
  · obtain rfl := List.mem_singleton.1 hlast
    exact Int.le_refl _

/-- The first token of the scan is the one that is looked up. -/
theorem firstToken?_eq_head? (h : source.HasTokensInOrder) (s : Span) :
    source.firstToken? s = (source.tokensIn s).head? := by
  cases hscan : (source.tokensIn s).head? with
  | some x => exact h.firstToken?_eq_some_iff.2 (h.isFirstIn_of_head?_eq hscan)
  | none =>
    refine Option.eq_none_iff_forall_ne_some.2 fun x hx => ?_
    have hfirst := h.firstToken?_eq_some_iff.1 hx
    exact tokensIn_eq_nil_iff.1 (List.head?_eq_none_iff.1 hscan) x hfirst.mem hfirst.within

/-- A token that begins in a span and reaches beyond it is looked up as the last one. -/
theorem lastToken?_of_cuts (h : source.HasTokensInOrder) (hx : x ∈ source.tokens)
    (hcuts : s.Cuts x.span) : source.lastToken? s = some x := by
  obtain ⟨hstart, hbegins, hbeyond⟩ := hcuts
  refine h.lastToken?_eq_some_iff_begins.2 ⟨hx, ⟨hstart, hbegins⟩, fun y hy hybegins => ?_⟩
  rcases h.eq_or_beside hx hy with rfl | hbefore | hbehind
  · exact Int.le_refl _
  · omega
  · have hextent := h.extent x hx
    omega

/-- The last token of the scan is the one that is looked up, exactly if no token begins in the span
and reaches beyond it. -/
theorem lastToken?_eq_getLast?_iff (h : source.HasTokensInOrder) :
    source.lastToken? s = (source.tokensIn s).getLast? ↔
      ∀ x ∈ source.tokens, ¬ s.Cuts x.span := by
  constructor
  · intro heq x hx hcuts
    rw [h.lastToken?_of_cuts hx hcuts] at heq
    have hwithin := (h.isLastIn_of_getLast?_eq heq.symm).within.2
    have hbeyond := hcuts.2.2
    omega
  · intro huncut
    have hiff {x : Token} : source.lastToken? s = some x ↔ source.IsLastIn s x :=
      h.lastToken?_eq_some_iff fun y hy hstart hbegins =>
        Int.not_lt.1 fun hbeyond => huncut y hy ⟨hstart, hbegins, hbeyond⟩
    cases hscan : (source.tokensIn s).getLast? with
    | some x => exact hiff.2 (h.isLastIn_of_getLast?_eq hscan)
    | none =>
      refine Option.eq_none_iff_forall_ne_some.2 fun x hx => ?_
      have hlast := hiff.1 hx
      exact tokensIn_eq_nil_iff.1 (List.getLast?_eq_none_iff.1 hscan) x hlast.mem hlast.within

/-- No last token is found exactly if none lies inside the span, and none begins in it and reaches
beyond it. -/
theorem lastToken?_eq_none_iff (h : source.HasTokensInOrder) :
    source.lastToken? s = none ↔
      ∀ x ∈ source.tokens, ¬ x.span.Within s ∧ ¬ s.Cuts x.span := by
  constructor
  · intro hnone
    have huncut : ∀ x ∈ source.tokens, ¬ s.Cuts x.span := by
      intro x hx hcuts
      rw [h.lastToken?_of_cuts hx hcuts] at hnone
      cases hnone
    rw [h.lastToken?_eq_getLast?_iff.2 huncut, List.getLast?_eq_none_iff] at hnone
    exact fun x hx => ⟨tokensIn_eq_nil_iff.1 hnone x hx, huncut x hx⟩
  · intro hout
    rw [h.lastToken?_eq_getLast?_iff.2 fun x hx => (hout x hx).2, List.getLast?_eq_none_iff]
    exact tokensIn_eq_nil_iff.2 fun x hx => (hout x hx).1

/-- For tokens that are not empty and come one behind the other, and any span, the lookup of the
first token finds the first one of those inside the span and nothing exactly if there is none.  The
lookup of the last one finds a token that begins in the span and reaches beyond it if there is one;
otherwise, and only then, it finds the last one of those inside the span or nothing. -/
theorem lookup_compared_with_scan (h : source.HasTokensInOrder) (s : Span) :
    source.firstToken? s = (source.tokensIn s).head? ∧
    (source.firstToken? s = none ↔ ∀ x ∈ source.tokens, ¬ x.span.Within s) ∧
    (source.lastToken? s = (source.tokensIn s).getLast? ↔
      ∀ x ∈ source.tokens, ¬ s.Cuts x.span) ∧
    (∀ x ∈ source.tokens, s.Cuts x.span → source.lastToken? s = some x) ∧
    (source.lastToken? s = none ↔
      ∀ x ∈ source.tokens, ¬ x.span.Within s ∧ ¬ s.Cuts x.span) := by
  refine ⟨h.firstToken?_eq_head? s, ?_, h.lastToken?_eq_getLast?_iff,
    fun x => h.lastToken?_of_cuts, h.lastToken?_eq_none_iff⟩
  rw [h.firstToken?_eq_head?, List.head?_eq_none_iff, tokensIn_eq_nil_iff]

end HasTokensInOrder

/-- The file of a template string that is not closed; the piece of text in it goes up to the end. -/
def unclosed : SourceFile where
  path := default
  document := .ofText "\x60ab"
  program := ⟨⟨1, 0, 1, 3, 0, 3⟩, []⟩
  tokens := #[⟨⟨1, 0, 1, 1, 0, 1⟩, "\x60", "\x60"⟩, ⟨⟨1, 1, 1, 3, 1, 3⟩, "ab", "string_fragment"⟩]
  language := .tsx
  hasErrors := true

theorem hasTokensInOrder_unclosed : unclosed.HasTokensInOrder where
  extent := by decide
  ordered := by decide

/-- The span of the whole template string ends in no token. -/
theorem lookup_compared_with_scan_whole :
    unclosed.HasTokensInOrder ∧ (∀ x ∈ unclosed.tokens, ¬ unclosed.program.span.Cuts x.span) ∧
      unclosed.lastToken? unclosed.program.span =
        some ⟨⟨1, 1, 1, 3, 1, 3⟩, "ab", "string_fragment"⟩ := by
  have huncut : ∀ x ∈ unclosed.tokens, ¬ unclosed.program.span.Cuts x.span := by
    simp [unclosed, Span.Cuts]
  obtain ⟨-, -, hlast, -⟩ :=
    hasTokensInOrder_unclosed.lookup_compared_with_scan unclosed.program.span
  exact ⟨hasTokensInOrder_unclosed, huncut, (hlast.2 huncut).trans (by decide)⟩

/-- The chunk of the template string stops where a closing mark would begin.  That is in the middle
of the token of the text, which is found as the last one inside the chunk. -/
theorem lookup_may_leave_span :
    ¬ ∀ source : SourceFile, source.HasTokensInOrder → ∀ s : Span, s.start ≤ s.stop →
      source.lastToken? s = (source.tokensIn s).getLast? ∧
        (source.lastToken? s = none ↔ ∀ x ∈ source.tokens, ¬ x.span.Within s) := by
  intro hall
  obtain ⟨heq, -⟩ :=
    hall unclosed hasTokensInOrder_unclosed ⟨1, 1, 1, 2, 1, 2⟩ (by decide)
  rw [hasTokensInOrder_unclosed.lastToken?_of_cuts (Array.mem_of_getElem? (i := 1) rfl)
    ⟨by decide, by decide, by decide⟩] at heq
  revert heq
  decide

end SourceFile

end TsxLint
