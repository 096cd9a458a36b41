/-
Module: TsxLint.Proofs.Source.Tokens
Purpose: Tokens come one behind the other, so bisection finds the first and the last one in a node.
Main exports: SourceFile.HasTokensInOrder, SourceFile.HasTokensInOrder.firstToken?_eq_some_iff,
  SourceFile.HasTokensInOrder.lastToken?_eq_some_iff_begins, SourceFile.Parsed.hasTokensInOrder,
  SourceFile.Parsed.lastToken?_eq_some_iff
-/
import TsxLint.Proofs.Source.Files
import TsxLint.Proofs.Source.Leaves
import TsxLint.Proofs.Source.Positions

namespace TsxLint

/-!
The first and the last token in a span are looked up by bisection, which is right as long as tokens
are not empty and come one behind the other.  The first one is then found in any span.  For the last
one the span must not end inside a token, since only the beginnings of tokens are compared; nodes of
the tree never do, because a leaf is inside a node or beside it.
-/

/-! ### Tokens in a span -/

/-- One span lies inside another. -/
def Span.Within (a b : Span) : Prop := b.start ≤ a.start ∧ a.stop ≤ b.stop

theorem Span.Within.trans {a b c : Span} (hab : a.Within b) (hbc : b.Within c) : a.Within c :=
  ⟨Int.le_trans hbc.1 hab.1, Int.le_trans hab.2 hbc.2⟩

namespace SourceFile

variable {source : SourceFile} {s : Span} {x y : Token}

/-- No token is empty, and they come one behind the other. -/
structure HasTokensInOrder (source : SourceFile) : Prop where
  extent : ∀ x ∈ source.tokens, x.span.start < x.span.stop
  ordered : source.tokens.toList.Pairwise fun x y => x.span.stop ≤ y.span.start

/-- A token inside a span that begins before all others inside it. -/
structure IsFirstIn (source : SourceFile) (s : Span) (x : Token) : Prop where
  mem : x ∈ source.tokens
  within : x.span.Within s
  first : ∀ y ∈ source.tokens, y.span.Within s → x.span.start ≤ y.span.start

/-- A token inside a span that ends behind all others inside it. -/
structure IsLastIn (source : SourceFile) (s : Span) (x : Token) : Prop where
  mem : x ∈ source.tokens
  within : x.span.Within s
  last : ∀ y ∈ source.tokens, y.span.Within s → y.span.stop ≤ x.span.stop

namespace HasTokensInOrder

theorem stop_le_start (h : source.HasTokensInOrder) {i j : Nat} (hij : i < j)
    (hi : source.tokens[i]? = some x) (hj : source.tokens[j]? = some y) :
    x.span.stop ≤ y.span.start := by
  rw [← Array.getElem?_toList] at hi hj
  obtain ⟨hi', rfl⟩ := List.getElem?_eq_some_iff.1 hi
  obtain ⟨hj', rfl⟩ := List.getElem?_eq_some_iff.1 hj
  exact List.pairwise_iff_getElem.1 h.ordered i j hi' hj' hij

/-- A token does not begin before one in front of it, nor end before it. -/
theorem le_of_le (h : source.HasTokensInOrder) {i j : Nat} (hij : i ≤ j)
    (hi : source.tokens[i]? = some x) (hj : source.tokens[j]? = some y) :
    x.span.start ≤ y.span.start ∧ x.span.stop ≤ y.span.stop := by
  rcases Nat.lt_or_eq_of_le hij with hlt | rfl
  · have hbehind := h.stop_le_start hlt hi hj
    have hx := h.extent x (Array.mem_of_getElem? hi)
    have hy := h.extent y (Array.mem_of_getElem? hj)
    omega
  · cases hi.symm.trans hj
    exact ⟨Int.le_refl _, Int.le_refl _⟩

/-- Of two tokens one ends before the other begins, or they are the same. -/
theorem eq_or_beside (h : source.HasTokensInOrder) (hx : x ∈ source.tokens)
    (hy : y ∈ source.tokens) : x = y ∨ x.span.Beside y.span := by
  obtain ⟨i, hi⟩ := Array.mem_iff_getElem?.1 hx
  obtain ⟨j, hj⟩ := Array.mem_iff_getElem?.1 hy
  rcases Nat.lt_trichotomy i j with hij | rfl | hij
  · exact .inr (.inl (h.stop_le_start hij hi hj))
  · exact .inl (Option.some.inj (hi.symm.trans hj))
  · exact .inr (.inr (h.stop_le_start hij hj hi))

/-- The index that is looked up for a place parts the tokens that begin before it from the
others. -/
theorem lt_tokenIndex_iff (h : source.HasTokensInOrder) {i : Nat} (hi : source.tokens[i]? = some x)
    (offset : Int) : i < source.tokenIndex offset ↔ x.span.start < offset := by
  obtain ⟨hsize, -⟩ := Array.getElem?_eq_some_iff.1 hi
  rw [tokenIndex, lt_bisect_iff ?_ (Nat.zero_le i) hsize, hi, decide_eq_true_eq]
  intro j k hjk _ hk
  cases hz : source.tokens[k]? with
  | none => simp [hz] at hk
  | some z =>
    obtain ⟨hksize, -⟩ := Array.getElem?_eq_some_iff.1 hz
    have hy : source.tokens[j]? = some source.tokens[j] := Array.getElem?_eq_getElem (by omega)
    have hyz := h.le_of_le hjk hy hz
    rw [hz, decide_eq_true_eq] at hk
    rw [hy, decide_eq_true_eq]
    omega

/-- The first token in a span is the one that is looked up. -/
theorem firstToken?_eq_some_iff (h : source.HasTokensInOrder) :
    source.firstToken? s = some x ↔ source.IsFirstIn s x := by
  rw [firstToken?, Option.filter_eq_some_iff, decide_eq_true_eq]
  constructor
  · rintro ⟨hindex, hstop⟩
    have hstart := h.lt_tokenIndex_iff hindex s.start
    refine ⟨Array.mem_of_getElem? hindex, ⟨by omega, hstop⟩, ?_⟩
    rintro y hy ⟨hystart, -⟩
    obtain ⟨j, hj⟩ := Array.mem_iff_getElem?.1 hy
    have hle := h.lt_tokenIndex_iff hj s.start
    exact (h.le_of_le (by omega) hindex hj).1
  · rintro ⟨hx, ⟨hstart, hstop⟩, hfirst⟩
    refine ⟨?_, hstop⟩
    obtain ⟨i, hi⟩ := Array.mem_iff_getElem?.1 hx
    have hle := h.lt_tokenIndex_iff hi s.start
    rcases Nat.lt_or_eq_of_le (show source.tokenIndex s.start ≤ i by omega) with hlt | heq
    · -- the token at the index would be inside the span as well, and begin before this one
      obtain ⟨hsize, -⟩ := Array.getElem?_eq_some_iff.1 hi
      obtain ⟨y, hy⟩ : ∃ y, source.tokens[source.tokenIndex s.start]? = some y :=
        ⟨_, Array.getElem?_eq_getElem (by omega)⟩
      have hystart := h.lt_tokenIndex_iff hy s.start
      have hbehind := h.stop_le_start hlt hy hi
      have hextent := h.extent y (Array.mem_of_getElem? hy)
      have hxextent := h.extent x hx
      have := hfirst y (Array.mem_of_getElem? hy) ⟨by omega, by omega⟩
      omega
    · rw [heq, hi]

/-- The last token that begins in a span is the one that is looked up, wherever it ends. -/
theorem lastToken?_eq_some_iff_begins (h : source.HasTokensInOrder) :
    source.lastToken? s = some x ↔
      x ∈ source.tokens ∧ (s.start ≤ x.span.start ∧ x.span.start < s.stop) ∧
        ∀ y ∈ source.tokens, y.span.start < s.stop → y.span.stop ≤ x.span.stop := by
  constructor
  · intro hlast
    rw [lastToken?] at hlast
    cases hindex : source.tokenIndex s.stop with
    | zero => simp [hindex] at hlast
    | succ i =>
      simp only [hindex, Option.filter_eq_some_iff, decide_eq_true_eq] at hlast
      obtain ⟨hi, hstart⟩ := hlast
      have hstop := h.lt_tokenIndex_iff hi s.stop
      refine ⟨Array.mem_of_getElem? hi, ⟨hstart, by omega⟩, fun y hy hystart => ?_⟩
      obtain ⟨j, hj⟩ := Array.mem_iff_getElem?.1 hy
      have hle := h.lt_tokenIndex_iff hj s.stop
      exact (h.le_of_le (by omega) hj hi).2
  · rintro ⟨hx, ⟨hstart, hbegins⟩, hlast⟩
    obtain ⟨j, hj⟩ := Array.mem_iff_getElem?.1 hx
    have hlt := h.lt_tokenIndex_iff hj s.stop
    rw [lastToken?]
    cases hindex : source.tokenIndex s.stop with
    | zero => omega
    | succ i =>
      simp only [Option.filter_eq_some_iff, decide_eq_true_eq]
      refine ⟨?_, hstart⟩
      rcases Nat.lt_or_eq_of_le (show j ≤ i by omega) with hji | rfl
      · -- the token at the index would begin before the end of the span as well, and end behind
        -- this one
        have hsize : source.tokenIndex s.stop ≤ source.tokens.size := bisect_le _ (Nat.zero_le _)
        obtain ⟨y, hy⟩ : ∃ y, source.tokens[i]? = some y :=
          ⟨_, Array.getElem?_eq_getElem (by omega)⟩
        have hystart := h.lt_tokenIndex_iff hy s.stop
        have hymem := Array.mem_of_getElem? hy
        have hbehind := h.stop_le_start hji hj hy
        have hyextent := h.extent y hymem
        have := hlast y hymem (by omega)
        omega
      · exact hj

/-- The last token in a span is the one that is looked up, if none begins in the span and reaches
beyond it. -/
theorem lastToken?_eq_some_iff (h : source.HasTokensInOrder)
    (uncut : ∀ y ∈ source.tokens, s.start ≤ y.span.start → y.span.start < s.stop →
      y.span.stop ≤ s.stop) :
    source.lastToken? s = some x ↔ source.IsLastIn s x := by
  rw [h.lastToken?_eq_some_iff_begins]
  constructor
  · rintro ⟨hx, ⟨hstart, hbegins⟩, hlast⟩
    refine ⟨hx, ⟨hstart, uncut x hx hstart hbegins⟩, ?_⟩
    rintro y hy ⟨-, hystop⟩
    have hextent := h.extent y hy
    exact hlast y hy (by omega)
  · rintro ⟨hx, ⟨hstart, hstop⟩, hlast⟩
    have hextent := h.extent x hx
    refine ⟨hx, ⟨hstart, by omega⟩, fun y hy hbegins => ?_⟩
    have hyextent := h.extent y hy
    rcases h.eq_or_beside hx hy with rfl | hbefore | hbehind
    · exact Int.le_refl _
    · have hystart : s.start ≤ y.span.start := by omega
      exact hlast y hy ⟨hystart, uncut y hy hystart hbegins⟩
    · omega

end HasTokensInOrder

end SourceFile

/-! ### Leaves of a tree -/

namespace Model

variable {text : String} {root u v : Tree}

/-- A leaf is inside a node or beside it. -/
theorem beside_of_mem_leaves (ht : root.WellFormed text) (hu : u ∈ root.subtrees)
    (hv : v ∈ leaves [root]) : v ∈ u.subtrees ∨ v.Beside u := by
  obtain ⟨t, ht', hvt⟩ := mem_subtrees_of_mem_leaves hv
  cases List.mem_singleton.1 ht'
  obtain ⟨hchildless, -⟩ := isLeaf_of_mem_leaves hv
  rcases ht.nested_or_beside hu hvt with huv | hvu | hbeside
  · rw [Tree.subtrees_eq, hchildless] at huv
    rw [List.mem_singleton.1 huv]
    exact .inl (Tree.self_mem_subtrees v)
  · exact .inl hvu
  · exact .inr hbeside.symm

end Model

namespace SourceFile.Parsed

variable {text : String} {root : Tree} {source : SourceFile} {u : Tree} {x : Token}

theorem forall₂_tokens (hs : source.Parsed text root) :
    List.Forall₂ (fun u x => Model.token (Document.ofText text) u = .ok x) (Model.leaves [root])
      source.tokens.toList :=
  Outcome.mapM_eq_ok_iff.1 hs.tokens_eq

/-- A token of a file is the token of a leaf. -/
theorem exists_leaf (hs : source.Parsed text root) (hx : x ∈ source.tokens) :
    ∃ u ∈ Model.leaves [root], Model.token (Document.ofText text) u = .ok x :=
  Outcome.exists_left_of_mem hs.forall₂_tokens (Array.mem_toList_iff.2 hx)

theorem zero_le_start (hs : source.Parsed text root) (hx : x ∈ source.tokens) :
    0 ≤ x.span.start := by
  obtain ⟨u, -, hspan⟩ := hs.exists_of_mem_tokens hx
  rw [hspan]
  exact Int.natCast_nonneg _

theorem hasTokensInOrder (hs : source.Parsed text root) (ht : root.WellFormed text) :
    source.HasTokensInOrder where
  extent _ hx :=
    Model.extent_of_forall₂_token hs.forall₂_tokens (fun _ hu => (Model.isLeaf_of_mem_leaves hu).2)
      (Array.mem_toList_iff.2 hx)
  ordered :=
    Model.pairwise_of_forall₂_token hs.forall₂_tokens
      (Model.pairwise_leaves (List.forall_mem_singleton.2 ht.everywhere_isNested)
        (List.pairwise_singleton _ _))

/-- A node of the tree does not end inside a token. -/
theorem uncut_of_mem_subtrees (hs : source.Parsed text root) (ht : root.WellFormed text)
    (hu : u ∈ root.subtrees) (hx : x ∈ source.tokens) (hstart : x.span.start < u.stop) :
    x.span.stop ≤ u.stop := by
  obtain ⟨v, hv, hread⟩ := hs.exists_leaf hx
  rw [Model.span_of_token hread] at hstart ⊢
  have hv' := (Model.isLeaf_of_mem_leaves hv).2
  have hu' := (ht.of_mem hu).isLaidOut.start_le_stop
  simp only [Model.spanOf, Document.spanOf, Int.ofNat_lt, Int.ofNat_le] at hstart ⊢
  rcases Model.beside_of_mem_leaves ht hu hv with hinside | hbefore | hbehind
  · exact ((ht.of_mem hu).inside hinside).2
  · omega
  · omega

/-- The last token that is looked up for a node is the last one in it. -/
theorem lastToken?_eq_some_iff (hs : source.Parsed text root) (ht : root.WellFormed text)
    (hu : u ∈ root.subtrees) :
    source.lastToken? (Model.spanOf (Document.ofText text) u) = some x ↔
      source.IsLastIn (Model.spanOf (Document.ofText text) u) x :=
  (hs.hasTokensInOrder ht).lastToken?_eq_some_iff fun _ hy _ =>
    hs.uncut_of_mem_subtrees ht hu hy

/-- A token is what the text has between its ends. -/
theorem bytesOf_text (hs : source.Parsed text root) (hx : x ∈ source.tokens) :
    Edit.bytesOf x.text = ((Edit.bytesOf text).take x.span.stop.toNat).drop x.span.start.toNat := by
  obtain ⟨u, hu, hread⟩ := hs.exists_leaf hx
  obtain ⟨raw, hraw, h⟩ := Outcome.exists_of_bind_eq_ok hread
  cases h
  exact (Document.slice_eq_ok_iff.1 hraw).symm

end SourceFile.Parsed

end TsxLint
