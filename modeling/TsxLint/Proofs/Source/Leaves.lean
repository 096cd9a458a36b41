/-
Module: TsxLint.Proofs.Source.Leaves
Purpose: The tokens of a file are the lexemes of its tree, in the order of a walk down the tree.
Main exports: Tree.at?, Tree.IsLexemeAt, Tree.lexemes, Tree.mem_lexemes_iff,
  Tree.pairwise_fst_lexemes, Model.leaves_eq, Model.pairwise_leaves,
  Model.pairwise_of_forall₂_token, Model.tokens_are_lexemes
-/
import TsxLint.Proofs.Source.Spans
import TsxLint.Proofs.Source.Slices

namespace TsxLint

/-!
The leaves that become tokens are gathered from a list of pending trees, in which a tree gives way
to its children.  Read as a recursion over trees this is a walk that goes down into every node but
comments and notes the leaves that are not empty, the lexemes.

A node may stand in a tree more than once, so a lexeme is told by the way that leads down to it.
Ways that branch off further to the left are less than others (`List.cons_lt_cons_iff`), and so a
list of lexemes along which the ways grow holds them from left to right.
-/

namespace Tree

/-- The node that a way down leads to; each step is the position of a child. -/
def at? (t : Tree) : List Nat → Option Tree
  | [] => some t
  | i :: way => t.children[i]?.bind fun c => c.at? way

theorem at?_cons_eq_some_iff {t u : Tree} {i : Nat} {way : List Nat} :
    t.at? (i :: way) = some u ↔ ∃ c, t.children[i]? = some c ∧ c.at? way = some u :=
  Option.bind_eq_some_iff

theorem mem_subtrees_of_at?_eq {t u : Tree} {way : List Nat} (h : t.at? way = some u) :
    u ∈ t.subtrees := by
  induction way generalizing t with
  | nil =>
    cases h
    exact self_mem_subtrees _
  | cons i way ih =>
    obtain ⟨c, hc, hu⟩ := at?_cons_eq_some_iff.1 h
    exact mem_subtrees_iff.2 (.inr ⟨c, List.mem_of_getElem? hc, ih hu⟩)

/-- A leaf at the end of a way that is not empty, and is neither a comment nor below one. -/
structure IsLexemeAt (t : Tree) (way : List Nat) (u : Tree) : Prop where
  leads : t.at? way = some u
  childless : u.children = []
  extent : u.start < u.stop
  outside : ∀ front v, front <+: way → t.at? front = some v → v.isComment = false

mutual

/-- The lexemes of a tree with the ways to them, as a walk down the tree meets them. -/
def lexemes : Tree → List (List Nat × Tree)
  | .node type named field start stop children =>
    if type == "comment" then []
    else if children.isEmpty then
      if start < stop then [([], .node type named field start stop children)] else []
    else lexemesFrom 0 children

/-- The lexemes of children, of which the first one has a position. -/
def lexemesFrom (i : Nat) : List Tree → List (List Nat × Tree)
  | [] => []
  | t :: rest => (lexemes t).map (fun x => (i :: x.1, x.2)) ++ lexemesFrom (i + 1) rest

end

variable {t u : Tree} {ts : List Tree} {i : Nat} {way : List Nat}

theorem lexemes_eq (t : Tree) :
    t.lexemes =
      if t.isComment then []
      else if t.children.isEmpty then if t.start < t.stop then [([], t)] else []
      else lexemesFrom 0 t.children := by
  cases t with
  | node type named field start stop children =>
    rw [lexemes]
    rfl

theorem map_snd_lexemesFrom (i : Nat) (ts : List Tree) :
    (lexemesFrom i ts).map Prod.snd = ts.flatMap fun t => t.lexemes.map Prod.snd := by
  induction ts generalizing i with
  | nil => rfl
  | cons t rest ih =>
    rw [lexemesFrom, List.map_append, ih, List.flatMap_cons, List.map_map]
    rfl

theorem cons_mem_lexemesFrom_iff :
    (i :: way, u) ∈ lexemesFrom 0 ts ↔ ∃ c, ts[i]? = some c ∧ (way, u) ∈ c.lexemes := by
  suffices h : ∀ first, (i :: way, u) ∈ lexemesFrom first ts ↔
      ∃ j c, i = first + j ∧ ts[j]? = some c ∧ (way, u) ∈ c.lexemes by
    simpa using h 0
  intro first
  induction ts generalizing first with
  | nil => simp [lexemesFrom]
  | cons t rest ih =>
    rw [lexemesFrom, List.mem_append, ih, List.mem_map]
    constructor
    · rintro (⟨x, hx, heq⟩ | ⟨j, c, rfl, hj, hc⟩)
      · cases heq
        exact ⟨0, t, rfl, rfl, hx⟩
      · exact ⟨j + 1, c, by omega, hj, hc⟩
    · rintro ⟨j, c, rfl, hj, hc⟩
      cases j with
      | zero =>
        cases hj
        exact .inl ⟨(way, u), hc, rfl⟩
      | succ j => exact .inr ⟨j, c, by omega, hj, hc⟩

theorem exists_cons_of_mem_lexemesFrom {x : List Nat × Tree} (h : x ∈ lexemesFrom i ts) :
    ∃ j way, i ≤ j ∧ x.1 = j :: way := by
  induction ts generalizing i with
  | nil => cases h
  | cons t rest ih =>
    rw [lexemesFrom, List.mem_append, List.mem_map] at h
    rcases h with ⟨y, -, rfl⟩ | h
    · exact ⟨i, y.1, Nat.le_refl i, rfl⟩
    · obtain ⟨j, way, hj, hx⟩ := ih h
      exact ⟨j, way, by omega, hx⟩

/-! ### Which lexemes the walk meets -/

theorem isLexemeAt_nil_iff :
    t.IsLexemeAt [] u ↔ u = t ∧ t.isComment = false ∧ t.children = [] ∧ t.start < t.stop := by
  constructor
  · rintro ⟨hleads, hchildless, hextent, houtside⟩
    cases hleads
    exact ⟨rfl, houtside [] t (List.prefix_refl []) rfl, hchildless, hextent⟩
  · rintro ⟨rfl, hcomment, hchildless, hextent⟩
    refine ⟨rfl, hchildless, hextent, fun front v hfront hv => ?_⟩
    cases List.prefix_nil.1 hfront
    cases hv
    exact hcomment

theorem isLexemeAt_cons_iff :
    t.IsLexemeAt (i :: way) u ↔
      t.isComment = false ∧ ∃ c, t.children[i]? = some c ∧ c.IsLexemeAt way u := by
  constructor
  · rintro ⟨hleads, hchildless, hextent, houtside⟩
    obtain ⟨c, hc, hleads⟩ := at?_cons_eq_some_iff.1 hleads
    refine ⟨houtside [] t List.nil_prefix rfl, c, hc, hleads, hchildless, hextent, ?_⟩
    intro front v hfront hv
    exact houtside (i :: front) v (List.cons_prefix_cons.2 ⟨rfl, hfront⟩)
      (at?_cons_eq_some_iff.2 ⟨c, hc, hv⟩)
  · rintro ⟨hcomment, c, hc, hleads, hchildless, hextent, houtside⟩
    refine ⟨at?_cons_eq_some_iff.2 ⟨c, hc, hleads⟩, hchildless, hextent, ?_⟩
    intro front v hfront hv
    cases front with
    | nil =>
      cases hv
      exact hcomment
    | cons j front =>
      obtain ⟨rfl, hway⟩ := List.cons_prefix_cons.1 hfront
      obtain ⟨c', hc', hv⟩ := at?_cons_eq_some_iff.1 hv
      cases hc.symm.trans hc'
      exact houtside front v hway hv

/-- The walk down a tree meets the lexemes, and nothing else. -/
theorem mem_lexemes_iff : (way, u) ∈ t.lexemes ↔ t.IsLexemeAt way u := by
  induction t using induction_on_children generalizing way with
  | step t ih =>
    rw [lexemes_eq]
    cases way with
    | nil =>
      rw [isLexemeAt_nil_iff]
      split_ifs with hcomment hleaf hextent
      · simp [hcomment]
      · simp [List.isEmpty_iff.1 hleaf, hcomment, hextent]
      · simp [hextent]
      · refine iff_of_false (fun h => ?_) fun h => hleaf (List.isEmpty_iff.2 h.2.2.1)
        obtain ⟨j, way, -, hway⟩ := exists_cons_of_mem_lexemesFrom h
        cases hway
    | cons i way =>
      rw [isLexemeAt_cons_iff]
      split_ifs with hcomment hleaf hextent
      · simp [hcomment]
      · simp [List.isEmpty_iff.1 hleaf]
      · simp [List.isEmpty_iff.1 hleaf]
      · rw [cons_mem_lexemesFrom_iff, and_iff_right (eq_false_of_ne_true hcomment)]
        refine exists_congr fun c => and_congr_right fun hc => ?_
        exact ih c (List.mem_of_getElem? hc)

theorem pairwise_fst_lexemesFrom (i : Nat)
    (h : ∀ t ∈ ts, t.lexemes.Pairwise fun x y => x.1 < y.1) :
    (lexemesFrom i ts).Pairwise fun x y => x.1 < y.1 := by
  induction ts generalizing i with
  | nil => exact .nil
  | cons t rest ih =>
    rw [lexemesFrom, List.pairwise_append, List.pairwise_map]
    refine ⟨?_, ih (i + 1) fun c hc => h c (List.mem_cons_of_mem t hc), ?_⟩
    · exact (h t List.mem_cons_self).imp fun hxy => List.cons_lt_cons_iff.2 (.inr ⟨rfl, hxy⟩)
    · intro x hx y hy
      obtain ⟨x', -, rfl⟩ := List.mem_map.1 hx
      obtain ⟨j, way, hj, hy⟩ := exists_cons_of_mem_lexemesFrom hy
      rw [hy]
      exact List.cons_lt_cons_iff.2 (.inl (by omega))

/-- The walk down a tree meets the lexemes from left to right. -/
theorem pairwise_fst_lexemes (t : Tree) : t.lexemes.Pairwise fun x y => x.1 < y.1 := by
  induction t using induction_on_children with
  | step t ih =>
    rw [lexemes_eq]
    split_ifs with hcomment hleaf hextent
    · exact .nil
    · exact List.pairwise_singleton _ _
    · exact .nil
    · exact pairwise_fst_lexemesFrom 0 ih

end Tree

namespace Model

variable {d : Document} {pending : List Tree} {u : Tree} {x : Token}

/-- Working off pending trees meets what walking down them one by one does. -/
theorem leaves_eq (pending : List Tree) :
    leaves pending = pending.flatMap fun t => t.lexemes.map Prod.snd := by
  fun_induction leaves pending with
  | case1 => rfl
  | case2 t rest hcomment ih =>
    rw [ih, List.flatMap_cons, Tree.lexemes_eq t, if_pos hcomment]
    rfl
  | case3 t rest hcomment hleaf hextent ih =>
    rw [ih, List.flatMap_cons, Tree.lexemes_eq t, if_neg hcomment, if_pos hleaf, if_pos hextent]
    rfl
  | case4 t rest hcomment hleaf hextent ih =>
    rw [ih, List.flatMap_cons, Tree.lexemes_eq t, if_neg hcomment, if_pos hleaf, if_neg hextent]
    rfl
  | case5 t rest hcomment hleaf ih =>
    rw [ih, List.flatMap_cons, Tree.lexemes_eq t, if_neg hcomment, if_neg hleaf,
      Tree.map_snd_lexemesFrom, List.flatMap_append]

theorem leaves_singleton (t : Tree) : leaves [t] = t.lexemes.map Prod.snd := by
  rw [leaves_eq, List.flatMap_singleton]

/-- A leaf that becomes a token is not empty and has nothing below it. -/
theorem isLeaf_of_mem_leaves (h : u ∈ leaves pending) : u.children = [] ∧ u.start < u.stop := by
  rw [leaves_eq, List.mem_flatMap] at h
  obtain ⟨t, -, h⟩ := h
  obtain ⟨x, hx, rfl⟩ := List.mem_map.1 h
  have hlexeme := Tree.mem_lexemes_iff.1 hx
  exact ⟨hlexeme.childless, hlexeme.extent⟩

/-- The leaves of nested trees that come one behind the other do so too. -/
theorem pairwise_leaves (hpending : ∀ t ∈ pending, t.Everywhere Tree.IsNested)
    (hordered : pending.Pairwise fun a b => a.stop ≤ b.start) :
    (leaves pending).Pairwise fun a b => a.stop ≤ b.start := by
  fun_induction leaves pending with
  | case1 => exact .nil
  | case2 c rest hcomment ih =>
    exact ih (fun t ht => hpending t (List.mem_cons_of_mem c ht)) hordered.of_cons
  | case3 c rest hcomment hleaf hextent ih =>
    have hrest := fun t ht => hpending t (List.mem_cons_of_mem c ht)
    refine List.pairwise_cons.2 ⟨fun u hu => ?_, ih hrest hordered.of_cons⟩
    obtain ⟨b, hb, hub⟩ := mem_subtrees_of_mem_leaves hu
    have hinside := Tree.inside_of_isNested (hrest b hb) hub
    have hbehind := List.rel_of_pairwise_cons hordered hb
    omega
  | case4 c rest hcomment hleaf hextent ih =>
    exact ih (fun t ht => hpending t (List.mem_cons_of_mem c ht)) hordered.of_cons
  | case5 c rest hcomment hleaf ih =>
    have hc := hpending c List.mem_cons_self
    apply ih
    · intro t ht
      rcases List.mem_append.1 ht with ht | ht
      · exact hc.of_mem (Tree.mem_subtrees_of_mem_children ht)
      · exact hpending t (List.mem_cons_of_mem c ht)
    · refine List.pairwise_append.2 ⟨hc.self.ordered, hordered.of_cons, ?_⟩
      intro a ha b hb
      have hinside := hc.self.inside a ha
      have hbehind := List.rel_of_pairwise_cons hordered hb
      omega

/-! ### Tokens -/

theorem span_of_token (h : token d u = .ok x) : x.span = spanOf d u := by
  obtain ⟨raw, -, h⟩ := Outcome.exists_of_bind_eq_ok h
  cases h
  rfl

/-- A token can be made of a node whose text can be read. -/
theorem exists_token_eq_ok_iff : (∃ x, token d u = .ok x) ↔ ∃ s, textOf d u = .ok s := by
  constructor
  · rintro ⟨x, h⟩
    obtain ⟨raw, hraw, -⟩ := Outcome.exists_of_bind_eq_ok h
    exact ⟨raw, hraw⟩
  · rintro ⟨raw, hraw⟩
    exact ⟨⟨spanOf d u, raw, u.type⟩, by rw [token, hraw]; rfl⟩

variable {us : List Tree} {tokens : List Token}

/-- Tokens are not empty if they are made of leaves that are not. -/
theorem extent_of_forall₂_token (h : List.Forall₂ (fun u x => token d u = .ok x) us tokens)
    (hextent : ∀ u ∈ us, u.start < u.stop) (hx : x ∈ tokens) : x.span.start < x.span.stop := by
  obtain ⟨u, hu, hread⟩ := Outcome.exists_left_of_mem h hx
  rw [span_of_token hread]
  exact Int.ofNat_lt.2 (hextent u hu)

/-- Tokens come one behind the other if they are made of leaves that do. -/
theorem pairwise_of_forall₂_token (h : List.Forall₂ (fun u x => token d u = .ok x) us tokens)
    (hordered : us.Pairwise fun a b => a.stop ≤ b.start) :
    tokens.Pairwise fun x y => x.span.stop ≤ y.span.start := by
  refine pairwise_of_forall₂ h hordered ?_
  intro u _ v _ x y huv hx hy
  rw [span_of_token hx, span_of_token hy]
  exact Int.ofNat_le.2 huv

theorem tokens_eq_mapM_lexemes (d : Document) (root : Tree) :
    Model.tokens d root = root.lexemes.mapM fun x => token d x.2 := by
  rw [Model.tokens, leaves_singleton, List.mapM_map]
  rfl

theorem exists_tokens_eq_ok_iff {root : Tree} :
    (∃ tokens, Model.tokens d root = .ok tokens) ↔
      ∀ way u, root.IsLexemeAt way u → ∃ s, textOf d u = .ok s := by
  rw [tokens_eq_mapM_lexemes]
  constructor
  · rintro ⟨tokens, h⟩ way u hlexeme
    obtain ⟨x, -, hx⟩ := Outcome.exists_left_of_mem (Outcome.mapM_eq_ok_iff.1 h).flip
      (Tree.mem_lexemes_iff.2 hlexeme)
    exact exists_token_eq_ok_iff.1 ⟨x, hx⟩
  · intro h
    refine (Outcome.FailsOnly.mapM fun x hx => ?_).exists_ok
    obtain ⟨y, hy⟩ := exists_token_eq_ok_iff.2 (h x.1 x.2 (Tree.mem_lexemes_iff.1 hx))
    rw [hy]
    exact .ok y

/-- The tokens of a file are made of the leaves of its tree that are neither empty, nor comments,
nor below comments, each of them once and from left to right; and nothing but a leaf that ends
inside a character stands in the way.  If nodes lie inside their parents and beside their siblings,
tokens are not empty, begin one behind the other and do not overlap. -/
theorem tokens_are_lexemes (d : Document) (root : Tree) :
    (∀ way u, (way, u) ∈ root.lexemes ↔ root.IsLexemeAt way u) ∧
    (root.lexemes.Pairwise fun x y => x.1 < y.1) ∧
    (Model.tokens d root = root.lexemes.mapM fun x => token d x.2) ∧
    ((∃ tokens, Model.tokens d root = .ok tokens) ↔
      ∀ way u, root.IsLexemeAt way u → ∃ s, textOf d u = .ok s) ∧
    (root.Everywhere Tree.IsNested → ∀ tokens, Model.tokens d root = .ok tokens →
      (∀ x ∈ tokens, x.span.start < x.span.stop) ∧
        tokens.Pairwise fun x y => x.span.start < y.span.start ∧ x.span.stop ≤ y.span.start) := by
  refine ⟨fun way u => Tree.mem_lexemes_iff, Tree.pairwise_fst_lexemes root,
    tokens_eq_mapM_lexemes d root, exists_tokens_eq_ok_iff, fun hnested tokens h => ?_⟩
  have htokens := Outcome.mapM_eq_ok_iff.1 h
  have hextent : ∀ x ∈ tokens, x.span.start < x.span.stop := fun x hx =>
    extent_of_forall₂_token htokens (fun u hu => (isLeaf_of_mem_leaves hu).2) hx
  have hordered := pairwise_of_forall₂_token htokens
    (pairwise_leaves (List.forall_mem_singleton.2 hnested) (List.pairwise_singleton _ _))
  refine ⟨hextent, hordered.imp_of_mem fun hx _ hxy => ?_⟩
  have := hextent _ hx
  omega

/-- Two names with a comment behind them. -/
def commentedText : String := "a,é /*c*/"

/-- The tree of the names, in which the comment was parsed as well and a semicolon was added behind
it. -/
def commentedTree : Tree :=
  .node "program" true "" 0 10
    [.node "expression_statement" true "" 0 10
      [.node "sequence_expression" true "" 0 4
        [.node "identifier" true "left" 0 1 [], .node "," false "" 1 2 [],
          .node "identifier" true "right" 2 4 []],
      .node "comment" true "" 5 10 [.node "words" true "" 7 8 []],
      .node ";" false "" 10 10 []]]

theorem tokens_are_lexemes_of_commentedTree :
    commentedTree.Everywhere Tree.IsNested ∧
      ∃ tokens, Model.tokens (.ofText commentedText) commentedTree = .ok tokens ∧
        tokens.Pairwise fun x y => x.span.start < y.span.start ∧ x.span.stop ≤ y.span.start := by
  have hwell : commentedTree.WellFormed commentedText := by decide
  obtain ⟨-, -, -, hread, hordered⟩ := tokens_are_lexemes (.ofText commentedText) commentedTree
  obtain ⟨tokens, htokens⟩ := hread.2 fun way u hu => by
    have hlaid := hwell u (Tree.mem_subtrees_of_at?_eq hu.leads)
    exact Document.exists_slice_eq_ok hlaid.start_isValid hlaid.stop_isValid
  have hnested := hwell.everywhere_isNested
  exact ⟨hnested, tokens, htokens, (hordered hnested tokens htokens).2⟩

/-- A comment is left out with what is below it, and so is a leaf that is empty. -/
example : commentedTree.lexemes.map Prod.fst = [[0, 0, 0], [0, 0, 1], [0, 0, 2]] := by decide

end Model

end TsxLint
