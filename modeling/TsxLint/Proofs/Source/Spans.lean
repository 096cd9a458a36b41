/-
Module: TsxLint.Proofs.Source.Spans
Purpose: The spans of nodes and tokens lie at nodes of the tree; declarations lie beside each other.
Main exports: Node.declarations, Model.Stems.exists_of_mem_preorder,
  Model.Stems.pairwise_declarations, Model.exists_of_mem_tokens
-/
import TsxLint.Proofs.Source.Placement

namespace TsxLint

/-!
Whatever rules take the ends of ranges from, nodes or tokens, the ends are those of nodes of the
parse tree.  In a well-formed tree these are places between characters.

Two declarations never share a byte: a declaration has no declaration inside it, and what is
below different parts of a node is beside each other.
-/

/-- A declaration is not empty, and neither is the name of an attribute. -/
def Tree.HasExtent (t : Tree) : Prop :=
  (t.type = "import_statement" ∨ t.type = "export_statement" → t.start < t.stop) ∧
    (t.type = "jsx_attribute" → ∀ name ∈ t.kids.head?, name.start < name.stop)

instance : DecidablePred Tree.HasExtent := fun t =>
  inferInstanceAs (Decidable
    ((t.type = "import_statement" ∨ t.type = "export_statement" → t.start < t.stop) ∧
      (t.type = "jsx_attribute" → ∀ name ∈ t.kids.head?, name.start < name.stop)))

/-- One of two spans ends before the other begins. -/
def Span.Beside (a b : Span) : Prop := a.stop ≤ b.start ∨ b.stop ≤ a.start

theorem Span.Beside.symm {a b : Span} (h : a.Beside b) : b.Beside a := Or.symm h

/-- The declaration in a node. -/
def Node.declaration? : Node → Option Declaration
  | .importDeclaration d | .exportDeclaration d => some d
  | _ => none

/-- The declarations among a node and its descendants, in preorder. -/
def Node.declarations (n : Node) : List Declaration := n.preorder.filterMap Node.declaration?

theorem Node.declarations_eq (n : Node) :
    n.declarations = n.declaration?.toList ++ n.children.flatMap Node.declarations := by
  rw [declarations, preorder_eq]
  cases h : n.declaration? with
  | none =>
    rw [List.filterMap_cons_none h, List.filterMap_flatMap]
    rfl
  | some d =>
    rw [List.filterMap_cons_some h, List.filterMap_flatMap]
    rfl

theorem pairwise_of_forall₂ {α β : Type} {R : α → β → Prop} {S : α → α → Prop} {T : β → β → Prop}
    {xs : List α} {ys : List β} (h : List.Forall₂ R xs ys) (hS : xs.Pairwise S)
    (step : ∀ a ∈ xs, ∀ b ∈ xs, ∀ x y, S a b → R a x → R b y → T x y) : ys.Pairwise T := by
  induction h with
  | nil => exact .nil
  | @cons a x as ys hax hrest ih =>
    obtain ⟨ha, has⟩ := List.pairwise_cons.1 hS
    refine List.pairwise_cons.2 ⟨fun y hy => ?_, ih has fun b hb c hc =>
      step b (List.mem_cons_of_mem _ hb) c (List.mem_cons_of_mem _ hc)⟩
    obtain ⟨b, hb, hby⟩ := Outcome.exists_left_of_mem hrest hy
    exact step a List.mem_cons_self b (List.mem_cons_of_mem _ hb) x y (ha b hb) hax hby

namespace Model

variable {d : Document} {text : String} {t : Tree} {n m : Node}

/-! ### Nodes -/

theorem Stems.exists_of_mem_children (h : Stems d t n) (hm : m ∈ n.children) :
    IsBare m ∨ ∃ u ∈ t.subtrees, Stems d u m := by
  cases h with
  | intro us parts bare hspan hsuits hchildren hbare hparts hstems =>
    rcases List.mem_append.1 (hchildren.mem_iff.1 hm) with hm | hm
    · obtain ⟨u, hu, hum⟩ := Outcome.exists_left_of_mem hstems hm
      exact .inr ⟨u, hparts.below u hu, hum⟩
    · exact .inl (hbare m hm)

theorem IsBare.eq_of_mem_preorder (h : IsBare n) (hm : m ∈ n.preorder) : m = n := by
  rcases Node.mem_preorder_iff.1 hm with rfl | ⟨c, hc, -⟩
  · rfl
  · rw [h.1] at hc
    cases hc

/-- A descendant of a node is bare, or stems from somewhere below the node's tree. -/
theorem Stems.exists_of_mem_preorder (h : Stems d t n) (hm : m ∈ n.preorder) :
    IsBare m ∨ ∃ u ∈ t.subtrees, Stems d u m := by
  induction n using Node.induction_on_children generalizing t with
  | step n ih =>
    rcases Node.mem_preorder_iff.1 hm with rfl | ⟨c, hc, hm⟩
    · exact .inr ⟨t, Tree.self_mem_subtrees t, h⟩
    · rcases h.exists_of_mem_children hc with hbare | ⟨u, hu, hstems⟩
      · rw [hbare.eq_of_mem_preorder hm]
        exact .inl hbare
      · rcases ih c hc hstems hm with hbare | ⟨v, hv, hstems⟩
        · exact .inl hbare
        · exact .inr ⟨v, Tree.mem_subtrees_trans hv hu, hstems⟩

/-- A descendant of a kind that rules listen to stems from somewhere below the node's tree. -/
theorem Stems.exists_of_kind (h : Stems d t n) (hm : m ∈ n.preorder)
    (hkind : m.kind ∉ [NodeKind.chunk, .specifier, .literal, .other]) :
    ∃ u ∈ t.subtrees, Stems d u m := by
  rcases h.exists_of_mem_preorder hm with hbare | hstems
  · exact absurd hbare.2 hkind
  · exact hstems

/-! ### Declarations -/

theorem IsBare.declarations_eq (h : IsBare n) : n.declarations = [] := by
  obtain ⟨hchildren, hkind⟩ := h
  rw [Node.declarations_eq, hchildren]
  cases n <;> simp [Node.kind] at hkind <;> rfl

/-- There is no declaration inside a declaration. -/
theorem declarations_of_declaration? {x : Declaration} (h : n.declaration? = some x) :
    n.declarations = [x] := by
  have hchildren : n.children.flatMap Node.declarations = [] := by
    rw [List.flatMap_eq_nil_iff]
    intro c hc
    refine IsBare.declarations_eq (isBare_of_mem_children (n := x) ?_)
    cases n with
    | importDeclaration y | exportDeclaration y =>
      cases h
      exact hc
    | _ => cases h
  rw [Node.declarations_eq, h, hchildren]
  rfl

/-- A declaration below a node has the span of a statement below the node's tree. -/
theorem Stems.exists_of_mem_declarations (h : Stems d t n) {x : Declaration}
    (hx : x ∈ n.declarations) :
    ∃ u ∈ t.subtrees, (u.type = "import_statement" ∨ u.type = "export_statement") ∧
      x.span = spanOf d u := by
  obtain ⟨m, hm, hmx⟩ := List.mem_filterMap.1 hx
  have hkind : m.kind ∉ [NodeKind.chunk, .specifier, .literal, .other] := by
    cases m <;> simp [Node.declaration?] at hmx <;> simp [Node.kind]
  obtain ⟨u, hu, hstems⟩ := h.exists_of_kind hm hkind
  cases hstems with
  | intro us parts bare hspan hsuits =>
    cases m with
    | importDeclaration y =>
      cases hmx
      exact ⟨u, hu, .inl hsuits, hspan⟩
    | exportDeclaration y =>
      cases hmx
      exact ⟨u, hu, .inr hsuits, hspan⟩
    | _ => cases hmx

/-- The declarations of a model lie beside each other. -/
theorem Stems.pairwise_declarations (h : Stems d t n) (ht : t.WellFormed text) :
    n.declarations.Pairwise fun x y => x.span.Beside y.span := by
  induction n using Node.induction_on_children generalizing t with
  | step n ih =>
    cases hn : n.declaration? with
    | some x =>
      rw [declarations_of_declaration? hn]
      exact List.pairwise_singleton _ _
    | none =>
      rw [Node.declarations_eq, hn, Option.toList_none, List.nil_append, List.pairwise_flatMap]
      cases h with
      | intro us parts bare hspan hsuits hchildren hbare hparts hstems =>
        constructor
        · intro c hc
          rcases List.mem_append.1 (hchildren.mem_iff.1 hc) with hm | hm
          · obtain ⟨u, hu, hum⟩ := Outcome.exists_left_of_mem hstems hm
            exact ih c hc hum (ht.of_mem (hparts.below u hu))
          · rw [(hbare c hm).declarations_eq]
            exact .nil
        · -- bare children have no declarations, and the others stem from parts beside each other
          have hparts' : parts.Pairwise fun a b => ∀ x ∈ a.declarations, ∀ y ∈ b.declarations,
              x.span.Beside y.span := by
            refine pairwise_of_forall₂ hstems hparts.beside ?_
            intro u hu v hv a b hbeside ha hb x hx y hy
            obtain ⟨u', hu', -, hxspan⟩ := ha.exists_of_mem_declarations hx
            obtain ⟨v', hv', -, hyspan⟩ := hb.exists_of_mem_declarations hy
            have hbeside' := Tree.WellFormed.beside_of_mem (ht.of_mem (hparts.below u hu))
              (ht.of_mem (hparts.below v hv)) hbeside hu' hv'
            rw [hxspan, hyspan]
            exact hbeside'.imp Int.ofNat_le.2 Int.ofNat_le.2
          refine (hchildren.pairwise_iff fun {a b} hab y hy x hx => (hab x hx y hy).symm).2 ?_
          refine List.pairwise_append.2 ⟨hparts', ?_, ?_⟩
          · apply List.pairwise_of_forall_mem_list
            intro a ha b hb x hx
            rw [(hbare a ha).declarations_eq] at hx
            cases hx
          · intro a ha b hb x hx y hy
            rw [(hbare b hb).declarations_eq] at hy
            cases hy

/-! ### Tokens -/

theorem mem_subtrees_of_mem_leaves {pending : List Tree} {u : Tree} (h : u ∈ leaves pending) :
    ∃ c ∈ pending, u ∈ c.subtrees := by
  fun_induction leaves pending with
  | case1 => cases h
  | case2 c rest hcomment ih =>
    obtain ⟨v, hv, hu⟩ := ih h
    exact ⟨v, List.mem_cons_of_mem _ hv, hu⟩
  | case3 c rest hcomment hleaf hextent ih =>
    rcases List.mem_cons.1 h with rfl | h
    · exact ⟨u, List.mem_cons_self, Tree.self_mem_subtrees u⟩
    · obtain ⟨v, hv, hu⟩ := ih h
      exact ⟨v, List.mem_cons_of_mem _ hv, hu⟩
  | case4 c rest hcomment hleaf hextent ih =>
    obtain ⟨v, hv, hu⟩ := ih h
    exact ⟨v, List.mem_cons_of_mem _ hv, hu⟩
  | case5 c rest hcomment hleaf ih =>
    obtain ⟨v, hv, hu⟩ := ih h
    rcases List.mem_append.1 hv with hv | hv
    · exact ⟨c, List.mem_cons_self, Tree.mem_subtrees_iff.2 (.inr ⟨v, hv, hu⟩)⟩
    · exact ⟨v, List.mem_cons_of_mem _ hv, hu⟩

/-- A token has the span of a node of the tree. -/
theorem exists_of_mem_tokens {tokens : List Token} (h : Model.tokens d t = .ok tokens) {x : Token}
    (hx : x ∈ tokens) : ∃ u ∈ t.subtrees, x.span = spanOf d u := by
  obtain ⟨u, hu, hread⟩ := Outcome.exists_of_mem_mapM h hx
  obtain ⟨raw, -, hread⟩ := Outcome.exists_of_bind_eq_ok hread
  cases hread
  obtain ⟨c, hc, hu⟩ := mem_subtrees_of_mem_leaves hu
  cases List.mem_singleton.1 hc
  exact ⟨u, hu, rfl⟩

end Model

end TsxLint
