/-
Module: TsxLint.Proofs.Imports.Canonical
Purpose: The names in braces of a merged declaration are a canonical list.
Main exports: Binding.key, Binding.Precedes, ImportGroup.namedBindings_congr,
  ImportGroup.IsRearranged, ImportGroup.named_canonical
-/
import Mathlib
import TsxLint.Proofs.Imports.Completeness

namespace TsxLint

/-!
Names in braces are ordered by a key, and the key of a binding tells it from every other binding
that may stand there.  So a list of them in which none is repeated is strictly increasing once it
is sorted, and a strictly increasing list is determined by its members.  What stands in braces is
therefore a function of the set of bindings, and neither the order of the declarations nor that of
the specifiers in them matters.
-/

namespace Binding

/-- What names in braces are ordered by: values before types, then the name at the module, then the
bound name. -/
def key (b : Binding) : Bool ×ₗ String ×ₗ String :=
  toLex (b.isTypeOnly, toLex (b.imported, b.bound))

/-- A binding has a smaller key than another. -/
def Precedes (a b : Binding) : Prop := a.key < b.key

instance : Std.Irrefl Precedes := ⟨fun a => lt_irrefl a.key⟩

instance : Std.Antisymm Precedes := ⟨fun _ _ h h' => absurd h' (lt_asymm h)⟩

/-- The order that bindings are sorted by is that of their keys. -/
theorem notAfter_iff (a b : Binding) : a.notAfter b = true ↔ a.key ≤ b.key := by
  have hbound : (!decide (b.bound < a.bound)) = true ↔ a.bound ≤ b.bound := by
    rw [Bool.not_eq_true', decide_eq_false_iff_not, not_lt]
  rw [notAfter, key, key, Prod.Lex.toLex_le_toLex, Prod.Lex.toLex_le_toLex]
  by_cases htype : a.isTypeOnly = b.isTypeOnly
  · rw [if_neg (by simp [htype])]
    by_cases himported : a.imported = b.imported
    · rw [if_neg (by simp [himported]), hbound]
      simp [htype, himported]
    · simp [htype, himported]
  · rw [if_pos (by simpa using htype)]
    cases ha : a.isTypeOnly <;> cases hb : b.isTypeOnly <;> simp_all

/-- In braces a binding is a value or for types only. -/
theorem bucket_eq {b : Binding} (h : b.bucket.hasOnePlace = false) :
    b.bucket = if b.isTypeOnly then .typeOnly else .named := by
  obtain ⟨bucket, imported, bound⟩ := b
  cases bucket with
  | default | star => cases h
  | named | typeOnly => rfl

/-- Two bindings in braces with one key are the same. -/
theorem eq_of_key_eq {a b : Binding} (ha : a.bucket.hasOnePlace = false)
    (hb : b.bucket.hasOnePlace = false) (h : a.key = b.key) : a = b := by
  simp only [key, toLex_inj, Prod.mk.injEq] at h
  obtain ⟨htype, himported, hbound⟩ := h
  have hbucket : a.bucket = b.bucket := by rw [bucket_eq ha, bucket_eq hb, htype]
  cases a
  cases b
  simp_all

end Binding

/-- Nothing is left twice when what came before is left out. -/
theorem nodup_eraseDups {α : Type} [BEq α] [LawfulBEq α] (xs : List α) : xs.eraseDups.Nodup := by
  match xs with
  | [] => exact .nil
  | x :: rest =>
    rw [List.eraseDups_cons, List.nodup_cons]
    constructor
    · intro hx
      have := List.mem_eraseDups.1 hx
      simp at this
    · exact nodup_eraseDups _
termination_by xs.length
decreasing_by exact Nat.lt_succ_of_le (List.length_filter_le _ _)

namespace ImportGroup

/-! ### Strictly increasing -/

theorem nodup_namedBindings (g : ImportGroup) : g.namedBindings.Nodup :=
  (List.mergeSort_perm _ _).nodup_iff.2 (nodup_eraseDups _)

/-- The names in braces come in the order of their keys, each once. -/
theorem pairwise_namedBindings (g : ImportGroup) : g.namedBindings.Pairwise Binding.Precedes := by
  have hsorted : g.namedBindings.Pairwise fun a b => a.notAfter b = true := by
    apply List.pairwise_mergeSort
    · intro a b c hab hbc
      rw [Binding.notAfter_iff] at hab hbc ⊢
      exact le_trans hab hbc
    · intro a b
      rw [Bool.or_eq_true, Binding.notAfter_iff, Binding.notAfter_iff]
      exact le_total a.key b.key
  refine (hsorted.and g.nodup_namedBindings).imp_of_mem ?_
  rintro a b ha hb ⟨hle, hne⟩
  refine lt_of_le_of_ne ((Binding.notAfter_iff a b).1 hle) ?_
  intro hkey
  have hplaces := fun c hc => ((mem_namedBindings_iff g c).1 hc).2
  exact hne (Binding.eq_of_key_eq (hplaces a ha) (hplaces b hb) hkey)

/-- What stands in braces depends on nothing but which bindings may. -/
theorem namedBindings_congr {g g' : ImportGroup}
    (h : ∀ b : Binding, b.bucket.hasOnePlace = false → (b ∈ g.bindings ↔ b ∈ g'.bindings)) :
    g.namedBindings = g'.namedBindings := by
  apply g.pairwise_namedBindings.eq_of_mem_iff g'.pairwise_namedBindings
  intro b
  rw [mem_namedBindings_iff, mem_namedBindings_iff]
  exact and_congr_left (h b)

/-! ### The members -/

/-- A specifier stands in braces: every one of a re-export does, and of an import one that is
neither a default nor a namespace. -/
def StandsInBraces (form : ImportForm) (s : Specifier) : Prop :=
  form = .reexports ∨ s.kind = .named

/-- What a specifier binds in braces: for types only if it or its declaration is. -/
def inBraces (d : Declaration) (s : Specifier) : Binding :=
  ⟨if d.typeOnly || s.typeOnly then .typeOnly else .named, s.imported, s.bound⟩

theorem mem_bindings_iff (g : ImportGroup) (b : Binding) :
    b ∈ g.bindings ↔ ∃ d ∈ g.declarations, ∃ s ∈ d.specifiers, b = bindingOf g.form d s := by
  simp only [bindings, List.mem_flatMap, List.mem_map, eq_comm]

theorem bindingOf_eq_inBraces {form : ImportForm} (d : Declaration) {s : Specifier}
    (h : StandsInBraces form s) : bindingOf form d s = inBraces d s := by
  rcases h with rfl | hkind
  · rfl
  · cases form with
    | reexports => rfl
    | imports => simp only [bindingOf, bucketOf, hkind, inBraces]

/-- The specifiers in braces are those whose bucket has room for several. -/
theorem hasOnePlace_eq_false_iff (form : ImportForm) (d : Declaration) (s : Specifier) :
    (bindingOf form d s).bucket.hasOnePlace = false ↔ StandsInBraces form s := by
  constructor
  · intro hplace
    cases form with
    | reexports => exact .inl rfl
    | imports =>
      cases hkind : s.kind with
      | default | star => simp [bindingOf, bucketOf, hkind, Bucket.hasOnePlace] at hplace
      | named => exact .inr hkind
  · intro hbraces
    rw [bindingOf_eq_inBraces d hbraces, inBraces]
    split <;> rfl

theorem mem_named_iff (g : ImportGroup) (b : Binding) :
    b ∈ g.merged.named ↔ ∃ d ∈ g.declarations, ∃ s ∈ d.specifiers,
      StandsInBraces g.form s ∧ b = inBraces d s := by
  refine (mem_namedBindings_iff g b).trans ?_
  rw [mem_bindings_iff]
  constructor
  · rintro ⟨⟨d, hd, s, hs, rfl⟩, hplace⟩
    have hbraces := (hasOnePlace_eq_false_iff g.form d s).1 hplace
    exact ⟨d, hd, s, hs, hbraces, bindingOf_eq_inBraces d hbraces⟩
  · rintro ⟨d, hd, s, hs, hbraces, rfl⟩
    rw [← bindingOf_eq_inBraces d hbraces]
    exact ⟨⟨d, hd, s, hs, rfl⟩, (hasOnePlace_eq_false_iff g.form d s).2 hbraces⟩

/-! ### Other orders -/

/-- A declaration has the specifiers of another, perhaps in another order. -/
structure SameSpecifiers (d d' : Declaration) : Prop where
  typeOnly : d.typeOnly = d'.typeOnly
  specifiers : d.specifiers.Perm d'.specifiers

/-- A group has the declarations of another in some order, and these their specifiers in some
order. -/
structure IsRearranged (g g' : ImportGroup) : Prop where
  form : g.form = g'.form
  declarations : ∃ ds, g.declarations.Perm ds ∧ List.Forall₂ SameSpecifiers ds g'.declarations

theorem SameSpecifiers.mem_map_iff {d d' : Declaration} (h : SameSpecifiers d d')
    (form : ImportForm) (b : Binding) :
    b ∈ d.specifiers.map (bindingOf form d) ↔ b ∈ d'.specifiers.map (bindingOf form d') := by
  have hbinding : bindingOf form d = bindingOf form d' := by
    funext s
    simp only [bindingOf, bucketOf, h.typeOnly]
  rw [hbinding]
  exact (h.specifiers.map _).mem_iff

theorem mem_flatMap_iff_of_same (form : ImportForm) {ds ds' : List Declaration}
    (h : List.Forall₂ SameSpecifiers ds ds') (b : Binding) :
    (b ∈ ds.flatMap fun d => d.specifiers.map (bindingOf form d)) ↔
      b ∈ ds'.flatMap fun d => d.specifiers.map (bindingOf form d) := by
  induction h with
  | nil => rfl
  | cons hd _ ih =>
    rw [List.flatMap_cons, List.flatMap_cons, List.mem_append, List.mem_append]
    exact or_congr (hd.mem_map_iff form b) ih

/-- Groups that differ in the order of things bind the same. -/
theorem IsRearranged.mem_bindings_iff {g g' : ImportGroup} (h : g.IsRearranged g') (b : Binding) :
    b ∈ g.bindings ↔ b ∈ g'.bindings := by
  obtain ⟨ds, hperm, hsame⟩ := h.declarations
  rw [bindings, bindings, ← h.form]
  exact (hperm.flatMap_right _).mem_iff.trans (mem_flatMap_iff_of_same g.form hsame b)

/-- The names in braces of a merge are in strictly increasing order, by types last, the name at the
module and the bound name.  They are what the specifiers in braces bind, those of all
declarations, and nothing else.  So they are the same in whatever order these come. -/
theorem named_canonical (g : ImportGroup) :
    g.merged.named.Pairwise Binding.Precedes ∧ g.merged.named.Nodup ∧
    (∀ b, b ∈ g.merged.named ↔ ∃ d ∈ g.declarations, ∃ s ∈ d.specifiers,
      StandsInBraces g.form s ∧ b = inBraces d s) ∧
    ∀ g', g.IsRearranged g' → g'.merged.named = g.merged.named := by
  refine ⟨g.pairwise_namedBindings, g.nodup_namedBindings, g.mem_named_iff, ?_⟩
  intro g' hrearranged
  apply namedBindings_congr
  intro b _
  exact (hrearranged.mem_bindings_iff b).symm

/-! ### Three declarations in two orders -/

/-- An import of names from one module. -/
def importOf (specifiers : List (String × Bool)) (typeOnly : Bool) : Declaration :=
  ⟨default, some ⟨default, .str "m", "\x22m\x22"⟩,
    specifiers.map fun (name, typed) => ⟨default, .named, name, name, typed⟩, typeOnly⟩

/-- A value and a type, a type by its declaration, and a value. -/
def scattered : ImportGroup :=
  ⟨.imports, "m", importOf [("b", false), ("Z", true)] false,
    [importOf [("A", false)] true, importOf [("a", false)] false]⟩

/-- The same from behind. -/
def scatteredBack : ImportGroup :=
  ⟨.imports, "m", importOf [("a", false)] false,
    [importOf [("A", false)] true, importOf [("Z", true), ("b", false)] false]⟩

/-- Both orders have the values first, and the types behind them. -/
theorem named_canonical_scattered :
    scattered.IsRearranged scatteredBack ∧
      scatteredBack.merged.named = scattered.merged.named ∧
      scattered.merged.named.map Binding.render = ["a", "b", "type A", "type Z"] := by
  have hrearranged : scattered.IsRearranged scatteredBack :=
    ⟨rfl, scattered.declarations.reverse, (List.reverse_perm _).symm,
      .cons ⟨rfl, .refl _⟩ (.cons ⟨rfl, .refl _⟩ (.cons ⟨rfl, .swap _ _ _⟩ .nil))⟩
  obtain ⟨-, -, -, hsame⟩ := named_canonical scattered
  exact ⟨hrearranged, hsame scatteredBack hrearranged, by cbv⟩

end ImportGroup

end TsxLint
