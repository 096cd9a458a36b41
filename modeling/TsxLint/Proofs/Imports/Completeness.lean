/-
Module: TsxLint.Proofs.Imports.Completeness
Purpose: Which bindings of a group survive a merge, and that the merged text binds them.
Main exports: ImportGroup.IsKept, MergedBindings.bindings, ImportGroup.Binds,
  ImportGroup.merged_bindings_complete
-/
import TsxLint.Imports.Merge
import TsxLint.Proofs.Edit.Splicing
import TsxLint.Proofs.Outcome

namespace TsxLint

/-!
A declaration has room for one default and one namespace, and for any number of names in
braces.  So a merge keeps every name in braces, and of the defaults and the namespaces of a
group the first one each.  What it keeps stands as an item of its own in the merged
declaration, which takes the place of the first declaration of the group.
-/

/-- Whether a declaration has room for one binding of a bucket only. -/
def Bucket.hasOnePlace : Bucket → Bool
  | .default | .star => true
  | .named | .typeOnly => false

/-- The bindings of a merged declaration, in the order in which it writes them. -/
def MergedBindings.bindings (m : MergedBindings) : List Binding :=
  m.default.toList ++ m.star.toList ++ m.named

/-- A text is one of those that commas separate in another. -/
def IsItem (item text : String) : Prop :=
  ∃ items : List String, text = ", ".intercalate items ∧ item ∈ items

namespace ImportGroup

/-- A binding comes before all others of its bucket. -/
def IsFirst (g : ImportGroup) (b : Binding) : Prop :=
  ∃ before behind, g.bindings = before ++ b :: behind ∧ ∀ c ∈ before, c.bucket ≠ b.bucket

/-- A binding of the group is not crowded out by an earlier one. -/
def IsKept (g : ImportGroup) (b : Binding) : Prop :=
  b ∈ g.bindings ∧ (b.bucket.hasOnePlace = true → g.IsFirst b)

/-- What is between the keyword and the module lists a binding, in braces if its bucket has
room for several. -/
def Lists (clause : String) (b : Binding) : Prop :=
  if b.bucket.hasOnePlace then IsItem b.render clause
  else ∃ names, IsItem ("\x7b" ++ names ++ "\x7d") clause ∧ IsItem b.render names

/-- The keyword of a declaration. -/
def keyword : ImportForm → String
  | .imports => "import "
  | .reexports => "export "

/-- A text declares a binding of the group's module. -/
def Binds (g : ImportGroup) (text : String) (b : Binding) : Prop :=
  ∃ clause, text = keyword g.form ++ clause ++ " from " ++ g.moduleText ++ ";" ∧ Lists clause b

/-! ### What is kept -/

theorem firstOf_eq_some_iff (g : ImportGroup) (b : Binding) :
    g.firstOf b.bucket = some b ↔ g.IsFirst b := by
  rw [firstOf, List.find?_eq_some_iff_append]
  constructor
  · rintro ⟨-, before, behind, happend, hbefore⟩
    refine ⟨before, behind, happend, ?_⟩
    intro c hc
    have := hbefore c hc
    simpa using this
  · rintro ⟨before, behind, happend, hbefore⟩
    refine ⟨by simp, before, behind, happend, ?_⟩
    intro c hc
    have := hbefore c hc
    simpa using this

theorem bucket_of_firstOf {g : ImportGroup} {bucket : Bucket} {b : Binding}
    (h : g.firstOf bucket = some b) : b.bucket = bucket := by
  rw [firstOf] at h
  have := List.find?_some h
  simpa using this

theorem mem_firstOf_iff (g : ImportGroup) (bucket : Bucket) (b : Binding) :
    b ∈ (g.firstOf bucket).toList ↔ b.bucket = bucket ∧ g.IsFirst b := by
  rw [Option.mem_toList]
  constructor
  · intro h
    have hbucket := bucket_of_firstOf h
    exact ⟨hbucket, (firstOf_eq_some_iff g b).1 (by rw [hbucket]; exact h)⟩
  · rintro ⟨hbucket, hfirst⟩
    rw [← hbucket]
    exact (firstOf_eq_some_iff g b).2 hfirst

theorem IsFirst.mem {g : ImportGroup} {b : Binding} (h : g.IsFirst b) : b ∈ g.bindings := by
  obtain ⟨before, behind, happend, -⟩ := h
  rw [happend]
  simp

/-- The first of a bucket is the only one. -/
theorem IsFirst.eq {g : ImportGroup} {a b : Binding} (ha : g.IsFirst a) (hb : g.IsFirst b)
    (hbucket : a.bucket = b.bucket) : a = b := by
  have hsome := (firstOf_eq_some_iff g a).2 ha
  rw [hbucket, (firstOf_eq_some_iff g b).2 hb] at hsome
  exact (Option.some.inj hsome).symm

/-- A bucket that binds something has a first binding. -/
theorem exists_isFirst {g : ImportGroup} {b : Binding} (hb : b ∈ g.bindings) :
    ∃ a, a.bucket = b.bucket ∧ g.IsFirst a := by
  have hsome : (g.firstOf b.bucket).isSome = true := by
    rw [firstOf, List.find?_isSome]
    exact ⟨b, hb, by simp⟩
  obtain ⟨a, ha⟩ := Option.isSome_iff_exists.1 hsome
  have hbucket := bucket_of_firstOf ha
  exact ⟨a, hbucket, (firstOf_eq_some_iff g a).1 (by rw [hbucket]; exact ha)⟩

theorem mem_namedBindings_iff (g : ImportGroup) (b : Binding) :
    b ∈ g.namedBindings ↔ b ∈ g.bindings ∧ b.bucket.hasOnePlace = false := by
  rw [namedBindings, List.mem_mergeSort, List.mem_eraseDups, List.mem_filter]
  cases b.bucket <;> simp [Bucket.hasOnePlace]

/-- A merge keeps exactly the bindings that no earlier one crowds out. -/
theorem mem_merged_bindings_iff (g : ImportGroup) (b : Binding) :
    b ∈ g.merged.bindings ↔ g.IsKept b := by
  simp only [merged, MergedBindings.bindings, List.mem_append, mem_firstOf_iff,
    mem_namedBindings_iff, IsKept]
  constructor
  · rintro ((⟨hbucket, hfirst⟩ | ⟨hbucket, hfirst⟩) | ⟨hmem, hbucket⟩)
    · exact ⟨hfirst.mem, fun _ => hfirst⟩
    · exact ⟨hfirst.mem, fun _ => hfirst⟩
    · exact ⟨hmem, fun h => by rw [hbucket] at h; cases h⟩
  · rintro ⟨hmem, hfirst⟩
    cases hbucket : b.bucket with
    | default =>
      exact .inl (.inl ⟨rfl, hfirst (by rw [hbucket]; rfl)⟩)
    | star =>
      exact .inl (.inr ⟨rfl, hfirst (by rw [hbucket]; rfl)⟩)
    | named =>
      exact .inr ⟨hmem, rfl⟩
    | typeOnly =>
      exact .inr ⟨hmem, rfl⟩

/-- Nothing is lost exactly if a bucket with one place has no two different bindings. -/
theorem forall_isKept_iff (g : ImportGroup) :
    (∀ b ∈ g.bindings, g.IsKept b) ↔
      ∀ a ∈ g.bindings, ∀ b ∈ g.bindings, a.bucket = b.bucket →
        a.bucket.hasOnePlace = true → a = b := by
  constructor
  · intro hkept a ha b hb hbucket hplace
    have hfirst : g.IsFirst a := (hkept a ha).2 hplace
    have hfirst' : g.IsFirst b := (hkept b hb).2 (by rw [← hbucket]; exact hplace)
    exact hfirst.eq hfirst' hbucket
  · intro hsame b hb
    refine ⟨hb, ?_⟩
    intro hplace
    obtain ⟨a, hbucket, hfirst⟩ := exists_isFirst hb
    have heq := hsame a hfirst.mem b hb hbucket (by rw [hbucket]; exact hplace)
    rw [← heq]
    exact hfirst

/-! ### What is written -/

theorem isItem_intercalate {item : String} {items : List String} (h : item ∈ items) :
    IsItem item (", ".intercalate items) :=
  ⟨items, rfl, h⟩

/-- The items between the keyword of an import and the module. -/
def importItems (m : MergedBindings) : List String :=
  (m.default.map Binding.render).toList ++ (m.star.map Binding.render).toList ++
    (if m.named.isEmpty then [] else [braced m.named])

theorem renderImport_eq {g : ImportGroup} {m : MergedBindings} {item : String}
    (h : item ∈ importItems m) :
    g.renderImport m =
      "import " ++ ", ".intercalate (importItems m) ++ " from " ++ g.moduleText ++ ";" := by
  have hne : ¬ (importItems m).isEmpty = true := by
    rw [List.isEmpty_iff]
    exact List.ne_nil_of_mem h
  exact if_neg hne

theorem lists_braced {b : Binding} {named : List Binding} (hb : b ∈ named)
    (hplace : b.bucket.hasOnePlace = false) {clause : String} (hitem : IsItem (braced named) clause) :
    Lists clause b := by
  rw [Lists, if_neg (by rw [hplace]; exact Bool.false_ne_true)]
  exact ⟨", ".intercalate (named.map Binding.render), hitem,
    isItem_intercalate (List.mem_map_of_mem hb)⟩

theorem lists_itself {b : Binding} (hplace : b.bucket.hasOnePlace = true) {items : List String}
    (hitem : b.render ∈ items) : Lists (", ".intercalate items) b := by
  rw [Lists, if_pos hplace]
  exact isItem_intercalate hitem

theorem bucket_of_mem_firstOf {g : ImportGroup} {bucket : Bucket} {b : Binding}
    (h : b ∈ (g.firstOf bucket).toList) : b.bucket = bucket :=
  ((mem_firstOf_iff g bucket b).1 h).1

/-- A merged import declares every binding that the merge keeps. -/
theorem binds_renderImport {g : ImportGroup} (hform : g.form = .imports) {b : Binding}
    (hb : b ∈ g.merged.bindings) : g.Binds (g.renderImport g.merged) b := by
  have hkeyword : keyword g.form = "import " := by rw [hform]; rfl
  rcases List.mem_append.1 hb with hb | hnamed
  · -- a default or a namespace is an item of its own
    have hmem : b.render ∈ importItems g.merged := by
      refine List.mem_append_left _ ?_
      have hparts : ∀ o : Option Binding,
          (o.map Binding.render).toList = o.toList.map Binding.render := by
        intro o
        cases o <;> rfl
      rw [hparts, hparts, ← List.map_append]
      exact List.mem_map_of_mem hb
    have hplace : b.bucket.hasOnePlace = true := by
      rcases List.mem_append.1 hb with hdefault | hstar
      · rw [bucket_of_mem_firstOf hdefault]
        rfl
      · rw [bucket_of_mem_firstOf hstar]
        rfl
    exact ⟨_, by rw [hkeyword]; exact renderImport_eq hmem, lists_itself hplace hmem⟩
  · -- the others stand in braces, and the braces are an item
    have hbraces : braced g.merged.named ∈ importItems g.merged := by
      have hne : ¬ g.merged.named.isEmpty = true := by
        rw [List.isEmpty_iff]
        exact List.ne_nil_of_mem hnamed
      refine List.mem_append_right _ ?_
      rw [if_neg hne]
      exact List.mem_singleton_self _
    have hplace := ((mem_namedBindings_iff g b).1 hnamed).2
    exact ⟨_, by rw [hkeyword]; exact renderImport_eq hbraces,
      lists_braced hnamed hplace (isItem_intercalate hbraces)⟩

/-- Re-exports have no default and no namespace. -/
theorem hasOnePlace_of_reexports {g : ImportGroup} (hform : g.form = .reexports) {b : Binding}
    (hb : b ∈ g.bindings) : b.bucket.hasOnePlace = false := by
  obtain ⟨d, -, hb⟩ := List.mem_flatMap.1 hb
  obtain ⟨s, -, rfl⟩ := List.mem_map.1 hb
  rw [hform]
  simp only [bindingOf, bucketOf]
  cases d.typeOnly || s.typeOnly <;> rfl

/-- A merged re-export declares every binding that the merge keeps. -/
theorem binds_renderExport {g : ImportGroup} (hform : g.form = .reexports) {b : Binding}
    (hb : b ∈ g.merged.bindings) : g.Binds (g.renderExport g.merged) b := by
  have hkeyword : keyword g.form = "export " := by rw [hform]; rfl
  have hmem : b ∈ g.bindings := ((mem_merged_bindings_iff g b).1 hb).1
  have hplace := hasOnePlace_of_reexports hform hmem
  have hnamed : b ∈ g.merged.named := (mem_namedBindings_iff g b).2 ⟨hmem, hplace⟩
  have hitem : IsItem (braced g.merged.named) (braced g.merged.named) :=
    ⟨[braced g.merged.named], String.intercalate_singleton.symm, List.mem_singleton_self _⟩
  exact ⟨_, by rw [hkeyword]; rfl, lists_braced hnamed hplace hitem⟩

/-- The merged declaration declares every binding that the merge keeps. -/
theorem binds_render {g : ImportGroup} {b : Binding} (hb : b ∈ g.merged.bindings) :
    g.Binds (g.render g.merged) b := by
  cases hform : g.form with
  | imports =>
    rw [render, hform]
    exact binds_renderImport hform hb
  | reexports =>
    rw [render, hform]
    exact binds_renderExport hform hb

/-! ### What the edits do -/

/-- An edit puts a text in the place of a declaration. -/
def Replaces (replacement : String) (d : Declaration) (e : Edit) : Prop :=
  (e.start : Int) = d.span.start ∧ (e.stop : Int) = d.span.stop ∧ e.text = replacement

theorem edits_eq_ok_iff {g : ImportGroup} {replacement : String} {edits : List Edit} :
    g.edits replacement = .ok edits ↔
      ∃ first later, edits = first :: later ∧ Replaces replacement g.first first ∧
        List.Forall₂ (Replaces "") g.later later := by
  have hbetween : (fun (d : Declaration) e => Edit.between d.span.start d.span.stop "" = .ok e) =
      Replaces "" := by
    funext d e
    exact propext Edit.between_eq_ok_iff
  constructor
  · intro h
    obtain ⟨first, hfirst, h⟩ := Outcome.exists_of_bind_eq_ok h
    obtain ⟨later, hlater, h⟩ := Outcome.exists_of_bind_eq_ok h
    cases h
    rw [Outcome.mapM_eq_ok_iff, hbetween] at hlater
    exact ⟨first, later, rfl, Edit.between_eq_ok_iff.1 hfirst, hlater⟩
  · rintro ⟨first, later, rfl, hfirst, hlater⟩
    rw [← hbetween, ← Outcome.mapM_eq_ok_iff] at hlater
    rw [edits, Edit.between_eq_ok_iff.2 hfirst, hlater]
    rfl

/-- A merge keeps exactly the bindings that no earlier one crowds out, which are all of them
exactly if no two different defaults and no two different namespaces are bound.  Its edits
replace the first declaration and delete the later ones; whatever they are applied to, the
text that comes out holds a declaration of every kept binding. -/
theorem merged_bindings_complete (g : ImportGroup) :
    (∀ b, b ∈ g.merged.bindings ↔ g.IsKept b) ∧
    ((∀ b ∈ g.bindings, b ∈ g.merged.bindings) ↔
      ∀ a ∈ g.bindings, ∀ b ∈ g.bindings, a.bucket = b.bucket →
        a.bucket.hasOnePlace = true → a = b) ∧
    (∀ edits, g.edits (g.render g.merged) = .ok edits ↔
      ∃ first later, edits = first :: later ∧ Replaces (g.render g.merged) g.first first ∧
        List.Forall₂ (Replaces "") g.later later) ∧
    ∀ edits, g.edits (g.render g.merged) = .ok edits →
      ∀ text out, Edit.apply text edits = .ok out →
        ∃ declaration, Edit.bytesOf declaration <:+: Edit.bytesOf out ∧
          ∀ b, g.IsKept b → g.Binds declaration b := by
  refine ⟨mem_merged_bindings_iff g, ?_, fun _ => edits_eq_ok_iff, ?_⟩
  · rw [← forall_isKept_iff]
    exact forall₂_congr fun b _ => mem_merged_bindings_iff g b
  · intro edits hedits text out happly
    obtain ⟨first, later, rfl, ⟨-, -, htext⟩, -⟩ := edits_eq_ok_iff.1 hedits
    have hin := Edit.bytesOf_infix_of_apply_eq_ok happly (List.mem_cons_self (a := first))
    rw [htext] at hin
    exact ⟨_, hin, fun b hb => binds_render ((mem_merged_bindings_iff g b).2 hb)⟩

/-- A module of which two declarations import the default, under two names. -/
def twoDefaults : ImportGroup :=
  let declaration (start stop : Nat) (bound : String) : Declaration :=
    ⟨⟨1, start, 1, stop, start, stop⟩, some ⟨⟨1, start, 1, stop, start, stop⟩, .str "m", "\x22m\x22"⟩,
      [⟨⟨1, start, 1, stop, start, stop⟩, .default, "default", bound, false⟩], false⟩
  ⟨.imports, "m", declaration 0 20 "A", [declaration 21 41 "B"]⟩

/-- Nothing stands in the way of merging two defaults, but the second is lost, and its name is
bound no longer. -/
theorem twoDefaults_loses_binding :
    twoDefaults.merged.isSafe = true ∧
      (⟨.default, "default", "B"⟩ : Binding) ∈ twoDefaults.bindings ∧
      ∀ b ∈ twoDefaults.merged.bindings, b.bound ≠ "B" := by
  have hkept : twoDefaults.merged.bindings = [⟨.default, "default", "A"⟩] := by decide +kernel
  refine ⟨by decide +kernel, by decide, ?_⟩
  intro b hb
  rw [hkept] at hb
  cases List.mem_singleton.1 hb
  decide

end ImportGroup

end TsxLint
