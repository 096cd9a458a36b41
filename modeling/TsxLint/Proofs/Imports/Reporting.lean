/-
Module: TsxLint.Proofs.Imports.Reporting
Purpose: A module that is imported more than once is reported once, by one of two rules.
Main exports: Imports.importsOf, Imports.Merges, Imports.Reports, Imports.exists_run,
  Imports.imports_reported_once
-/
import TsxLint.Proofs.Imports.Gathering

namespace TsxLint.Imports

/-!
Two rules report repeated imports, and between them they share the groups of a file: a group whose
declarations are all for types or all not belongs to one, any other group to the other.  Both
collect the same groups, one for each module that is imported, so a module that is imported by
several declarations is reported exactly once.

The groups of a file are a list of the declarations directly below a program, cut up by module.
What a report says of its group, and where its edits lie, can therefore be told from that list.
-/

/-- The declaration in a visited node, if it imports a module and stands directly below a
program. -/
def importOf? (module : String) (visit : List Node × Node) : Option Declaration :=
  match visit with
  | (.program _ :: _, .importDeclaration d) => if d.module? = some module then some d else none
  | _ => none

/-- The declarations directly below a program that import a module, in preorder. -/
def importsOf (source : SourceFile) (module : String) : List Declaration :=
  (source.root.visits []).filterMap (importOf? module)

/-- Whether the data of a violation name a module. -/
def names (module : String) (v : Violation) : Bool :=
  Table.get? v.data "module" == some (.str module)

/-- Edits that put a text in the place of the first of some declarations and delete the others,
one edit for each declaration. -/
inductive Merges (replacement : String) : List Declaration → List Edit → Prop where
  | intro {first : Declaration} {later : List Declaration} {e : Edit} {es : List Edit}
      (replaces : ImportGroup.Replaces replacement first e)
      (deletes : List.Forall₂ (ImportGroup.Replaces "") later es) :
      Merges replacement (first :: later) (e :: es)

/-- A violation reports a group of imports: on the first declaration, with the module and the
number of declarations, and with the edits that merge them if they can be merged. -/
structure Reports (g : ImportGroup) (v : Violation) : Prop where
  node : v.node = .importDeclaration g.first
  data : v.data = [("module", .str g.module), ("declarations", .nat g.declarations.length)]
  edits : if g.merged.isSafe then Merges (g.render g.merged) g.declarations v.edits else v.edits = []

/-! ### Reports of groups -/

/-- A report works out edits, none if something stands in the way, and is on the first
declaration. -/
theorem report_eq_bind (message : String) (g : ImportGroup) :
    ∃ hint, report message g =
      ((if g.merged.isSafe then g.edits (g.render g.merged) else .ok []) >>= fun edits =>
        .ok ⟨ImportGroup.nodeOf g.form g.first, message, edits, [.str hint],
          [("module", .str g.module), ("declarations", .nat g.declarations.length)]⟩) := by
  rw [report, MergedBindings.isSafe]
  cases g.merged.obstacle with
  | none => exact ⟨_, rfl⟩
  | some o => exact ⟨_, rfl⟩

theorem reports_of_report {message : String} {g : ImportGroup} {v : Violation}
    (hform : g.form = .imports) (h : report message g = .ok v) : Reports g v := by
  obtain ⟨hint, heq⟩ := report_eq_bind message g
  rw [heq] at h
  obtain ⟨edits, hedits, h⟩ := Outcome.exists_of_bind_eq_ok h
  cases h
  refine ⟨by rw [hform]; rfl, rfl, ?_⟩
  by_cases hsafe : g.merged.isSafe = true
  · rw [if_pos hsafe] at hedits ⊢
    obtain ⟨first, later, rfl, hfirst, hlater⟩ := ImportGroup.edits_eq_ok_iff.1 hedits
    exact .intro hfirst hlater
  · rw [if_neg hsafe] at hedits ⊢
    cases hedits
    rfl

theorem names_of_report {message : String} {g : ImportGroup} {v : Violation}
    (h : report message g = .ok v) (module : String) :
    names module v = decide (g.module = module) := by
  obtain ⟨hint, heq⟩ := report_eq_bind message g
  rw [heq] at h
  obtain ⟨edits, -, h⟩ := Outcome.exists_of_bind_eq_ok h
  cases h
  rw [names, Table.get?, if_pos rfl, Bool.eq_iff_iff, beq_iff_eq, decide_eq_true_iff,
    Option.some_inj, Value.str.injEq]

/-- Declarations with proper ranges can be reported. -/
theorem exists_report (message : String) {g : ImportGroup}
    (hrange : ∀ d ∈ g.declarations, 0 ≤ d.span.start ∧ d.span.start ≤ d.span.stop) :
    ∃ v, report message g = .ok v := by
  have hbetween : ∀ d ∈ g.declarations, ∀ replacement,
      Outcome.FailsOnly (fun _ => False) (Edit.between d.span.start d.span.stop replacement) := by
    intro d hd replacement
    rw [Edit.between, dif_pos (hrange d hd)]
    exact .ok _
  have hedits : ∀ replacement, Outcome.FailsOnly (fun _ => False) (g.edits replacement) := by
    intro replacement
    refine (hbetween g.first List.mem_cons_self _).bind fun _ => ?_
    refine Outcome.FailsOnly.bind (.mapM fun d hd => ?_) fun _ => .ok _
    exact hbetween d (List.mem_cons_of_mem _ hd) _
  obtain ⟨hint, heq⟩ := report_eq_bind message g
  rw [heq]
  apply Outcome.FailsOnly.exists_ok
  refine Outcome.FailsOnly.bind ?_ fun _ => .ok _
  split
  · exact hedits _
  · exact .ok _

/-! ### The groups of a file -/

theorem importsOf_eq (source : SourceFile) (module : String) :
    importsOf source module =
      ((topDeclarations .imports (source.root.visits [])).filter fun entry =>
        entry.2 = module).map (·.1) := by
  rw [importsOf, topDeclarations, List.filter_filterMap, List.map_filterMap]
  congr 1
  funext visit
  obtain ⟨way, n⟩ := visit
  cases way with
  | nil => rfl
  | cons parent rest =>
    cases parent with
    | program p =>
      cases n with
      | importDeclaration d =>
        cases hmodule : d.module? with
        | none => simp [importOf?, topDeclaration?, declaration?, hmodule]
        | some m =>
          by_cases hm : m = module
          · simp [importOf?, topDeclaration?, declaration?, hmodule, hm, Option.filter]
          · simp [importOf?, topDeclaration?, declaration?, hmodule, hm, Option.filter]
      | _ => rfl
    | _ => rfl

/-- In a table of groups under their modules, a module has the group under its name. -/
theorem filter_values_eq_toList {groups : Table ImportGroup} (hnodup : (Table.keys groups).Nodup)
    (hmodule : ∀ m g, (m, g) ∈ groups → g.module = m) (module : String) :
    ((Table.values groups).filter fun g => g.module = module) =
      (Table.get? groups module).toList := by
  induction groups with
  | nil => rfl
  | cons entry rest ih =>
    obtain ⟨m, g⟩ := entry
    obtain ⟨hnot, hrest⟩ := List.nodup_cons.1 hnodup
    have hg : g.module = m := hmodule m g List.mem_cons_self
    have hlater := ih hrest fun m g hmem => hmodule m g (List.mem_cons_of_mem _ hmem)
    rw [Table.values, List.map_cons, Table.get?]
    by_cases hm : m = module
    · subst hm
      rw [Table.get?_eq_none_iff.2 hnot] at hlater
      rw [List.filter_cons_of_pos (by simp [hg]), if_pos rfl]
      exact congrArg (g :: ·) hlater
    · rw [List.filter_cons_of_neg (by simpa [hg] using hm), if_neg hm]
      exact hlater

/-- The groups of the imports in a file. -/
def groupsOf (source : SourceFile) : Table ImportGroup :=
  collectAll .imports [] (topDeclarations .imports (source.root.visits []))

theorem gathered_groupsOf (source : SourceFile) :
    Gathered .imports (topDeclarations .imports (source.root.visits [])) (groupsOf source) :=
  gathered_collectAll .imports _

/-- The group of a module, if it is imported. -/
def groupOf? (source : SourceFile) (module : String) : Option ImportGroup :=
  match importsOf source module with
  | [] => none
  | first :: later => some ⟨.imports, module, first, later⟩

theorem get?_groupsOf (source : SourceFile) (module : String) :
    Table.get? (groupsOf source) module = groupOf? source module := by
  have hgathered := gathered_groupsOf source
  rw [groupOf?, importsOf_eq]
  cases hget : Table.get? (groupsOf source) module with
  | none => rw [hgathered.not_mem (Table.get?_eq_none_iff.1 hget), List.map_nil]
  | some g =>
    obtain ⟨hform, hmodule, hdeclarations⟩ := hgathered.group module g (Table.mem_of_get? hget)
    rw [← hdeclarations]
    obtain ⟨form, m, first, later⟩ := g
    cases hform
    cases hmodule
    rfl

/-- Among the groups of a file that are selected, the group of a module is the only one with its
name. -/
theorem filter_groupsOf (source : SourceFile) (selected : ImportGroup → Bool) (module : String) :
    (((Table.values (groupsOf source)).filter selected).filter fun g => g.module = module) =
      (groupOf? source module).toList.filter selected := by
  have hgathered := gathered_groupsOf source
  rw [List.filter_comm, filter_values_eq_toList hgathered.nodup
    (fun m g hmem => (hgathered.group m g hmem).2.1), get?_groupsOf]

/-! ### What a rule reports -/

variable {text : String} {root : Tree} {source : SourceFile}

/-- A group of a file has declarations with proper ranges, beside each other. -/
theorem ranges_of_group (hs : source.Parsed text root) (ht : Model.Readable text root)
    {g : ImportGroup} (hg : g ∈ Table.values (groupsOf source)) :
    (g.declarations.Pairwise fun a b => a.span.Beside b.span) ∧
      ∀ d ∈ g.declarations, 0 ≤ d.span.start ∧ d.span.start ≤ d.span.stop := by
  obtain ⟨hbeside, hdeclarations⟩ := declarations_of_group hs ht hg
  refine ⟨hbeside, fun d hd => ?_⟩
  obtain ⟨u, hu, -, hspan⟩ := hdeclarations d hd
  rw [hspan]
  exact ⟨Int.natCast_nonneg _, Int.ofNat_le.2 (ht.wellFormed.of_mem hu).isLaidOut.start_le_stop⟩

/-- A rule for imports reports the groups that it covers, and of a violation that names a module
the group is that of the module. -/
theorem exists_run (hs : source.Parsed text root) (ht : Model.Readable text root)
    (options : Options) (coverage : Coverage) (hform : coverage.form = .imports) :
    ∃ vs, (listener coverage).run source options = .ok vs ∧
      ∀ module, List.Forall₂ (fun g v => report coverage.message g = .ok v)
        ((groupOf? source module).toList.filter fun g => g.isDuplicate && coverage.reports g)
        (vs.filter (names module)) := by
  obtain ⟨vs, hvs⟩ : ∃ vs, ((Table.values (groupsOf source)).filter fun g =>
      g.isDuplicate && coverage.reports g).mapM (report coverage.message) = .ok vs := by
    apply Outcome.FailsOnly.exists_ok
    apply Outcome.FailsOnly.mapM
    intro g hg
    obtain ⟨v, hv⟩ := exists_report coverage.message
      (ranges_of_group hs ht (List.mem_filter.1 hg).1).2
    rw [hv]
    exact .ok v
  refine ⟨vs, ?_, fun module => ?_⟩
  · rw [Listener.run_eq_calls, calls_listener, hform, Outcome.ok_bind]
    change (((Table.values (groupsOf source)).filter fun g =>
      g.isDuplicate && coverage.reports g).mapM (report coverage.message) >>= fun atEnd =>
        pure ([] ++ atEnd)) = .ok vs
    rw [hvs]
    rfl
  · rw [← filter_groupsOf]
    refine List.rel_filter (fun g v hreport => ?_) (Outcome.mapM_eq_ok_iff.1 hvs)
    change _ = true ↔ _ = true
    rw [names_of_report hreport]

/-- A covered group of several declarations gets one violation. -/
theorem exists_of_covered {message : String} {g : ImportGroup} {covered : ImportGroup → Bool}
    {vs : List Violation} (hform : g.form = .imports) (hcovered : covered g = true)
    (h : List.Forall₂ (fun g v => report message g = .ok v) ([g].filter covered) vs) :
    ∃ v, vs = [v] ∧ Reports g v := by
  rw [List.filter_cons_of_pos hcovered, List.filter_nil] at h
  obtain ⟨v, later, hv, hlater, rfl⟩ := List.forall₂_cons_left_iff.1 h
  cases hlater
  exact ⟨v, rfl, reports_of_report hform hv⟩

/-- A group that is not covered gets none. -/
theorem eq_nil_of_not_covered {message : String} {g : ImportGroup} {covered : ImportGroup → Bool}
    {vs : List Violation} (hcovered : ¬ covered g = true)
    (h : List.Forall₂ (fun g v => report message g = .ok v) ([g].filter covered) vs) : vs = [] := by
  rw [List.filter_cons_of_neg hcovered, List.filter_nil] at h
  exact List.forall₂_nil_left_iff.1 h

/-- A module that is imported at most once gets none. -/
theorem eq_nil_of_few {message : String} {reports : ImportGroup → Bool} {module : String}
    {vs : List Violation} (hfew : (importsOf source module).length < 2)
    (h : List.Forall₂ (fun g v => report message g = .ok v)
      ((groupOf? source module).toList.filter fun g => g.isDuplicate && reports g) vs) :
    vs = [] := by
  match hdeclarations : importsOf source module with
  | [] =>
    rw [groupOf?, hdeclarations] at h
    exact List.forall₂_nil_left_iff.1 h
  | [only] =>
    rw [groupOf?, hdeclarations] at h
    exact eq_nil_of_not_covered Bool.false_ne_true h
  | _ :: _ :: _ =>
    rw [hdeclarations] at hfew
    exact absurd hfew (by simp)

/-- In a file of a language with types, the two rules for imports together report a module that
several declarations directly below a program import exactly once, and no other module.  The
violation is on the first of these declarations and counts them.  If nothing stands in the way of
merging them, it has one edit for each: the first is replaced and the others are deleted, in their
exact ranges, which lie beside each other; else it has none. -/
theorem imports_reported_once (hs : source.Parsed text root) (ht : Model.Readable text root)
    (hlanguage : source.language = .tsx ∨ source.language = .typescript) (options : Options) :
    (∀ rule ∈ [duplicateImports, typeImports], rule.supports source.language.name = true) ∧
      ∃ alike mixed, duplicateImports.visit source options = .ok alike ∧
        typeImports.visit source options = .ok mixed ∧
        ∀ module,
          (∀ first second rest, importsOf source module = first :: second :: rest →
            ((first :: second :: rest).Pairwise fun a b => a.span.Beside b.span) ∧
              ∃ v, (alike ++ mixed).filter (names module) = [v] ∧
                Reports ⟨.imports, module, first, second :: rest⟩ v) ∧
          ((importsOf source module).length < 2 → (alike ++ mixed).filter (names module) = []) := by
  constructor
  · rcases hlanguage with hlanguage | hlanguage
    · rw [hlanguage]
      decide
    · rw [hlanguage]
      decide
  · obtain ⟨alike, halike, hreported⟩ := exists_run hs ht options
      ⟨.imports, fun g => !g.mixesTypesAndValues,
        "Multiple imports from the same module should be combined"⟩ rfl
    obtain ⟨mixed, hmixed, hreported'⟩ := exists_run hs ht options
      ⟨.imports, fun g => g.mixesTypesAndValues,
        "Consolidate separate imports from the same module into a single import"⟩ rfl
    refine ⟨alike, mixed, halike, hmixed, fun module => ⟨?_, ?_⟩⟩
    · intro first second rest hdeclarations
      have hgroup : groupOf? source module = some ⟨.imports, module, first, second :: rest⟩ := by
        rw [groupOf?, hdeclarations]
      have hvalue := List.mem_map_of_mem (f := (·.2))
        (Table.mem_of_get? ((get?_groupsOf source module).trans hgroup))
      refine ⟨(ranges_of_group hs ht hvalue).1, ?_⟩
      have halike := hreported module
      have hmixed := hreported' module
      rw [hgroup, Option.toList_some] at halike hmixed
      rw [List.filter_append]
      -- the group belongs to one of the two rules
      by_cases hmixes :
          (⟨.imports, module, first, second :: rest⟩ : ImportGroup).mixesTypesAndValues = true
      · obtain ⟨v, hv, hreports⟩ := exists_of_covered rfl hmixes hmixed
        rw [eq_nil_of_not_covered (by simp [hmixes]) halike, hv, List.nil_append]
        exact ⟨v, rfl, hreports⟩
      · obtain ⟨v, hv, hreports⟩ := exists_of_covered rfl (by
          simp [hmixes, ImportGroup.isDuplicate]) halike
        rw [eq_nil_of_not_covered hmixes hmixed, hv, List.append_nil]
        exact ⟨v, rfl, hreports⟩
    · intro hfew
      rw [List.filter_append, eq_nil_of_few hfew (hreported module),
        eq_nil_of_few hfew (hreported' module)]
      rfl

/-- A text that imports one module with a binding and without one, and another module in between. -/
def splitImportsText : String := "import A from 'm';\nimport 'n';\nimport 'm';"

/-- The tree of that text. -/
def splitImports : Tree :=
  .node "program" true "" 0 42
    [.node "import_statement" true "" 0 18
      [.node "import_clause" true "" 7 8 [.node "identifier" true "" 7 8 []],
        .node "string" true "source" 14 17 []],
      .node "import_statement" true "" 19 30 [.node "string" true "source" 26 29 []],
      .node "import_statement" true "" 31 42 [.node "string" true "source" 38 41 []]]

/-- The module that is imported twice is reported once, the other one not at all. -/
theorem imports_reported_once_splitImports :
    Model.Readable splitImportsText splitImports ∧
      ∃ source, SourceFile.ofTree default .tsx splitImportsText ⟨splitImports, false⟩ = .ok source ∧
        ∃ alike mixed, duplicateImports.visit source [] = .ok alike ∧
          typeImports.visit source [] = .ok mixed ∧
          (∃ v replacement, (alike ++ mixed).filter (names "m") = [v] ∧
            v.data = [("module", .str "m"), ("declarations", .nat 2)] ∧
            Merges replacement (importsOf source "m") v.edits) ∧
          (alike ++ mixed).filter (names "n") = [] := by
  have hreadable : Model.Readable splitImportsText splitImports :=
    ⟨by decide +kernel, by decide +kernel⟩
  have hcounts :
      ((SourceFile.ofTree default .tsx splitImportsText ⟨splitImports, false⟩).toOption.map
      fun source => (source.language, (importsOf source "m").length, (importsOf source "n").length,
        (groupOf? source "m").all fun g => g.merged.isSafe)) = some (.tsx, 2, 1, true) := by
    decide +kernel
  obtain ⟨source, hsource, hcounts⟩ := Option.map_eq_some_iff.1 hcounts
  have hsource := Outcome.eq_ok_of_toOption_eq_some hsource
  simp only [Prod.mk.injEq] at hcounts
  obtain ⟨hlanguage, hm, hn, hsafe⟩ := hcounts
  obtain ⟨-, alike, mixed, halike, hmixed, hreported⟩ :=
    imports_reported_once (SourceFile.parsed_of_ofTree hsource) hreadable (.inl hlanguage) []
  obtain ⟨first, second, htwo⟩ := List.length_eq_two.1 hm
  obtain ⟨-, v, hv, hreports⟩ := (hreported "m").1 first second [] htwo
  have hedits := hreports.edits
  rw [groupOf?, htwo, Option.all_some] at hsafe
  rw [if_pos hsafe] at hedits
  rw [ImportGroup.declarations, ← htwo] at hedits
  exact ⟨hreadable, source, hsource, alike, mixed, halike, hmixed,
    ⟨v, _, hv, hreports.data, hedits⟩, (hreported "n").2 (by omega)⟩

end TsxLint.Imports
