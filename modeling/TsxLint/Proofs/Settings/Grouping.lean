/-
Module: TsxLint.Proofs.Settings.Grouping
Purpose: Settings laid over each other are the same whichever of them are put together first.
Main exports: Settings.IsKeyed, Settings.merge_assoc, Grouping, Grouping.merged_eq_of_layers_eq
-/
import TsxLint.Proofs.Settings.Layering

namespace TsxLint

/-!
Several settings are laid over each other by a series of merges of two.  A `Grouping` says in which
order these merges are made; its layers are the settings from the lowest to the topmost.  Since a
merge of three settings does not depend on which two are put together first, a grouping adds up to
what its layers say: single values are those of the topmost layer, each entry of a table is that of
the topmost layer that has it, and the entries stand in the order in which they first appear.
-/

namespace Settings

/-- No two categories have the same name, and no two entries are about the same rule. -/
structure IsKeyed (s : Settings) : Prop where
  categories : (Table.keys s.categories).Nodup
  rules : (Table.keys s.rules).Nodup

instance (s : Settings) : Decidable s.IsKeyed :=
  decidable_of_iff ((Table.keys s.categories).Nodup ∧ (Table.keys s.rules).Nodup)
    ⟨fun ⟨hcategories, hrules⟩ => ⟨hcategories, hrules⟩, fun h => ⟨h.categories, h.rules⟩⟩

theorem isKeyed_default : default.IsKeyed := by decide

theorem IsKeyed.merge {lower : Settings} (h : lower.IsKeyed) (upper : Settings) :
    (lower.merge upper).IsKeyed :=
  ⟨Table.nodup_keys_merge h.categories _, Table.nodup_keys_merge h.rules _⟩

/-- Of three settings it makes no difference which two are put together first. -/
theorem merge_assoc (lower : Settings) {middle : Settings} (h : middle.IsKeyed)
    (upper : Settings) :
    (lower.merge middle).merge upper = lower.merge (middle.merge upper) := by
  unfold merge
  dsimp only
  rw [Table.merge_assoc _ h.categories, Table.merge_assoc _ h.rules]

end Settings

theorem SettingsFile.isKeyed (file : SettingsFile) : file.settings.IsKeyed :=
  ⟨file.nodup_categories, file.nodup_rules⟩

/-- A way of laying settings over each other: two that are put together, each of them a layer or
put together before. -/
inductive Grouping where
  | layer (s : Settings)
  | together (lower upper : Grouping)

namespace Grouping

/-- The settings that are laid over each other, the lowest first. -/
def layers : Grouping → List Settings
  | .layer s => [s]
  | .together lower upper => lower.layers ++ upper.layers

/-- What the settings add up to. -/
def merged : Grouping → Settings
  | .layer s => s
  | .together lower upper => lower.merged.merge upper.merged

theorem layers_ne_nil (g : Grouping) : g.layers ≠ [] := by
  induction g with
  | layer s => exact List.cons_ne_nil _ _
  | together lower upper hlower _ => exact List.append_ne_nil_of_left_ne_nil hlower _

theorem isKeyed_merged {g : Grouping} (h : ∀ s ∈ g.layers, s.IsKeyed) : g.merged.IsKeyed := by
  induction g with
  | layer s => exact h s (List.mem_singleton.2 rfl)
  | together lower upper hlower _ =>
    exact (hlower fun s hs => h s (List.mem_append_left _ hs)).merge _

/-- Over other settings, what is put together first is the same as layer by layer. -/
theorem merge_merged {g : Grouping} (h : ∀ s ∈ g.layers, s.IsKeyed) (base : Settings) :
    base.merge g.merged = g.layers.foldl Settings.merge base := by
  induction g generalizing base with
  | layer s => rfl
  | together lower upper hlower hupper =>
    obtain ⟨hlowerKeyed, hupperKeyed⟩ := List.forall_mem_append.1 h
    rw [merged, ← Settings.merge_assoc base (isKeyed_merged hlowerKeyed), hlower hlowerKeyed,
      hupper hupperKeyed, layers, List.foldl_append]

/-- The layers of a grouping add up one by one, from the lowest to the topmost. -/
theorem merged_eq_foldl {g : Grouping} (h : ∀ s ∈ g.layers, s.IsKeyed) {lowest : Settings}
    {others : List Settings} (hlayers : g.layers = lowest :: others) :
    g.merged = others.foldl Settings.merge lowest := by
  induction g generalizing lowest others with
  | layer s =>
    obtain ⟨rfl, rfl⟩ := List.cons.inj hlayers
    rfl
  | together lower upper hlower _ =>
    obtain ⟨hlowerKeyed, hupperKeyed⟩ := List.forall_mem_append.1 h
    obtain ⟨first, rest, hfirst⟩ := List.exists_cons_of_ne_nil lower.layers_ne_nil
    rw [layers, hfirst, List.cons_append] at hlayers
    obtain ⟨rfl, rfl⟩ := List.cons.inj hlayers
    rw [merged, merge_merged hupperKeyed, hlower hlowerKeyed hfirst, List.foldl_append]

/-! ### What layers say -/

section

variable {α : Type} (tableOf : Settings → Table α)

/-- A table that is merged along with the settings it belongs to is a stack of tables. -/
theorem tableOf_foldl
    (hmerge : ∀ lower upper, tableOf (Settings.merge lower upper) =
      Table.merge (tableOf lower) (tableOf upper)) (others : List Settings) (lowest : Settings) :
    tableOf (others.foldl Settings.merge lowest) =
      (others.map tableOf).foldl Table.merge (tableOf lowest) := by
  induction others generalizing lowest with
  | nil => rfl
  | cons s rest ih => rw [List.foldl_cons, ih, hmerge, List.map_cons, List.foldl_cons]

/-- Each key is answered by the topmost layer that has it, and the keys stand in the order in which
they first appear. -/
theorem tableOf_merged {g : Grouping} (h : ∀ s ∈ g.layers, s.IsKeyed)
    (hmerge : ∀ lower upper, tableOf (Settings.merge lower upper) =
      Table.merge (tableOf lower) (tableOf upper))
    (hnodup : ∀ s : Settings, s.IsKeyed → (Table.keys (tableOf s)).Nodup) :
    (∀ key, Table.get? (tableOf g.merged) key =
      g.layers.reverse.findSome? fun s => Table.get? (tableOf s) key) ∧
    Table.keys (tableOf g.merged) =
      (g.layers.flatMap fun s => Table.keys (tableOf s)).eraseDups := by
  obtain ⟨lowest, others, hlayers⟩ := List.exists_cons_of_ne_nil g.layers_ne_nil
  rw [hlayers] at h
  obtain ⟨hlowest, hothers⟩ := List.forall_mem_cons.1 h
  have huppers : ∀ upper ∈ others.map tableOf, (Table.keys upper).Nodup := by
    intro upper hupper
    obtain ⟨s, hs, rfl⟩ := List.mem_map.1 hupper
    exact hnodup s (hothers s hs)
  rw [merged_eq_foldl (hlayers ▸ h) hlayers, tableOf_foldl tableOf hmerge, hlayers]
  refine ⟨fun key => ?_, ?_⟩
  · rw [Table.get?_foldl_merge _ huppers, ← List.map_reverse, List.findSome?_map,
      List.reverse_cons, List.findSome?_append]
    simp [Function.comp_def]
  · rw [Table.keys_foldl_merge (hnodup lowest hlowest) huppers, List.flatMap_map,
      List.flatMap_cons]

end

/-- Single values are those of the topmost layer. -/
theorem under_merged (k : Scalar) (g : Grouping) :
    some (k.under g.merged) = g.layers.getLast?.map k.under := by
  induction g with
  | layer s => rfl
  | together lower upper _ hupper =>
    rw [merged, k.under_merge, hupper, layers, List.getLast?_append_of_ne_nil _ upper.layers_ne_nil]

/-! ### Groupings of the same layers -/

/-- Settings are the same however they are put together, down to the order of their entries.  Their
single values are those of the topmost layer, what they say of a category or a rule is what the
topmost layer with an entry says, and entries stand in the order in which they first appear.  So
are the settings that are loaded from files, which are laid over the default settings. -/
theorem merged_eq_of_layers_eq :
    (∀ lower middle upper : Settings, middle.IsKeyed →
      (lower.merge middle).merge upper = lower.merge (middle.merge upper)) ∧
    ∀ g h : Grouping, (∀ s ∈ g.layers, s.IsKeyed) → h.layers = g.layers →
      h.merged = g.merged ∧
      (∀ k : Scalar, some (k.under g.merged) = g.layers.getLast?.map k.under) ∧
      (∀ name, Table.get? g.merged.categories name =
        g.layers.reverse.findSome? fun s => Table.get? s.categories name) ∧
      (∀ id, g.merged.ofRule id =
        (g.layers.reverse.findSome? fun s => Table.get? s.rules id).getD .initial) ∧
      Table.keys g.merged.categories =
        (g.layers.flatMap fun s => Table.keys s.categories).eraseDups ∧
      Table.keys g.merged.rules = (g.layers.flatMap fun s => Table.keys s.rules).eraseDups ∧
      ∀ files : List Layer,
        g.layers = .default :: (files.filterMap Layer.file?).map SettingsFile.settings →
        (Settings.load files).settings = g.merged := by
  refine ⟨fun lower middle upper hmiddle => Settings.merge_assoc lower hmiddle upper,
    fun g h hkeyed hlayers => ?_⟩
  obtain ⟨lowest, others, hsplit⟩ := List.exists_cons_of_ne_nil g.layers_ne_nil
  obtain ⟨hcategory, hcategories⟩ := tableOf_merged Settings.categories hkeyed
    (fun _ _ => rfl) fun _ hs => hs.categories
  obtain ⟨hrule, hrules⟩ := tableOf_merged Settings.rules hkeyed
    (fun _ _ => rfl) fun _ hs => hs.rules
  refine ⟨?_, fun k => under_merged k g, hcategory, fun id => ?_, hcategories, hrules,
    fun files hfiles => ?_⟩
  · rw [merged_eq_foldl hkeyed hsplit, merged_eq_foldl (hlayers.symm ▸ hkeyed) (hlayers.trans hsplit)]
  · rw [Settings.ofRule, hrule]
  · rw [merged_eq_foldl hkeyed hfiles, Settings.load_settings, List.foldl_map]
    rfl

/-- Settings that switch one rule on or off, and give another one options. -/
def switching (switched : String) (switch : Bool) (adjusted : String) (limit : Int) : Settings :=
  { Settings.initial with
    rules :=
      [(switched, { RuleSettings.initial with enabled := .bool switch }),
        (adjusted, { RuleSettings.initial with parameters := .object [("limit", .int limit)] })] }

/-- Three layers that share rules with each other, and files of which the upper one says nothing. -/
theorem merged_eq_of_layers_eq_three :
    let lower := switching "A" false "B" 1
    let middle := switching "C" false "A" 2
    let upper := switching "B" false "D" 3
    let g : Grouping := .together (.together (.layer lower) (.layer middle)) (.layer upper)
    let h : Grouping := .together (.layer lower) (.together (.layer middle) (.layer upper))
    (∀ s ∈ g.layers, s.IsKeyed) ∧ h.merged = g.merged ∧
      Table.keys g.merged.rules = ["A", "B", "C", "D"] ∧
      g.merged.ofRule "A" = { RuleSettings.initial with parameters := .object [("limit", .int 2)] } ∧
      ∃ limit silent : SettingsFile, Table.get? limit.members "maxFixPasses" = some (.int 3) ∧
        (Settings.load Settings.limitBelowSilence).settings =
          Settings.default.merge (limit.settings.merge silent.settings) := by
  intro lower middle upper g h
  have hkeyed : ∀ s ∈ g.layers, s.IsKeyed := by decide
  obtain ⟨hsame, -, -, hrule, -, hrules, -⟩ := merged_eq_of_layers_eq.2 g h hkeyed rfl
  obtain ⟨limit, silent, hfiles, hwritten, -⟩ := Settings.exists_files_limitBelowSilence
  let loaded : Grouping :=
    .together (.layer .default) (.together (.layer limit.settings) (.layer silent.settings))
  have hloaded : ∀ s ∈ loaded.layers, s.IsKeyed :=
    List.forall_mem_cons.2 ⟨Settings.isKeyed_default, List.forall_mem_cons.2
      ⟨limit.isKeyed, List.forall_mem_singleton.2 silent.isKeyed⟩⟩
  obtain ⟨-, -, -, -, -, -, hload⟩ := merged_eq_of_layers_eq.2 loaded loaded hloaded rfl
  refine ⟨hkeyed, hsame, hrules.trans (by decide), (hrule "A").trans (by cbv), limit, silent, ?_,
    hload Settings.limitBelowSilence ?_⟩
  · rw [hwritten]
    rfl
  · rw [hfiles]
    rfl

end Grouping

end TsxLint
