/-
Module: TsxLint.Proofs.Settings.Layering
Purpose: Which of several files the loaded settings take each of their values from.
Main exports: SettingsFile, Layer.file?, Settings.lastWritten, Settings.lastEntry,
  Settings.load_follows_last_writer
-/
import Mathlib
import TsxLint.Settings.Layers
import TsxLint.Proofs.Settings.Reading

namespace TsxLint

/-!
Loading lays the files that are accepted over the default settings, one after the other.  An
entry of a table is then that of the last file that writes it.  A single value, though, is that
of the last file, whether or not this file writes it: where it does not, the stand-in takes the
place of what earlier files wrote.
-/

/-- A settings file that is accepted: its members, and the settings they are read as. -/
structure SettingsFile where
  members : Table Value
  settings : Settings
  keyed : (Value.object members).Keyed
  readFrom : Settings.ReadFrom members settings

namespace SettingsFile

/-- Lays the settings of a file over others. -/
def lay (lower : Settings) (file : SettingsFile) : Settings := lower.merge file.settings

/-- The entry that a file writes under a name in one of its tables. -/
def entry? (file : SettingsFile) (table name : String) : Option Value :=
  (Table.get? file.members table).bind (·.get? name)

theorem keyed_of_get? (file : SettingsFile) (key : String) (v : Value)
    (h : Table.get? file.members key = some v) : v.Keyed :=
  file.keyed.of_get? h

theorem nodup_categories (file : SettingsFile) : (Table.keys file.settings.categories).Nodup :=
  Settings.nodup_keys_of_readTable Value.eq_of_member (file.keyed_of_get? _)
    file.readFrom.categories

theorem nodup_rules (file : SettingsFile) : (Table.keys file.settings.rules).Nodup :=
  Settings.nodup_keys_of_readTable RuleSettings.eq_of_ofValue (file.keyed_of_get? _)
    file.readFrom.rules

theorem get?_categories (file : SettingsFile) (name : String) :
    Table.get? file.settings.categories name =
      (file.entry? "categories" name).map Settings.switchOf :=
  Settings.get?_of_readTable Value.eq_of_member file.readFrom.categories name

theorem get?_rules (file : SettingsFile) (id : String) :
    Table.get? file.settings.rules id = (file.entry? "rules" id).map RuleSettings.ofEntry :=
  Settings.get?_of_readTable RuleSettings.eq_of_ofValue file.readFrom.rules id

/-! ### Files from data -/

/-- The file with the given data, if it is accepted. -/
def ofData? (data : ByteArray) : Option SettingsFile :=
  match hmembers : Settings.membersOf data with
  | .error _ => none
  | .ok members =>
    match hsettings : Settings.ofMembers members with
    | .error _ => none
    | .ok settings =>
      some ⟨members, settings, Settings.keyed_of_membersOf hmembers,
        Settings.ofMembers_eq_ok_iff.1 hsettings⟩

/-- Data are a file exactly if settings can be read from them. -/
theorem settings_ofData? (data : ByteArray) :
    (ofData? data).map SettingsFile.settings = (Settings.ofData data).toOption := by
  have hdata := Settings.ofData_eq_bind data
  unfold ofData?
  split
  · next hmembers =>
    rw [hmembers] at hdata
    rw [hdata]
    rfl
  · next members hmembers =>
    rw [hmembers, Outcome.ok_bind] at hdata
    split
    · next hsettings =>
      rw [hdata.trans hsettings]
      rfl
    · next settings hsettings =>
      rw [hdata.trans hsettings]
      rfl

/-- A text is a file if it writes an object from which settings can be read. -/
theorem exists_of_text {text : String} {members : Table Value} {s : Settings}
    (hobject : Json.read (String.ofList (Text.unifyLineEnds text.toList)) = .ok (.object members))
    (hread : Settings.ofMembers members = .ok s) :
    ∃ file, ofData? text.toUTF8 = some file ∧ file.members = members := by
  have hmembers : Settings.membersOf text.toUTF8 = .ok members := by
    rw [Settings.membersOf, Text.decode_toUTF8]
    simp only [hobject]
  unfold ofData?
  split
  · next hfault =>
    rw [hmembers] at hfault
    cases hfault
  · next found hfound =>
    cases hmembers.symm.trans hfound
    split
    · next hfault =>
      rw [hread] at hfault
      cases hfault
    · exact ⟨_, rfl, rfl⟩

end SettingsFile

/-- The file in a layer, if there is one and it is accepted. -/
def Layer.file? (l : Layer) : Option SettingsFile :=
  match l.content with
  | .data bytes => SettingsFile.ofData? bytes
  | _ => none

namespace Settings

/-! ### Layers as a stack of files -/

/-- A layer is laid over what is loaded if it holds a file that is accepted. -/
theorem settings_add (loaded : LoadedSettings) (l : Layer) :
    (loaded.add l).settings = l.file?.toList.foldl SettingsFile.lay loaded.settings := by
  obtain ⟨path, content⟩ := l
  cases content with
  | absent => rfl
  | directory => rfl
  | data bytes =>
    have hread := SettingsFile.settings_ofData? bytes
    simp only [LoadedSettings.add, Layer.read?, Layer.file?]
    cases hfile : SettingsFile.ofData? bytes with
    | none =>
      rw [hfile] at hread
      cases hdata : ofData bytes with
      | error fault => rfl
      | ok s =>
        rw [hdata] at hread
        cases hread
    | some file =>
      rw [hfile] at hread
      rw [Outcome.eq_ok_of_toOption_eq_some hread.symm]
      rfl

theorem load_settings (layers : List Layer) :
    (load layers).settings = (layers.filterMap Layer.file?).foldl SettingsFile.lay default := by
  have hfrom : ∀ loaded : LoadedSettings, (layers.foldl LoadedSettings.add loaded).settings =
      (layers.filterMap Layer.file?).foldl SettingsFile.lay loaded.settings := by
    induction layers with
    | nil => exact fun _ => rfl
    | cons l rest ih =>
      intro loaded
      rw [List.foldl_cons, ih, settings_add, List.filterMap_cons]
      cases l.file? <;> rfl
  exact hfrom _

/-! ### What a stack of files answers -/

/-- Single values are those of the last file. -/
theorem under_foldl_lay (k : Scalar) (files : List SettingsFile) (base : Settings) :
    k.under (files.foldl SettingsFile.lay base) =
      (files.getLast?.map fun f => k.under f.settings).getD (k.under base) := by
  induction files using List.reverseRecOn with
  | nil => rfl
  | append_singleton files file _ =>
    rw [List.foldl_append, List.getLast?_concat]
    exact k.under_merge _ _

theorem categories_foldl_lay (files : List SettingsFile) (base : Settings) :
    (files.foldl SettingsFile.lay base).categories =
      (files.map fun f => f.settings.categories).foldl Table.merge base.categories := by
  induction files generalizing base with
  | nil => rfl
  | cons file rest ih => exact ih (base.merge file.settings)

theorem rules_foldl_lay (files : List SettingsFile) (base : Settings) :
    (files.foldl SettingsFile.lay base).rules =
      (files.map fun f => f.settings.rules).foldl Table.merge base.rules := by
  induction files generalizing base with
  | nil => rfl
  | cons file rest ih => exact ih (base.merge file.settings)

/-- The value that the last file with a key writes under it. -/
def lastWritten (files : List SettingsFile) (key : String) : Option Value :=
  files.reverse.findSome? fun f => Table.get? f.members key

/-- The entry that the last file with an entry of that name in a table writes. -/
def lastEntry (files : List SettingsFile) (table name : String) : Option Value :=
  files.reverse.findSome? fun f => f.entry? table name

/-- An entry of a stack of tables is what the last written entry stands for. -/
theorem get?_foldl_merge_of_entries {α : Type} {tableOf : SettingsFile → Table α} {table : String}
    {meaning : Value → α} (hnodup : ∀ f, (Table.keys (tableOf f)).Nodup)
    (hentry : ∀ f name, Table.get? (tableOf f) name = (f.entry? table name).map meaning)
    (files : List SettingsFile) (base : Table α) (name : String) :
    Table.get? ((files.map tableOf).foldl Table.merge base) name =
      ((lastEntry files table name).map meaning).or (Table.get? base name) := by
  have hall : ∀ upper ∈ files.map tableOf, (Table.keys upper).Nodup := by
    intro upper hupper
    obtain ⟨f, -, rfl⟩ := List.mem_map.1 hupper
    exact hnodup f
  rw [Table.get?_foldl_merge base hall, ← List.map_reverse, List.findSome?_map, lastEntry,
    List.map_findSome?]
  congr 2
  funext f
  exact hentry f name

/-! ### Where loaded values are from -/

/-- A single value is that of the last file, or the stand-in where this file does not write it. -/
theorem under_load (k : Scalar) (layers : List Layer) :
    k.under (load layers).settings =
      k.meaning (((layers.filterMap Layer.file?).getLast?.bind fun f =>
        Table.get? f.members k.name).getD k.builtIn) := by
  rw [load_settings, under_foldl_lay]
  cases (layers.filterMap Layer.file?).getLast? with
  | none => exact k.under_default
  | some file => exact file.readFrom.under_eq k

theorem lastWritten_of_getLast? {files : List SettingsFile} {file : SettingsFile} {key : String}
    (hlast : files.getLast? = some file) (hwritten : Table.has file.members key = true) :
    lastWritten files key = Table.get? file.members key := by
  obtain ⟨v, hv⟩ := Option.isSome_iff_exists.1 hwritten
  obtain ⟨before, rfl⟩ := List.getLast?_eq_some_iff.1 hlast
  rw [lastWritten, List.reverse_append, hv]
  simp [hv]

/-- What the very last file says is what the last file with the key writes only if they are one, or
if it makes no difference. -/
theorem meaning_getLast?_eq_iff (k : Scalar) (files : List SettingsFile) :
    k.meaning ((files.getLast?.bind fun f => Table.get? f.members k.name).getD k.builtIn) =
        k.meaning ((lastWritten files k.name).getD k.builtIn) ↔
      (∀ file, files.getLast? = some file → Table.has file.members k.name = true) ∨
        k.meaning ((lastWritten files k.name).getD k.builtIn) = k.meaning k.builtIn := by
  cases hlast : files.getLast? with
  | none =>
    have hnone : files = [] := List.getLast?_eq_none_iff.1 hlast
    simp [hnone, lastWritten]
  | some file =>
    by_cases hwritten : Table.has file.members k.name = true
    · rw [lastWritten_of_getLast? hlast hwritten]
      simp [hwritten]
    · -- the stand-in has taken the place of what earlier files wrote
      have habsent : Table.get? file.members k.name = none := by
        simpa [Table.has] using hwritten
      have hnot : ¬ ∀ f, some file = some f → Table.has f.members k.name = true :=
        fun hall => hwritten (hall file rfl)
      rw [or_iff_right hnot, Option.bind_some, habsent]
      exact eq_comm

/-- Each entry of loaded settings is that of the last file that writes it.  A single value is that
of the very last file, or its stand-in; so it is that of the last file that writes it only if the
very last file does, or if it is written as what stands in for it anyway. -/
theorem load_follows_last_writer (layers : List Layer) :
    let files := layers.filterMap Layer.file?
    let s := (load layers).settings
    (∀ k : Scalar,
      k.under s = k.meaning ((files.getLast?.bind fun f =>
        Table.get? f.members k.name).getD k.builtIn) ∧
      (k.under s = k.meaning ((lastWritten files k.name).getD k.builtIn) ↔
        (∀ file, files.getLast? = some file → Table.has file.members k.name = true) ∨
          k.meaning ((lastWritten files k.name).getD k.builtIn) = k.meaning k.builtIn)) ∧
    (∀ name, Table.get? s.categories name =
      ((lastEntry files "categories" name).map switchOf).or
        (Table.get? default.categories name)) ∧
    ∀ id, Table.get? s.rules id = (lastEntry files "rules" id).map RuleSettings.ofEntry := by
  intro files s
  refine ⟨fun k => ?_, fun name => ?_, fun id => ?_⟩
  · have hs : k.under s = k.meaning ((files.getLast?.bind fun f =>
        Table.get? f.members k.name).getD k.builtIn) := under_load k layers
    refine ⟨hs, ?_⟩
    rw [hs]
    exact meaning_getLast?_eq_iff k files
  · have hstack := categories_foldl_lay files default
    rw [← load_settings] at hstack
    rw [hstack]
    exact get?_foldl_merge_of_entries SettingsFile.nodup_categories SettingsFile.get?_categories
      files default.categories name
  · have hstack := rules_foldl_lay files default
    rw [← load_settings] at hstack
    rw [hstack, get?_foldl_merge_of_entries SettingsFile.nodup_rules SettingsFile.get?_rules files]
    exact Option.or_none

/-- A limit on passes in the user's file, and a project's file that says nothing. -/
def limitBelowSilence : List Layer :=
  [⟨⟨"/", ["home", fileName]⟩, .data "\x7b\x22maxFixPasses\x22: 3\x7d".toUTF8⟩,
    ⟨⟨"/", ["project", fileName]⟩, .data "\x7b\x7d".toUTF8⟩,
    ⟨⟨"/", ["project", localFileName]⟩, .absent⟩]

/-- Both files are accepted. -/
theorem exists_files_limitBelowSilence :
    ∃ limit silent : SettingsFile, limitBelowSilence.filterMap Layer.file? = [limit, silent] ∧
      limit.members = [("maxFixPasses", .int 3)] ∧ silent.members = [] := by
  obtain ⟨limit, hlimit, hwritten⟩ : ∃ file,
      SettingsFile.ofData? "\x7b\x22maxFixPasses\x22: 3\x7d".toUTF8 = some file ∧
        file.members = [("maxFixPasses", .int 3)] :=
    SettingsFile.exists_of_text (s := { initial with maxFixPasses := .int 3 }) (by cbv) (by cbv)
  obtain ⟨silent, hsilent, hnothing⟩ : ∃ file,
      SettingsFile.ofData? "\x7b\x7d".toUTF8 = some file ∧ file.members = [] :=
    SettingsFile.exists_of_text (s := initial) (by cbv) (by cbv)
  refine ⟨limit, silent, ?_, hwritten, hnothing⟩
  simp only [limitBelowSilence, Layer.file?, List.filterMap_cons, List.filterMap_nil, hlimit,
    hsilent]

/-- A file that says nothing sets the limit on passes back to its stand-in. -/
theorem load_forgets_limit_below_silence :
    lastWritten (limitBelowSilence.filterMap Layer.file?) "maxFixPasses" = some (.int 3) ∧
      (load limitBelowSilence).settings.maxFixPasses = .int 10 := by
  obtain ⟨limit, silent, hfiles, hwritten, hnothing⟩ := exists_files_limitBelowSilence
  constructor
  · simp [hfiles, lastWritten, hwritten, hnothing, Table.get?]
  · have hlast := under_load .maxFixPasses limitBelowSilence
    rw [hfiles] at hlast
    simpa [hnothing, Scalar.under, Scalar.meaning, Scalar.builtIn] using hlast

end Settings

end TsxLint
