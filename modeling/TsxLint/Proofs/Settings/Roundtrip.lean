/-
Module: TsxLint.Proofs.Settings.Roundtrip
Purpose: The written form of settings is read back as settings with the same written form.
Main exports: Settings.LaidFrom, Settings.Kept, Settings.plain, Settings.ofValue_value,
  Settings.Writable, Settings.loadExplicit_of_reads, Settings.loadExplicit_shown,
  Settings.laidFrom_of_ends_loadSettings
-/
import Mathlib
import TsxLint.Command.Listing
import TsxLint.Proofs.Command.Shell
import TsxLint.Proofs.Json.Ascii
import TsxLint.Proofs.Settings.Reading

namespace TsxLint

/-!
The written form of settings leaves out severities and parameters that count as false, and reading
puts stand-ins in their place, which are left out in turn.  So settings that are read from a
written form are the settings that were written with stand-ins for whatever counts as false
(`Settings.plain`).  For them to be accepted, the limit on passes and the severities have to be
ones that reading accepts, which merging keeps.

Merging also keeps that a text can hold every value in settings.  So their written form can be
printed, and what is printed is read as the written form again.  The settings that a command goes
by are of this kind, whether they are from several places or from one file that is named
(`Settings.laidFrom_of_ends_loadSettings`).  Values are the same if they are written alike, down to
the type of a number and the sign of a zero; so the one bit pattern that text has for what is no
number is the same as itself.
-/

namespace RuleSettings

/-- A rule's settings with stand-ins for a severity or parameters that count as false. -/
def plain (r : RuleSettings) : RuleSettings where
  enabled := r.enabled
  severity := if r.severity.truthy then r.severity else .null
  parameters := if r.parameters.truthy then r.parameters else .object []

theorem truthy_null : Value.null.truthy = false := rfl

theorem truthy_empty : (Value.object []).truthy = false := rfl

theorem value_plain (r : RuleSettings) : r.plain.value = r.value := by
  by_cases hs : r.severity.truthy = true <;> by_cases hp : r.parameters.truthy = true <;>
    simp [plain, value, hs, hp, truthy_null, truthy_empty]

theorem severity?_plain (r : RuleSettings) : r.plain.severity? = r.severity? := by
  by_cases hs : r.severity.truthy = true
  · simp [plain, severity?, hs]
  · simp [plain, severity?, hs, truthy_null]

/-- What the members of the written form say, or the stand-ins. -/
theorem ofEntry_value (r : RuleSettings) : ofEntry r.value = r.plain := by
  by_cases hs : r.severity.truthy = true <;> by_cases hp : r.parameters.truthy = true <;>
    simp [ofEntry, plain, value, hs, hp, Value.get?, Table.get?]

/-- Whether reading accepts the severity. -/
def NamesSeverity (r : RuleSettings) : Prop := ∃ severity, r.severity? = .ok severity

theorem ofValue_value {r : RuleSettings} (h : r.NamesSeverity) : ofValue r.value = .ok r.plain := by
  obtain ⟨severity, hseverity⟩ := h
  have hmember (name : String) (default : Value) : r.value.member name default =
      .ok ((r.value.get? name).getD default) := rfl
  have hread : (⟨(r.value.get? "enabled").getD (.bool true), (r.value.get? "severity").getD .null,
      (r.value.get? "parameters").getD (.object [])⟩ : RuleSettings) = r.plain := ofEntry_value r
  simp only [ofValue, hmember, Outcome.ok_bind, hread, severity?_plain, hseverity]
  rfl

theorem namesSeverity_of_ofValue {v : Value} {r : RuleSettings} (h : ofValue v = .ok r) :
    r.NamesSeverity := by
  obtain ⟨enabled, -, h⟩ := Outcome.exists_of_bind_eq_ok h
  obtain ⟨severity, -, h⟩ := Outcome.exists_of_bind_eq_ok h
  obtain ⟨parameters, -, h⟩ := Outcome.exists_of_bind_eq_ok h
  obtain ⟨found, hfound, h⟩ := Outcome.exists_of_bind_eq_ok h
  cases h
  exact ⟨found, hfound⟩

end RuleSettings

namespace Settings

/-! ### Settings that are read and merged -/

/-- Settings that are laid over the default ones, one after the other, each read from a value with a
property. -/
inductive LaidFrom (P : Value → Prop) : Settings → Prop where
  | default : LaidFrom P default
  | merge {lower upper : Settings} {v : Value} (hlower : LaidFrom P lower) (hv : P v)
      (hread : ofValue v = .ok upper) : LaidFrom P (lower.merge upper)

theorem LaidFrom.imp {P Q : Value → Prop} (hPQ : ∀ v, P v → Q v) {s : Settings}
    (h : LaidFrom P s) : LaidFrom Q s := by
  induction h with
  | default => exact .default
  | merge _ hv hread ih => exact .merge ih (hPQ _ hv) hread

/-- What reading makes sure of and merging keeps. -/
structure Kept (s : Settings) : Prop where
  isPassLimit : isPassLimit s.maxFixPasses = true
  nodup_categories : (Table.keys s.categories).Nodup
  nodup_rules : (Table.keys s.rules).Nodup
  namesSeverity : ∀ r ∈ s.rules, r.2.NamesSeverity
  /-- The default categories come first. -/
  defaults : Table.keys default.categories <+: Table.keys s.categories

theorem kept_default : Kept default where
  isPassLimit := rfl
  nodup_categories := by decide
  nodup_rules := List.nodup_nil
  namesSeverity r hr := by cases hr
  defaults := List.prefix_refl _

/-- Every entry of a table that is read was read from a member. -/
theorem exists_of_mem_readTable {α : Type} {read : Value → Outcome α} {v : Option Value}
    {table : Table α} (h : readTable read v = .ok table) {entry : String × α}
    (hentry : entry ∈ table) :
    ∃ members w, v = some (.object members) ∧ (entry.1, w) ∈ members ∧ read w = .ok entry.2 := by
  cases v with
  | none =>
    cases h
    cases hentry
  | some v =>
    obtain ⟨members, hmembers, h⟩ := Outcome.exists_of_bind_eq_ok h
    obtain ⟨m, hmem, hm⟩ := Outcome.exists_of_mem_mapM h hentry
    obtain ⟨a, ha, hm⟩ := Outcome.exists_of_bind_eq_ok hm
    cases hm
    cases v with
    | object =>
      cases hmembers
      exact ⟨members, m.2, rfl, hmem, ha⟩
    | _ => cases hmembers

/-- The members of a value that settings are read from. -/
theorem exists_members_of_ofValue {v : Value} {s : Settings} (h : ofValue v = .ok s) :
    ∃ members, v = .object members ∧ ReadFrom members s := by
  cases v with
  | object members => exact ⟨members, rfl, ofMembers_eq_ok_iff.1 h⟩
  | _ => cases h

theorem Kept.merge {lower upper : Settings} (h : Kept lower) {v : Value} (hv : v.Keyed)
    (hread : ofValue v = .ok upper) : Kept (lower.merge upper) := by
  obtain ⟨members, rfl, hfrom⟩ := exists_members_of_ofValue hread
  have hcategories : (Table.keys upper.categories).Nodup :=
    nodup_keys_of_readTable Value.eq_of_member (fun _ => hv.of_get?) hfrom.categories
  refine ⟨hfrom.isPassLimit, Table.nodup_keys_merge h.nodup_categories _,
    Table.nodup_keys_merge h.nodup_rules _, fun r hr => ?_,
    h.defaults.trans (Table.keys_prefix_merge _ hcategories)⟩
  rcases Table.mem_merge h.nodup_rules hr with hr | hr
  · exact h.namesSeverity r hr
  · obtain ⟨-, w, -, -, hw⟩ := exists_of_mem_readTable hfrom.rules hr
    exact RuleSettings.namesSeverity_of_ofValue hw

theorem LaidFrom.kept {s : Settings} (h : LaidFrom Value.Keyed s) : Kept s := by
  induction h with
  | default => exact kept_default
  | merge _ hv hread ih => exact ih.merge hv hread

/-! ### Reading what was written -/

/-- Settings with stand-ins for severities and parameters that count as false. -/
def plain (s : Settings) : Settings :=
  { s with rules := s.rules.map fun r => (r.1, r.2.plain) }

theorem value_plain (s : Settings) : s.plain.value = s.value := by
  simp [value, plain, RuleSettings.value_plain, Function.comp_def]

theorem readTable_of_forall {α β : Type} {read : Value → Outcome α} (write : β → Value)
    (meaning : β → α) {table : Table β}
    (h : ∀ entry ∈ table, read (write entry.2) = .ok (meaning entry.2)) :
    readTable read (some (.object (table.map fun entry => (entry.1, write entry.2)))) =
      .ok (table.map fun entry => (entry.1, meaning entry.2)) := by
  refine Outcome.mapM_eq_ok_iff.2 ?_
  rw [List.forall₂_map_left_iff, List.forall₂_map_right_iff, List.forall₂_same]
  intro entry hentry
  rw [h entry hentry]
  rfl

theorem ofValue_failOn (severity : Severity) :
    Severity.ofValue (.str (Text.lower (Value.str severity.name).display)) = .ok severity := by
  cases severity <;> cbv

/-- The written form of settings is read back. -/
theorem ofValue_value {s : Settings} (h : Kept s) : ofValue s.value = .ok s.plain := by
  refine ofMembers_eq_ok_iff.2 ⟨rfl, ofValue_failOn s.failOn, rfl, rfl, h.isPassLimit, ?_, ?_⟩
  · have htable : readTable (fun v => v.member "enabled" (.bool true))
        (some (.object (s.categories.map fun c => (c.1, .object [("enabled", c.2)])))) =
          .ok (s.categories.map id) :=
      readTable_of_forall (fun v => .object [("enabled", v)]) id fun c _ => rfl
    rwa [List.map_id] at htable
  · exact readTable_of_forall RuleSettings.value RuleSettings.plain
      fun r hr => RuleSettings.ofValue_value (h.namesSeverity r hr)

/-! ### Reading it from a file -/

theorem plain_keys (s : Settings) : Table.keys s.plain.rules = Table.keys s.rules := by
  simp [plain, Table.keys]

/-- The default settings below settings that were laid over them change nothing. -/
theorem merge_default_plain {s : Settings} (h : Kept s) : default.merge s.plain = s.plain := by
  have hcategories : Table.merge default.categories s.plain.categories = s.plain.categories :=
    Table.merge_eq_of_prefix h.nodup_categories h.defaults
  have hrules : Table.merge default.rules s.plain.rules = s.plain.rules :=
    Table.merge_eq_of_prefix (plain_keys s ▸ h.nodup_rules) List.nil_prefix
  rw [merge, hcategories, hrules]

/-- A file that holds the written form of settings is read as these settings. -/
theorem loadExplicit_of_reads {s : Settings} (h : Kept s) {data : ByteArray} {text : String}
    (hdecode : Text.decode data = .ok text)
    (hread : Json.read (String.ofList (Text.unifyLineEnds text.toList)) = .ok s.value) :
    loadExplicit data = .ok s.plain := by
  simp only [loadExplicit, ofData, hdecode, ofText, hread, ofValue_value h]
  exact congrArg Except.ok (merge_default_plain h)

/-! ### Values that a text can hold -/

end Settings

theorem Value.Writable.of_get? {v part : Value} {key : String} (h : v.Writable)
    (hpart : v.get? key = some part) : part.Writable := by
  cases h with
  | object nodup each => exact each _ (Table.mem_of_get? hpart)
  | _ => cases hpart

theorem Value.Writable.getD {v default : Value} (h : v.Writable) (hdefault : default.Writable)
    (key : String) : ((v.get? key).getD default).Writable := by
  cases hpart : v.get? key with
  | none => exact hdefault
  | some part => exact h.of_get? hpart

theorem Value.writable_empty : (Value.object []).Writable :=
  .object List.nodup_nil (List.forall_mem_nil _)

/-- A text can hold every value in a rule's settings. -/
structure RuleSettings.Writable (r : RuleSettings) : Prop where
  enabled : r.enabled.Writable
  severity : r.severity.Writable
  parameters : r.parameters.Writable

theorem RuleSettings.writable_of_ofValue {v : Value} (hv : v.Writable) {r : RuleSettings}
    (h : ofValue v = .ok r) : r.Writable := by
  rw [eq_of_ofValue h]
  exact ⟨hv.getD (.bool true) _, hv.getD .null _, hv.getD Value.writable_empty _⟩

theorem RuleSettings.Writable.value {r : RuleSettings} (h : r.Writable) : r.value.Writable := by
  obtain ⟨henabled, hseverity, hparameters⟩ := h
  unfold RuleSettings.value
  split <;> split <;>
    exact .object (by simp [Table.keys]) (by simp [henabled, hseverity, hparameters])

namespace Settings

/-- A text can hold every value in settings. -/
structure Writable (s : Settings) : Prop where
  enabled : s.enabled.Writable
  continueOnError : s.continueOnError.Writable
  maxFixPasses : s.maxFixPasses.Writable
  categories : ∀ c ∈ s.categories, c.2.Writable
  rules : ∀ r ∈ s.rules, r.2.Writable

theorem writable_default : Writable default where
  enabled := .bool true
  continueOnError := .bool true
  maxFixPasses := .int (by decide)
  categories c hc := by
    obtain ⟨name, -, rfl⟩ := List.mem_map.1 hc
    exact .bool true
  rules r hr := by cases hr

theorem writable_of_ofValue {v : Value} (hv : v.Writable) {s : Settings}
    (h : ofValue v = .ok s) : s.Writable := by
  obtain ⟨members, rfl, hfrom⟩ := exists_members_of_ofValue h
  have htable {name key : String} {w : Value} {table : Table Value}
      (hname : Table.get? members name = some (.object table)) (hw : (key, w) ∈ table) :
      w.Writable := by
    cases hv.of_get? hname with
    | object _ each => exact each _ hw
  refine ⟨?_, ?_, ?_, fun c hc => ?_, fun r hr => ?_⟩
  · rw [hfrom.enabled]
    exact hv.getD (.bool true) "enabled"
  · rw [hfrom.continueOnError]
    exact hv.getD (.bool true) "continueOnError"
  · rw [hfrom.maxFixPasses]
    exact hv.getD (.int (by decide)) "maxFixPasses"
  · obtain ⟨table, w, hname, hw, hread⟩ := exists_of_mem_readTable hfrom.categories hc
    rw [Value.eq_of_member hread]
    exact (htable hname hw).getD (.bool true) _
  · obtain ⟨table, w, hname, hw, hread⟩ := exists_of_mem_readTable hfrom.rules hr
    exact RuleSettings.writable_of_ofValue (htable hname hw) hread

theorem Writable.merge {lower upper : Settings} (hlower : lower.Writable)
    (hupper : upper.Writable) (hkept : Kept lower) : (lower.merge upper).Writable where
  enabled := hupper.enabled
  continueOnError := hupper.continueOnError
  maxFixPasses := hupper.maxFixPasses
  categories c hc := (Table.mem_merge hkept.nodup_categories hc).elim
    (hlower.categories c) (hupper.categories c)
  rules r hr := (Table.mem_merge hkept.nodup_rules hr).elim (hlower.rules r) (hupper.rules r)

theorem LaidFrom.writable {s : Settings} (h : LaidFrom Value.Writable s) : s.Writable := by
  induction h with
  | default => exact writable_default
  | merge hlower hv hread ih =>
    exact ih.merge (writable_of_ofValue hv hread) (hlower.imp fun _ => Value.Writable.keyed).kept

/-- A text can hold the written form of settings if it can hold the values in them. -/
theorem Writable.value {s : Settings} (h : s.Writable) (hkept : Kept s) : s.value.Writable := by
  have hcategories : (Value.object
      (s.categories.map fun c => (c.1, .object [("enabled", c.2)]))).Writable := by
    refine .object ?_ (List.forall_mem_map.2 fun c hc => .object (by simp [Table.keys]) ?_)
    · simpa [Table.keys, Function.comp_def] using hkept.nodup_categories
    · simpa using h.categories c hc
  have hrules : (Value.object (s.rules.map fun r => (r.1, r.2.value))).Writable := by
    refine .object ?_ (List.forall_mem_map.2 fun r hr => (h.rules r hr).value)
    simpa [Table.keys, Function.comp_def] using hkept.nodup_rules
  refine .object (by simp [Table.keys]) ?_
  simp [h.enabled, h.continueOnError, h.maxFixPasses, Value.Writable.str, hcategories, hrules]

/-! ### Printing it and reading it again -/

/-- What is printed of a value that a text can hold is read as this value. -/
theorem read_printed (r : Reporter) {v : Value} (h : v.Writable) :
    Json.read (String.ofList
      (Text.unifyLineEnds (r.echoLine .out (Json.indented v)).text.toList)) = .ok v := by
  have hascii : Json.InAscii (Json.indented v ++ "\n").toList := by
    rw [String.toList_append]
    exact (Json.inAscii_indented h).append (by decide)
  have hprinted : (r.echoLine .out (Json.indented v)).text = Json.indented v ++ "\n" := by
    simp only [Reporter.echoLine, Reporter.echo, Json.stripCodes_of_inAscii hascii, ite_self]
  rw [hprinted, String.toList_append]
  exact Json.read_unifyLineEnds_indented h (by simp [Json.IsGap, Json.isGap]) (by decide)

/-- The line that shows settings as JSON. -/
def shown (loaded : LoadedSettings) (r : Reporter) : Printed :=
  r.echoLine .out (Json.indented (Shell.loadedValue loaded false))

/-- Settings that are shown are read from what is shown. -/
theorem loadExplicit_shown {s : Settings} (h : Kept s) (hwritable : s.value.Writable)
    (r : Reporter) {loaded : LoadedSettings} (hloaded : loaded.settings = s) :
    loadExplicit (shown loaded r).text.toUTF8 = .ok s.plain := by
  subst hloaded
  exact loadExplicit_of_reads h (Text.decode_toUTF8 _) (read_printed r hwritable)

/-! ### Settings that commands have -/

/-- The settings in a file are read from a value that a text holds. -/
theorem exists_of_ofData {data : ByteArray} {s : Settings} (h : ofData data = .ok s) :
    ∃ v, (∃ text, Json.read text = .ok v) ∧ ofValue v = .ok s := by
  unfold ofData at h
  split at h
  · unfold ofText at h
    split at h
    · next v hread => exact ⟨v, ⟨_, hread⟩, h⟩
    · cases h
  · cases h

theorem laidFrom_load (layers : List Layer) :
    LaidFrom (fun v => ∃ text, Json.read text = .ok v) (load layers).settings := by
  induction layers using List.reverseRecOn with
  | nil => exact .default
  | append_singleton layers l ih =>
    have hload : load (layers ++ [l]) = (load layers).add l := List.foldl_append
    rw [hload]
    unfold LoadedSettings.add
    split
    · exact ih
    · next s hread =>
      obtain ⟨path, content⟩ := l
      cases content with
      | absent => cases hread
      | directory => cases hread
      | data bytes =>
        obtain ⟨v, hv, hs⟩ := exists_of_ofData (Option.some.inj hread)
        exact .merge ih hv hs
    · exact ih

theorem laidFrom_loadExplicit {data : ByteArray} {s : Settings} (h : loadExplicit data = .ok s) :
    LaidFrom (fun v => ∃ text, Json.read text = .ok v) s := by
  obtain ⟨upper, hupper, rfl⟩ := Outcome.exists_of_map_eq_ok h
  obtain ⟨v, hv, hread⟩ := exists_of_ofData hupper
  exact .merge .default hv hread

/-- A command that is given a settings file goes by what is in it. -/
theorem ends_loadSettings_of_named {σ : Type} {common : CommonOptions} {path : String}
    (hconfig : common.config = some path) (hnamed : path ≠ "") {before : ShellState σ}
    {s : Settings}
    (h : loadExplicit ((before.workspace.readAt path).getD ByteArray.empty) = .ok s)
    (quiet : Bool) :
    (Shell.loadSettings quiet common).ends before =
      (.ok ⟨s, [FilePath.parse path], []⟩, before) := by
  have hread : (Shell.explicitSettings path).ends before = (.ok s, before) := by
    rw [Shell.explicitSettings, Shell.ends_bind_of_ok (Shell.ends_workspace before), h,
      Shell.ends_pure]
  unfold Shell.loadSettings
  rw [hconfig]
  split
  · next hnone => cases hnone
  · next hempty => exact absurd (Option.some.inj hempty) hnamed
  · next hsome =>
    cases hsome
    exact Shell.ends_bind_of_ok hread

/-- The settings that a command goes by were laid over the default ones, each read from a text. -/
theorem laidFrom_of_ends_loadSettings {σ : Type} {quiet : Bool} {common : CommonOptions}
    {before after : ShellState σ} {loaded : LoadedSettings}
    (h : (Shell.loadSettings quiet common).ends before = (.ok loaded, after)) :
    LaidFrom (fun v => ∃ text, Json.read text = .ok v) loaded.settings := by
  unfold Shell.loadSettings at h
  split at h
  -- No file is named, or one without a name.
  case h_1 | h_2 =>
    obtain ⟨w, s₁, -, h⟩ := Shell.exists_of_ends_bind_ok h
    obtain ⟨-, s₂, -, h⟩ := Shell.exists_of_ends_bind_ok h
    cases h
    exact laidFrom_load _
  case h_3 =>
    obtain ⟨s, s₁, hs, h⟩ := Shell.exists_of_ends_bind_ok h
    cases h
    obtain ⟨w, s₂, -, hs⟩ := Shell.exists_of_ends_bind_ok hs
    split at hs
    · next hread =>
      cases hs
      exact laidFrom_loadExplicit hread
    · cases hs

/-- Settings that a command goes by can be shown as JSON, and what is shown is accepted as a file
that is named explicitly and has the same settings in it. -/
theorem loadExplicit_shown_of_ends {σ : Type} {quiet : Bool} {common : CommonOptions}
    {before after : ShellState σ} {loaded : LoadedSettings}
    (h : (Shell.loadSettings quiet common).ends before = (.ok loaded, after)) (r : Reporter) :
    ∃ t, loadExplicit (shown loaded r).text.toUTF8 = .ok t ∧
      t.value = loaded.settings.value := by
  have hwritable : LaidFrom Value.Writable loaded.settings :=
    (laidFrom_of_ends_loadSettings h).imp fun v ⟨_, hread⟩ => Json.writable_of_read hread
  have hkept := (hwritable.imp fun _ => Value.Writable.keyed).kept
  exact ⟨_, loadExplicit_shown hkept (hwritable.writable.value hkept) r rfl, value_plain _⟩

/-- Settings that were laid over the default ones have a written form that reading accepts, as a
value, as the contents of a file and as it is shown, and that the settings which are read have
again.  What is shown is accepted if a text can hold the values in it; of settings that a command
goes by that is sure. -/
theorem written_form_read_back {s : Settings} (h : LaidFrom Value.Keyed s) :
    (∃ t, ofValue s.value = .ok t ∧ t.value = s.value) ∧
      (∀ data text, Text.decode data = .ok text →
        Json.read (String.ofList (Text.unifyLineEnds text.toList)) = .ok s.value →
          ∃ t, loadExplicit data = .ok t ∧ t.value = s.value) ∧
      (s.value.Writable → ∀ (r : Reporter) (loaded : LoadedSettings), loaded.settings = s →
        ∃ t, loadExplicit (shown loaded r).text.toUTF8 = .ok t ∧ t.value = s.value) ∧
      ∀ (σ : Type) (quiet : Bool) (common : CommonOptions) (before after : ShellState σ)
        (loaded : LoadedSettings),
        (Shell.loadSettings quiet common).ends before = (.ok loaded, after) →
          loaded.settings = s → ∀ r : Reporter,
            ∃ t, loadExplicit (shown loaded r).text.toUTF8 = .ok t ∧ t.value = s.value := by
  refine ⟨⟨s.plain, ofValue_value h.kept, s.value_plain⟩, fun data text hdecode hread => ?_,
    fun hwritable r loaded hloaded => ?_,
    fun σ quiet common before after loaded hends hloaded r => ?_⟩
  · exact ⟨s.plain, loadExplicit_of_reads h.kept hdecode hread, s.value_plain⟩
  · exact ⟨s.plain, loadExplicit_shown h.kept hwritable r hloaded, s.value_plain⟩
  · subst hloaded
    exact loadExplicit_shown_of_ends hends r

/-- A rule with a severity in capitals and with parameters that count as false. -/
def loudRule : Value :=
  .object [("rules", .object [("R", .object [("severity", .str "HIGH"), ("parameters", .null)])])]

/-- The settings in it. -/
def loudSettings : Settings :=
  { initial with rules := [("R", ⟨.bool true, .str "HIGH", .null⟩)] }

/-- A text that holds it. -/
def loudText : String :=
  "\x7b\x22rules\x22: \x7b\x22R\x22: \x7b\x22severity\x22: " ++
    "\x22HIGH\x22, \x22parameters\x22: null\x7d\x7d\x7d"

/-- A working directory with a file of it. -/
def loudState : ShellState Unit where
  supply := ()
  workspace :=
    ⟨FilePath.parse "/work", [(["loud.json"], loudText.toUTF8)],
      ⟨⟨"/", ["home", "tsxguard.json"]⟩, .absent⟩⟩
  printed := []

/-- The options that name the file. -/
def loudOptions : CommonOptions := ⟨false, false, false, some "loud.json", none, "text"⟩

/-- The severity stays as it is written, and the parameters are left out: in the value, in a file
that does not end its last line and in what is shown, also by a command that is given the file. -/
theorem written_form_read_back_loudRule :
    ∃ upper, ofValue loudRule = .ok upper ∧
      ((default.merge upper).rules.map fun r => r.2.value) =
        [.object [("enabled", .bool true), ("severity", .str "HIGH")]] ∧
      (∃ t, ofValue (default.merge upper).value = .ok t ∧
        t.value = (default.merge upper).value) ∧
      (∃ t, loadExplicit (Json.indented (default.merge upper).value).toUTF8 = .ok t ∧
        t.value = (default.merge upper).value) ∧
      (∃ t, loadExplicit (shown ⟨default.merge upper, [], []⟩
        ⟨false, false, false, false⟩).text.toUTF8 = .ok t ∧
          t.value = (default.merge upper).value) ∧
      ∃ loaded, (Shell.loadSettings false loudOptions).ends loudState = (.ok loaded, loudState) ∧
        ∃ t, loadExplicit (shown loaded ⟨false, false, false, false⟩).text.toUTF8 = .ok t ∧
          t.value = (default.merge upper).value := by
  have hread : Json.read loudText = .ok loudRule := by cbv
  have hupper : ofValue loudRule = .ok loudSettings := by cbv
  have hlaid : LaidFrom Value.Writable (default.merge loudSettings) :=
    .merge .default (Json.writable_of_read hread) hupper
  have hkeyed := hlaid.imp fun _ => Value.Writable.keyed
  have hwritable := hlaid.writable.value hkeyed.kept
  have hfile : loadExplicit loudText.toUTF8 = .ok (default.merge loudSettings) := by
    have hunified : String.ofList (Text.unifyLineEnds loudText.toList) = loudText := by cbv
    simp only [loadExplicit, ofData, Text.decode_toUTF8, ofText, hunified, hread, hupper]
    rfl
  have hplace : loudState.workspace.readAt "loud.json" = some loudText.toUTF8 := by
    have hfollow : loudState.workspace.follow "loud.json" = some ["loud.json"] := by decide +kernel
    rw [Workspace.readAt, hfollow]
    rfl
  have hloaded : (Shell.loadSettings false loudOptions).ends loudState =
      (.ok ⟨default.merge loudSettings, [FilePath.parse "loud.json"], []⟩, loudState) :=
    ends_loadSettings_of_named rfl (by decide) (by rw [hplace]; exact hfile) false
  obtain ⟨hvalue, hdata, hshown, hcommand⟩ := written_form_read_back hkeyed
  refine ⟨_, hupper, by cbv, hvalue, hdata _ _ (Text.decode_toUTF8 _) ?_,
    hshown hwritable _ _ rfl, _, hloaded, hcommand _ _ _ _ _ _ hloaded rfl _⟩
  have hend := Json.read_unifyLineEnds_indented hwritable (List.forall_mem_nil _) Json.inAscii_nil
  rwa [List.append_nil] at hend

end Settings

end TsxLint
