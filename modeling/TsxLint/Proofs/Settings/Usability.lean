/-
Module: TsxLint.Proofs.Settings.Usability
Purpose: What can go wrong with settings that were accepted when they were read.
Main exports: Settings.Accepted, Value.IsLayable, Options.exists_overlay_iff,
  Settings.accepted_usable_iff
-/
import TsxLint.Engine.Run
import TsxLint.Proofs.Settings.Reading
import TsxLint.Proofs.Table
import TsxLint.Rules.Wrapper

namespace TsxLint

/-!
Reading tries the severity of every rule, so no accepted settings hold one that is no severity.
The parameters of a rule are kept as they are.  Only when the rule is to run are they laid over its
own, and that needs an object or a list of pairs.
-/

/-! ### What can be laid over options -/

namespace Value

/-- Lists and objects are no keys. -/
def IsKey : Value → Prop
  | .list _ | .object _ => False
  | _ => True

/-- A value with two items, of which the first is a key. -/
def IsPair (item : Value) : Prop := ∃ k v, item.items? = some [k, v] ∧ k.IsKey

/-- An object, or a value whose items are pairs. -/
def IsLayable (v : Value) : Prop :=
  (∃ members, v = .object members) ∨ ∃ items, v.items? = some items ∧ ∀ item ∈ items, item.IsPair

theorem exists_key_iff (v : Value) : (∃ name, v.key = .ok name) ↔ v.IsKey := by
  cases v <;> simp [key, IsKey]

end Value

namespace Options

theorem exists_overlayPairs_iff (table : Options) (index : Nat) (items : List Value) :
    (∃ options, overlayPairs table index items = .ok options) ↔ ∀ item ∈ items, item.IsPair := by
  induction items generalizing table index with
  | nil => exact ⟨fun _ => List.forall_mem_nil _, fun _ => ⟨table, rfl⟩⟩
  | cons item rest ih =>
    rw [List.forall_mem_cons]
    constructor
    · rintro ⟨options, h⟩
      rw [overlayPairs] at h
      split at h
      · cases h
      · next k v hitems =>
        obtain ⟨name, hname, h⟩ := Outcome.exists_of_bind_eq_ok h
        exact ⟨⟨k, v, hitems, (Value.exists_key_iff k).1 ⟨name, hname⟩⟩, (ih _ _).1 ⟨options, h⟩⟩
      · cases h
    · rintro ⟨⟨k, v, hitems, hkey⟩, hrest⟩
      obtain ⟨name, hname⟩ := (Value.exists_key_iff k).2 hkey
      rw [overlayPairs, hitems]
      simp only [hname, Outcome.ok_bind]
      exact (ih _ _).2 hrest

/-- A value can be laid over options exactly if it is an object or its items are pairs. -/
theorem exists_overlay_iff (table : Options) (v : Value) :
    (∃ options, overlay table v = .ok options) ↔ v.IsLayable := by
  by_cases hobject : ∃ members, v = .object members
  · obtain ⟨members, rfl⟩ := hobject
    exact ⟨fun _ => .inl ⟨members, rfl⟩, fun _ => ⟨_, rfl⟩⟩
  · have hoverlay : overlay table v =
        v.items?.elim (.error (.notIterable v.typeName)) (overlayPairs table 0) := by
      cases v with
      | object members => exact absurd ⟨members, rfl⟩ hobject
      | _ => rfl
    rw [hoverlay, Value.IsLayable, or_iff_right hobject]
    cases hitems : v.items? with
    | none => simp
    | some items => simp [exists_overlayPairs_iff]

end Options

/-! ### Accepted settings -/

/-- The severity that settings of a rule ask for is one. -/
def RuleSettings.HasSeverity (r : RuleSettings) : Prop := ∃ severity, r.severity? = .ok severity

theorem RuleSettings.hasSeverity_of_ofValue {v : Value} {r : RuleSettings}
    (h : ofValue v = .ok r) : r.HasSeverity := by
  obtain ⟨enabled, -, h⟩ := Outcome.exists_of_bind_eq_ok h
  obtain ⟨severity, -, h⟩ := Outcome.exists_of_bind_eq_ok h
  obtain ⟨parameters, -, h⟩ := Outcome.exists_of_bind_eq_ok h
  obtain ⟨asked, hasked, h⟩ := Outcome.exists_of_bind_eq_ok h
  cases h
  exact ⟨asked, hasked⟩

namespace Settings

/-- Settings that a run can have: the ones that all others are laid over, those that are read, and
those laid over others. -/
inductive Accepted : Settings → Prop
  | default : Accepted default
  | read {v : Value} {s : Settings} (h : ofValue v = .ok s) : Accepted s
  | merge {lower upper : Settings} (hlower : Accepted lower) (hupper : Accepted upper) :
      Accepted (lower.merge upper)

theorem hasSeverity_of_ofValue {v : Value} {s : Settings} (h : ofValue v = .ok s) :
    ∀ r ∈ Table.values s.rules, r.HasSeverity := by
  cases v with
  | object members =>
    have hrules := (ofMembers_eq_ok_iff.1 h).rules
    intro r hr
    obtain ⟨entry, hentry, rfl⟩ := List.mem_map.1 hr
    cases hwritten : Table.get? members "rules" with
    | none =>
      rw [hwritten] at hrules
      rw [← Except.ok.inj hrules] at hentry
      cases hentry
    | some w =>
      rw [hwritten] at hrules
      obtain ⟨entries, -, hrules⟩ := Outcome.exists_of_bind_eq_ok hrules
      obtain ⟨m, -, hm⟩ := Outcome.exists_of_mem_mapM hrules hentry
      obtain ⟨read, hread, hm⟩ := Outcome.exists_of_bind_eq_ok hm
      cases hm
      exact RuleSettings.hasSeverity_of_ofValue hread
  | _ => cases h

theorem Accepted.hasSeverity {s : Settings} (h : s.Accepted) :
    ∀ r ∈ Table.values s.rules, r.HasSeverity := by
  induction h with
  | default =>
    intro r hr
    cases hr
  | read h => exact hasSeverity_of_ofValue h
  | merge _ _ ihlower ihupper =>
    intro r hr
    rcases Table.mem_values_of_mem_merge hr with hr | hr
    · exact ihlower r hr
    · exact ihupper r hr

theorem Accepted.hasSeverity_ofRule {s : Settings} (h : s.Accepted) (id : String) :
    (s.ofRule id).HasSeverity := by
  rw [ofRule]
  cases hfound : Table.get? s.rules id with
  | none => exact ⟨none, rfl⟩
  | some r => exact h.hasSeverity r (List.mem_map_of_mem (f := (·.2)) (Table.mem_of_get? hfound))

/-- The written form of settings that give parameters to one rule. -/
def giving (id : String) (parameters : Value) : Value :=
  .object [("rules", .object [(id, .object [("parameters", parameters)])])]

/-- Reading does not look at parameters: whatever they are, they get into the settings. -/
theorem exists_ofValue_giving (s : Settings) (id : String) (parameters : Value) :
    ∃ t, ofValue (giving id parameters) = .ok t ∧
      ((s.merge t).ofRule id).parameters = parameters := by
  refine ⟨{ initial with
    rules := [(id, { RuleSettings.initial with parameters := parameters })] }, ?_, ?_⟩
  · exact ofMembers_eq_ok_iff.2 ⟨rfl, by cbv, rfl, rfl, rfl, rfl, rfl⟩
  · have hget := Table.get?_put_self s.rules id
      { RuleSettings.initial with parameters := parameters }
    rw [ofRule]
    exact congrArg (fun r => (Option.getD r .initial).parameters) hget

/-- Under accepted settings the severity of a rule fails only if the rule has none by itself.  Its
options can be made up exactly if the parameters in the settings are an object or a list of pairs;
if they are not, the rule fails on every file.  Any parameters are accepted, on top of any accepted
settings. -/
theorem accepted_usable_iff {s : Settings} (h : s.Accepted) (rule : Rule) :
    (∀ id fault, rule.severityUnder (s.ofRule id) = .error fault → rule.severity = .error fault) ∧
      (∀ id, (∃ options, rule.optionsUnder (s.ofRule id) = .ok options) ↔
        (s.ofRule id).parameters.IsLayable) ∧
      (¬ (s.ofRule rule.id).parameters.IsLayable →
        ∀ source, ∃ fault, rule.check s source = .error fault) ∧
      ∀ id parameters, ∃ t, ofValue (giving id parameters) = .ok t ∧
        ((s.merge t).ofRule id).parameters = parameters := by
  refine ⟨fun id fault hfault => ?_, fun id => Options.exists_overlay_iff _ _,
    fun hlayable source => ?_, exists_ofValue_giving s⟩
  · obtain ⟨asked, hasked⟩ := h.hasSeverity_ofRule id
    rw [Rule.severityUnder, hasked] at hfault
    cases asked with
    | none => exact hfault
    | some severity => cases hfault
  · cases hoptions : rule.optionsUnder (s.ofRule rule.id) with
    | error fault => exact ⟨fault, by rw [Rule.check]; simp only [hoptions]; rfl⟩
    | ok options => exact absurd ((Options.exists_overlay_iff _ _).1 ⟨options, hoptions⟩) hlayable

/-- A list with a pair as the parameters of a rule is accepted and can be used. -/
theorem listed_pair_usable :
    ∃ s options severity, ofValue (giving "SIMPLIFICATION.UNNECESSARY_WRAPPER"
        (.list [.list [.str "elements", .list [.str "span"]]])) = .ok s ∧
      Wrapper.rule.optionsUnder
        ((default.merge s).ofRule "SIMPLIFICATION.UNNECESSARY_WRAPPER") = .ok options ∧
      Wrapper.rule.severityUnder
        ((default.merge s).ofRule "SIMPLIFICATION.UNNECESSARY_WRAPPER") = .ok severity := by
  obtain ⟨s, hs, hparameters⟩ :=
    exists_ofValue_giving default "SIMPLIFICATION.UNNECESSARY_WRAPPER"
      (.list [.list [.str "elements", .list [.str "span"]]])
  have haccepted : (default.merge s).Accepted := .merge .default (.read hs)
  obtain ⟨hseverity, hoptions, -⟩ := accepted_usable_iff haccepted Wrapper.rule
  have hlayable :
      ((default.merge s).ofRule "SIMPLIFICATION.UNNECESSARY_WRAPPER").parameters.IsLayable := by
    rw [hparameters]
    exact .inr ⟨_, rfl, List.forall_mem_singleton.2 ⟨_, _, rfl, trivial⟩⟩
  obtain ⟨options, hoptions⟩ := (hoptions _).2 hlayable
  cases hfound : Wrapper.rule.severityUnder
      ((default.merge s).ofRule "SIMPLIFICATION.UNNECESSARY_WRAPPER") with
  | error fault => cases hseverity _ fault hfound
  | ok severity => exact ⟨s, options, severity, hs, hoptions, hfound⟩

/-- A number as the parameters of a rule is accepted, and the rule cannot be run with it. -/
theorem number_as_parameters_unusable :
    ∃ s, ofValue (giving "SIMPLIFICATION.UNNECESSARY_WRAPPER" (.int 5)) = .ok s ∧
      Wrapper.rule.optionsUnder
        ((default.merge s).ofRule "SIMPLIFICATION.UNNECESSARY_WRAPPER") =
          .error (.notIterable "int") := by
  obtain ⟨s, hs, hparameters⟩ :=
    exists_ofValue_giving default "SIMPLIFICATION.UNNECESSARY_WRAPPER" (.int 5)
  refine ⟨s, hs, ?_⟩
  rw [Rule.optionsUnder, hparameters]
  rfl

end Settings

end TsxLint
