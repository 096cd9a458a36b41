/-
Module: TsxLint.Proofs.Settings.Reading
Purpose: What the settings that are read from a file take from its members.
Main exports: Settings.ofMembers_eq_ok_iff, Scalar, Settings.ReadFrom.under_eq,
  Settings.get?_of_readTable
-/
import TsxLint.Settings.Record
import TsxLint.Proofs.Json.Keys
import TsxLint.Proofs.Outcome

namespace TsxLint

/-!
The data of a settings file hold an object, and its members are read as settings.  A single
value is read on its own and has a stand-in where it is not written; an entry of a table is read
from the member that it is written as.  In settings that were read nothing tells any more which
single values were written and which are stand-ins.
-/

namespace Settings

/-! ### From data to members -/

/-- The members of the object that the data of a settings file hold. -/
def membersOf (data : ByteArray) : Outcome (Table Value) :=
  match Text.decode data with
  | .error e => .error (.malformedText e)
  | .ok text =>
    match Json.read (String.ofList (Text.unifyLineEnds text.toList)) with
    | .error e => .error (.malformedJson e)
    | .ok (.object members) => .ok members
    | .ok _ => .error .rootNotObject

theorem ofData_eq_bind (data : ByteArray) : ofData data = membersOf data >>= ofMembers := by
  unfold ofData membersOf
  cases Text.decode data with
  | error e => rfl
  | ok text =>
    simp only [ofText]
    cases Json.read (String.ofList (Text.unifyLineEnds text.toList)) with
    | error e => rfl
    | ok v => cases v <;> rfl

theorem keyed_of_membersOf {data : ByteArray} {members : Table Value}
    (h : membersOf data = .ok members) : (Value.object members).Keyed := by
  unfold membersOf at h
  split at h
  · cases h
  · split at h
    · cases h
    · next hread =>
      cases h
      exact Json.keyed_of_read hread
    · cases h

/-! ### From members to settings -/

/-- Settings hold what the members of an object say, and stand-ins for what they do not. -/
structure ReadFrom (members : Table Value) (s : Settings) : Prop where
  enabled : s.enabled = (Table.get? members "enabled").getD (.bool true)
  failOn : Severity.ofValue
    (.str (Text.lower ((Table.get? members "failOnSeverity").getD (.str "low")).display)) =
      .ok s.failOn
  continueOnError : s.continueOnError = (Table.get? members "continueOnError").getD (.bool true)
  maxFixPasses : s.maxFixPasses = (Table.get? members "maxFixPasses").getD (.int 10)
  isPassLimit : isPassLimit s.maxFixPasses = true
  categories : readTable (fun v => v.member "enabled" (.bool true))
    (Table.get? members "categories") = .ok s.categories
  rules : readTable RuleSettings.ofValue (Table.get? members "rules") = .ok s.rules

theorem ofMembers_eq_ok_iff {members : Table Value} {s : Settings} :
    ofMembers members = .ok s ↔ ReadFrom members s := by
  constructor
  · intro h
    obtain ⟨failOn, hfailOn, h⟩ := Outcome.exists_of_bind_eq_ok h
    dsimp only at h
    split at h
    · cases h
    · next hlimit =>
      obtain ⟨categories, hcategories, h⟩ := Outcome.exists_of_bind_eq_ok h
      obtain ⟨rules, hrules, h⟩ := Outcome.exists_of_bind_eq_ok h
      cases h
      exact ⟨rfl, hfailOn, rfl, rfl, by simpa using hlimit, hcategories, hrules⟩
  · rintro ⟨henabled, hfailOn, hcontinue, hmax, hlimit, hcategories, hrules⟩
    rw [hmax] at hlimit
    simp only [ofMembers, hfailOn, hlimit, hcategories, hrules, Outcome.ok_bind]
    rw [← henabled, ← hcontinue, ← hmax]
    rfl

end Settings

/-! ### Single values -/

/-- The settings that are single values. -/
inductive Scalar where
  | enabled
  | failOn
  | continueOnError
  | maxFixPasses
deriving DecidableEq, Repr

namespace Scalar

/-- The key under which a file writes a single value. -/
def name : Scalar → String
  | .enabled => "enabled"
  | .failOn => "failOnSeverity"
  | .continueOnError => "continueOnError"
  | .maxFixPasses => "maxFixPasses"

/-- What stands in for a single value that is not written. -/
def builtIn : Scalar → Value
  | .enabled => .bool true
  | .failOn => .str "low"
  | .continueOnError => .bool true
  | .maxFixPasses => .int 10

/-- What a written value stands for: names of severities are read without regard to case. -/
def meaning : Scalar → Value → Value
  | .failOn, v => .str (Text.lower v.display)
  | _, v => v

/-- A single value in settings. -/
def under : Scalar → Settings → Value
  | .enabled, s => s.enabled
  | .failOn, s => .str s.failOn.name
  | .continueOnError, s => s.continueOnError
  | .maxFixPasses, s => s.maxFixPasses

/-- Single values are taken from the upper of two settings. -/
theorem under_merge (k : Scalar) (lower upper : Settings) :
    k.under (lower.merge upper) = k.under upper := by
  cases k <;> rfl

/-- The settings that all others are laid over hold the stand-ins. -/
theorem under_default (k : Scalar) : k.under Settings.default = k.meaning k.builtIn := by
  cases k with
  | failOn => cbv
  | _ => rfl

end Scalar

theorem Severity.name_of_ofValue {name : String} {s : Severity}
    (h : Severity.ofValue (.str name) = .ok s) : s.name = name := by
  simp only [Severity.ofValue] at h
  split at h
  · next hfound =>
    cases h
    simpa using List.find?_some hfound
  · cases h

theorem Settings.ReadFrom.under_eq {members : Table Value} {s : Settings}
    (h : Settings.ReadFrom members s) (k : Scalar) :
    k.under s = k.meaning ((Table.get? members k.name).getD k.builtIn) := by
  cases k with
  | enabled => exact h.enabled
  | failOn => exact congrArg Value.str (Severity.name_of_ofValue h.failOn)
  | continueOnError => exact h.continueOnError
  | maxFixPasses => exact h.maxFixPasses

/-! ### Entries of tables -/

theorem Value.eq_of_member {v w default : Value} {name : String}
    (h : v.member name default = .ok w) : w = (v.get? name).getD default := by
  cases v with
  | object members =>
    cases h
    rfl
  | _ => cases h

/-- The switch that the entry of a category stands for. -/
def Settings.switchOf (entry : Value) : Value := (entry.get? "enabled").getD (.bool true)

/-- The settings that the entry of a rule stands for. -/
def RuleSettings.ofEntry (entry : Value) : RuleSettings where
  enabled := (entry.get? "enabled").getD (.bool true)
  severity := (entry.get? "severity").getD .null
  parameters := (entry.get? "parameters").getD (.object [])

theorem RuleSettings.eq_of_ofValue {v : Value} {r : RuleSettings} (h : ofValue v = .ok r) :
    r = ofEntry v := by
  obtain ⟨enabled, henabled, h⟩ := Outcome.exists_of_bind_eq_ok h
  obtain ⟨severity, hseverity, h⟩ := Outcome.exists_of_bind_eq_ok h
  obtain ⟨parameters, hparameters, h⟩ := Outcome.exists_of_bind_eq_ok h
  obtain ⟨_, -, h⟩ := Outcome.exists_of_bind_eq_ok h
  cases h
  rw [Value.eq_of_member henabled, Value.eq_of_member hseverity, Value.eq_of_member hparameters]
  rfl

namespace Settings

section Tables

variable {α : Type} {read : Value → Outcome α} {meaning : Value → α}

/-- A table is read member by member, under the members' own keys. -/
theorem eq_map_of_readTable (hread : ∀ {v a}, read v = .ok a → a = meaning v)
    {members : Table Value} {table : Table α}
    (h : readTable read (some (.object members)) = .ok table) :
    table = members.map fun m => (m.1, meaning m.2) := by
  have hall := Outcome.mapM_eq_ok_iff.1 h
  clear h
  induction hall with
  | nil => rfl
  | cons hentry _ ih =>
    obtain ⟨a, ha, hentry⟩ := Outcome.exists_of_bind_eq_ok hentry
    cases hentry
    rw [List.map_cons, ← ih, hread ha]

theorem get?_map (members : Table Value) (key : String) :
    Table.get? (members.map fun m => (m.1, meaning m.2)) key =
      (Table.get? members key).map meaning := by
  induction members with
  | nil => rfl
  | cons m rest ih =>
    obtain ⟨k, v⟩ := m
    by_cases hk : k = key
    · simp [Table.get?, hk]
    · simpa [Table.get?, hk] using ih

/-- What is read under a key is what its member stands for. -/
theorem get?_of_readTable (hread : ∀ {v a}, read v = .ok a → a = meaning v) {v : Option Value}
    {table : Table α} (h : readTable read v = .ok table) (key : String) :
    Table.get? table key = (v.bind (·.get? key)).map meaning := by
  cases v with
  | none =>
    cases h
    rfl
  | some v =>
    cases v with
    | object members =>
      rw [eq_map_of_readTable hread h, get?_map]
      rfl
    | _ => cases h

/-- A table that is read from an object with distinct keys has distinct keys. -/
theorem nodup_keys_of_readTable (hread : ∀ {v a}, read v = .ok a → a = meaning v)
    {v : Option Value} (hv : ∀ w, v = some w → w.Keyed) {table : Table α}
    (h : readTable read v = .ok table) : (Table.keys table).Nodup := by
  cases v with
  | none =>
    cases h
    exact List.nodup_nil
  | some v =>
    cases v with
    | object members =>
      have hkeys : Table.keys table = Table.keys members := by
        rw [eq_map_of_readTable hread h]
        simp [Table.keys]
      rw [hkeys]
      exact (hv _ rfl).nodup_keys
    | _ => cases h

end Tables

end Settings

end TsxLint
