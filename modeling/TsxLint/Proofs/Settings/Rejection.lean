/-
Module: TsxLint.Proofs.Settings.Rejection
Purpose: Loading settings never fails, and a file that is rejected leaves no trace in them.
Main exports: Fault.isPassedOver, Settings.catchable_ofData, Settings.loadCatching,
  Settings.loadCatching_eq_ok, Settings.load_passes_over_rejected
-/
import Mathlib
import TsxLint.Settings.Layers
import TsxLint.Proofs.Outcome

namespace TsxLint

open Outcome (FailsOnly)

/-!
Reading a settings file goes through values of any shape, and each wrong shape is noticed at
another place with another class of fault.  Loading passes over five classes only: malformed text,
malformed JSON, a value that is wrong in itself, a value without the member that is asked of it,
and a path that is no file.  No fault of reading is of any other class, so loading with these five
caught is the loading that passes over every fault.
-/

/-- Whether loading passes over a settings file with this fault. -/
def Fault.isPassedOver (fault : Fault) : Bool :=
  ["JSONDecodeError", "IsADirectoryError", "UnicodeDecodeError", "ValueError",
    "AttributeError"].contains fault.kind

/-! ### Faults of reading -/

/-- Every fault of a computation is one that loading passes over. -/
abbrev Outcome.Catchable {α : Type} (o : Outcome α) : Prop :=
  FailsOnly (fun fault => fault.isPassedOver = true) o

theorem Outcome.Catchable.error {α : Type} {fault : Fault} (h : fault.isPassedOver = true) :
    Catchable (.error fault : Outcome α) := by
  intro other hother
  cases hother
  exact h

theorem Severity.catchable_ofValue (v : Value) : Outcome.Catchable (ofValue v) := by
  unfold ofValue
  split
  · split
    · exact .ok _
    · exact .error rfl
  · exact .error rfl

theorem Value.catchable_needMembers (v : Value) : Outcome.Catchable v.needMembers := by
  cases v with
  | object members => exact .ok members
  | _ => exact .error rfl

theorem Value.catchable_member (v : Value) (name : String) (default : Value) :
    Outcome.Catchable (v.member name default) := by
  cases v with
  | object members => exact .ok _
  | _ => exact .error rfl

namespace RuleSettings

theorem catchable_severity? (s : RuleSettings) : Outcome.Catchable s.severity? := by
  unfold severity?
  split
  · split
    · exact (Severity.catchable_ofValue _).map some
    · exact .error rfl
  · exact .ok none

theorem catchable_ofValue (v : Value) : Outcome.Catchable (ofValue v) := by
  refine (v.catchable_member "enabled" (.bool true)).bind fun enabled => ?_
  refine (v.catchable_member "severity" .null).bind fun severity => ?_
  refine (v.catchable_member "parameters" (.object [])).bind fun parameters => ?_
  exact (catchable_severity? ⟨enabled, severity, parameters⟩).bind fun _ => .ok _

end RuleSettings

namespace Settings

theorem catchable_readTable {α : Type} {read : Value → Outcome α}
    (hread : ∀ v, Outcome.Catchable (read v)) (v : Option Value) :
    Outcome.Catchable (readTable read v) := by
  cases v with
  | none => exact .ok []
  | some v =>
    refine v.catchable_needMembers.bind fun members => ?_
    exact .mapM fun m _ => (hread m.2).bind fun _ => .ok _

theorem catchable_ofMembers (members : List (String × Value)) :
    Outcome.Catchable (ofMembers members) := by
  refine (Severity.catchable_ofValue _).bind fun failOn => ?_
  dsimp only
  split
  · exact Outcome.Catchable.error rfl
  · refine (catchable_readTable (fun v => v.catchable_member _ _) _).bind fun categories => ?_
    exact (catchable_readTable RuleSettings.catchable_ofValue _).bind fun _ => .ok _

theorem catchable_ofText (text : String) : Outcome.Catchable (ofText text) := by
  unfold ofText
  split
  · next v _ =>
    cases v with
    | object members => exact catchable_ofMembers members
    | _ => exact .error rfl
  · next e _ =>
    cases e with
    | malformed problem line column offset => exact .error rfl
    | longInteger digits => exact .error rfl

/-- Whatever the data of a settings file are, a fault of reading them is one to pass over. -/
theorem catchable_ofData (data : ByteArray) : Outcome.Catchable (ofData data) := by
  unfold ofData
  split
  · exact catchable_ofText _
  · exact .error rfl

end Settings

theorem Layer.isPassedOver_of_read? {l : Layer} {fault : Fault}
    (h : l.read? = some (.error fault)) : fault.isPassedOver = true := by
  obtain ⟨path, content⟩ := l
  cases content with
  | absent => cases h
  | directory =>
    cases h
    rfl
  | data bytes => exact Settings.catchable_ofData bytes fault (Option.some.inj h)

/-! ### Loading with the faults to pass over caught -/

/-- Lays one layer over what is loaded; a fault that is not to be passed over ends it. -/
def LoadedSettings.addCatching (loaded : LoadedSettings) (l : Layer) : Outcome LoadedSettings :=
  match l.read? with
  | none => .ok loaded
  | some (.ok s) =>
    .ok { loaded with settings := loaded.settings.merge s, sources := loaded.sources ++ [l.path] }
  | some (.error fault) =>
    if fault.isPassedOver then .ok { loaded with rejected := loaded.rejected ++ [(l.path, fault)] }
    else .error fault

theorem LoadedSettings.addCatching_eq_ok (loaded : LoadedSettings) (l : Layer) :
    loaded.addCatching l = .ok (loaded.add l) := by
  unfold addCatching add
  cases hread : l.read? with
  | none => rfl
  | some read =>
    cases read with
    | ok s => rfl
    | error fault => exact if_pos (Layer.isPassedOver_of_read? hread)

namespace Settings

/-- Loads layers over the default settings; a fault that is not to be passed over ends it. -/
def loadCatching (layers : List Layer) : Outcome LoadedSettings :=
  layers.foldlM LoadedSettings.addCatching ⟨default, [], []⟩

/-- Loading never ends in a fault. -/
theorem loadCatching_eq_ok (layers : List Layer) : loadCatching layers = .ok (load layers) := by
  have hfrom : ∀ loaded : LoadedSettings, layers.foldlM LoadedSettings.addCatching loaded =
      .ok (layers.foldl LoadedSettings.add loaded) := by
    induction layers with
    | nil => exact fun _ => rfl
    | cons l rest ih =>
      intro loaded
      rw [List.foldlM_cons, loaded.addCatching_eq_ok, Outcome.ok_bind, ih, List.foldl_cons]
  exact hfrom _

end Settings

/-! ### What a rejected file leaves -/

namespace LoadedSettings

/-- Two loads agree but for the files that were rejected. -/
structure Agrees (a b : LoadedSettings) : Prop where
  settings : a.settings = b.settings
  sources : a.sources = b.sources

/-- One layer keeps two loads in agreement: what is rejected is never read again. -/
theorem Agrees.add {a b : LoadedSettings} (h : Agrees a b) (l : Layer) :
    Agrees (a.add l) (b.add l) := by
  unfold LoadedSettings.add
  cases l.read? with
  | none => exact h
  | some read =>
    cases read with
    | ok s => exact ⟨congrArg (·.merge s) h.settings, congrArg (· ++ [l.path]) h.sources⟩
    | error fault => exact ⟨h.settings, h.sources⟩

theorem Agrees.foldl_add {a b : LoadedSettings} (h : Agrees a b) (layers : List Layer) :
    Agrees (layers.foldl LoadedSettings.add a) (layers.foldl LoadedSettings.add b) := by
  induction layers generalizing a b with
  | nil => exact h
  | cons l rest ih => exact ih (h.add l)

theorem agrees_add_of_rejected {l : Layer} {fault : Fault} (h : l.read? = some (.error fault))
    (loaded : LoadedSettings) : Agrees (loaded.add l) loaded := by
  rw [add, h]
  exact ⟨rfl, rfl⟩

end LoadedSettings

/-- The same place without anything there. -/
def Layer.emptied (l : Layer) : Layer := { l with content := .absent }

namespace Settings

theorem agrees_load_of_rejected {l : Layer} {fault : Fault} (h : l.read? = some (.error fault))
    (before after : List Layer) :
    LoadedSettings.Agrees (load (before ++ l :: after)) (load (before ++ l.emptied :: after)) := by
  unfold load
  rw [List.foldl_append, List.foldl_append, List.foldl_cons, List.foldl_cons]
  exact (LoadedSettings.agrees_add_of_rejected h _).foldl_add after

/-- Whatever there is at the places of the settings files, loading ends normally.  A file that is
rejected contributes nothing: without it the same settings are loaded, from the same files. -/
theorem load_passes_over_rejected (layers : List Layer) :
    ∃ loaded, loadCatching layers = .ok loaded ∧
      ∀ before l after fault, layers = before ++ l :: after → l.read? = some (.error fault) →
        ∃ without, loadCatching (before ++ l.emptied :: after) = .ok without ∧
          loaded.settings = without.settings ∧ loaded.sources = without.sources := by
  refine ⟨load layers, loadCatching_eq_ok layers, ?_⟩
  rintro before l after fault rfl hrejected
  have hagrees := agrees_load_of_rejected hrejected before after
  exact ⟨_, loadCatching_eq_ok _, hagrees.settings, hagrees.sources⟩

/-- A limit on passes in the user's file, a project's file that asks for a severity that is a
number, and a directory in the place of the local file. -/
def limitAmongRejected : List Layer :=
  [⟨⟨"/", ["home", fileName]⟩, .data "\x7b\x22maxFixPasses\x22: 3\x7d".toUTF8⟩,
    ⟨⟨"/", ["project", fileName]⟩,
      .data "\x7b\x22rules\x22: \x7b\x22R\x22: \x7b\x22severity\x22: 1\x7d\x7d\x7d".toUTF8⟩,
    ⟨⟨"/", ["project", localFileName]⟩, .directory⟩]

/-- Both rejected files leave the limit as it is, and each could as well not be there. -/
theorem load_passes_over_number_as_severity :
    (∃ fault, (limitAmongRejected[1]).read? = some (.error fault)) ∧
      ∃ loaded without, loadCatching limitAmongRejected = .ok loaded ∧
        loadCatching [limitAmongRejected[0], limitAmongRejected[1].emptied, limitAmongRejected[2]] =
          .ok without ∧
        loaded.settings = without.settings ∧ loaded.sources = without.sources := by
  have hrejected : (limitAmongRejected[1]).read? = some (.error (.noMember "int" "lower")) := by
    have hfault : ofText "\x7b\x22rules\x22: \x7b\x22R\x22: \x7b\x22severity\x22: 1\x7d\x7d\x7d" =
        .error (.noMember "int" "lower") := by
      cbv
    simp only [limitAmongRejected, List.getElem_cons_succ, List.getElem_cons_zero, Layer.read?,
      ofData, Text.decode_toUTF8, hfault]
  obtain ⟨loaded, hloaded, heach⟩ := load_passes_over_rejected limitAmongRejected
  obtain ⟨without, hwithout, hsame⟩ := heach [limitAmongRejected[0]] limitAmongRejected[1]
    [limitAmongRejected[2]] _ rfl hrejected
  exact ⟨⟨_, hrejected⟩, loaded, without, hloaded, hwithout, hsame⟩

end Settings

end TsxLint
