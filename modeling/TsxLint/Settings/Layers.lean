/-
Module: TsxLint.Settings.Layers
Purpose: Settings from several files, each laid over the ones before.
Main exports: Layer, LoadedSettings, Settings.load, Settings.loadExplicit
-/
import TsxLint.Settings.Record
import TsxLint.Source.Path

namespace TsxLint

/-!
Settings come from up to three files: the user's, the project's and the
project's local ones.  Each that can be read is laid over what there is; one that
cannot be read is passed over and remembered.  A file that is named explicitly is
the only one and has to be readable.
-/

/-- What there is at the path of a settings file. -/
inductive LayerContent where
  | absent
  | directory
  | data (bytes : ByteArray)

/-- A place where settings may be. -/
structure Layer where
  path : FilePath
  content : LayerContent

/-- Settings from files. -/
structure LoadedSettings where
  settings : Settings
  /-- The files that were used, in order. -/
  sources : List FilePath
  /-- The files that could not be used, in order. -/
  rejected : List (FilePath × Fault)

namespace Layer

/-- The settings in a layer, if there is a file. -/
def read? (l : Layer) : Option (Outcome Settings) :=
  match l.content with
  | .absent => none
  | .directory => some (.error (.isDirectory l.path.text))
  | .data bytes => some (Settings.ofData bytes)

end Layer

namespace LoadedSettings

/-- Lays one layer over what is loaded. -/
def add (loaded : LoadedSettings) (l : Layer) : LoadedSettings :=
  match l.read? with
  | none => loaded
  | some (.ok s) =>
    { loaded with settings := loaded.settings.merge s, sources := loaded.sources ++ [l.path] }
  | some (.error fault) => { loaded with rejected := loaded.rejected ++ [(l.path, fault)] }

end LoadedSettings

namespace Settings

/-- The name of a settings file. -/
def fileName : String := "tsxguard.json"

/-- The name of the local settings file of a project. -/
def localFileName : String := "tsxguard.local.json"

/-- Loads layers over the default settings. -/
def load (layers : List Layer) : LoadedSettings :=
  layers.foldl LoadedSettings.add ⟨default, [], []⟩

/-- Loads a file that was named explicitly. -/
def loadExplicit (data : ByteArray) : Outcome Settings :=
  (ofData data).map default.merge

end Settings

end TsxLint
