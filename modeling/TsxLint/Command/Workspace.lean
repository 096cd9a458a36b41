/-
Module: TsxLint.Command.Workspace
Purpose: The files that a command works on.
Main exports: Workspace, Workspace.kindOf, Workspace.read?, Workspace.write, Workspace.walk
-/
import TsxLint.Settings.Layers

namespace TsxLint

/-!
A workspace is the working directory of a command with all files in it, and
nothing outside of it but the user's settings.

Directories are not listed; there is one wherever a file lies below, so a
directory without files counts as missing.  A path is followed part by part, as
far as it stays inside the working directory.  One that leads outside, if only for
a while, counts as missing, and so does an absolute one whose text does not begin
with that of the working directory, such as the same path with a second slash in
front.  Sources and settings files that are missing in this sense are refused.

A log file has to be in the working directory too, and is made if it is not there.
What is logged is no part of a file's data: no run adds its records to a file of
the workspace, also where the log file is a source or a settings file as well.
-/

/-- What is at a path. -/
inductive EntryKind where
  | file
  | directory
deriving DecidableEq, Repr

/-- A working directory, and the user's settings outside of it. -/
structure Workspace where
  /-- The absolute path of the working directory. -/
  path : FilePath
  /-- The files by their parts below the working directory. -/
  files : List (List String × ByteArray)
  userSettings : Layer

namespace Workspace

/-- The data of a file. -/
def read? (w : Workspace) (parts : List String) : Option ByteArray :=
  (w.files.find? fun entry => entry.1 == parts).map (·.2)

/-- Whether there is a directory: the working directory itself, or one that a file
lies below. -/
def isDirectory (w : Workspace) (parts : List String) : Bool :=
  parts.isEmpty || w.files.any fun entry =>
    parts.isPrefixOf entry.1 && decide (parts.length < entry.1.length)

/-- Writes a file. -/
def write (w : Workspace) (parts : List String) (data : ByteArray) : Workspace :=
  if (w.read? parts).isSome then
    { w with files := w.files.map fun entry => if entry.1 == parts then (parts, data) else entry }
  else { w with files := w.files ++ [(parts, data)] }

/-! ### Following paths -/

/-- Goes from a directory to one of its parts. -/
def descend (w : Workspace) (place : Option (List String)) (part : String) :
    Option (List String) :=
  match place with
  | none => none
  | some parts =>
    if !w.isDirectory parts then none
    else if part = "" ∨ part = "." then some parts
    else if part = ".." then (if parts.isEmpty then none else some parts.dropLast)
    else some (parts ++ [part])

/-- The parts of a path's text below the working directory.  The text of an absolute
path has to begin with that of the working directory. -/
def relativePieces (w : Workspace) (path : String) : Option (List String) :=
  let pieces := (Text.splitAt '/' path.toList).map String.ofList
  if path = "" then none
  else if path.toList.head? = some '/' then
    if (w.path.parts).isPrefixOf (pieces.drop 1) then
      some ((pieces.drop 1).drop w.path.parts.length)
    else none
  else some pieces

/-- Where a path leads, whether or not there is something; none if it leaves the
working directory on its way or goes on behind what is no directory. -/
def follow (w : Workspace) (path : String) : Option (List String) :=
  match w.relativePieces path with
  | none => none
  | some pieces => pieces.foldl w.descend (some [])

/-- What is at a path. -/
def kindOf (w : Workspace) (path : String) : Option EntryKind :=
  match w.follow path with
  | none => none
  | some parts =>
    if (w.read? parts).isSome then some .file
    else if w.isDirectory parts then some .directory
    else none

/-- The data of the file at a path. -/
def readAt (w : Workspace) (path : String) : Option ByteArray := (w.follow path).bind w.read?

/-- The files below a directory, by their parts below it. -/
def walk (w : Workspace) (parts : List String) : List (List String) :=
  ((w.files.filter fun entry =>
      parts.isPrefixOf entry.1 && decide (parts.length < entry.1.length)).map fun entry =>
    entry.1.drop parts.length).mergeSort fun a b => !decide (b < a)

/-! ### Settings -/

/-- What there is at a settings file's path. -/
def contentAt (w : Workspace) (parts : List String) : LayerContent :=
  match w.read? parts with
  | some data => .data data
  | none => if w.isDirectory parts then .directory else .absent

/-- The places where settings may be, the user's first and the local ones last. -/
def layers (w : Workspace) : List Layer :=
  [w.userSettings,
    ⟨w.path.join [Settings.fileName], w.contentAt [Settings.fileName]⟩,
    ⟨w.path.join [Settings.localFileName], w.contentAt [Settings.localFileName]⟩]

/-! ### Log files -/

/-- The parts of a path behind the root, without steps upwards.  The text alone tells
what they undo, and nothing is above the root. -/
def partsFromRoot (base path : FilePath) : List String :=
  let parts := if path.root = "" then base.parts ++ path.parts else path.parts
  parts.foldl (fun done part => if part = ".." then done.dropLast else done ++ [part]) []

/-- Where a log file is below the working directory; none if it is outside. -/
def logPlace (base path : FilePath) : Option (List String) :=
  let parts := partsFromRoot base path
  if base.parts.isPrefixOf parts then some (parts.drop base.parts.length) else none

/-- Makes sure that there is a log file in the working directory, an empty one if there
was none.  Its data stay as they are: no records are written to it. -/
def openLog (w : Workspace) (path : String) : Outcome Workspace :=
  match logPlace w.path (FilePath.parse path) with
  | none => .error (.handlerUnavailable "file")
  | some parts =>
    if (w.read? parts).isSome then .ok w
    else if w.isDirectory parts || !w.isDirectory parts.dropLast then
      .error (.handlerUnavailable "file")
    else .ok (w.write parts ByteArray.empty)

end Workspace

end TsxLint
